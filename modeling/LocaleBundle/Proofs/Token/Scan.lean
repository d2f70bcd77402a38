import LocaleBundle.Proofs.Token.Cut

/-!
# Where the tokens of a text are

The tokens that are found stand in the text one after the other, each with its mark and the text of
its call. Every call mark lies in one of them, up to the first mark behind which there is no call.
-/

namespace LocaleBundle.Token

/-- Whether a call mark starts at an offset. -/
def MarkAt (cs : List Char) (offset : ℕ) : Prop := callMark.toList <+: cs.drop offset

/-- Whether a token stands in a text: a call mark where it starts, and behind the mark the text of
its call, up to where it stops. -/
def CallAt (cs : List Char) (token : CallToken) : Prop :=
  ∃ body rest, CallText token.key token.args body ∧
    cs.drop token.start = callMark.toList ++ (body ++ rest) ∧
    token.stop = token.start + (callMark.length + body.length)

/-- Whether an offset lies within one of the tokens. -/
def Covered (tokens : List CallToken) (offset : ℕ) : Prop :=
  ∃ token ∈ tokens, token.start ≤ offset ∧ offset < token.stop

/-- What is found in a text from an offset on: tokens that stand there, one after the other, so that
every mark before the one at which the search ends lies within a token. -/
structure Found (cs : List Char) (offset : ℕ) (tokens : List CallToken) (bad : Option (ℕ × String)) :
    Prop where
  stand : ∀ token ∈ tokens, offset ≤ token.start ∧ CallAt cs token
  ordered : tokens.Pairwise fun a b => a.stop ≤ b.start
  covers : ∀ o, offset ≤ o → MarkAt cs o → Covered tokens o ∨ ∃ b ∈ bad, b.1 ≤ o
  ends : ∀ b ∈ bad, offset ≤ b.1 ∧ (∀ token ∈ tokens, token.stop ≤ b.1) ∧ MarkAt cs b.1 ∧
    readCall (cs.drop (b.1 + callMark.length)) = .error b.2

/-- The tokens among the pieces of a text. -/
def calls (pieces : List Segment) : List CallToken :=
  pieces.filterMap fun
    | .call token => some token
    | .text _ => none

variable {cs before after : List Char} {offset : ℕ}

lemma drop_of_drop {u v : List Char} (h : cs.drop offset = u ++ v) :
    cs.drop (offset + u.length) = v := by
  rw [← List.drop_drop, h, List.drop_left]

/-- No mark starts in a text before one, if that text has none. -/
lemma not_markAt_of_lt (hbefore : ¬ callMark.toList <:+: before)
    (hcs : cs.drop offset = before ++ (callMark.toList ++ after)) {o : ℕ} (ho : offset ≤ o)
    (hlt : o < offset + before.length) : ¬ MarkAt cs o := by
  intro hmark
  obtain ⟨k, rfl⟩ := Nat.exists_eq_add_of_le ho
  have hne : before.drop k ≠ [] := by
    rw [Ne, List.drop_eq_nil_iff]
    omega
  have hdrop : cs.drop (offset + k) = before.drop k ++ (callMark.toList ++ after) := by
    rw [← List.drop_drop, hcs, List.drop_append_of_le_length (by omega)]
  unfold MarkAt at hmark
  rw [hdrop, callMark_eq] at hmark
  have hmarked := (Text.prefix_of_prefix_append (by decide) hne hmark).isInfix
  rw [← callMark_eq] at hmarked
  exact hbefore (hmarked.trans (List.drop_suffix k before).isInfix)

lemma CallAt.start_lt_stop {token : CallToken} (h : CallAt cs token) : token.start < token.stop := by
  obtain ⟨body, rest, -, -, hstop⟩ := h
  have hmark : 0 < callMark.length := by decide
  omega

/-- A token is found before what is found behind it, if it has the first mark. -/
lemma Found.cons {token : CallToken} {tokens : List CallToken} {bad : Option (ℕ × String)}
    (hfound : Found cs token.stop tokens bad) (hcall : CallAt cs token)
    (hstart : offset ≤ token.start) (hfirst : ∀ o, offset ≤ o → o < token.start → ¬ MarkAt cs o) :
    Found cs offset (token :: tokens) bad := by
  have hspan := hcall.start_lt_stop
  refine ⟨?_, ?_, fun o ho hat => ?_, fun b hb => ?_⟩
  · refine List.forall_mem_cons.mpr ⟨⟨hstart, hcall⟩, fun other hother => ?_⟩
    obtain ⟨hle, hat⟩ := hfound.stand other hother
    exact ⟨by omega, hat⟩
  · exact List.pairwise_cons.mpr ⟨fun other hother => (hfound.stand other hother).1, hfound.ordered⟩
  · by_cases hstop : o < token.stop
    · left
      refine ⟨token, List.mem_cons_self, ?_, hstop⟩
      by_contra hlt
      exact hfirst o ho (by omega) hat
    · obtain ⟨other, hother, hwithin⟩ | hbad := hfound.covers o (by omega) hat
      · exact Or.inl ⟨other, List.mem_cons_of_mem token hother, hwithin⟩
      · exact Or.inr hbad
  · obtain ⟨hle, hstops, hat⟩ := hfound.ends b hb
    exact ⟨by omega, List.forall_mem_cons.mpr ⟨hle, hstops⟩, hat⟩

/-- What a text is cut into is found in it. -/
lemma found_of_cut {pieces : List Segment} {bad : Option (ℕ × String)} {cut : List Char}
    (h : Cut offset cut pieces bad) (hcs : cs.drop offset = cut) :
    Found cs offset (calls pieces) bad := by
  induction h with
  | @text offset cut hmark =>
    refine ⟨by simp [calls], List.Pairwise.nil, fun o ho hat => ?_, by simp⟩
    obtain ⟨k, rfl⟩ := Nat.exists_eq_add_of_le ho
    unfold MarkAt at hat
    rw [← List.drop_drop, hcs] at hat
    exact absurd (hat.isInfix.trans (List.drop_suffix k cut).isInfix) hmark
  | @malformed offset before after reason hbefore hread =>
    have hmark := drop_of_drop hcs
    have hafter := drop_of_drop hmark
    refine ⟨by simp [calls], List.Pairwise.nil, fun o ho hat => Or.inr ⟨_, rfl, ?_⟩, ?_⟩
    · by_contra hlt
      exact not_markAt_of_lt hbefore hcs ho (by omega) hat
    · rintro b hb
      obtain rfl := Option.some.inj hb
      refine ⟨by omega, by simp [calls], ?_, ?_⟩
      · unfold MarkAt
        rw [hmark]
        exact List.prefix_append _ _
      · rw [String.length_toList] at hafter
        rw [hafter, hread]
  | @call offset stop before body rest key args pieces bad hbefore hread hstop hrest ih =>
    have hmark := drop_of_drop hcs
    have hafter := drop_of_drop (drop_of_drop hmark)
    rw [String.length_toList, Nat.add_assoc, ← hstop] at hafter
    obtain ⟨t, htext, ht⟩ := exists_of_readCall hread
    obtain rfl : body = t := List.append_cancel_right ht
    have hcall : CallAt cs ⟨key, args, offset + before.length, stop⟩ :=
      ⟨body, rest, htext, hmark, hstop⟩
    exact (ih hafter).cons hcall (Nat.le_add_right _ _) fun o ho hlt =>
      not_markAt_of_lt hbefore hcs ho hlt

/-- The grammar of calls, and where they are found. A call is read exactly if the text behind a mark
begins with the text of one, and no text begins with two. The tokens that a scan of some code yields
stand in the code, one after the other. If it yields nothing else, every call mark lies within one of
them. Else the only failure is that of a mark behind which there is no call: all tokens end before it,
and it is the first mark that lies within none. The code is a text without escapes of lone surrogates,
and its literals keep to the limits of a decoder that `Json.readDocument` leaves out. -/
theorem scan_spec (code fileName : String) :
    (∀ s key args rest, readCall s = .ok (key, args, rest) ↔
      ∃ t, CallText key args t ∧ s = t ++ rest) ∧
    (∀ s key args t key' args' t', CallText key args t → CallText key' args' t' → t <+: s →
      t' <+: s → key = key' ∧ args = args' ∧ t = t') ∧
    ∃ tokens fault, scan code fileName = (tokens, fault) ∧
      (∀ token ∈ tokens, CallAt code.toList token) ∧
      tokens.Pairwise (fun a b => a.stop ≤ b.start) ∧
      (fault = none → ∀ o, MarkAt code.toList o → Covered tokens o) ∧
      ∀ f, fault = some f → ∃ offset reason, f = .badPlaceholder fileName offset reason ∧
        MarkAt code.toList offset ∧ (∀ token ∈ tokens, token.stop ≤ offset) ∧
        (∀ o < offset, MarkAt code.toList o → Covered tokens o) ∧
        ∀ key args t, CallText key args t →
          ¬ t <+: code.toList.drop (offset + callMark.length) := by
  refine ⟨fun s key args rest => readCall_eq_ok_iff,
    fun s key args t key' args' t' h h' => h.unique h', ?_⟩
  obtain ⟨pieces, bad, hcut⟩ := exists_cut 0 code.toList
  have hfound := found_of_cut hcut List.drop_zero
  have hscan : scan code fileName = (calls pieces, bad.map (faultAt fileName)) := by
    unfold scan
    rw [segments_of_cut hcut fileName]
    rfl
  refine ⟨_, _, hscan, fun token htoken => (hfound.stand token htoken).2, hfound.ordered, ?_, ?_⟩
  · intro hnone o hat
    obtain rfl := Option.map_eq_none_iff.mp hnone
    obtain hcovered | ⟨b, hb, -⟩ := hfound.covers o (Nat.zero_le o) hat
    · exact hcovered
    · exact absurd hb (by simp)
  · intro f hf
    obtain ⟨⟨offset, reason⟩, rfl, rfl⟩ := Option.map_eq_some_iff.mp hf
    obtain ⟨-, hstops, hat, hread⟩ := hfound.ends _ rfl
    refine ⟨offset, reason, rfl, hat, hstops, fun o ho hmark => ?_, ?_⟩
    · obtain hcovered | ⟨b, hb, hle⟩ := hfound.covers o (Nat.zero_le o) hmark
      · exact hcovered
      · obtain rfl := Option.some.inj hb
        exact absurd hle (Nat.not_le_of_lt ho)
    · rintro key args t ht ⟨rest, hrest⟩
      rw [← hrest, readCall_append ht rest] at hread
      exact absurd hread (by simp)

/-- A call, and behind it a mark without one. -/
def trailing : String := "__$T$__(\"a\", 1)+__$T$__(b"

theorem scan_spec_trailing : ∃ tokens,
    scan trailing "main.js" = (tokens, some (.badPlaceholder "main.js" 16
      "key is not a JSON string (Expecting value)")) ∧ Covered tokens 0 := by
  have hfault : (scan trailing "main.js").2 = some (.badPlaceholder "main.js" 16
      "key is not a JSON string (Expecting value)") := by decide +kernel
  obtain ⟨-, -, tokens, fault, hscan, -, -, -, hends⟩ := scan_spec trailing "main.js"
  rw [hscan] at hfault
  obtain ⟨offset, reason, hbad, -, -, hcovers, -⟩ := hends _ hfault
  have hsame : (16, "key is not a JSON string (Expecting value)") = (offset, reason) :=
    faultAt_injective "main.js" hbad
  obtain ⟨rfl, rfl⟩ := Prod.mk.inj hsame
  have hmark : MarkAt trailing.toList 0 := by
    unfold MarkAt
    decide
  exact ⟨tokens, hscan.trans (congrArg (tokens, ·) hfault), hcovers 0 (by decide) hmark⟩

end LocaleBundle.Token
