import LocaleBundle.Proofs.Text.Search
import LocaleBundle.Proofs.Token.Grammar

/-!
# How a text is cut at its tokens

`Cut` says what the pieces of a text are: the text before the first call mark, the call that is read
behind the mark, and then the pieces of the rest; where there is no mark the text is one piece. It
ends early at a mark behind which no call can be read. Every text is cut in one way, and `segments`
finds it: each call takes something off the text, so the fuel lasts.
-/

namespace LocaleBundle.Token

/-- `Cut offset cs pieces bad`: the text `cs`, which starts at `offset` of some code, is cut into
`pieces`. The first call mark behind which no call can be read ends the text; `bad` is its offset and
the reason, if there is one. -/
inductive Cut : ℕ → List Char → List Segment → Option (ℕ × String) → Prop
  | text {offset : ℕ} {cs : List Char} (hmark : ¬ callMark.toList <:+: cs) :
    Cut offset cs [.text cs] none
  | malformed {offset : ℕ} {before after : List Char} {reason : String}
    (hbefore : ¬ callMark.toList <:+: before) (hread : readCall after = .error reason) :
    Cut offset (before ++ (callMark.toList ++ after)) [.text before]
      (some (offset + before.length, reason))
  | call {offset stop : ℕ} {before body rest : List Char} {key : String} {args : List Value}
    {pieces : List Segment} {bad : Option (ℕ × String)} (hbefore : ¬ callMark.toList <:+: before)
    (hread : readCall (body ++ rest) = .ok (key, args, rest))
    (hstop : stop = offset + before.length + (callMark.length + body.length))
    (hrest : Cut stop rest pieces bad) :
    Cut offset (before ++ (callMark.toList ++ (body ++ rest)))
      (.text before :: .call ⟨key, args, offset + before.length, stop⟩ :: pieces) bad

/-- The last character of the call mark stands nowhere else in it. -/
lemma callMark_eq : callMark.toList = "__$T$__".toList ++ ['('] := rfl

/-- The first mark is found where the text before it ends. -/
lemma splitAtFirst_callMark {t : List Char} (ht : ¬ callMark.toList <:+: t) (s : List Char) :
    Text.splitAtFirst callMark.toList (t ++ (callMark.toList ++ s))
      = some (t, callMark.toList ++ s) := by
  rw [callMark_eq] at ht ⊢
  exact Text.splitAtFirst_append (by decide) ht s

/-- Every text is cut. -/
lemma exists_cut (offset : ℕ) (cs : List Char) : ∃ pieces bad, Cut offset cs pieces bad := by
  -- what follows a call is shorter than the text
  induction hlength : cs.length using Nat.strongRecOn generalizing offset cs with
  | ind n ih =>
    cases hsplit : Text.splitAtFirst callMark.toList cs with
    | none => exact ⟨_, _, .text (Text.not_infix_of_splitAtFirst_eq_none hsplit)⟩
    | some split =>
      obtain ⟨before, fromMark⟩ := split
      obtain rfl := Text.append_of_splitAtFirst hsplit
      obtain ⟨hbefore, after, rfl⟩ :=
        Text.exists_of_splitAtFirst_eq_some (by decide : callMark.toList ≠ []) hsplit
      cases hread : readCall after with
      | error reason => exact ⟨_, _, .malformed hbefore hread⟩
      | ok reading =>
        obtain ⟨key, args, rest⟩ := reading
        obtain ⟨body, -, rfl⟩ := exists_of_readCall hread
        have hshorter : rest.length < n := by
          have hmark : 0 < callMark.toList.length := by decide
          simp only [List.length_append] at hlength
          omega
        obtain ⟨pieces, bad, hrest⟩ := ih rest.length hshorter
          (offset + before.length + (callMark.length + body.length)) rest rfl
        exact ⟨_, _, .call hbefore hread rfl hrest⟩

/-- The fault of a token that cannot be read. -/
def faultAt (fileName : String) (bad : ℕ × String) : Fault :=
  .badPlaceholder fileName bad.1 bad.2

/-- A text is searched as it is cut, if there is more fuel than text. -/
lemma segmentsFrom_of_cut {fileName : String} {offset fuel : ℕ} {cs : List Char}
    {pieces : List Segment} {bad : Option (ℕ × String)} (h : Cut offset cs pieces bad)
    (hfuel : cs.length < fuel) :
    segmentsFrom fileName fuel offset cs = (pieces, bad.map (faultAt fileName)) := by
  have hdrop : ∀ s : List Char, (callMark.toList ++ s).drop callMark.length = s := by
    intro s
    exact List.drop_left
  induction h generalizing fuel with
  | text hmark =>
    obtain ⟨fuel, rfl⟩ : ∃ n, fuel = n + 1 := ⟨fuel - 1, by omega⟩
    unfold segmentsFrom
    rw [Text.splitAtFirst_eq_none hmark]
    rfl
  | malformed hbefore hread =>
    obtain ⟨fuel, rfl⟩ : ∃ n, fuel = n + 1 := ⟨fuel - 1, by omega⟩
    unfold segmentsFrom
    rw [splitAtFirst_callMark hbefore]
    simp only [hdrop, hread]
    rfl
  | @call offset stop before body rest key args pieces bad hbefore hread hstop hrest ih =>
    obtain ⟨fuel, rfl⟩ : ∃ n, fuel = n + 1 := ⟨fuel - 1, by omega⟩
    have hmark : callMark.toList.length = callMark.length := String.length_toList
    have hpos : 0 < callMark.length := by decide
    have hlength : (callMark.toList ++ (body ++ rest)).length - rest.length =
        callMark.length + body.length := by
      simp only [List.length_append, hmark]
      omega
    have hshorter : rest.length < fuel := by
      simp only [List.length_append, hmark] at hfuel
      omega
    unfold segmentsFrom
    rw [splitAtFirst_callMark hbefore]
    simp only [hdrop, hread, hlength, ← hstop, ih hshorter]

/-- The pieces that are found are the ones into which the text is cut. -/
theorem segments_of_cut {code : String} {pieces : List Segment} {bad : Option (ℕ × String)}
    (h : Cut 0 code.toList pieces bad) (fileName : String) :
    segments code fileName = (pieces, bad.map (faultAt fileName)) := by
  apply segmentsFrom_of_cut h
  rw [String.length_toList]
  omega

/-- Whether the first call token of a text that cannot be read starts at an offset; the reason says
why it cannot. -/
def Malformed (code : String) (offset : ℕ) (reason : String) : Prop :=
  ∃ pieces, Cut 0 code.toList pieces (some (offset, reason))

/-- A fault tells where the token starts and why it cannot be read. -/
lemma faultAt_injective (fileName : String) : Function.Injective (faultAt fileName) := by
  rintro ⟨offset, reason⟩ ⟨offset', reason'⟩ h
  obtain ⟨hkind, hreport⟩ := Fault.mk.inj h
  obtain rfl : offset = offset' := Int.ofNat.inj (Fault.Kind.badPlaceholder.inj hkind).2
  have hmessage := congrArg Diagnostic.message (Fault.Report.diagnostic.inj hreport)
  obtain rfl : reason = reason' := (String.append_right_inj _).mp hmessage
  rfl

/-- A text has at most one first token that cannot be read. -/
lemma bad_unique {code : String} {pieces pieces' : List Segment} {bad bad' : Option (ℕ × String)}
    (h : Cut 0 code.toList pieces bad) (h' : Cut 0 code.toList pieces' bad') : bad = bad' := by
  have hfaults := (segments_of_cut h "").symm.trans (segments_of_cut h' "")
  exact Option.map_injective (faultAt_injective "") (Prod.mk.inj hfaults).2

end LocaleBundle.Token
