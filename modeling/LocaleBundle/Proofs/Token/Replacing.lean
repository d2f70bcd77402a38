import LocaleBundle.Locale.Code
import LocaleBundle.Proofs.Locale.Files
import LocaleBundle.Proofs.Logged
import LocaleBundle.Proofs.Token.Cut

/-!
# What replacing the placeholders of a text leaves

Replacing puts something in for every piece into which a text is cut: the text with its sentinels
replaced, or what a call was rendered as. No placeholder is left outside what calls were rendered
as, and none is made where two pieces meet. A locale code does not fit into a placeholder, and a
literal begins and ends with characters that no placeholder has.
-/

namespace LocaleBundle.Token

open LocaleBundle.Locale

/-! ## Pieces and what is put in for them -/

/-- What may stand for a piece of a text in its copy for a locale. -/
inductive Stands (locale : String) (IsLiteral : CallToken → String → Prop) :
    Segment → List Char → Prop
  | text (cs : List Char) : Stands locale IsLiteral (.text cs) (replaceSentinel locale cs)
  | call {token : CallToken} {literal : String} (h : IsLiteral token literal) :
    Stands locale IsLiteral (.call token) literal.toList

/-- Whether a text is made from code by putting something in for each of its pieces, which are
listed with what is put in for them. -/
structure IsReplacement (locale : String) (IsLiteral : CallToken → String → Prop) (code : String)
    (rendered : List (Segment × List Char)) (out : String) : Prop where
  cut : Cut 0 code.toList (rendered.map Prod.fst) none
  stands : ∀ r ∈ rendered, Stands locale IsLiteral r.1 r.2
  text : out.toList = rendered.flatMap Prod.snd

variable {σ : Type} {E : Error → Prop} {IsLiteral : CallToken → String → Prop}
  {render : CallToken → Job σ String} {locale : String}

lemma stands_text_iff {cs out : List Char} :
    Stands locale IsLiteral (.text cs) out ↔ out = replaceSentinel locale cs := by
  constructor
  · intro h
    cases h with
    | text => rfl
  · rintro rfl
    exact .text cs

lemma stands_call_iff {token : CallToken} {out : List Char} :
    Stands locale IsLiteral (.call token) out ↔
      ∃ literal, IsLiteral token literal ∧ out = literal.toList := by
  constructor
  · intro h
    cases h with
    | @call _ literal hliteral => exact ⟨literal, hliteral, rfl⟩
  · rintro ⟨literal, hliteral, rfl⟩
    exact .call hliteral

lemma gives_renderSegments (locale : String)
    (hrender : ∀ token, Job.Gives E (IsLiteral token) (render token)) (pieces : List Segment) :
    Job.Gives E (fun text => ∃ rendered : List (Segment × List Char),
      rendered.map Prod.fst = pieces ∧ (∀ r ∈ rendered, Stands locale IsLiteral r.1 r.2) ∧
        text = rendered.flatMap Prod.snd) (renderSegments locale render pieces) := by
  induction pieces with
  | nil => exact Job.gives_ok ⟨[], rfl, by simp, rfl⟩
  | cons piece pieces ih =>
    cases piece with
    | text cs =>
      refine ih.bind fun after hafter => Job.gives_ok ?_
      obtain ⟨rendered, rfl, hstands, rfl⟩ := hafter
      refine ⟨(.text cs, replaceSentinel locale cs) :: rendered, rfl, ?_, rfl⟩
      exact List.forall_mem_cons.mpr ⟨.text cs, hstands⟩
    | call token =>
      refine (hrender token).bind fun literal hliteral => ih.bind fun after hafter => Job.gives_ok ?_
      obtain ⟨rendered, rfl, hstands, rfl⟩ := hafter
      refine ⟨(.call token, literal.toList) :: rendered, rfl, ?_, rfl⟩
      exact List.forall_mem_cons.mpr ⟨.call hliteral, hstands⟩

/-- Replacing fails as rendering a call does, or for a token that cannot be read. -/
lemma gives_replace (code locale fileName : String)
    (hrender : ∀ token, Job.Gives E (IsLiteral token) (render token))
    (hfault : ∀ offset reason, Malformed code offset reason →
      E (.fault (.badPlaceholder fileName offset reason))) :
    Job.Gives E (fun out => ∃ rendered, IsReplacement locale IsLiteral code rendered out)
      (replace code locale render fileName) := by
  unfold replace
  obtain ⟨pieces, bad, hcut⟩ := exists_cut 0 code.toList
  rw [segments_of_cut hcut fileName]
  refine (gives_renderSegments locale hrender pieces).bind fun text htext => ?_
  cases bad with
  | none =>
    obtain ⟨rendered, rfl, hstands, rfl⟩ := htext
    exact Job.gives_ok ⟨rendered, hcut, hstands, String.toList_ofList⟩
  | some bad => exact Job.gives_fail (hfault bad.1 bad.2 ⟨pieces, hcut⟩)

/-! ## Placeholders -/

/-- What every call token starts with, and what stands for the locale. -/
def placeholders : List (List Char) := [callMark.toList, localeSentinel.toList]

variable {p : List Char}

lemma exists_of_mem_placeholders (hp : p ∈ placeholders) : ∃ rest, p = '_' :: '_' :: rest := by
  rcases List.mem_pair.mp hp with rfl | rfl
  · exact ⟨_, rfl⟩
  · exact ⟨_, rfl⟩

lemma notMem_of_isLower (hp : p ∈ placeholders) {c : Char} (hc : Code.isLower c = true) : c ∉ p := by
  have hnone : (placeholders.flatten.all fun d => !Code.isLower d) = true := by decide
  intro hmem
  have hlower := List.all_eq_true.mp hnone c (List.mem_flatten_of_mem hp hmem)
  rw [hc] at hlower
  exact absurd hlower (by decide)

/-- A locale code is no part of a placeholder, and no placeholder begins in it. -/
lemma infix_of_infix_code (hp : p ∈ placeholders) {code : String} (hcode : Code.isValid code = true)
    (u v : List Char) (h : p <:+: u ++ (code.toList ++ v)) : p <:+: u ∨ p <:+: v := by
  obtain ⟨a, b, region, hletters, ha, hb, hregion⟩ := Code.exists_of_isValid hcode
  obtain ⟨tail, rfl⟩ := exists_of_mem_placeholders hp
  rw [hletters, List.cons_append] at h
  -- the two lowercase letters are in no placeholder
  rcases Text.infix_beside (notMem_of_isLower hp ha) h with hu | h
  · exact Or.inl hu
  rcases Text.infix_beside (u := []) (notMem_of_isLower hp hb) h with hnil | h
  · exact absurd (List.infix_nil.mp hnil) (by simp)
  rcases hregion with rfl | ⟨separator, c, d, rfl, -, hc, hd⟩
  · exact Or.inr h
  -- a placeholder begins with two underscores, and the region ends with two letters
  have hletter : ∀ e, Code.isUpper e = true → '_' ≠ e := by
    rintro e he rfl
    exact absurd he (by decide)
  rcases List.infix_cons_iff.mp h with hpre | h
  · have hsecond := (List.cons_prefix_cons.mp hpre).2
    exact absurd (List.cons_prefix_cons.mp hsecond).1 (hletter c hc)
  rcases List.infix_cons_iff.mp h with hpre | h
  · exact absurd (List.cons_prefix_cons.mp hpre).1 (hletter c hc)
  rcases List.infix_cons_iff.mp h with hpre | h
  · exact absurd (List.cons_prefix_cons.mp hpre).1 (hletter d hd)
  exact Or.inr h

/-- Text between the tokens has no placeholder when its sentinels are replaced. -/
lemma not_infix_replaceSentinel (hp : p ∈ placeholders) (hlocale : Code.isValid locale = true)
    {cs : List Char} (hcs : ¬ callMark.toList <:+: cs) : ¬ p <:+: replaceSentinel locale cs := by
  have hreplaced := Text.replaced_replaceAll (by decide : localeSentinel.toList ≠ [])
    locale.toList cs
  apply hreplaced.not_infix (infix_of_infix_code hp hlocale)
  rcases List.mem_pair.mp hp with rfl | rfl
  · exact Or.inr hcs
  · exact Or.inl rfl

/-- Code without placeholders is left as it is. -/
lemma replace_of_not_infix {code : String} (h : ∀ q ∈ placeholders, ¬ q <:+: code.toList)
    (locale : String) (render : CallToken → Job σ String) (fileName : String) :
    replace code locale render fileName = Job.ok code := by
  have hcut : Cut 0 code.toList [.text code.toList] none :=
    .text (h callMark.toList List.mem_cons_self)
  have hsentinel : ¬ localeSentinel.toList <:+: code.toList :=
    h _ (List.mem_cons_of_mem _ List.mem_cons_self)
  unfold replace
  rw [segments_of_cut hcut fileName]
  simp only [renderSegments, replaceSentinel, Job.bind_eq, Job.pure_eq, Job.bind_of_ok, Option.map_none,
    Text.replaceAll_of_not_infix (by decide : localeSentinel.toList ≠ []) hsentinel,
    List.append_nil, String.ofList_toList]

/-! ## Where the placeholders of a copy are -/

/-- Whether a text begins and ends with characters that no placeholder has. -/
def IsClosed (cs : List Char) : Prop :=
  ∃ first inside last, cs = first :: (inside ++ [last]) ∧
    ∀ p ∈ placeholders, first ∉ p ∧ last ∉ p

/-- Whether an occurrence of `p`, between the texts `before` and `after`, lies in what one call was
rendered as. -/
def WithinCall (rendered : List (Segment × List Char)) (before p after : List Char) : Prop :=
  ∃ front back token start stop, rendered = front ++ (.call token, start ++ (p ++ stop)) :: back ∧
    before = front.flatMap Prod.snd ++ start ∧ after = stop ++ back.flatMap Prod.snd

lemma WithinCall.cons {rendered : List (Segment × List Char)} {before after : List Char}
    (h : WithinCall rendered before p after) (r : Segment × List Char) :
    WithinCall (r :: rendered) (r.2 ++ before) p after := by
  obtain ⟨front, back, token, start, stop, rfl, rfl, rfl⟩ := h
  refine ⟨r :: front, back, token, start, stop, rfl, ?_, rfl⟩
  rw [List.flatMap_cons, List.append_assoc]

/-- An occurrence beside a closed text lies in front of it, in it or behind it. -/
lemma occurrence_closed (hp : p ∈ placeholders) {u cs v before after : List Char}
    (hcs : IsClosed cs) (h : u ++ (cs ++ v) = before ++ (p ++ after)) :
    p <:+: u ∨
      (∃ start stop, cs = start ++ (p ++ stop) ∧ before = u ++ start ∧ after = stop ++ v) ∨
      ∃ between, before = u ++ (cs ++ between) ∧ v = between ++ (p ++ after) := by
  obtain ⟨first, inside, last, rfl, hends⟩ := hcs
  rw [List.cons_append, List.append_assoc] at h
  rcases Text.occurrence_beside (hends p hp).1 h with ⟨between, rfl, -⟩ | ⟨start, rfl, hbehind⟩
  · exact Or.inl (List.infix_append' before p between)
  rcases Text.occurrence_beside (hends p hp).2 hbehind with ⟨between, rfl, rfl⟩ |
    ⟨between, rfl, hv⟩
  · refine Or.inr (Or.inl ⟨first :: start, between ++ [last], ?_, rfl, ?_⟩)
    · simp only [List.cons_append, List.append_assoc]
    · rw [List.append_assoc]
      rfl
  · refine Or.inr (Or.inr ⟨between, ?_, hv⟩)
    simp only [List.cons_append, List.append_assoc, List.nil_append]

/-- A piece of text that is left alone has no placeholder. -/
lemma not_occurrence_text (hp : p ∈ placeholders) (hlocale : Code.isValid locale = true)
    {rendered : List (Segment × List Char)} {text before after : List Char}
    (hmark : ¬ callMark.toList <:+: text) (hpieces : rendered.map Prod.fst = [.text text])
    (hstands : ∀ r ∈ rendered, Stands locale IsLiteral r.1 r.2) :
    rendered.flatMap Prod.snd ≠ before ++ (p ++ after) := by
  obtain ⟨⟨piece, replaced⟩, rfl, rfl⟩ := List.map_eq_singleton_iff.mp hpieces
  have hreplaced : replaced = replaceSentinel locale text :=
    stands_text_iff.mp (hstands _ List.mem_cons_self)
  intro hout
  rw [List.flatMap_singleton] at hout
  have hsame : replaceSentinel locale text = before ++ (p ++ after) := hreplaced.symm.trans hout
  apply not_infix_replaceSentinel hp hlocale hmark
  rw [hsame]
  exact List.infix_append' before p after

/-- A placeholder in a replaced text lies in what one call was rendered as. -/
lemma withinCall_of_cut (hp : p ∈ placeholders) (hlocale : Code.isValid locale = true)
    (hclosed : ∀ token literal, IsLiteral token literal → IsClosed literal.toList)
    {rendered : List (Segment × List Char)} {offset : ℕ} {cs : List Char} {bad : Option (ℕ × String)}
    (hcut : Cut offset cs (rendered.map Prod.fst) bad)
    (hstands : ∀ r ∈ rendered, Stands locale IsLiteral r.1 r.2) {before after : List Char}
    (h : rendered.flatMap Prod.snd = before ++ (p ++ after)) :
    WithinCall rendered before p after := by
  -- induction on the cut: text up to a call, the call, and the pieces behind it
  generalize hpieces : rendered.map Prod.fst = pieces at hcut
  induction hcut generalizing rendered before with
  | text hmark => exact absurd h (not_occurrence_text hp hlocale hmark hpieces hstands)
  | malformed hbefore hread =>
    exact absurd h (not_occurrence_text hp hlocale hbefore hpieces hstands)
  | @call offset stop text body rest key args pieces bad hmark hread hstop hrest ih =>
    obtain ⟨⟨_, replaced⟩, more, rfl, rfl, hmore⟩ := List.map_eq_cons_iff.mp hpieces
    obtain ⟨⟨_, written⟩, tail, rfl, rfl, htail⟩ := List.map_eq_cons_iff.mp hmore
    obtain ⟨htext, hstands⟩ := List.forall_mem_cons.mp hstands
    obtain ⟨hcall, hstands⟩ := List.forall_mem_cons.mp hstands
    have hreplaced : replaced = replaceSentinel locale text := stands_text_iff.mp htext
    have hnot : ¬ p <:+: replaced := by
      rw [hreplaced]
      exact not_infix_replaceSentinel hp hlocale hmark
    have hends : IsClosed written := by
      obtain ⟨literal, hliteral, hwritten⟩ := stands_call_iff.mp hcall
      rw [show written = literal.toList from hwritten]
      exact hclosed _ _ hliteral
    -- the placeholder cannot reach over the ends of what the call was rendered as
    rw [List.flatMap_cons, List.flatMap_cons] at h
    rcases occurrence_closed hp hends h with hoccurs | ⟨lead, trail, rfl, rfl, rfl⟩ |
      ⟨between, rfl, hbehind⟩
    · exact absurd hoccurs hnot
    · exact ⟨[(.text text, replaced)], tail, _, lead, trail, rfl, by simp, rfl⟩
    · exact ((ih hstands hbehind htail).cons _).cons _

/-- Where no call is rendered as something with a placeholder, none is left. -/
lemma not_infix_of_isReplacement (hp : p ∈ placeholders) (hlocale : Code.isValid locale = true)
    (hclosed : ∀ token literal, IsLiteral token literal → IsClosed literal.toList)
    {rendered : List (Segment × List Char)} {code out : String}
    (h : IsReplacement locale IsLiteral code rendered out)
    (hclean : ∀ token cs, (.call token, cs) ∈ rendered → ¬ p <:+: cs) : ¬ p <:+: out.toList := by
  rintro ⟨before, after, hout⟩
  rw [List.append_assoc, h.text] at hout
  obtain ⟨front, back, token, start, stop, rfl, -, -⟩ :=
    withinCall_of_cut hp hlocale hclosed h.cut h.stands hout.symm
  apply hclean token (start ++ (p ++ stop)) (List.mem_append_right front List.mem_cons_self)
  rw [← List.append_assoc]
  exact List.infix_append start p stop

end LocaleBundle.Token
