import LocaleBundle.Proofs.Bundle.Inlining
import LocaleBundle.Proofs.Bundle.Warned
import LocaleBundle.Proofs.Locale.Complete
import LocaleBundle.Proofs.Token.Replacing

/-!
# No placeholder outlives the translation of code

The literals of a complete store are JSON texts and JSON objects. They begin and end with a quote or
a brace, which no placeholder has, so whatever placeholder stands in translated code stands in the
literal for one call.
-/

namespace LocaleBundle.Bundle.Plan

open LocaleBundle.Locale

variable {plan : Plan} {store : Store} {locale : String}

/-! ## Literals are closed -/

lemma toList_of_literal {v : Value} {text : String} (h : literal v = .ok text) :
    text.toList = Json.write .compact 0 v := by
  unfold literal Json.encode at h
  cases hunwritable : Json.unwritable? v with
  | some typeName =>
    rw [hunwritable] at h
    exact absurd h (by simp)
  | none =>
    rw [hunwritable] at h
    rw [← Except.ok.inj h, String.toList_ofList]

/-- A text is written between quotes, and a table between braces. -/
lemma isClosed_write {v : Value} (hv : Record.IsTranslation v) :
    Token.IsClosed (Json.write .compact 0 v) := by
  have hbraces : ∀ p ∈ Token.placeholders, '\x7b' ∉ p ∧ '\x7d' ∉ p := by decide
  cases hv with
  | text s =>
    refine ⟨'"', s.toList.flatMap Json.escape, '"', ?_, by decide⟩
    rw [Json.write, Json.writeText, List.cons_append]
  | @table cases _ =>
    cases cases with
    | nil => exact ⟨'\x7b', [], '\x7d', by rw [Json.write]; rfl, hbraces⟩
    | cons e entries =>
      let layout := Json.Layout.compact
      refine ⟨'\x7b', layout.lineBreak 1 ++ Json.writeText e.1 ++ ':' :: ' ' ::
        Json.write layout 1 e.2 ++ Json.writeEntries layout 1 entries ++ layout.lineBreak 0,
        '\x7d', ?_, hbraces⟩
      rw [Json.write]
      simp only [List.cons_append]
      rfl

section

variable [Plural.Cldr]

/-- Whether a text is the literal for a call in a locale, whatever was warned of before. -/
def IsLiteral (plan : Plan) (store : Store) (locale : String) (token : CallToken) (text : String) :
    Prop := Job.Ends (.ok text) (plan.literalFor store locale token.key token.args)

lemma isClosed_of_isLiteral (hstore : store.IsComplete) {token : CallToken} {text : String}
    (h : plan.IsLiteral store locale token text) : Token.IsClosed text.toList := by
  have hresult := h []
  unfold literalFor at hresult
  obtain ⟨translation, hfound, hliteral⟩ := Job.exists_of_bind_result hresult
  obtain ⟨resolved, hlookup, rfl⟩ := exists_of_found hfound
  split at hliteral
  · have htranslation : Record.IsTranslation (orKey (foundValue resolved) token.key) :=
      orKey_of_lookup .text hstore.areTranslations hlookup
    rw [toList_of_literal hliteral]
    exact isClosed_write htranslation
  · obtain ⟨settled, -, htext⟩ := Job.exists_of_bind_result hliteral
    have hwritten : literal (.text settled) = .ok text := htext
    rw [toList_of_literal hwritten]
    exact isClosed_write (.text settled)

/-! ## Translated code -/

/-- Code that is translated is made from the literals for its calls. -/
lemma exists_isReplacement {code fileName out : String} {warned : Warned}
    (h : (plan.localize store code locale fileName warned).result = .ok out) :
    ∃ rendered, Token.IsReplacement locale (plan.IsLiteral store locale) code rendered out := by
  have hrender : ∀ token, Job.Gives (fun _ => True) (plan.IsLiteral store locale token)
      (plan.literalFor store locale token.key token.args) := by
    intro token
    exact (plan.agree_literalFor store locale token.key token.args).gives.imp
      (fun _ _ => trivial) fun _ hends => hends
  exact (Token.gives_replace code locale fileName hrender (fun _ _ _ => trivial) warned).2 out h

/-- Code that was translated for a configured locale after a load. It is made of the text between
the call tokens, with the locale in place of the sentinels, and of one literal for each call. Every
placeholder in it lies within one of these literals. If no literal has a placeholder then the code
has none, and translating it again, for whatever locale, leaves it as it is. -/
theorem placeholders_within_calls (w : Workspace) (plan : Plan) (locale code fileName : String)
    (warned : Warned) {report : LoadReport} {out : String}
    (hload : (Workspace.load w).result = .ok report)
    (hlocale : locale ∈ w.store.locales.codes)
    (h : (plan.localize (Workspace.load w).state.store code locale fileName warned).result
      = .ok out) :
    ∃ rendered, Token.IsReplacement locale (plan.IsLiteral (Workspace.load w).state.store locale)
        code rendered out ∧
      (∀ p ∈ Token.placeholders, ∀ before after, out.toList = before ++ (p ++ after) →
        Token.WithinCall rendered before p after) ∧
      ((∀ token literal, (.call token, literal) ∈ rendered →
          ∀ p ∈ Token.placeholders, ¬ p <:+: literal) →
        (∀ p ∈ Token.placeholders, ¬ p <:+: out.toList) ∧ ∀ other name,
          plan.localize (Workspace.load w).state.store out other name = Job.ok out) := by
  obtain ⟨hcomplete, -⟩ := Workspace.isComplete_load hload
  have hvalid : Code.isValid locale = true := w.store.locales.valid locale hlocale
  have hclosed : ∀ token text, plan.IsLiteral (Workspace.load w).state.store locale token text →
      Token.IsClosed text.toList := fun _ _ => isClosed_of_isLiteral hcomplete
  obtain ⟨rendered, hmade⟩ := exists_isReplacement h
  refine ⟨rendered, hmade, ?_, ?_⟩
  · intro p hp before after hout
    exact Token.withinCall_of_cut hp hvalid hclosed hmade.cut hmade.stands (hmade.text ▸ hout)
  · intro hclean
    have hnone : ∀ p ∈ Token.placeholders, ¬ p <:+: out.toList := by
      intro p hp
      exact Token.not_infix_of_isReplacement hp hvalid hclosed hmade fun token literal hliteral =>
        hclean token literal hliteral p hp
    exact ⟨hnone, fun other name => Token.replace_of_not_infix hnone other _ name⟩

end

theorem placeholders_within_calls_unfiled : ∃ rendered,
    Token.IsReplacement "en" (IsLiteral ⟨[], none⟩ (Workspace.load unfiled).state.store "en")
      "\"__$LOCALE$__\",__$T$__(\"__$LOCALE$__\")" rendered "\"en\",\"__$LOCALE$__\"" ∧
    Token.WithinCall rendered "\"en\",\"".toList localeSentinel.toList ['"'] := by
  obtain ⟨report, hload⟩ : ∃ report, (Workspace.load unfiled).result = .ok report := ⟨_, rfl⟩
  have hresult : (Plan.localize ⟨[], none⟩ (Workspace.load unfiled).state.store
      "\"__$LOCALE$__\",__$T$__(\"__$LOCALE$__\")" "en" "app.js" []).result.toOption =
        some "\"en\",\"__$LOCALE$__\"" := by decide +kernel
  obtain ⟨rendered, hmade, hwithin, -⟩ := placeholders_within_calls unfiled ⟨[], none⟩ "en"
    "\"__$LOCALE$__\",__$T$__(\"__$LOCALE$__\")" "app.js" [] hload List.mem_cons_self
    (Job.ok_of_toOption hresult)
  refine ⟨rendered, hmade, ?_⟩
  exact hwithin localeSentinel.toList (by decide) _ _ rfl

end LocaleBundle.Bundle.Plan
