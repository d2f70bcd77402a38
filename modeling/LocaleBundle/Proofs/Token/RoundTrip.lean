import LocaleBundle.Proofs.Json.RoundTrip
import LocaleBundle.Proofs.Logged
import LocaleBundle.Proofs.Token.Cut

/-!
# Tokens are found again

A text in which call tokens stand between other texts is cut at exactly those tokens: the call
mark cannot overlap itself, so none is found where a text meets a token, and what a token holds
is JSON, which is read to its end.
-/

namespace LocaleBundle

namespace Token

/-! ## Writing a token -/

/-- An argument after the key or after another argument. -/
def argumentText (v : Value) : List Char := ',' :: ' ' :: Json.write .compact 0 v

/-- What stands between the call mark and the closing parenthesis. -/
def bodyText (key : String) (args : List Value) : List Char :=
  Json.writeText key ++ args.flatMap argumentText

lemma intercalate_cons (sep t : List Char) (texts : List (List Char)) :
    sep.intercalate (t :: texts) = t ++ texts.flatMap (sep ++ ·) := by
  induction texts generalizing t with
  | nil => simp
  | cons u texts ih =>
    rw [List.intercalate_cons_cons, ih, List.flatMap_cons]
    simp only [List.append_assoc]

lemma mapM_encode {values : List Value} (h : ∀ v ∈ values, v.IsJson) :
    values.mapM (Json.encode .compact) = .ok (values.map (Json.write .compact 0)) := by
  induction values with
  | nil => rfl
  | cons v values ih =>
    have hv := Json.encode_of_isJson .compact (h v List.mem_cons_self)
    have hrest := ih fun w hw => h w (List.mem_cons_of_mem v hw)
    rw [List.mapM_cons, hv, hrest]
    rfl

lemma writeValues_text {key : String} {args : List Value} (h : ∀ v ∈ args, v.IsLiteral) :
    CallToken.writeValues (.text key :: args) = .ok (bodyText key args) := by
  have hjson : ∀ v ∈ Value.text key :: args, v.IsJson := by
    intro v hv
    rcases List.mem_cons.mp hv with rfl | hv
    · exact .text key
    · exact (h v hv).isJson
  have hbody : [',', ' '].intercalate ((Value.text key :: args).map (Json.write .compact 0))
      = bodyText key args := by
    rw [List.map_cons, intercalate_cons, List.flatMap_map, Json.write]
    rfl
  unfold CallToken.writeValues
  rw [mapM_encode hjson]
  exact congrArg Except.ok hbody

/-- The text of a token. -/
def tokenText (key : String) (args : List Value) : String :=
  callMark ++ String.ofList (bodyText key args) ++ ")"

lemma write_eq_tokenText {key : String} {args : List Value} (h : ∀ v ∈ args, v.IsLiteral) :
    CallToken.write key args = .ok (tokenText key args) := by
  unfold CallToken.write
  rw [writeValues_text h]
  rfl

/-! ## The text of a token -/

/-- What is written of a literal is the text of that literal. -/
lemma literalText_write {v : Value} (h : v.IsLiteral) :
    Json.LiteralText v (Json.write .compact 0 v) := by
  cases h with
  | null => exact .scalar (Json.scalarText_write .compact 0 .null)
  | bool b => exact .scalar (Json.scalarText_write .compact 0 (.bool b))
  | int n => exact .scalar (Json.scalarText_write .compact 0 (.int n))
  | float x => exact .scalar (Json.scalarText_write .compact 0 (.float x))
  | text s =>
    rw [Json.write]
    exact Json.literalText_writeText s

/-- Arguments are written as the arguments of a call. -/
lemma argumentsText_flatMap {args : List Value} (h : ∀ v ∈ args, v.IsLiteral) :
    ArgumentsText args (args.flatMap argumentText ++ [')']) := by
  induction args with
  | nil =>
    have hnone : ∀ c ∈ ([] : List Char), Json.isBlank c = true := List.forall_mem_nil _
    exact .close hnone
  | cons v args ih =>
    have hv := literalText_write (h v List.mem_cons_self)
    have hargs := ih fun w hw => h w (List.mem_cons_of_mem v hw)
    have hblank : ∀ c ∈ [' '], Json.isBlank c = true := List.forall_mem_singleton.mpr rfl
    have htext := ArgumentsText.argument (List.forall_mem_nil _) hblank hv hargs
    rw [List.flatMap_cons, List.append_assoc]
    exact htext

/-- What follows the mark of a token is the text of a call with its key and its arguments. -/
lemma callText_bodyText (key : String) {args : List Value} (h : ∀ v ∈ args, v.IsLiteral) :
    CallText key args (bodyText key args ++ [')']) := by
  have htext := CallText.mk (List.forall_mem_nil _) (Json.literalText_writeText key)
    (argumentsText_flatMap h)
  unfold bodyText
  rw [List.append_assoc]
  exact htext

/-! ## Texts with tokens between them -/

/-- A call and the text after its token. -/
structure Part where
  key : String
  args : List Value
  after : String

/-- The token of the call. -/
def Part.token (p : Part) : String := tokenText p.key p.args

/-- A text and after it the parts, one after the other. -/
def codeOf (first : String) (parts : List Part) : String :=
  first ++ String.join (parts.map fun p => p.token ++ p.after)

/-- The calls of the parts in a text that starts with `before`: a token starts where the code
before it ends. -/
def callsOf (before : String) : List Part → List CallToken
  | [] => []
  | p :: parts => ⟨p.key, p.args, before.length, before.length + p.token.length⟩
      :: callsOf (before ++ p.token ++ p.after) parts

/-- The texts and the calls by turns. -/
def segmentsOf (first : String) : List Part → List CallToken → List Segment
  | p :: parts, call :: calls => .text first.toList :: .call call :: segmentsOf p.after parts calls
  | _, _ => [.text first.toList]

lemma toList_codeOf_cons (first : String) (p : Part) (parts : List Part) :
    (codeOf first (p :: parts)).toList = first.toList ++ (callMark.toList
      ++ (bodyText p.key p.args ++ ')' :: (codeOf p.after parts).toList)) := by
  unfold codeOf Part.token tokenText
  simp

/-- A text with tokens is cut into its texts and its calls. -/
lemma cut_codeOf {first : String} {parts : List Part}
    (hfirst : ¬ callMark.toList <:+: first.toList)
    (hafter : ∀ p ∈ parts, ¬ callMark.toList <:+: p.after.toList)
    (hargs : ∀ p ∈ parts, ∀ v ∈ p.args, v.IsLiteral) (before : String) :
    Cut before.length (codeOf first parts).toList
      (segmentsOf first parts (callsOf (before ++ first) parts)) none := by
  -- after a token the rest is again a text with tokens, with more code before it
  induction parts generalizing first before with
  | nil =>
    have hcode : (codeOf first []).toList = first.toList := by simp [codeOf]
    rw [hcode]
    exact .text hfirst
  | cons p parts ih =>
    have hrest := ih (hafter p List.mem_cons_self)
      (fun q hq => hafter q (List.mem_cons_of_mem p hq))
      (fun q hq => hargs q (List.mem_cons_of_mem p hq)) (before ++ first ++ p.token)
    have hbody : bodyText p.key p.args ++ ')' :: (codeOf p.after parts).toList =
        (bodyText p.key p.args ++ [')']) ++ (codeOf p.after parts).toList := by simp
    have hcall := readCall_append (callText_bodyText p.key (hargs p List.mem_cons_self))
      (codeOf p.after parts).toList
    have htoken : p.token.length =
        callMark.length + (bodyText p.key p.args ++ [')']).length := by
      unfold Part.token tokenText
      simp [← String.length_toList]
    have hstart : before.length + first.toList.length = (before ++ first).length := by
      rw [String.length_toList, String.length_append]
    -- the token reaches from the mark to where reading stopped
    have hstop : (before ++ first ++ p.token).length = before.length + first.toList.length +
        (callMark.length + (bodyText p.key p.args ++ [')']).length) := by
      rw [hstart, ← htoken, String.length_append (before ++ first)]
    have hcut := Cut.call hfirst hcall hstop hrest
    rw [hstart, String.length_append (before ++ first)] at hcut
    rw [toList_codeOf_cons, hbody]
    exact hcut

lemma segments_codeOf (fileName : String) {first : String} {parts : List Part}
    (hfirst : ¬ callMark.toList <:+: first.toList)
    (hafter : ∀ p ∈ parts, ¬ callMark.toList <:+: p.after.toList)
    (hargs : ∀ p ∈ parts, ∀ v ∈ p.args, v.IsLiteral) :
    segments (codeOf first parts) fileName
      = (segmentsOf first parts (callsOf first parts), none) := by
  have hcut := cut_codeOf hfirst hafter hargs ""
  rw [String.empty_append] at hcut
  exact segments_of_cut hcut fileName

lemma filterMap_segmentsOf (first before : String) (parts : List Part) :
    (segmentsOf first parts (callsOf before parts)).filterMap (fun
      | .call token => some token
      | .text _ => none) = callsOf before parts := by
  induction parts generalizing first before with
  | nil => rfl
  | cons p parts ih =>
    unfold callsOf segmentsOf
    rw [List.filterMap_cons_none (by rfl), List.filterMap_cons_some (b := _) (by rfl), ih]

/-! ## Rendering the tokens -/

/-- A text with the sentinels replaced by the locale. -/
def localized (locale text : String) : String :=
  String.ofList (replaceSentinel locale text.toList)

/-- A rendered text and after it the text that followed the token, for each part. -/
def renderedParts (locale : String) (texts : List String) (parts : List Part) : String :=
  String.join (List.zipWith (fun text p => text ++ localized locale p.after) texts parts)

variable {σ : Type}

/-- The tokens are rendered in order, and what they are rendered to is put between the texts. -/
lemma renderSegments_segmentsOf (locale : String) (render : CallToken → Job σ String)
    (first before : String) (parts : List Part) :
    renderSegments locale render (segmentsOf first parts (callsOf before parts))
      = Job.bind (Job.forEach (callsOf before parts) render) fun texts =>
        Job.ok (localized locale first ++ renderedParts locale texts parts).toList := by
  induction parts generalizing first before with
  | nil =>
    simp [segmentsOf, callsOf, renderSegments, Job.forEach, renderedParts, localized]
  | cons p parts ih =>
    unfold callsOf segmentsOf
    simp only [renderSegments, Job.bind_eq, Job.pure_eq, ih, Job.forEach, Job.bind_assoc,
      Job.bind_of_ok]
    simp [renderedParts, localized]

/-- Code whose texts hold no call mark is cut at exactly the tokens that were put into it: each is
found at its place with its key and its arguments. Replacing renders them in order, and in the
texts between them the sentinels, and only those, become the locale, whatever the keys, the
arguments and the rendered texts contain. -/
theorem scan_replace_codeOf (first : String) (parts : List Part)
    (hfirst : ¬ callMark.toList <:+: first.toList)
    (hafter : ∀ p ∈ parts, ¬ callMark.toList <:+: p.after.toList)
    (hargs : ∀ p ∈ parts, ∀ v ∈ p.args, v.IsLiteral) (fileName : String) :
    (∀ p ∈ parts, CallToken.write p.key p.args = .ok p.token) ∧
    scan (codeOf first parts) fileName = (callsOf first parts, none) ∧
    ∀ (σ : Type) (locale : String) (render : CallToken → Job σ String),
      replace (codeOf first parts) locale render fileName
        = Job.bind (Job.forEach (callsOf first parts) render) (fun texts =>
          Job.ok (localized locale first ++ renderedParts locale texts parts)) ∧
      ∀ t : String, Text.Replaced localeSentinel.toList locale.toList t.toList
        (localized locale t).toList := by
  have hsegments := segments_codeOf fileName hfirst hafter hargs
  refine ⟨?_, ?_, fun σ locale render => ⟨?_, fun t => ?_⟩⟩
  · intro p hp
    exact write_eq_tokenText (hargs p hp)
  · unfold scan
    rw [hsegments]
    exact congrArg (·, none) (filterMap_segmentsOf first first parts)
  · unfold replace
    rw [hsegments]
    simp only [Job.bind_eq, Job.pure_eq, renderSegments_segmentsOf, Job.bind_assoc,
      Job.bind_of_ok, String.ofList_toList]
  · unfold localized replaceSentinel
    rw [String.toList_ofList]
    exact Text.replaced_replaceAll (by decide) locale.toList t.toList

/-- A call whose key holds a token and whose arguments hold the end of one. -/
def Part.nested : Part :=
  ⟨"__$T$__(\"a\")", [.text "), __$LOCALE$__", .int (-3), .null], ");__$LOCALE$__"⟩

theorem scan_replace_codeOf_nested :
    scan (codeOf "f(" [.nested]) "main.js" = (callsOf "f(" [.nested], none) ∧
    replace (codeOf "f(" [.nested]) "en" (fun call => Job.ok call.key) "main.js"
      = Job.bind (Job.forEach (callsOf "f(" [.nested]) fun call => Job.ok call.key) fun texts =>
        (Job.ok (localized "en" "f(" ++ renderedParts "en" texts [.nested]) : Job Unit String) := by
  have hargs : ∀ p ∈ [Part.nested], ∀ v ∈ p.args, v.IsLiteral := by
    intro p hp v hv
    obtain rfl := List.mem_singleton.mp hp
    simp only [Part.nested, List.mem_cons, List.not_mem_nil, or_false] at hv
    rcases hv with rfl | rfl | rfl
    · exact .text _
    · exact .int _
    · exact .null
  have h := scan_replace_codeOf "f(" [.nested] (by decide) (by decide) hargs "main.js"
  exact ⟨h.2.1, (h.2.2 Unit "en" fun call => Job.ok call.key).1⟩

end Token

end LocaleBundle
