import LocaleBundle.Error
import LocaleBundle.Locale.Code
import LocaleBundle.TextSet

/-!
# The configured locales

The locales of a build are locale codes without duplicates, in the order in which
they are given. One of them is the default: the one that is asked for, or else
the first.
-/

namespace LocaleBundle.Locale

/-- The locales of a build and their default. -/
structure Locales where
  codes : List String
  default : String
  valid : ∀ code ∈ codes, Code.isValid code = true
  nodup : codes.Nodup
  default_mem : default ∈ codes

namespace Locales

/-- Why a value has no place in a set, if it has none. -/
def unhashable? : Value → Option Error
  | .list items => some (.unhashable (Value.list items).typeName)
  | .map entries => some (.unhashable (Value.map entries).typeName)
  | .decimal (.nan _ true _) => some .unhashableNan
  | _ => none

/-- Whether a value is a locale code. -/
def isCode : Value → Bool
  | .text code => Code.isValid code
  | _ => false

/-- The distinct texts of some values. -/
def texts (values : List Value) : List String := TextSet.ofList (values.filterMap Value.asText?)

/-- Texts of values that are all locale codes are locale codes. -/
theorem isValid_of_mem_texts {values : List Value}
    (h : values.find? (fun v => !isCode v) = none) {code : String} (hc : code ∈ texts values) :
    Code.isValid code = true := by
  simp only [texts, TextSet.mem_ofList, List.mem_filterMap] at hc
  obtain ⟨v, hv, hcode⟩ := hc
  have := List.find?_eq_none.mp h v hv
  cases v <;> simp [Value.asText?] at hcode
  subst hcode
  simpa [isCode] using this

/-- Picks the default among codes: the one asked for if it is given and not
empty, or else the first. -/
def choose (subject : String) (codes : List String) (default : Value)
    (valid : ∀ code ∈ codes, Code.isValid code = true) (nodup : codes.Nodup) :
    Except Error Locales :=
  match h : codes with
  | [] => .error .noLocales
  | first :: rest =>
    if default.isTruthy then
      match default with
      | .text code =>
        if hm : code ∈ first :: rest then .ok ⟨first :: rest, code, h ▸ valid, h ▸ nodup, hm⟩
        else .error (.defaultNotListed subject default (first :: rest))
      | v => .error (.defaultNotListed subject v (first :: rest))
    else .ok ⟨first :: rest, first, h ▸ valid, h ▸ nodup, List.mem_cons_self⟩

/-- The locales given by values. The values must be such that duplicates can be
told, at least one must be there, and all must be locale codes; `subject` names
the setting of the default in a refusal. -/
def ofValues (subject : String) (values : List Value) (default : Value) : Except Error Locales :=
  match values.findSome? unhashable? with
  | some e => .error e
  | none =>
    match h : values.find? (fun v => !isCode v) with
    | some v => .error (.fault (.malformedLocale v))
    | none =>
      choose subject (texts values) default (fun _ hc => isValid_of_mem_texts h hc)
        (TextSet.nodup_ofList _)

end Locales

end LocaleBundle.Locale
