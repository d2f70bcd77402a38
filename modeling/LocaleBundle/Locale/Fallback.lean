import LocaleBundle.Entries

/-!
# Fallback chains

Every locale names at most one fallback, so from each locale a single chain
leads on. `chain` follows it and stops before a locale would repeat. `cycles`
finds the chains that close on themselves: it walks the locales in order, each
one once, and reports a cycle where a walk meets its own path.
-/

namespace LocaleBundle.Locale

/-- The fallback of each locale. -/
abbrev Fallbacks := Entries (Option String)

namespace Fallbacks

/-- The fallback of a locale, if it has one. -/
def next? (edges : Fallbacks) (locale : String) : Option String := (Entries.get? locale edges).join

/-- Follows the chain from `locale` past the locales of `seen`. -/
def chainFrom (edges : Fallbacks) : (fuel : Nat) → (seen : List String) → String → List String
  | 0, _, _ => []
  | fuel + 1, seen, locale =>
    if locale ∈ seen then []
    else
      match next? edges locale with
      | none => [locale]
      | some target => locale :: chainFrom edges fuel (seen ++ [locale]) target

/-- A locale and its fallbacks, in lookup order. A chain holds the locale, keys
of the edges, and at most one fallback that is none, each once. -/
def chain (edges : Fallbacks) (start : String) : List String :=
  chainFrom edges (edges.length + 2) [] start

/-- The walk from a locale that is not yet done: the path walked, and the locale
at which it closed on itself, if it did. -/
def walk (edges : Fallbacks) (done : List String) :
    (fuel : Nat) → (path : List String) → String → List String × Option String
  | 0, path, _ => (path, none)
  | fuel + 1, path, locale =>
    if locale ∈ path then (path, some locale)
    else if locale ∈ done then (path, none)
    else
      match next? edges locale with
      | none => (path ++ [locale], none)
      | some target => walk edges done fuel (path ++ [locale]) target

/-- The cycle of a path that closed at one of its locales, which is repeated at
the end. -/
def closing (path : List String) (locale : String) : List String :=
  path.dropWhile (· ≠ locale) ++ [locale]

/-- The cycles met from the given starts, when the locales of `done` are known
to lead to no new one. -/
def cyclesFrom (edges : Fallbacks) : (done starts : List String) → List (List String)
  | _, [] => []
  | done, start :: starts =>
    if start ∈ done then cyclesFrom edges done starts
    else
      let (path, closed) := walk edges done (edges.length + 2) [] start
      let rest := cyclesFrom edges (done ++ path) starts
      match closed with
      | none => rest
      | some locale => closing path locale :: rest

/-- All cycles, in the order in which they are met. -/
def cycles (edges : Fallbacks) : List (List String) := cyclesFrom edges [] (Entries.keys edges)

end Fallbacks

end LocaleBundle.Locale
