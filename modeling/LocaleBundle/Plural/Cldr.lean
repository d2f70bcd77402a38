import LocaleBundle.Locale.Code
import LocaleBundle.Logged
import LocaleBundle.Plural.Category

/-!
# Plural data

Which locales are known, and which category a number has in each of them, is data of CLDR. It is not part
of the library: whoever uses the library brings a `Cldr`. Nothing is assumed of it, and a result that needs
to know more has that as a hypothesis. A locale that is unknown there is logged, and only the number one is
`one` in it.
-/

namespace LocaleBundle.Plural

/-- The plural form of a language: the category of each number, or why it has none. -/
abbrev Form := Value → Except QuantityError Category

/-- The plural data at hand. -/
class Cldr where
  /-- The plural form of a locale. Its code has underscores; a locale that is unknown has no form. -/
  form? : (code : String) → Option Form

variable [Cldr]

/-- The plural form of a locale, whose code may be written with hyphens. -/
def formOf? (locale : String) : Option Form := Cldr.form? (Locale.Code.underscored locale)

/-- The plural category of a number in a locale. -/
def categoryIn (v : Value) (locale : String) : Logged Category :=
  match formOf? locale with
  | some form => Logged.ofExcept ((form v).mapError .quantity)
  | none => do
    Logged.record .warning
      ("Locale '" ++ locale ++ "' unknown to CLDR, using one/other plural rule")
    Logged.ofExcept ((simpleCategory v).mapError .quantity)

end LocaleBundle.Plural
