import LocaleBundle.Plural.Cldr

/-!
# Plural rules of locales

The cardinal rules of CLDR for some locales. A rule gives a plural form, so the
list is plural data, with which a program can run; there a locale that is not listed
is unknown. Nothing else in the library depends on which locales these are.
-/

namespace LocaleBundle.Plural

/-- The operand is one of the integers. -/
def isIn (x : Operand) (ranges : List (Nat × Nat)) : Relation := ⟨x, none, true, ranges⟩

/-- The operand is none of the integers. -/
def isOut (x : Operand) (ranges : List (Nat × Nat)) : Relation := ⟨x, none, false, ranges⟩

/-- The remainder by `m` is one of the integers. -/
def modIn (x : Operand) (m : Nat) (ranges : List (Nat × Nat)) : Relation :=
  ⟨x, some m, true, ranges⟩

/-- The remainder by `m` is none of the integers. -/
def modOut (x : Operand) (m : Nat) (ranges : List (Nat × Nat)) : Relation :=
  ⟨x, some m, false, ranges⟩

namespace Rule

/-- English, Dutch, German, Swedish and Finnish. -/
def english : Rule := [
  (.one, [[isIn .i [(1, 1)], isIn .v [(0, 0)]]])]

/-- French. -/
def french : Rule := [
  (.many, [
    [isIn .e [(0, 0)], isOut .i [(0, 0)], modIn .i 1000000 [(0, 0)], isIn .v [(0, 0)]],
    [isOut .e [(0, 5)]]]),
  (.one, [[isIn .i [(0, 0), (1, 1)]]])]

/-- Portuguese. -/
def portuguese : Rule := [
  (.many, [
    [isIn .e [(0, 0)], isOut .i [(0, 0)], modIn .i 1000000 [(0, 0)], isIn .v [(0, 0)]],
    [isOut .e [(0, 5)]]]),
  (.one, [[isIn .i [(0, 1)]]])]

/-- Italian and the Portuguese of Portugal. -/
def italian : Rule := [
  (.many, [
    [isIn .e [(0, 0)], isOut .i [(0, 0)], modIn .i 1000000 [(0, 0)], isIn .v [(0, 0)]],
    [isOut .e [(0, 5)]]]),
  (.one, [[isIn .i [(1, 1)], isIn .v [(0, 0)]]])]

/-- Polish. -/
def polish : Rule := [
  (.few, [[isIn .v [(0, 0)], modIn .i 10 [(2, 4)], modOut .i 100 [(12, 14)]]]),
  (.many, [
    [isIn .v [(0, 0)], isOut .i [(1, 1)], modIn .i 10 [(0, 1)]],
    [isIn .v [(0, 0)], modIn .i 10 [(5, 9)]],
    [isIn .v [(0, 0)], modIn .i 100 [(12, 14)]]]),
  (.one, [[isIn .i [(1, 1)], isIn .v [(0, 0)]]])]

/-- Russian and Ukrainian. -/
def russian : Rule := [
  (.few, [[isIn .v [(0, 0)], modIn .i 10 [(2, 4)], modOut .i 100 [(12, 14)]]]),
  (.many, [
    [isIn .v [(0, 0)], modIn .i 10 [(0, 0)]],
    [isIn .v [(0, 0)], modIn .i 10 [(5, 9)]],
    [isIn .v [(0, 0)], modIn .i 100 [(11, 14)]]]),
  (.one, [[isIn .v [(0, 0)], modIn .i 10 [(1, 1)], modOut .i 100 [(11, 11)]]])]

/-- Japanese, Korean and Chinese have one category. -/
def japanese : Rule := []

/-- Arabic. -/
def arabic : Rule := [
  (.few, [[modIn .n 100 [(3, 10)]]]),
  (.many, [[modIn .n 100 [(11, 99)]]]),
  (.one, [[isIn .n [(1, 1)]]]),
  (.two, [[isIn .n [(2, 2)]]]),
  (.zero, [[isIn .n [(0, 0)]]])]

/-- Latvian. -/
def latvian : Rule := [
  (.one, [
    [modIn .n 10 [(1, 1)], modOut .n 100 [(11, 11)]],
    [isIn .v [(2, 2)], modIn .f 10 [(1, 1)], modOut .f 100 [(11, 11)]],
    [isOut .v [(2, 2)], modIn .f 10 [(1, 1)]]]),
  (.zero, [
    [modIn .n 10 [(0, 0)]],
    [modIn .n 100 [(11, 19)]],
    [isIn .v [(2, 2)], modIn .f 100 [(11, 19)]]])]

/-- Lithuanian. -/
def lithuanian : Rule := [
  (.few, [[modIn .n 10 [(2, 9)], modOut .n 100 [(11, 19)]]]),
  (.many, [[isOut .f [(0, 0)]]]),
  (.one, [[modIn .n 10 [(1, 1)], modOut .n 100 [(11, 19)]]])]

/-- Czech. -/
def czech : Rule := [
  (.few, [[isIn .i [(2, 4)], isIn .v [(0, 0)]]]),
  (.many, [[isOut .v [(0, 0)]]]),
  (.one, [[isIn .i [(1, 1)], isIn .v [(0, 0)]]])]

/-- Welsh. -/
def welsh : Rule := [
  (.few, [[isIn .n [(3, 3)]]]),
  (.many, [[isIn .n [(6, 6)]]]),
  (.one, [[isIn .n [(1, 1)]]]),
  (.two, [[isIn .n [(2, 2)]]]),
  (.zero, [[isIn .n [(0, 0)]]])]

/-- Irish. -/
def irish : Rule := [
  (.few, [[isIn .n [(3, 6)]]]),
  (.many, [[isIn .n [(7, 10)]]]),
  (.one, [[isIn .n [(1, 1)]]]),
  (.two, [[isIn .n [(2, 2)]]])]

/-- Slovenian. -/
def slovenian : Rule := [
  (.few, [[isIn .v [(0, 0)], modIn .i 100 [(3, 4)]], [isOut .v [(0, 0)]]]),
  (.one, [[isIn .v [(0, 0)], modIn .i 100 [(1, 1)]]]),
  (.two, [[isIn .v [(0, 0)], modIn .i 100 [(2, 2)]]])]

/-- Hebrew. -/
def hebrew : Rule := [
  (.one, [[isIn .i [(1, 1)], isIn .v [(0, 0)]], [isIn .i [(0, 0)], isOut .v [(0, 0)]]]),
  (.two, [[isIn .i [(2, 2)], isIn .v [(0, 0)]]])]

/-- Maltese. -/
def maltese : Rule := [
  (.few, [[isIn .n [(0, 0)]], [modIn .n 100 [(3, 10)]]]),
  (.many, [[modIn .n 100 [(11, 19)]]]),
  (.one, [[isIn .n [(1, 1)]]]),
  (.two, [[isIn .n [(2, 2)]]])]

/-- Danish. -/
def danish : Rule := [
  (.one, [[isIn .n [(1, 1)]], [isOut .t [(0, 0)], isIn .i [(0, 0), (1, 1)]]])]

/-- Spanish. -/
def spanish : Rule := [
  (.many, [
    [isIn .e [(0, 0)], isOut .i [(0, 0)], modIn .i 1000000 [(0, 0)], isIn .v [(0, 0)]],
    [isOut .e [(0, 5)]]]),
  (.one, [[isIn .n [(1, 1)]]])]

/-- Romanian. -/
def romanian : Rule := [
  (.few, [[isOut .v [(0, 0)]], [isIn .n [(0, 0)]], [isOut .n [(1, 1)], modIn .n 100 [(1, 19)]]]),
  (.one, [[isIn .i [(1, 1)], isIn .v [(0, 0)]]])]

/-- Croatian. -/
def croatian : Rule := [
  (.few, [
    [isIn .v [(0, 0)], modIn .i 10 [(2, 4)], modOut .i 100 [(12, 14)]],
    [modIn .f 10 [(2, 4)], modOut .f 100 [(12, 14)]]]),
  (.one, [
    [isIn .v [(0, 0)], modIn .i 10 [(1, 1)], modOut .i 100 [(11, 11)]],
    [modIn .f 10 [(1, 1)], modOut .f 100 [(11, 11)]]])]

/-- Macedonian. -/
def macedonian : Rule := [
  (.one, [
    [isIn .v [(0, 0)], modIn .i 10 [(1, 1)], modOut .i 100 [(11, 11)]],
    [modIn .f 10 [(1, 1)], modOut .f 100 [(11, 11)]]])]

/-- Icelandic. -/
def icelandic : Rule := [
  (.one, [
    [isIn .t [(0, 0)], modIn .i 10 [(1, 1)], modOut .i 100 [(11, 11)]],
    [modIn .t 10 [(1, 1)], modOut .t 100 [(11, 11)]]])]

/-- Breton. -/
def breton : Rule := [
  (.few, [[modIn .n 10 [(3, 4), (9, 9)], modOut .n 100 [(10, 19), (70, 79), (90, 99)]]]),
  (.many, [[isOut .n [(0, 0)], modIn .n 1000000 [(0, 0)]]]),
  (.one, [[modIn .n 10 [(1, 1)], modOut .n 100 [(11, 11), (71, 71), (91, 91)]]]),
  (.two, [[modIn .n 10 [(2, 2)], modOut .n 100 [(12, 12), (72, 72), (92, 92)]]])]

/-- Scottish Gaelic. -/
def scottishGaelic : Rule := [
  (.few, [[isIn .n [(3, 10), (13, 19)]]]),
  (.one, [[isIn .n [(1, 1), (11, 11)]]]),
  (.two, [[isIn .n [(2, 2), (12, 12)]]])]

/-- Cornish. -/
def cornish : Rule := [
  (.few, [[modIn .n 100 [(3, 3), (23, 23), (43, 43), (63, 63), (83, 83)]]]),
  (.many, [[isOut .n [(1, 1)], modIn .n 100 [(1, 1), (21, 21), (41, 41), (61, 61), (81, 81)]]]),
  (.one, [[isIn .n [(1, 1)]]]),
  (.two, [
    [modIn .n 100 [(2, 2), (22, 22), (42, 42), (62, 62), (82, 82)]],
    [modIn .n 1000 [(0, 0)],
      modIn .n 100000 [(1000, 20000), (40000, 40000), (60000, 60000), (80000, 80000)]],
    [isOut .n [(0, 0)], modIn .n 1000000 [(100000, 100000)]]]),
  (.zero, [[isIn .n [(0, 0)]]])]

/-- Manx. -/
def manx : Rule := [
  (.few, [[isIn .v [(0, 0)], modIn .i 100 [(0, 0), (20, 20), (40, 40), (60, 60), (80, 80)]]]),
  (.many, [[isOut .v [(0, 0)]]]),
  (.one, [[isIn .v [(0, 0)], modIn .i 10 [(1, 1)]]]),
  (.two, [[isIn .v [(0, 0)], modIn .i 10 [(2, 2)]]])]

/-- Turkish, Norwegian, Greek, Hungarian and Bulgarian. -/
def turkish : Rule := [
  (.one, [[isIn .n [(1, 1)]]])]

/-- Hindi and Amharic. -/
def hindi : Rule := [
  (.one, [[isIn .i [(0, 0)]], [isIn .n [(1, 1)]]])]

/-- Sinhala. -/
def sinhala : Rule := [
  (.one, [[isIn .n [(0, 0), (1, 1)]], [isIn .i [(0, 0)], isIn .f [(1, 1)]]])]

/-- Filipino. -/
def filipino : Rule := [
  (.one, [
    [isIn .v [(0, 0)], isIn .i [(1, 1), (2, 2), (3, 3)]],
    [isIn .v [(0, 0)], modOut .i 10 [(4, 4), (6, 6), (9, 9)]],
    [isOut .v [(0, 0)], modOut .f 10 [(4, 4), (6, 6), (9, 9)]]])]

end Rule

/-- Some locales with their rules. CLDR knows more: what is listed here is an example of plural data and
enough to run the library with. -/
def localeRules : List (String × Rule) := [
  ("en", .english), ("en_US", .english), ("en_GB", .english), ("en_ZZ", .english),
  ("nl", .english), ("nl_BE", .english), ("nl_NL", .english), ("de", .english), ("de_AT", .english),
  ("de_CH", .english), ("de_DE", .english), ("sv", .english), ("sv_SE", .english), ("fi", .english),
  ("fi_FI", .english), ("fr", .french), ("fr_CA", .french), ("fr_FR", .french), ("pt", .portuguese),
  ("pt_BR", .portuguese), ("pt_PT", .italian), ("it", .italian), ("it_IT", .italian), ("pl", .polish),
  ("pl_PL", .polish), ("ru", .russian), ("ru_RU", .russian), ("uk", .russian), ("uk_UA", .russian),
  ("ja", .japanese), ("ja_JP", .japanese), ("ko", .japanese), ("ko_KR", .japanese),
  ("zh", .japanese), ("zh_TW", .japanese), ("zh_CN", .japanese),
  ("ar", .arabic), ("ar_EG", .arabic), ("lv", .latvian), ("lt", .lithuanian), ("cs", .czech),
  ("cy", .welsh), ("ga", .irish), ("sl", .slovenian), ("he", .hebrew), ("iw", .hebrew),
  ("mt", .maltese), ("da", .danish), ("es", .spanish), ("es_ES", .spanish), ("es_MX", .spanish),
  ("ro", .romanian), ("mo", .romanian), ("hr", .croatian), ("mk", .macedonian), ("is", .icelandic),
  ("br", .breton), ("gd", .scottishGaelic), ("kw", .cornish), ("gv", .manx), ("tr", .turkish),
  ("no", .turkish), ("nb", .turkish), ("el", .turkish), ("el_GR", .turkish), ("hu", .turkish),
  ("bg", .turkish), ("hi", .hindi), ("am", .hindi), ("si", .sinhala), ("tl", .filipino)]

/-- The plural form of a rule: the category of the number's quantity. -/
def Rule.form (rule : Rule) : Form := fun v => Quantity.ofValue v >>= rule.category

theorem Rule.form_of_ofValue {v : Value} {q : Quantity} (rule : Rule)
    (h : Quantity.ofValue v = .ok q) : rule.form v = rule.category q := by
  rw [form, h]
  rfl

/-- The plural data of the rules that are listed. -/
instance (priority := low) listed : Cldr where
  form? code := (Entries.get? code localeRules).map Rule.form

end LocaleBundle.Plural
