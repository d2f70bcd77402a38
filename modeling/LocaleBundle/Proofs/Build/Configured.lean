import LocaleBundle.Proofs.Build.History
import LocaleBundle.Proofs.Text.Search
import Mathlib.Data.List.Induction

/-!
# Checked configurations

A configuration and a store each check the locales that they are given, and the default locale that is
asked for. Both come to the same judgement: they refuse the same locales for the same reason, or have the
same codes and the same default. A configuration that was checked passes its own check unchanged, so no
build fails where its store is made.
-/

namespace LocaleBundle

namespace TextSet

/-- The set of some texts is the list without its duplicates. -/
lemma ofList_eq_eraseDups (items : List String) : ofList items = items.eraseDups := by
  -- a text is adjoined at the end, so the induction takes the last one off
  induction items using List.reverseRecOn with
  | nil => rfl
  | append_singleton items item ih =>
    have hsnoc : ofList (items ++ [item]) = adjoin (ofList items) item := by
      simp [ofList, adjoinAll]
    rw [hsnoc, List.eraseDups_append, adjoin, ← ih]
    by_cases hmem : item ∈ items
    · simp [hmem, List.removeAll]
    · simp [hmem, List.removeAll, List.eraseDups_cons]

/-- A list without duplicates keeps all its elements. -/
lemma eraseDups_of_nodup {items : List String} (h : items.Nodup) : items.eraseDups = items := by
  induction items with
  | nil => rfl
  | cons item items ih =>
    obtain ⟨hitem, hitems⟩ := List.nodup_cons.mp h
    have hothers : items.filter (fun other => !other == item) = items := by
      rw [List.filter_eq_self]
      intro other hother
      have : other ≠ item := ne_of_mem_of_not_mem hother hitem
      simpa using this
    rw [List.eraseDups_cons, hothers, ih hitems]

end TextSet

/-- The value of a setting that may be left out. -/
def Value.optional : Option String → Value
  | none => .null
  | some given => .text given

namespace Locale

namespace Locales

variable {subject : String} {items : List String} {asked : Option String}

/-- What texts given as locales, and a text asked for as the default or none, come to: the locales, or
the reason of a refusal. A refused default is reported under the name of its setting. -/
inductive Judged (items : List String) (asked : Option String) :
    (String → Except Error Locales) → Prop
  | missing (h : items = []) : Judged items asked fun _ => .error .noLocales
  | malformed {before after : List String} {code : String} (h : items = before ++ code :: after)
    (hbefore : ∀ earlier ∈ before, Code.isValid earlier) (hcode : ¬ Code.isValid code) :
    Judged items asked fun _ => .error (.fault (.malformedLocale (.text code)))
  | unlisted {code : String} (hitems : items ≠ []) (hvalid : ∀ item ∈ items, Code.isValid item)
    (hasked : asked = some code) (hcode : code ≠ "") (hmem : code ∉ items) :
    Judged items asked fun subject =>
      .error (.defaultNotListed subject (.text code) items.eraseDups)
  | accepted (locales : Locales) (hvalid : ∀ item ∈ items, Code.isValid item)
    (hcodes : locales.codes = items.eraseDups)
    (hdefault : asked = some locales.default ∧ locales.default ≠ "" ∨
      (asked = none ∨ asked = some "") ∧ items.head? = some locales.default) :
    Judged items asked fun _ => .ok locales

/-- The texts of texts. -/
lemma texts_text (items : List String) : texts (items.map .text) = items.eraseDups := by
  rw [texts, ← TextSet.ofList_eq_eraseDups, List.filterMap_map]
  congr 1
  exact List.filterMap_some

/-- A text that is no locale code is refused, the first one of them. -/
lemma ofValues_malformed {code : String}
    (h : items.find? (fun item => !Code.isValid item) = some code) (default : Value) :
    ofValues subject (items.map .text) default = .error (.fault (.malformedLocale (.text code))) := by
  have hset : (items.map Value.text).findSome? unhashable? = none := by simp [unhashable?]
  have hfind : (items.map Value.text).find? (fun v => !isCode v) = some (.text code) := by
    rw [List.find?_map]
    exact congrArg (Option.map Value.text) h
  unfold ofValues
  rw [hset]
  dsimp only
  split
  · rename_i v hv
    rw [hfind] at hv
    rw [Option.some.inj hv]
  · rename_i hv
    exact absurd (hfind.symm.trans hv) (by simp)

/-- Among texts that are locale codes a default is chosen. -/
lemma ofValues_valid (subject : String) (h : ∀ item ∈ items, Code.isValid item) (default : Value) :
    ∃ valid nodup, ofValues subject (items.map .text) default =
      choose subject items.eraseDups default valid nodup := by
  have hset : (items.map Value.text).findSome? unhashable? = none := by simp [unhashable?]
  have hfind : (items.map Value.text).find? (fun v => !isCode v) = none := by
    simpa [isCode] using h
  have hcodes : texts (items.map .text) = items.eraseDups := texts_text items
  refine ⟨fun code hcode => h code (List.mem_eraseDups.mp hcode),
    hcodes ▸ TextSet.nodup_ofList _, ?_⟩
  unfold ofValues
  rw [hset]
  dsimp only
  split
  · rename_i v hv
    exact absurd (hfind.symm.trans hv) (by simp)
  · congr 1

section Choice

variable {codes : List String} {code : String} {valid : ∀ code ∈ codes, Code.isValid code = true}
  {nodup : codes.Nodup}

/-- Where no default is asked for, the first code is it. -/
lemma choose_first (hasked : asked = none ∨ asked = some "") (hfirst : codes.head? = some code) :
    choose subject codes (.optional asked) valid nodup =
      .ok ⟨codes, code, valid, nodup, List.mem_of_mem_head? hfirst⟩ := by
  cases codes with
  | nil => simp at hfirst
  | cons first rest =>
    obtain rfl : first = code := by simpa using hfirst
    have habsent : (Value.optional asked).isTruthy = false := by
      rcases hasked with rfl | rfl <;> rfl
    simp only [choose, habsent, Bool.false_eq_true, if_false]

/-- A code that is asked for is the default. -/
lemma choose_listed (hcode : code ≠ "") (hmem : code ∈ codes) :
    choose subject codes (.text code) valid nodup = .ok ⟨codes, code, valid, nodup, hmem⟩ := by
  cases codes with
  | nil => simp at hmem
  | cons first rest => simp only [choose, Value.isTruthy, hcode, ne_eq, not_false_eq_true,
      decide_true, if_true, hmem, dif_pos]

/-- A text that is asked for and is none of the codes is refused. -/
lemma choose_unlisted (hcode : code ≠ "") (hcodes : codes ≠ []) (hmem : code ∉ codes) :
    choose subject codes (.text code) valid nodup =
      .error (.defaultNotListed subject (.text code) codes) := by
  cases codes with
  | nil => exact absurd rfl hcodes
  | cons first rest => simp only [choose, Value.isTruthy, hcode, ne_eq, not_false_eq_true,
      decide_true, if_true, hmem, dif_neg]

end Choice

lemma head?_eraseDups (items : List String) : items.eraseDups.head? = items.head? := by
  cases items with
  | nil => rfl
  | cons first rest => rw [List.eraseDups_cons]; rfl

/-- Texts that are all locale codes are judged by the default that is asked for. -/
lemma judged_of_valid (hvalid : ∀ item ∈ items, Code.isValid item) (asked : Option String) :
    ∃ verdict, Judged items asked verdict ∧
      ∀ subject, ofValues subject (items.map .text) (.optional asked) = verdict subject := by
  have hcodes : ∀ code ∈ items.eraseDups, Code.isValid code := fun code hcode =>
    hvalid code (List.mem_eraseDups.mp hcode)
  have hnodup : items.eraseDups.Nodup :=
    TextSet.ofList_eq_eraseDups items ▸ TextSet.nodup_ofList items
  cases hfirst : items.head? with
  | none =>
    obtain rfl : items = [] := List.head?_eq_none_iff.mp hfirst
    exact ⟨_, .missing rfl, fun _ => rfl⟩
  | some first =>
    have hitems : items ≠ [] := by rintro rfl; simp at hfirst
    have hfirst' : items.eraseDups.head? = some first := (head?_eraseDups items).trans hfirst
    -- an empty text asks for no default
    by_cases hasked : asked = none ∨ asked = some ""
    · refine ⟨_, .accepted ⟨items.eraseDups, first, hcodes, hnodup, List.mem_of_mem_head? hfirst'⟩
        hvalid rfl (.inr ⟨hasked, hfirst⟩), fun subject => ?_⟩
      obtain ⟨valid, nodup, hchoice⟩ := ofValues_valid subject hvalid (.optional asked)
      rw [hchoice, choose_first hasked hfirst']
    · obtain ⟨code, rfl, hcode⟩ : ∃ code, asked = some code ∧ code ≠ "" := by
        cases asked with
        | none => simp at hasked
        | some code => exact ⟨code, rfl, fun h => hasked (.inr (congrArg some h))⟩
      by_cases hmem : code ∈ items
      · refine ⟨_, .accepted ⟨items.eraseDups, code, hcodes, hnodup, List.mem_eraseDups.mpr hmem⟩
          hvalid rfl (.inl ⟨rfl, hcode⟩), fun subject => ?_⟩
        obtain ⟨valid, nodup, hchoice⟩ :=
          ofValues_valid subject hvalid (.optional (some code))
        exact hchoice.trans (choose_listed hcode _)
      · refine ⟨_, .unlisted hitems hvalid rfl hcode hmem, fun subject => ?_⟩
        obtain ⟨valid, nodup, hchoice⟩ :=
          ofValues_valid subject hvalid (.optional (some code))
        refine hchoice.trans (choose_unlisted hcode ?_ (hmem ∘ List.mem_eraseDups.mp))
        exact fun h => hitems (List.head?_eq_none_iff.mp (by rw [← head?_eraseDups, h]; rfl))

/-- Texts given as locales, and a text asked for as the default or none, are judged. -/
lemma judged (items : List String) (asked : Option String) :
    ∃ verdict, Judged items asked verdict ∧
      ∀ subject, ofValues subject (items.map .text) (.optional asked) = verdict subject := by
  cases hfind : items.find? (fun item => !Code.isValid item) with
  | some code =>
    obtain ⟨hcode, before, after, hitems, hbefore⟩ := List.find?_eq_some_iff_append.mp hfind
    exact ⟨_, .malformed hitems (by simpa using hbefore) (by simpa using hcode),
      fun subject => ofValues_malformed hfind _⟩
  | none => exact judged_of_valid (by simpa using hfind) asked

/-- The codes of locales, with their default asked for, give the locales again. -/
lemma ofValues_codes (locales : Locales) (subject : String) :
    ofValues subject (locales.codes.map .text) (.text locales.default) = .ok locales := by
  have hdefault : locales.default ≠ "" := by
    intro hempty
    have hvalid := locales.valid _ locales.default_mem
    rw [hempty] at hvalid
    exact absurd hvalid (by decide)
  obtain ⟨valid, nodup, hchoice⟩ :=
    ofValues_valid subject locales.valid (.text locales.default)
  -- the codes have no duplicates to drop
  rw [hchoice, choose_listed hdefault (List.mem_eraseDups.mpr locales.default_mem)]
  simp only [TextSet.eraseDups_of_nodup locales.nodup]

end Locales

/-- A store for the codes of locales, with their default asked for, has these locales. -/
lemma Store.ofValues_codes (locales : Locales) (files : Files) (addMissing : Bool) :
    Store.ofValues (locales.codes.map .text) (.text locales.default) files addMissing =
      .ok { locales := locales, files := files, addMissing := addMissing } := by
  rw [Store.ofValues, Locales.ofValues_codes]

end Locale

namespace Bundle

/-- The name of a directory is none or ends with a slash. -/
lemma directoryName?_cases (directory : Option String) :
    directoryName? directory = none ∨ ∃ name, directoryName? directory = some (name ++ "/") := by
  cases directory with
  | none => exact .inl rfl
  | some d =>
    rw [directoryName?]
    split_ifs with hempty hends
    · exact .inl rfl
    · obtain ⟨name, hname⟩ : ['/'] <:+ d.toList := by
        rwa [Text.endsWith, Text.startsWith_iff, List.reverse_prefix] at hends
      exact .inr ⟨String.ofList name, by simp [String.ext_iff, hname]⟩
    · exact .inr ⟨d, rfl⟩

/-- The name of a directory is its own name. -/
lemma directoryName?_idem (directory : Option String) :
    directoryName? (directoryName? directory) = directoryName? directory := by
  obtain hnone | ⟨name, hname⟩ := directoryName?_cases directory
  · rw [hnone, directoryName?]
  · have hends : Text.endsWith ['/'] (name ++ "/").toList = true := by
      rw [Text.endsWith, Text.startsWith_iff, List.reverse_prefix]
      exact ⟨name.toList, by simp⟩
    have hempty : name ++ "/" ≠ "" := fun h => by simpa using congrArg String.length h
    rw [hname, directoryName?, if_neg hempty, if_pos hends]

end Bundle

namespace Config

/-- The settings that a configuration came to. -/
def settings (config : Config) : Settings where
  locales := .list (config.locales.codes.map .text)
  localesDirectory := .text config.localesDirectory
  defaultLocale := .text config.locales.default
  assetsDirectory := .optional config.assetsDirectory
  addMissing := config.addMissing

lemma assetsDirectoryOf_optional (directory : Option String) :
    assetsDirectoryOf (.optional directory) = .ok (Bundle.directoryName? directory) := by
  cases directory with
  | none => rfl
  | some d =>
    by_cases hd : d = ""
    · subst hd; rfl
    · simp [assetsDirectoryOf, Value.optional, Value.isTruthy, hd]

/-- An assets directory that passes the check is the name of a directory. -/
lemma assetsDirectoryOf_ok {v : Value} {directory : Option String}
    (h : assetsDirectoryOf v = .ok directory) :
    ∃ given, directory = Bundle.directoryName? given := by
  unfold assetsDirectoryOf at h
  split at h
  · split at h
    · exact ⟨_, (Except.ok.inj h).symm⟩
    · exact absurd h (by simp)
  · exact ⟨none, (Except.ok.inj h).symm⟩

/-- Of texts given as directories only the names are taken; the locales decide the outcome. -/
lemma ofSettings_texts (values : List Value) (directory : String) (default : Value)
    (assets : Option String) (addMissing : Value) :
    ofSettings ⟨.list values, .text directory, default, .optional assets, addMissing⟩ =
      (Locale.Locales.ofValues "default_locale" values default).map fun locales =>
        ⟨locales, directory, Bundle.directoryName? assets, addMissing⟩ := by
  simp only [ofSettings, assetsDirectoryOf_optional]
  cases Locale.Locales.ofValues "default_locale" values default <;> rfl

/-- The assets directory of a checked configuration is the name of a directory. -/
lemma assetsDirectory_of_ofSettings {settings : Settings} {config : Config}
    (h : ofSettings settings = .ok config) :
    ∃ given, config.assetsDirectory = Bundle.directoryName? given := by
  unfold ofSettings at h
  split at h
  · split at h
    · exact absurd h (by simp)
    · split at h
      · exact absurd h (by simp)
      · rename_i hassets
        split at h
        · obtain rfl := Except.ok.inj h
          exact assetsDirectoryOf_ok hassets
        · exact absurd h (by simp)
  · exact absurd h (by simp)

/-- The settings of a checked configuration give it again. -/
lemma ofSettings_settings {settings : Settings} {config : Config}
    (h : ofSettings settings = .ok config) : ofSettings config.settings = .ok config := by
  obtain ⟨given, hgiven⟩ := assetsDirectory_of_ofSettings h
  have hassets : Bundle.directoryName? config.assetsDirectory = config.assetsDirectory := by
    rw [hgiven, Bundle.directoryName?_idem]
  rw [Config.settings, ofSettings_texts, Locale.Locales.ofValues_codes, Except.map, hassets]

/-- A configuration and a store judge alike: the same texts are refused for the same reason, or both
have the same codes and the same default. A checked configuration passes its own check unchanged; its
assets directory is none or ends with a slash, and a plan takes it as it is. So where a build with it
starts, the store is made and only loading can fail. -/
theorem ofSettings_judges_as_ofValues {τ : Type} :
    (∀ (items : List String) (asked assets : Option String) (directory : String) (addMissing : Value)
        (files : Locale.Files) (addsMissing : Bool),
      ∃ verdict, Locale.Locales.Judged items asked verdict ∧
        ofSettings ⟨.list (items.map .text), .text directory, .optional asked, .optional assets,
            addMissing⟩ =
          (verdict "default_locale").map (fun locales =>
            ⟨locales, directory, Bundle.directoryName? assets, addMissing⟩) ∧
        Locale.Store.ofValues (items.map .text) (.optional asked) files addsMissing =
          (verdict "Default locale").map fun locales =>
            { locales := locales, files := files, addMissing := addsMissing }) ∧
    ∀ settings config, ofSettings settings = .ok config →
      ofSettings config.settings = .ok config ∧
      (config.assetsDirectory = none ∨ ∃ name, config.assetsDirectory = some (name ++ "/")) ∧
      (∀ keys, (Bundle.Plan.make keys config.assetsDirectory).assetsDirectory =
        config.assetsDirectory) ∧
      ∀ site : Site τ, site.build.config = config →
        Locale.Store.ofValues (config.locales.codes.map .text) (.text config.locales.default)
          ⟨config.location⟩ config.addsMissing = .ok site.build.emptyStore ∧
        (Site.start site).result =
          (Locale.Workspace.load ⟨site.tree, site.build.emptyStore, {}⟩).result := by
  refine ⟨fun items asked assets directory addMissing files addsMissing => ?_,
    fun settings config hconfig => ?_⟩
  · obtain ⟨verdict, hjudged, hverdict⟩ := Locale.Locales.judged items asked
    refine ⟨verdict, hjudged, ?_, ?_⟩
    · rw [ofSettings_texts, hverdict]
    · rw [Locale.Store.ofValues, hverdict]
      cases verdict "Default locale" <;> rfl
  · obtain ⟨given, hgiven⟩ := assetsDirectory_of_ofSettings hconfig
    refine ⟨ofSettings_settings hconfig, ?_, fun keys => ?_, fun site hsite => ⟨?_, ?_⟩⟩
    · exact hgiven ▸ Bundle.directoryName?_cases given
    · rw [Bundle.Plan.make, hgiven, Bundle.directoryName?_idem]
    · subst hsite
      exact Locale.Store.ofValues_codes _ _ _
    · exact Site.result_start site

/-- Locales that are given twice, with an empty default and an unfinished directory. -/
theorem ofSettings_judges_as_ofValues_repeated :
    ∃ config : Config,
      ofSettings ⟨.list [.text "nl", .text "en", .text "nl"], .text "i18n", .text "", .text "assets",
        .bool false⟩ = .ok config ∧
      config.locales.codes = ["nl", "en"] ∧ config.locales.default = "nl" ∧
      config.assetsDirectory = some "assets/" ∧ ofSettings config.settings = .ok config := by
  let locales : Locale.Locales := ⟨["nl", "en"], "nl", by decide, by decide, by decide⟩
  have hconfig : ofSettings ⟨.list [.text "nl", .text "en", .text "nl"], .text "i18n", .text "",
      .text "assets", .bool false⟩ = .ok ⟨locales, "i18n", some "assets/", .bool false⟩ := by rfl
  obtain ⟨hself, -, -, -⟩ := (ofSettings_judges_as_ofValues (τ := Unit)).2 _ _ hconfig
  exact ⟨_, hconfig, rfl, rfl, rfl, hself⟩

end Config

end LocaleBundle
