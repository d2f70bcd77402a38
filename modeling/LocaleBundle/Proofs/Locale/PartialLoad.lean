import LocaleBundle.Proofs.Locale.Consistent
import LocaleBundle.Proofs.Locale.Fallback
import LocaleBundle.Proofs.Locale.Load
import LocaleBundle.Proofs.Locale.Search

/-!
# Loads that stop on the way

A load takes the locales into the store one after the other, and a failure does not take them out
again. So after a load that failed the store has the records of the first locales, with their
fallbacks, and lookups among them fail where a fallback leads to one of the others.
-/

namespace LocaleBundle.Locale

open Record

/-- Whether a translation can be used: it is a text or a plural table, and not an empty one. -/
def IsUsable (v : Value) : Prop := (∃ s, v = .text s ∧ s ≠ "") ∨ ∃ table, v = .map table ∧ table ≠ []

lemma isUsable_iff {v : Value} (h : IsTranslation v) : IsUsable v ↔ v.isTruthy = true := by
  cases h with
  | text s => simp [IsUsable, Value.isTruthy]
  | table _ => simp [IsUsable, Value.isTruthy]

namespace Store

/-- Whether the record of a locale has a usable translation of a key, and which. -/
def Translates (store : Store) (code key : String) (v : Value) : Prop :=
  ∃ record, store.get code = .ok record ∧ Entries.get? key record.translations = some v ∧ IsUsable v

/-- Whether a store holds the records of some locales in configured order, and their fallbacks, and
nothing of the rest. -/
structure IsLoadedUpTo (store : Store) (before rest : List String) : Prop where
  codes : store.locales.codes = before ++ rest
  records : store.records.keys = before
  fallbacks : store.fallbacks.keys = before
  settled : ∀ code record, store.get code = .ok record →
    store.IsSettled code record ∧ store.fallbacks.next? code = record.fallback.asText?

namespace IsLoadedUpTo

variable {store : Store} {before rest : List String} {code other key : String} {record : Record}
  {v : Value}

lemma exists_get (h : store.IsLoadedUpTo before rest) (hcode : code ∈ before) :
    ∃ record, store.get code = .ok record :=
  exists_get_iff.mpr (h.records ▸ hcode)

lemma get_of_notMem (h : store.IsLoadedUpTo before rest) (hcode : code ∉ before) :
    store.get code = .error (.notLoaded code) :=
  Store.get_of_notMem (h.records ▸ hcode)

lemma contains_iff (h : store.IsLoadedUpTo before rest) :
    store.contains code = true ↔ code ∈ before := by
  rw [contains, Entries.contains_iff_mem_keys, h.records]

/-- Nothing is loaded yet. -/
lemma cleared (store : Store) : store.cleared.IsLoadedUpTo [] store.locales.codes where
  codes := rfl
  records := rfl
  fallbacks := rfl
  settled _ _ hget := absurd (mem_keys_of_get hget) List.not_mem_nil

/-- The next locale is taken in. -/
lemma take (h : store.IsLoadedUpTo before (code :: rest)) (hrecord : store.IsSettled code record) :
    (store.take code record).IsLoadedUpTo (before ++ [code]) rest := by
  have hnodup := store.locales.nodup
  rw [h.codes] at hnodup
  have hnew : code ∉ before := fun hmem =>
    (List.nodup_append.mp hnodup).2.2 code hmem code List.mem_cons_self rfl
  refine ⟨?_, ?_, ?_, fun other r hget => ?_⟩
  · rw [List.append_assoc, List.singleton_append]
    exact h.codes
  · show (Entries.insert code record store.records).keys = before ++ [code]
    rw [Entries.keys_insert, h.records, if_neg hnew]
  · show (Entries.insert code record.fallback.asText? store.fallbacks).keys = before ++ [code]
    rw [Entries.keys_insert, h.fallbacks, if_neg hnew]
  · have hlocales : (store.take code record).locales = store.locales := rfl
    have hsame : (store.take code record).get other = (store.putRecord code record).get other := rfl
    have hnext : (store.take code record).fallbacks.next? other =
        if code = other then record.fallback.asText? else store.fallbacks.next? other := by
      show (Entries.get? other (Entries.insert code record.fallback.asText? store.fallbacks)).join = _
      rw [Entries.get?_insert]
      split <;> rfl
    rw [hsame, get_putRecord] at hget
    rw [hnext]
    by_cases hother : code = other
    · rw [if_pos hother] at hget ⊢
      obtain rfl := Except.ok.inj hget
      exact ⟨hother ▸ hrecord.of_same hlocales, rfl⟩
    · rw [if_neg hother] at hget ⊢
      obtain ⟨hsettled, hstep⟩ := h.settled other r hget
      exact ⟨hsettled.of_same hlocales, hstep⟩

/-- Whom a locale falls back on is said by its record. -/
lemma exists_of_fallsBack (h : store.IsLoadedUpTo before rest)
    (hstep : Fallbacks.FallsBack store.fallbacks code other) :
    ∃ record, store.get code = .ok record ∧ record.fallback = .text other ∧
      other ∈ store.locales.codes := by
  obtain ⟨record, hget⟩ := h.exists_get (h.fallbacks ▸ Fallbacks.mem_keys_of_fallsBack hstep)
  obtain ⟨hsettled, hnext⟩ := h.settled code record hget
  have htext : record.fallback = .text other :=
    asText?_eq_some_iff.mp (hnext.symm.trans hstep)
  refine ⟨record, hget, htext, ?_⟩
  rcases hsettled.fallback with hnull | ⟨named, hnamed, hsame⟩
  · exact absurd (hnull.symm.trans htext) (by simp)
  · obtain rfl := Value.text.inj (hsame.symm.trans htext)
    exact hnamed

lemma mem_codes_of_mem_chain (h : store.IsLoadedUpTo before rest) {locale : String}
    (hlocale : locale ∈ store.locales.codes) (hcode : code ∈ store.chain locale) :
    code ∈ store.locales.codes := by
  refine Fallbacks.mem_of_mem_chain (fun a _ b hstep => ?_) hlocale hcode
  obtain ⟨-, -, -, hb⟩ := h.exists_of_fallsBack hstep
  exact hb

/-! ## Translations -/

lemma translationIn_eq_some_iff (h : store.IsLoadedUpTo before rest) :
    store.translationIn key code = .ok (some v) ↔ store.Translates code key v := by
  rw [Store.translationIn_eq_some_iff]
  refine exists_congr fun record => and_congr_right fun hget => and_congr_right fun hv => ?_
  have hareTranslations := (h.settled code record hget).1.writable.areTranslations
  exact (isUsable_iff (hareTranslations _ (Entries.mem_of_get? hv))).symm

lemma translationIn_eq_none_iff (h : store.IsLoadedUpTo before rest) :
    store.translationIn key code = .ok none ↔
      code ∈ before ∧ ∀ v, ¬ store.Translates code key v := by
  simp only [← h.translationIn_eq_some_iff]
  by_cases hcode : code ∈ before
  · obtain ⟨record, hget⟩ := h.exists_get hcode
    unfold translationIn
    simp only [hget, hcode, Except.map, Except.ok.injEq, true_and]
    exact Option.eq_none_iff_forall_ne_some
  · unfold translationIn
    simp [h.get_of_notMem hcode, hcode, Except.map]

end IsLoadedUpTo

/-- Whether a store answers for the locales that are loaded, and lookups for them fail exactly where
they come to one of the rest. -/
structure AnswersUpTo (store : Store) (before rest : List String) : Prop where
  contains : ∀ locale, store.contains locale = true ↔ locale ∈ before
  chain : ∀ locale ∈ before, ∀ code ∈ store.chain locale, code ∈ before ++ rest
  fails : ∀ locale ∈ before, ∀ key e, store.lookup locale key = .error e ↔
    ∃ code ∈ rest, e = .notLoaded code ∧ ∃ front back, store.chain locale = front ++ code :: back ∧
      ∀ c ∈ front, c ∈ before ∧ ∀ v, ¬ store.Translates c key v

lemma IsLoadedUpTo.answersUpTo {store : Store} {before rest : List String}
    (h : store.IsLoadedUpTo before rest) : store.AnswersUpTo before rest := by
  have hchain : ∀ locale ∈ before, ∀ code ∈ store.chain locale, code ∈ before ++ rest := by
    intro locale hlocale code hcode
    rw [← h.codes]
    exact h.mem_codes_of_mem_chain (h.codes ▸ List.mem_append_left rest hlocale) hcode
  refine ⟨fun locale => h.contains_iff, hchain, fun locale hlocale key e => ?_⟩
  unfold lookup
  simp only [lookupIn_eq_error_iff, h.translationIn_eq_none_iff]
  constructor
  · rintro ⟨front, code, back, hsplit, hfront, he⟩
    have hnot : code ∉ before := by
      intro hmem
      obtain ⟨record, hget⟩ := h.exists_get hmem
      exact absurd (hget.symm.trans he) (by simp)
    have hcode := hchain locale hlocale code (by simp [hsplit])
    refine ⟨code, (List.mem_append.mp hcode).resolve_left hnot, ?_, front, back, hsplit, hfront⟩
    exact Except.error.inj (he.symm.trans (h.get_of_notMem hnot))
  · rintro ⟨code, hcode, rfl, front, back, hsplit, hfront⟩
    have hnodup := store.locales.nodup
    rw [h.codes] at hnodup
    have hnot : code ∉ before := fun hmem =>
      (List.nodup_append.mp hnodup).2.2 code hmem code hcode rfl
    exact ⟨front, code, back, hsplit, hfront, h.get_of_notMem hnot⟩

/-- A record that was loaded is settled, whether it was read or made. -/
lemma keeps_loadLocale_isSettled (store : Store) (code : String) :
    Job.Keeps (fun _ => True) (fun loaded => store.IsSettled code loaded.1)
      (store.loadLocale code) := by
  have hempty := isSettled_emptyRecord store code
  unfold loadLocale
  refine Job.keeps_get.bind fun tree _ => ?_
  split
  · refine (Job.keeps_ofExcept (Q := Value.IsJson) fun content => isJson_of_read).bind
      fun content hcontent => ?_
    exact (Job.keeps_ofExcept (Q := store.IsSettled code) fun record hrecord =>
      isSettled_of_accept hcontent hrecord).bind fun record hrecord => Job.keeps_ok hrecord
  · split
    · refine (Job.keeps_true (store.files.write _)).bind fun _ _ => ?_
      exact (Job.keeps_record _ _).bind fun _ _ => Job.keeps_ok hempty
    · exact Job.keeps_ok hempty

end Store

namespace Workspace

open Files Store

variable {w : Workspace} {code : String}

/-! ## One locale after the other -/

/-- A locale that is loaded is taken into the store, and one that fails leaves the store. -/
lemma store_loadOne (w : Workspace) (code : String) :
    (∀ entry, (loadOne code w).result = .ok entry → ∃ record, w.store.IsSettled code record ∧
      (loadOne code w).state.store = w.store.take code record) ∧
    ∀ e, (loadOne code w).result = .error e → (loadOne code w).state.store = w.store := by
  obtain ⟨-, hsettled⟩ := keeps_loadLocale_isSettled w.store code w.tree trivial
  generalize hload : Job.outcome (w.store.loadLocale code) w.tree = loaded
  obtain ⟨after, result⟩ := loaded
  rw [(Prod.mk.inj hload).2] at hsettled
  cases result with
  | error e =>
    obtain ⟨hstate, hresult⟩ := Prod.mk.inj (outcome_loadOne_of_error hload)
    rw [hstate, hresult]
    exact ⟨fun entry hentry => absurd hentry (by simp), fun _ _ => rfl⟩
  | ok loaded =>
    obtain ⟨hstate, hresult⟩ := Prod.mk.inj (outcome_loadOne_of_ok hload)
    rw [hstate, hresult]
    exact ⟨fun _ _ => ⟨loaded.1, hsettled loaded rfl, rfl⟩, fun e he => absurd he (by simp)⟩

lemma advances_loadOne (locales : Locales) : Job.Advances
    (fun done rest v => v.store.IsLoadedUpTo done rest ∧ v.store.locales = locales) loadOne := by
  rintro done code rest v ⟨hv, hlocales⟩
  obtain ⟨htakes, hfails⟩ := store_loadOne v code
  refine ⟨fun entry hentry => ?_, fun e he => ?_⟩
  · obtain ⟨record, hrecord, hstore⟩ := htakes entry hentry
    have htaken := hv.take hrecord
    rw [← hstore] at htaken
    exact ⟨htaken, (congrArg Store.locales hstore).trans hlocales⟩
  · have hstore := hfails e he
    rw [← hstore] at hv hlocales
    exact ⟨hv, hlocales⟩

/-- Checking for cycles and noting keys leaves the store, also when it fails. -/
lemma store_conclude (entries : List LoadEntry) (w : Workspace) :
    (conclude entries w).state.store = w.store := by
  have hkeeps : Job.Keeps (fun v => v.store = w.store) (fun _ => True) (conclude entries) := by
    unfold conclude
    refine keeps_checkCycles.bind fun _ _ => ?_
    refine (keeps_notePluralKeys fun _ _ hv => hv).bind fun _ _ => ?_
    exact (Job.keeps_record _ _).bind fun _ _ => Job.keeps_ok trivial
  exact (hkeeps w rfl).1

/-- A load leaves the store loaded up to some locale, and up to the last one if it returns. -/
lemma isLoadedUpTo_load (w : Workspace) : ∃ before rest,
    (load w).state.store.IsLoadedUpTo before rest ∧
    (load w).state.store.locales = w.store.locales ∧
    ((∃ report, (load w).result = .ok report) → rest = []) := by
  have hcleared := IsLoadedUpTo.cleared w.store
  cases hmakes : w.tree.makeDirectories w.store.files.directory with
  | error e =>
    obtain ⟨hstate, hresult⟩ := Prod.mk.inj (outcome_load_of_makeDirectories_error hmakes)
    rw [hstate, hresult]
    exact ⟨[], _, hcleared, rfl, fun ⟨report, hreport⟩ => absurd hreport (by simp)⟩
  | ok made =>
    obtain ⟨hstate, hresult⟩ := Prod.mk.inj (outcome_load_eq hmakes)
    rw [hstate, hresult]
    obtain ⟨before, rest, ⟨hloaded, hlocales⟩, hreturns⟩ :=
      (advances_loadOne w.store.locales).forEach (s := w.begun made) ⟨hcleared, rfl⟩
    have hstore : (Job.bind (Job.forEach w.store.locales.codes loadOne) conclude
        (w.begun made)).state.store =
          (Job.forEach w.store.locales.codes loadOne (w.begun made)).state.store :=
      Job.state_bind_of_leaves store_conclude (w.begun made)
    refine ⟨before, rest, hstore ▸ hloaded, hstore ▸ hlocales, fun ⟨report, hreport⟩ => ?_⟩
    obtain ⟨entries, hentries, -⟩ := Job.exists_of_bind_result hreport
    exact hreturns ⟨entries, hentries⟩

/-- What lookups give after a load that may have failed, whatever was loaded before. The locales that
the store contains are the first ones in configured order, all of them if the load returned. A lookup
for one of these fails if and only if its chain leads to a locale of the rest, past locales that do not
translate the key. -/
theorem answersUpTo_load (w : Workspace) : ∃ before rest,
    w.store.locales.codes = before ++ rest ∧
    (load w).state.store.AnswersUpTo before rest ∧
    ((∃ report, (load w).result = .ok report) → rest = []) := by
  obtain ⟨before, rest, hloaded, hlocales, hreturns⟩ := isLoadedUpTo_load w
  exact ⟨before, rest, hlocales ▸ hloaded.codes, hloaded.answersUpTo, hreturns⟩

/-- Dutch and English, of which Dutch is loaded first and falls back on English. The English file
breaks off. -/
def brokenOff : Workspace where
  tree := ⟨[(["i18n"], .directory 0o755),
    (["i18n", "nl.json"], .file (content dutch).toUTF8 0o644),
    (["i18n", "en.json"], .file "\x7b".toUTF8 0o644)]⟩
  store := { locales := Locales.dutchAndEnglish, files := ⟨⟨"", ["i18n"]⟩⟩, addMissing := true }
  ledger := {}

/-- Dutch is in the store after the load has failed, and a lookup for it comes to English. -/
theorem lookup_load_brokenOff : (load brokenOff).state.store.contains "nl" = true ∧
    (load brokenOff).state.store.lookup "nl" "Hello" = .error (.notLoaded "en") := by
  have hfolder : brokenOff.tree.IsFolder brokenOff.store.files.directory ["i18n"] := ⟨rfl, rfl, rfl⟩
  have hsettled : brokenOff.store.IsSettled "nl" dutch :=
    ⟨isWritable_dutch, rfl, Or.inr ⟨"en", by decide, rfl⟩, rfl⟩
  obtain ⟨hin, hdutch⟩ := hsettled.canLoad hfolder rfl rfl
  obtain ⟨e, hbroken⟩ : ∃ e, brokenOff.store.recordOf brokenOff.tree "en" = .error e := by
    have honFile : brokenOff.store.OnFile brokenOff.tree "en" "\x7b" :=
      (onFile_iff hfolder rfl).mpr ⟨0o644, rfl⟩
    rw [recordOf_of_onFile honFile]
    exact ⟨_, rfl⟩
  obtain ⟨middle, -, -, hstore, hmiddle, hsame, hload⟩ :=
    outcome_load_of_first hfolder.makeDirectories hfolder rfl (List.forall_mem_singleton.mpr hdutch)
  have hfails : middle.store.recordOf middle.tree "en" = .error e := by
    rw [hstore, ← hbroken]
    exact (recordOf_congr hfolder rfl hmiddle hsame).1
  rw [(Prod.mk.inj (hload middle e (outcome_loadOne_error hfails))).1, hstore]
  simp only [takeAll, List.map_cons, List.map_nil, hin]
  exact ⟨rfl, rfl⟩

end Workspace

end LocaleBundle.Locale
