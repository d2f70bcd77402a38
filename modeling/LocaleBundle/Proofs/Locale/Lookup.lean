import LocaleBundle.Proofs.Locale.Backfill
import LocaleBundle.Proofs.Locale.Chain
import LocaleBundle.Proofs.Locale.FilledIn
import LocaleBundle.Proofs.Locale.PartialLoad

/-!
# Lookups after a load

A load that returns leaves a store with the records of all configured locales and fallbacks that come
to an end, and audits keep it so. In such a store every chain leads through records to one without a
fallback, and a lookup gives the first usable translation on the way.
-/

namespace LocaleBundle.Locale

open Record

namespace Store

/-- Whether a store holds the records of all configured locales, and their fallbacks come to an
end. -/
structure IsReady (store : Store) : Prop where
  loaded : store.IsLoadedUpTo store.locales.codes []
  acyclic : store.fallbacks.cycles = []

variable {store : Store} {locale code key : String} {record : Record}

/-- A record may be completed: its fallback stays. -/
lemma IsLoadedUpTo.putRecord {before rest : List String} (h : store.IsLoadedUpTo before rest)
    (hget : store.get code = .ok record) (keys : List String) :
    (store.putRecord code (record.completed keys)).IsLoadedUpTo before rest := by
  have hlocales : (store.putRecord code (record.completed keys)).locales = store.locales := rfl
  refine ⟨h.codes, ?_, h.fallbacks, fun other r hr => ?_⟩
  · show (Entries.insert code (record.completed keys) store.records).keys = before
    rw [Entries.keys_insert, if_pos (mem_keys_of_get hget), h.records]
  · rw [get_putRecord] at hr
    by_cases hother : code = other
    · rw [if_pos hother] at hr
      obtain rfl := Except.ok.inj hr
      obtain ⟨hsettled, hnext⟩ := h.settled code record hget
      exact hother ▸ ⟨(hsettled.completed keys).of_same hlocales, hnext⟩
    · rw [if_neg hother] at hr
      obtain ⟨hsettled, hnext⟩ := h.settled other r hr
      exact ⟨hsettled.of_same hlocales, hnext⟩

lemma IsReady.putRecord (h : store.IsReady) (hget : store.get code = .ok record)
    (keys : List String) : (store.putRecord code (record.completed keys)).IsReady :=
  ⟨h.loaded.putRecord hget keys, h.acyclic⟩

/-- What lookups for a locale give. The chain leads from the locale over the fallbacks that the
records name, each locale once, to a record without one. A lookup gives the translation of the first
locale of the chain that has a usable one, and nothing if there is none; it does not fail. -/
structure Answers (store : Store) (locale : String) : Prop where
  head : (store.chain locale).head? = some locale
  nodup : (store.chain locale).Nodup
  loaded : ∀ code ∈ store.chain locale, code ∈ store.locales.codes ∧
    ∃ record, store.get code = .ok record
  steps : (store.chain locale).IsChain fun a b =>
    ∃ record, store.get a = .ok record ∧ record.fallback = .text b
  last : ∃ last record, (store.chain locale).getLast? = some last ∧
    store.get last = .ok record ∧ record.fallback = .null
  returns : ∀ key, ∃ resolved, store.lookup locale key = .ok resolved
  found : ∀ key resolved, store.lookup locale key = .ok (some resolved) ↔
    resolved.requested = locale ∧ ∃ front back, store.chain locale = front ++ resolved.locale :: back ∧
      (∀ code ∈ front, ∀ v, ¬ store.Translates code key v) ∧
      store.Translates resolved.locale key resolved.value
  missing : ∀ key, store.lookup locale key = .ok none ↔
    ∀ code ∈ store.chain locale, ∀ v, ¬ store.Translates code key v

namespace IsReady

variable (h : store.IsReady)

include h

/-- A locale without a fallback has a record that names none. -/
lemma fallback_eq_null (hcode : code ∈ store.locales.codes)
    (hnone : store.fallbacks.next? code = none) :
    ∃ record, store.get code = .ok record ∧ record.fallback = .null := by
  obtain ⟨record, hget⟩ := h.loaded.exists_get hcode
  obtain ⟨hsettled, hnext⟩ := h.loaded.settled code record hget
  refine ⟨record, hget, ?_⟩
  rcases hsettled.fallback with hnull | ⟨other, -, htext⟩
  · exact hnull
  · rw [htext, hnone] at hnext
    exact absurd hnext (by simp [Value.asText?])

lemma answers (hlocale : locale ∈ store.locales.codes) : store.Answers locale := by
  obtain ⟨closed, hwalk⟩ := Fallbacks.isWalk_chain store.fallbacks locale
  have hcodes : ∀ code ∈ store.chain locale, code ∈ store.locales.codes :=
    fun code hcode => h.loaded.mem_codes_of_mem_chain hlocale hcode
  have hloaded : ∀ code ∈ store.chain locale, ∃ record, store.get code = .ok record :=
    fun code hcode => h.loaded.exists_get (hcodes code hcode)
  refine ⟨hwalk.head, hwalk.nodup, fun code hcode => ⟨hcodes code hcode, hloaded code hcode⟩, ?_, ?_,
    fun key => exists_lookupIn hloaded, fun key resolved => ?_, fun key => ?_⟩
  · refine hwalk.chain.imp fun a b hstep => ?_
    obtain ⟨record, hget, htext, -⟩ := h.loaded.exists_of_fallsBack hstep
    exact ⟨record, hget, htext⟩
  · obtain ⟨last, hlast, hnone⟩ := Fallbacks.exists_last_chain h.acyclic locale
    have hmem : last ∈ store.chain locale := List.mem_of_getLast? hlast
    obtain ⟨record, hget, hnull⟩ := h.fallback_eq_null (hcodes last hmem) hnone
    exact ⟨last, record, hlast, hget, hnull⟩
  · rw [lookup, lookupIn_eq_some_iff]
    simp only [h.loaded.translationIn_eq_some_iff, h.loaded.translationIn_eq_none_iff]
    refine and_congr_right fun _ => exists₂_congr fun front back => and_congr_right fun hsplit => ?_
    have hfront : ∀ code ∈ front, code ∈ store.locales.codes :=
      fun code hcode => hcodes code (hsplit ▸ List.mem_append_left _ hcode)
    exact and_congr_left fun _ => forall₂_congr fun code hcode => and_iff_right (hfront code hcode)
  · rw [lookup, lookupIn_eq_none_iff]
    simp only [h.loaded.translationIn_eq_none_iff]
    exact forall₂_congr fun code hcode => and_iff_right (hcodes code hcode)

end IsReady

end Store

namespace Workspace

open Files Store

/-- Whether a workspace comes from another by audits, of one locale or of all, that return or fail.
Between them the files and the ledger may change in any way. -/
inductive AuditedFrom (w : Workspace) : Workspace → Prop
  | refl : AuditedFrom w w
  | elsewhere {v : Workspace} (tree : FileTree) (ledger : KeyLedger) (h : AuditedFrom w v) :
    AuditedFrom w { v with tree := tree, ledger := ledger }
  | auditOne {v : Workspace} (fillIn : Bool) (keys : List String) (locale : String)
    (h : AuditedFrom w v) : AuditedFrom w (Workspace.auditOne fillIn keys locale v).state
  | audit {v : Workspace} (fillIn : Bool) (keys : List String) (h : AuditedFrom w v) :
    AuditedFrom w (Workspace.audit fillIn keys v).state

variable {w v : Workspace} {locale : String} {report : LoadReport}

/-- What is kept when a record is completed is true after audits. -/
lemma AuditedFrom.keeps {P : Store → Prop}
    (hput : ∀ store code record keys, P store → store.get code = .ok record →
      P (store.putRecord code (record.completed keys)))
    (h : AuditedFrom w v) (hw : P w.store) : P v.store := by
  induction h with
  | refl => exact hw
  | elsewhere tree ledger _ ih => exact ih
  | auditOne fillIn keys locale _ ih =>
    exact (keeps_auditOne (P := fun w => P w.store)
      (fun _ _ _ _ hw hget => hput _ _ _ _ hw hget) (fun _ _ _ hw => hw) locale _ ih).1
  | audit fillIn keys _ ih =>
    exact (keeps_audit (P := fun w => P w.store)
      (fun _ _ _ _ hw hget => hput _ _ _ _ hw hget) (fun _ _ _ hw => hw) _ ih).1

/-- A store is ready after a load that returns and whatever audits come later. -/
lemma isReady_of_load (hload : (load w).result = .ok report) (h : AuditedFrom (load w).state v) :
    v.store.IsReady ∧ SameSetup w.store v.store := by
  obtain ⟨before, rest, hloaded, -, hreturns⟩ := isLoadedUpTo_load w
  obtain rfl := hreturns ⟨report, hload⟩
  obtain ⟨hsame, folder, record, hconsistent⟩ := consistent_load hload
  have hcodes : (load w).state.store.locales.codes = before := by
    rw [hloaded.codes, List.append_nil]
  have hready : (load w).state.store.IsReady := ⟨hcodes.symm ▸ hloaded, hconsistent.acyclic⟩
  refine h.keeps (P := fun store => store.IsReady ∧ SameSetup w.store store) ?_ ⟨hready, hsame⟩
  rintro store code record keys ⟨hstore, hsetup⟩ hget
  exact ⟨hstore.putRecord hget keys, hsetup.trans ⟨rfl, rfl, rfl⟩⟩

/-- After a load that returns and any audits later, lookups for every configured locale return and
give the first usable translation along its fallbacks. -/
theorem answers_of_load (hload : (load w).result = .ok report) (h : AuditedFrom (load w).state v)
    (hlocale : locale ∈ w.store.locales.codes) : v.store.Answers locale := by
  obtain ⟨hready, hsame⟩ := isReady_of_load hload h
  exact hready.answers (hsame.locales ▸ hlocale)

/-- An English greeting. -/
def greeting : Record :=
  { locale := .text "en", name := "English", translations := [("Hello", .text "Good morning")] }

lemma isWritable_greeting : greeting.IsWritable where
  locale := .text _
  fallback := Or.inl rfl
  fallbackJson := .null
  areTranslations := List.forall_mem_singleton.mpr (.text _)
  translationsJson := .map (List.nodup_singleton _) (List.forall_mem_singleton.mpr (.text _))
  extraNames := List.forall_mem_nil _
  extraJson := .map List.nodup_nil (List.forall_mem_nil _)

/-- Dutch, which falls back on English, and English with a greeting. -/
def greeted : Workspace where
  tree := ⟨[(["i18n"], .directory 0o755),
    (["i18n", "nl.json"], .file (content dutch).toUTF8 0o644),
    (["i18n", "en.json"], .file (content greeting).toUTF8 0o644)]⟩
  store := { locales := Locales.dutchAndEnglish, files := ⟨⟨"", ["i18n"]⟩⟩, addMissing := true }
  ledger := {}

lemma load_greeted : ∃ report, (load greeted).result = .ok report ∧
    (load greeted).state.store = { greeted.store with
      records := [("nl", dutch), ("en", greeting)]
      fallbacks := [("nl", some "en"), ("en", none)] } := by
  have hfolder : greeted.tree.IsFolder greeted.store.files.directory ["i18n"] := ⟨rfl, rfl, rfl⟩
  have hnl : greeted.store.IsSettled "nl" dutch :=
    ⟨isWritable_dutch, rfl, Or.inr ⟨"en", by decide, rfl⟩, rfl⟩
  have hen : greeted.store.IsSettled "en" greeting := ⟨isWritable_greeting, rfl, Or.inl rfl, rfl⟩
  obtain ⟨hdutch, hcanDutch⟩ := hnl.canLoad hfolder rfl rfl
  obtain ⟨henglish, hcanEnglish⟩ := hen.canLoad hfolder rfl rfl
  have hcan : ∀ code ∈ greeted.store.locales.codes,
      CanLoad greeted.store greeted.tree ["i18n"] code :=
    List.forall_mem_cons.mpr ⟨hcanDutch, List.forall_mem_singleton.mpr hcanEnglish⟩
  have hstore : greeted.store.loadedFrom greeted.tree = { greeted.store with
      records := [("nl", dutch), ("en", greeting)]
      fallbacks := [("nl", some "en"), ("en", none)] } := by
    have hcodes : greeted.store.locales.codes = ["nl", "en"] := rfl
    simp only [loadedFrom, hcodes, List.map_cons, List.map_nil, hdutch, henglish]
    rfl
  obtain ⟨after, -, hload⟩ := outcome_load_of_canLoad hfolder.makeDirectories hfolder hcan
  rw [hstore, outcome_conclude_nil _ rfl rfl] at hload
  obtain ⟨hstate, hresult⟩ := Prod.mk.inj hload
  rw [hstate, hresult]
  exact ⟨_, rfl, rfl⟩

/-- Dutch is answered in English, also when an audit has put an empty Dutch greeting in. -/
theorem answers_of_load_greeted : ∃ report, (load greeted).result = .ok report ∧
    (audit true ["Hello"] (load greeted).state).state.store.Answers "nl" ∧
    (audit true ["Hello"] (load greeted).state).state.store.lookup "nl" "Hello" =
      .ok (some ⟨.text "Good morning", "en", "nl"⟩) := by
  obtain ⟨report, hload, hstore⟩ := load_greeted
  have hfilled : (load greeted).state.store.FilledIn (· ∈ ["Hello"])
      (audit true ["Hello"] (load greeted).state).state.store :=
    filledIn_audit (.refl _ _) fun _ _ hkey => hkey
  refine ⟨report, hload, answers_of_load hload (.audit true ["Hello"] .refl) (by decide), ?_⟩
  rw [hfilled.lookup, hstore]
  rfl

end Workspace

end LocaleBundle.Locale
