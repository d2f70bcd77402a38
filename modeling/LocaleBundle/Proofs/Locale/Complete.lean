import LocaleBundle.Proofs.Locale.Consistent
import LocaleBundle.Proofs.Locale.Fallback
import LocaleBundle.Proofs.Locale.Search

/-!
# Stores that answer for every configured locale

After a load that returns, every configured locale has a record. Its translations are texts and
plural tables of JSON, and its fallback, if it names one, is a configured locale. Then a lookup for
a configured locale never meets a locale without a record.
-/

namespace LocaleBundle.Locale

open Record

namespace Store

/-- Whether a store has a record for every locale that a lookup for a configured locale leads to, and
its translations can be put into code. -/
structure IsComplete (store : Store) : Prop where
  hasRecord : ∀ code ∈ store.locales.codes, ∃ record, store.get code = .ok record
  areTranslations : ∀ e ∈ store.records, ∀ t ∈ e.2.translations, IsTranslation t.2
  holdsJson : store.HoldsJson
  fallback : ∀ code ∈ store.locales.codes, ∀ other,
    Fallbacks.FallsBack store.fallbacks code other → other ∈ store.locales.codes

variable {store : Store}

lemma IsComplete.exists_lookup (h : store.IsComplete) {locale : String}
    (hlocale : locale ∈ store.locales.codes) (key : String) :
    ∃ resolved, store.lookup locale key = .ok resolved := by
  apply exists_lookupIn
  intro code hcode
  exact h.hasRecord code (Fallbacks.mem_of_mem_chain h.fallback hlocale hcode)

end Store

namespace Workspace

variable {w : Workspace} {folder : Place} {record : String → Record}

/-- A store whose records agree with the files is complete. -/
lemma Consistent.isComplete (h : Consistent w folder record) : w.store.IsComplete := by
  have hsettled : ∀ e ∈ w.store.records, ∃ code, w.store.IsSettled code e.2 := by
    intro e he
    rw [h.records] at he
    obtain ⟨code, hcode, rfl⟩ := List.mem_map.mp he
    exact ⟨code, h.isSettled hcode⟩
  refine ⟨fun code hcode => ⟨_, h.get hcode⟩, ?_, ?_, ?_⟩
  · intro e he
    obtain ⟨code, hsettled⟩ := hsettled e he
    exact hsettled.writable.areTranslations
  · intro e he
    obtain ⟨code, hsettled⟩ := hsettled e he
    cases hsettled.writable.translationsJson with
    | map _ hjson => exact hjson
  · intro code hcode other hother
    rw [Fallbacks.FallsBack, Fallbacks.next?, h.fallbacks, Entries.get?_map _ hcode] at hother
    rcases (h.isSettled hcode).fallback with hnone | ⟨named, hnamed, hfallback⟩
    · rw [hnone] at hother
      exact absurd hother (by simp [Value.asText?])
    · rw [hfallback] at hother
      obtain rfl : named = other := Option.some.inj hother
      exact hnamed

/-- A load that returns leaves a complete store for the configured locales. -/
theorem isComplete_load {report : LoadReport} (h : (load w).result = .ok report) :
    (load w).state.store.IsComplete ∧ (load w).state.store.locales = w.store.locales := by
  obtain ⟨hsame, folder, record, hconsistent⟩ := consistent_load h
  exact ⟨hconsistent.isComplete, hsame.locales⟩

end Workspace

end LocaleBundle.Locale
