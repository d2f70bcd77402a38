import LocaleBundle.Proofs.Bundle.Warned
import LocaleBundle.Proofs.Locale.FilledIn

/-!
# Copies before and after an audit

An audit puts empty translations behind those that are there, and nothing else. A lookup passes them,
so an audit cannot be seen in what is looked up or copied.
-/

namespace LocaleBundle.Bundle

open LocaleBundle.Locale

/-- An audit changes no lookup and no copy, whether it fills in missing keys or not, and whether it
returns or fails. From the store before it and from the one after it every lookup gives the same, and
whatever is copied with whatever plan gives the same copies, with the same warnings and the same log;
which warnings were given before does not matter for the copies. The keys that a record translates by
plural tables are the same, too. -/
theorem audit_invisible [Plural.Cldr] (w : Workspace) (fillIn : Bool) (keys : List String) :
    let audited := (Workspace.audit fillIn keys w).state.store
    (∀ locale key, audited.lookup locale key = w.store.lookup locale key) ∧
    (∀ (plan : Plan) artifacts, plan.copyAll audited artifacts = plan.copyAll w.store artifacts ∧
      ∀ warned warned', (plan.copyAll audited artifacts warned).result =
        (plan.copyAll w.store artifacts warned').result) ∧
    ∀ locale, (audited.get locale).map Record.pluralKeys =
      (w.store.get locale).map Record.pluralKeys := by
  intro audited
  have hfilled : w.store.FilledIn (· ∈ keys) audited :=
    Workspace.filledIn_audit (.refl _ w.store) fun _ _ hkey => hkey
  refine ⟨hfilled.lookup, fun plan artifacts => ?_, hfilled.map_get Record.pluralKeys_extended⟩
  have hcopies := plan.copyAll_congr hfilled.lookup hfilled.setup.locales artifacts
  refine ⟨hcopies, fun warned warned' => ?_⟩
  rw [hcopies]
  exact (plan.agree_copyAll w.store artifacts warned warned' trivial).2

end LocaleBundle.Bundle
