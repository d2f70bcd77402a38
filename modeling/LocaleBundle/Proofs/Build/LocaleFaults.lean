import LocaleBundle.Proofs.Build.History
import LocaleBundle.Proofs.Locale.Readable

/-!
# Loading locale files of any bytes

Whatever bytes are in the locale files, a load returns or fails with a fault of the locale data, but
for one way to fail: the first file that is not accepted may be no UTF-8 text. A start fails as its
load does. The limits of a decoder, which are left out of reading, are other ways to fail.
-/

namespace LocaleBundle

/-- Whether an error is a fault of the locale data. -/
def Error.IsLocaleFault (e : Error) : Prop := ∃ f, e = .fault f ∧ f.kind.isLocaleData = true

/-- Every reason to refuse the text of a locale's file is a fault of the locale data. -/
lemma Locale.Store.Refuses.isLocaleFault {store : Store} {code text : String} {e : Error}
    (h : store.Refuses code text e) : e.IsLocaleFault := by
  cases h with
  | json hparse => exact ⟨_, rfl, rfl⟩
  | shape hparse hshape hreason => exact ⟨_, rfl, rfl⟩
  | locale hparse hshape hlocale => exact ⟨_, rfl, rfl⟩
  | fallback hparse hshape hlocale htruthy hother => exact ⟨_, rfl, rfl⟩

namespace Locale.Workspace

open Files Store

/-- Whether the first locale file that is not accepted is no UTF-8 text. -/
def MeetsUndecodable (w : Workspace) (made : FileTree) : Prop :=
  ∃ before code rest, w.store.locales.codes = before ++ code :: rest ∧
    (∀ c ∈ before, w.store.AcceptsFile made c) ∧ w.store.IsUndecodable made code

/-- How a load may end: it fails for bytes that are no text only where it meets such bytes, and every
other failure is a fault of the locale data. -/
structure EndsByBytes (w : Workspace) (made : FileTree) (result : Except Error LoadReport) :
    Prop where
  undecodable : result = .error .undecodable ↔ MeetsUndecodable w made
  localeFault : ∀ e, result = .error e → e ≠ .undecodable → e.IsLocaleFault

variable {w : Workspace} {made : FileTree}

lemma not_undecodable {e : Error} (h : e.IsLocaleFault) : e ≠ .undecodable := by
  rintro rfl
  obtain ⟨f, hf, -⟩ := h
  exact absurd hf (by simp)

lemma not_meetsUndecodable_of_forall
    (h : ∀ code ∈ w.store.locales.codes, w.store.AcceptsFile made code) :
    ¬ MeetsUndecodable w made := by
  rintro ⟨before, code, rest, hcodes, -, hbytes⟩
  exact (h code (by simp [hcodes])).decodable hbytes

/-- The first file that is not accepted decides, and here it has a text. -/
lemma not_meetsUndecodable_of_first {before rest : List String} {code text : String}
    (hcodes : w.store.locales.codes = before ++ code :: rest)
    (hbefore : ∀ c ∈ before, w.store.AcceptsFile made c) (honFile : w.store.OnFile made code text)
    (hrejected : ¬ w.store.Accepts code text) : ¬ MeetsUndecodable w made := by
  rintro ⟨before', other, rest', hcodes', hbefore', hbytes⟩
  have hsame : code = other := eq_of_first (hcodes.symm.trans hcodes') hbefore
    (fun haccepts => hrejected (haccepts.accepts text honFile)) hbefore'
    fun haccepts => haccepts.decodable hbytes
  exact honFile.not_isUndecodable (hsame ▸ hbytes)

namespace EndsByBytes

lemma of_ok (hmeets : ¬ MeetsUndecodable w made) (report : LoadReport) :
    EndsByBytes w made (.ok report) :=
  ⟨iff_of_false (by simp) hmeets, fun _ he => absurd he (by simp)⟩

lemma of_isLocaleFault {e : Error} (hmeets : ¬ MeetsUndecodable w made) (hfault : e.IsLocaleFault) :
    EndsByBytes w made (.error e) := by
  refine ⟨iff_of_false (fun he => not_undecodable hfault (Except.error.inj he)) hmeets,
    fun e' he _ => ?_⟩
  rw [← Except.error.inj he]
  exact hfault

lemma of_meets (h : MeetsUndecodable w made) : EndsByBytes w made (.error .undecodable) :=
  ⟨iff_of_true rfl h, fun _ he hne => absurd (Except.error.inj he).symm hne⟩

end EndsByBytes

namespace Readable

/-- If all files are accepted, then a cycle is all that is left to refuse. -/
lemma endsByBytes_of_forall (h : Readable w made)
    (hall : ∀ code ∈ w.store.locales.codes, w.store.AcceptsFile made code) :
    EndsByBytes w made (load w).result := by
  obtain ⟨-, folder, hfolder⟩ := FileTree.isFolder_of_makeDirectories h.makes
  have hmeets := not_meetsUndecodable_of_forall hall
  have hcan : ∀ code ∈ w.store.locales.codes, CanLoad w.store made folder code :=
    fun code hcode => (h.canLoad_iff hcode hfolder).mpr (hall code hcode)
  obtain ⟨after, -, hload⟩ := outcome_load_of_canLoad h.makes hfolder hcan
  cases hcycles : (w.store.loadedFrom made).fallbacks.cycles with
  | nil =>
    rw [outcome_conclude_nil (w := { w with tree := after, store := w.store.loadedFrom made }) _
      h.isOpen hcycles] at hload
    rw [(Prod.mk.inj hload).2]
    exact .of_ok hmeets _
  | cons cycle others =>
    rw [outcome_conclude_cons (w := { w with tree := after, store := w.store.loadedFrom made }) _
      hcycles] at hload
    rw [(Prod.mk.inj hload).2]
    exact .of_isLocaleFault hmeets ⟨_, rfl, rfl⟩

/-- The first file that is not accepted ends the load. -/
lemma endsByBytes_of_first (h : Readable w made) {before rest : List String} {code : String}
    (hcodes : w.store.locales.codes = before ++ code :: rest)
    (hbefore : ∀ c ∈ before, w.store.AcceptsFile made c) (hnot : ¬ w.store.AcceptsFile made code) :
    EndsByBytes w made (load w).result := by
  obtain ⟨-, folder, hfolder⟩ := FileTree.isFolder_of_makeDirectories h.makes
  have hcan : ∀ c ∈ before, CanLoad w.store made folder c :=
    fun c hc => (h.canLoad_iff (by simp [hcodes, hc]) hfolder).mpr (hbefore c hc)
  have hreads := reads_recordOf (h.paths code (by simp [hcodes]))
  rw [← hreads.exists_iff] at hnot
  generalize hrecord : w.store.recordOf made code = result at hreads hnot
  cases hreads with
  | none hfind => exact absurd ⟨_, rfl⟩ hnot
  | accepted honFile haccepts hfrom => exact absurd ⟨_, rfl⟩ hnot
  | undecodable hbytes =>
    obtain ⟨after, hload, -⟩ := outcome_load_of_recordOf_error h.makes hfolder hcodes hcan hrecord
    rw [(Prod.mk.inj hload).2]
    exact .of_meets ⟨before, code, rest, hcodes, hbefore, hbytes⟩
  | refused honFile hrejected hrefuses =>
    obtain ⟨after, hload, -⟩ := outcome_load_of_recordOf_error h.makes hfolder hcodes hcan hrecord
    rw [(Prod.mk.inj hload).2]
    have hmeets := not_meetsUndecodable_of_first hcodes hbefore honFile hrejected
    exact .of_isLocaleFault hmeets hrefuses.isLocaleFault

/-- A load of readable files ends as their bytes say. -/
lemma endsByBytes (h : Readable w made) : EndsByBytes w made (load w).result := by
  rcases forall_or_first (w.store.AcceptsFile made) w.store.locales.codes with
    hall | ⟨before, code, rest, hcodes, hbefore, hnot⟩
  · exact h.endsByBytes_of_forall hall
  · exact h.endsByBytes_of_first hcodes hbefore hnot

end Readable

/-- The bytes of the locale files show in locale faults alone, but for bytes that are no UTF-8 text.
A load, and a start, of readable files returns or fails with a fault of the locale data; or else the
first file that is not accepted is no UTF-8 text, and it fails for that with an error of its own. That
these are all failures assumes files within the limits of a decoder that `Json.readDocument` leaves
out: one that is nested too deeply, or has an integer of more than 4300 digits, fails in other ways. -/
theorem load_and_start_of_bytes {τ : Type} (h : Readable w made) :
    EndsByBytes w made (load w).result ∧
      ∀ site : Site τ, site.loading = w → EndsByBytes w made (Site.start site).result := by
  refine ⟨h.endsByBytes, fun site hsite => ?_⟩
  rw [Site.result_start, hsite]
  exact h.endsByBytes

/-- A build of English whose locale file is a byte that begins no character. -/
def garbled : Site Unit where
  tree := ⟨[(["i18n"], .directory 0o755), (["i18n", "en.json"], .file ⟨#[0xff]⟩ 0o644)]⟩
  build := { config := ⟨Locales.english, "i18n", none, .bool true⟩, target := {} }
  notes := ()

lemma isFolder_garbled : garbled.tree.IsFolder garbled.loading.store.files.directory ["i18n"] :=
  ⟨rfl, rfl, rfl⟩

lemma readable_garbled : Readable garbled.loading garbled.tree := by
  refine ⟨isFolder_garbled.makeDirectories, fun code hcode => ?_, rfl⟩
  rw [List.mem_singleton.mp hcode]
  exact Or.inr ⟨⟨#[0xff]⟩, rfl⟩

lemma meetsUndecodable_garbled : MeetsUndecodable garbled.loading garbled.tree :=
  ⟨[], "en", [], rfl, List.forall_mem_nil _, ⟨#[0xff]⟩, rfl, by decide⟩

theorem load_and_start_of_bytes_garbled : Readable garbled.loading garbled.tree ∧
    (load garbled.loading).result = .error .undecodable ∧
    (Site.start garbled).result = .error .undecodable := by
  obtain ⟨hload, hstart⟩ := load_and_start_of_bytes (τ := Unit) readable_garbled
  exact ⟨readable_garbled, hload.undecodable.mpr meetsUndecodable_garbled,
    (hstart garbled rfl).undecodable.mpr meetsUndecodable_garbled⟩

/-- Neither the load nor the start fails with a fault of the locale data there. -/
theorem not_isLocaleFault_garbled : Readable garbled.loading garbled.tree ∧
    ¬ (∀ e, (load garbled.loading).result = .error e → e.IsLocaleFault) ∧
    ¬ ∀ e, (Site.start garbled).result = .error e → e.IsLocaleFault := by
  have hload := readable_garbled.endsByBytes.undecodable.mpr meetsUndecodable_garbled
  have hstart := (Site.result_start garbled).trans hload
  exact ⟨readable_garbled, fun h => not_undecodable (h _ hload) rfl,
    fun h => not_undecodable (h _ hstart) rfl⟩

end Locale.Workspace

end LocaleBundle
