import LocaleBundle.Proofs.Json.IsJson
import LocaleBundle.Proofs.Text.Numeral

/-!
# The characters of a JSON text

Control characters of a text are escaped, so none of them is written as it is: the only one in a
JSON text is the line feed between the lines of an indented layout. A text written on one line
holds no line feed, and no written text holds a carriage return.
-/

namespace LocaleBundle.Json

open Text Numeral

/-- Whether a character is no control character below U+0020. -/
def IsShown (c : Char) : Prop := 0x20 ≤ c.toNat

instance : DecidablePred IsShown := fun c => inferInstanceAs (Decidable (0x20 ≤ c.toNat))

/-- Whether a character may stand in a text of the layout. -/
def IsWritten (layout : Layout) (c : Char) : Prop := IsShown c ∨ layout ≠ .compact ∧ c = '\n'

/-- The characters of a fixed text are checked one by one. -/
lemma isShown_of_all {cs : List Char} (h : (cs.all fun c => decide (IsShown c)) = true) :
    ∀ c ∈ cs, IsShown c := by
  intro c hc
  exact of_decide_eq_true (List.all_eq_true.mp h c hc)

lemma isShown_of_isDigit {c : Char} (h : c.isDigit = true) : IsShown c := by
  rw [Char.isDigit, Bool.and_eq_true, decide_eq_true_eq, decide_eq_true_eq] at h
  have hzero : (48 : UInt32) ≤ c.val := h.1
  have hle : (48 : ℕ) ≤ c.toNat := UInt32.le_iff_toNat_le.mp hzero
  unfold IsShown
  omega

/-! ## Numbers -/

lemma isShown_of_mem_ofNat {n : ℕ} : ∀ c ∈ ofNat n, IsShown c :=
  fun _ hc => isShown_of_isDigit (isDigit_of_mem_ofNat hc)

lemma isShown_of_mem_zeros {n : ℕ} : ∀ c ∈ List.replicate n '0', IsShown c := by
  intro c hc
  rw [(List.mem_replicate.mp hc).2]
  decide

lemma isShown_of_mem_ofInt (n : ℤ) : ∀ c ∈ ofInt n, IsShown c := by
  rw [ofInt]
  split
  · exact List.forall_mem_cons.mpr ⟨by decide, isShown_of_mem_ofNat⟩
  · exact isShown_of_mem_ofNat

lemma isShown_of_mem_positional {digits : List Char} (h : ∀ c ∈ digits, IsShown c) (before : ℤ) :
    ∀ c ∈ DoubleText.positional digits before, IsShown c := by
  rw [DoubleText.positional]
  split
  · simp only [List.cons_append, List.forall_mem_cons, List.forall_mem_append]
    exact ⟨by decide, by decide, isShown_of_mem_zeros, h⟩
  · simp only [List.forall_mem_append, List.forall_mem_cons]
    refine ⟨⟨fun c hc => h c (List.mem_of_mem_take hc), isShown_of_mem_zeros⟩, by decide, ?_⟩
    split
    · exact List.forall_mem_singleton.mpr (by decide)
    · exact fun c hc => h c (List.mem_of_mem_drop hc)

lemma isShown_of_mem_scientific (layout : DoubleText) {digits : List Char}
    (h : ∀ c ∈ digits, IsShown c) (exponent : ℤ) :
    ∀ c ∈ layout.scientific digits exponent, IsShown c := by
  have hsign : IsShown (if exponent < 0 then '-' else '+') := by split <;> decide
  simp only [DoubleText.scientific, List.forall_mem_append, List.forall_mem_cons]
  refine ⟨?_, by decide, hsign, isShown_of_mem_zeros, isShown_of_mem_ofNat⟩
  split
  · exact h
  · exact h
  · rename_i d rest _
    obtain ⟨hd, hrest⟩ := List.forall_mem_cons.mp h
    simp only [List.forall_mem_cons]
    exact ⟨hd, by decide, hrest⟩

lemma isShown_of_mem_magnitude (layout : DoubleText) (k : ℕ) :
    ∀ c ∈ layout.magnitude k, IsShown c := by
  simp only [DoubleText.magnitude]
  split
  · exact isShown_of_all rfl
  · split
    · exact isShown_of_mem_positional isShown_of_mem_ofNat _
    · exact isShown_of_mem_scientific layout isShown_of_mem_ofNat _

lemma isShown_of_mem_render (x : Binary64) : ∀ c ∈ DoubleText.json.render x, IsShown c := by
  have hsign : ∀ negative : Bool, ∀ c ∈ (if negative then ['-'] else []), IsShown c := by
    intro negative
    cases negative with
    | true => exact isShown_of_all rfl
    | false => exact isShown_of_all rfl
  cases x with
  | nan => exact isShown_of_all rfl
  | infinity negative => exact List.forall_mem_append.mpr ⟨hsign negative, isShown_of_all rfl⟩
  | finite negative k =>
    exact List.forall_mem_append.mpr ⟨hsign negative, isShown_of_mem_magnitude _ _⟩

/-! ## Texts -/

lemma isShown_of_mem_escape (c : Char) : ∀ d ∈ escape c, IsShown d := by
  have hdigits : ∀ n < 0x20, ((hex 4 n).all fun d => decide (IsShown d)) = true := by decide
  have hhex : ∀ n < 0x20, ∀ d ∈ hex 4 n, IsShown d := fun n hn => isShown_of_all (hdigits n hn)
  unfold escape
  split
  · exact isShown_of_all rfl
  split
  · exact isShown_of_all rfl
  split
  · exact isShown_of_all rfl
  split
  · exact isShown_of_all rfl
  split
  · exact isShown_of_all rfl
  split
  · exact isShown_of_all rfl
  split
  · exact isShown_of_all rfl
  split
  · rename_i hcontrol
    exact List.forall_mem_cons.mpr ⟨by decide, List.forall_mem_cons.mpr ⟨by decide, hhex _ hcontrol⟩⟩
  · rename_i hcontrol
    exact List.forall_mem_singleton.mpr (Nat.not_lt.mp hcontrol)

lemma isShown_of_mem_writeText (s : String) : ∀ c ∈ writeText s, IsShown c := by
  simp only [writeText, List.cons_append, List.forall_mem_cons, List.forall_mem_append]
  refine ⟨by decide, ?_, by decide, by simp⟩
  intro c hc
  obtain ⟨d, -, hcd⟩ := List.mem_flatMap.mp hc
  exact isShown_of_mem_escape d c hcd

/-! ## Values -/

lemma isWritten_of_mem_lineBreak (layout : Layout) (level : ℕ) :
    ∀ c ∈ layout.lineBreak level, IsWritten layout c := by
  cases layout with
  | compact => simp [Layout.lineBreak]
  | indented step =>
    refine List.forall_mem_cons.mpr ⟨Or.inr ⟨by simp, rfl⟩, fun c hc => ?_⟩
    rw [(List.mem_replicate.mp hc).2]
    exact Or.inl (by decide)

lemma isWritten_of_mem_between (layout : Layout) (level : ℕ) :
    ∀ c ∈ layout.between level, IsWritten layout c := by
  cases layout with
  | compact =>
    intro c hc
    simp only [Layout.between, List.mem_cons, List.not_mem_nil, or_false] at hc
    rcases hc with rfl | rfl <;> exact Or.inl (by decide)
  | indented step =>
    exact List.forall_mem_cons.mpr ⟨Or.inl (by decide),
      isWritten_of_mem_lineBreak (.indented step) level⟩

variable {layout : Layout}

lemma isWritten_of_shown {cs : List Char} (h : ∀ c ∈ cs, IsShown c) :
    ∀ c ∈ cs, IsWritten layout c := fun c hc => Or.inl (h c hc)

lemma isWritten_of_mem_writeItems {items : List Value} (level : ℕ)
    (h : ∀ v ∈ items, ∀ c ∈ write layout level v, IsWritten layout c) :
    ∀ c ∈ writeItems layout level items, IsWritten layout c := by
  induction items with
  | nil => simp [writeItems]
  | cons v items ih =>
    obtain ⟨hv, hitems⟩ := List.forall_mem_cons.mp h
    simp only [writeItems, List.forall_mem_append]
    exact ⟨⟨isWritten_of_mem_between layout level, hv⟩, ih hitems⟩

lemma isWritten_of_mem_writeEntries {entries : Entries Value} (level : ℕ)
    (h : ∀ e ∈ entries, ∀ c ∈ write layout level e.2, IsWritten layout c) :
    ∀ c ∈ writeEntries layout level entries, IsWritten layout c := by
  induction entries with
  | nil => simp [writeEntries]
  | cons e entries ih =>
    obtain ⟨he, hentries⟩ := List.forall_mem_cons.mp h
    simp only [writeEntries, List.forall_mem_append, List.forall_mem_cons]
    exact ⟨⟨⟨isWritten_of_mem_between layout level, isWritten_of_shown (isShown_of_mem_writeText _)⟩,
      Or.inl (by decide), Or.inl (by decide), he⟩, ih hentries⟩

/-- No control character is written but the line feeds of an indented layout. -/
theorem isWritten_of_mem_write {v : Value} (hv : v.IsJson) (level : ℕ) :
    ∀ c ∈ write layout level v, IsWritten layout c := by
  induction hv generalizing level with
  | null =>
    have hword : ∀ c ∈ "null".toList, IsShown c := isShown_of_all rfl
    exact isWritten_of_shown hword
  | bool b =>
    have htrue : ∀ c ∈ "true".toList, IsShown c := isShown_of_all rfl
    have hfalse : ∀ c ∈ "false".toList, IsShown c := isShown_of_all rfl
    cases b with
    | true => exact isWritten_of_shown htrue
    | false => exact isWritten_of_shown hfalse
  | int n =>
    rw [write]
    exact isWritten_of_shown (isShown_of_mem_ofInt n)
  | float x =>
    rw [write]
    exact isWritten_of_shown (isShown_of_mem_render x)
  | text s =>
    rw [write]
    exact isWritten_of_shown (isShown_of_mem_writeText s)
  | @list items hitems ih =>
    have hends : IsWritten layout '[' ∧ IsWritten layout ']' :=
      ⟨Or.inl (by decide), Or.inl (by decide)⟩
    cases items with
    | nil => exact List.forall_mem_cons.mpr ⟨hends.1, List.forall_mem_singleton.mpr hends.2⟩
    | cons v items =>
      obtain ⟨hv, hrest⟩ := List.forall_mem_cons.mp ih
      have hitems := isWritten_of_mem_writeItems (level + 1) fun v hv => hrest v hv (level + 1)
      simp only [write, List.cons_append, List.forall_mem_cons, List.forall_mem_append]
      exact ⟨hends.1, ⟨⟨⟨isWritten_of_mem_lineBreak _ _, hv _⟩, hitems⟩,
        isWritten_of_mem_lineBreak _ _⟩, hends.2, by simp⟩
  | @map entries hkeys hvalues ih =>
    have hends : IsWritten layout '\x7b' ∧ IsWritten layout '\x7d' :=
      ⟨Or.inl (by decide), Or.inl (by decide)⟩
    cases entries with
    | nil => exact List.forall_mem_cons.mpr ⟨hends.1, List.forall_mem_singleton.mpr hends.2⟩
    | cons e entries =>
      obtain ⟨he, hrest⟩ := List.forall_mem_cons.mp ih
      have hentries := isWritten_of_mem_writeEntries (level + 1) fun e he => hrest e he (level + 1)
      simp only [write, List.cons_append, List.forall_mem_cons, List.forall_mem_append]
      exact ⟨hends.1, ⟨⟨⟨⟨isWritten_of_mem_lineBreak _ _,
        isWritten_of_shown (isShown_of_mem_writeText _)⟩, Or.inl (by decide), Or.inl (by decide),
        he _⟩, hentries⟩, isWritten_of_mem_lineBreak _ _⟩, hends.2, by simp⟩

end LocaleBundle.Json
