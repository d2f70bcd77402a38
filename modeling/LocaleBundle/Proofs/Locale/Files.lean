import LocaleBundle.Locale.Code
import LocaleBundle.Proofs.Json.Lines
import LocaleBundle.Proofs.Json.RoundTrip
import LocaleBundle.Proofs.Locale.Record
import LocaleBundle.Proofs.Locale.Replacing

/-!
# Locale files are written and read back

Writing a record changes one place of the tree, that of the locale's file: the temporary file is
gone afterwards. Only a directory at that place keeps the file from being written. What was written
is read as the value of the record.
-/

namespace LocaleBundle.Locale

/-! ## Names of files -/

namespace Code

/-- A locale code is two lowercase letters, alone or before a separator and two uppercase ones. -/
lemma exists_of_isValid {code : String} (h : isValid code = true) : ∃ a b region,
    code.toList = a :: b :: region ∧ isLower a = true ∧ isLower b = true ∧
      (region = [] ∨ ∃ separator c d, region = [separator, c, d] ∧
        (separator = '_' ∨ separator = '-') ∧ isUpper c = true ∧ isUpper d = true) := by
  unfold isValid parse? at h
  split at h
  · rename_i a b hcode
    have hletters : isLower a = true ∧ isLower b = true := by
      by_contra hnot
      simp [hnot] at h
    exact ⟨a, b, [], hcode, hletters.1, hletters.2, Or.inl rfl⟩
  · rename_i a b separator c d hcode
    have hletters : (((isLower a = true ∧ isLower b = true) ∧ (separator = '_' ∨ separator = '-')) ∧
        isUpper c = true) ∧ isUpper d = true := by
      by_contra hnot
      simp [hnot] at h
    obtain ⟨⟨⟨⟨ha, hb⟩, hseparator⟩, hc⟩, hd⟩ := hletters
    exact ⟨a, b, _, hcode, ha, hb, Or.inr ⟨separator, c, d, rfl, hseparator, hc, hd⟩⟩
  · exact absurd h (by simp)

lemma isLetter_of_isValid {code : String} (h : isValid code = true) : ∀ c ∈ code.toList,
    isLower c = true ∨ isUpper c = true ∨ c = '_' ∨ c = '-' := by
  obtain ⟨a, b, region, hcode, ha, hb, hregion⟩ := exists_of_isValid h
  rw [hcode]
  intro c hc
  rcases List.mem_cons.mp hc with rfl | hc
  · exact Or.inl ha
  rcases List.mem_cons.mp hc with rfl | hc
  · exact Or.inl hb
  rcases hregion with rfl | ⟨separator, d, e, rfl, hseparator, hd, he⟩
  · exact absurd hc List.not_mem_nil
  · simp only [List.mem_cons, List.not_mem_nil, or_false] at hc
    rcases hc with rfl | rfl | rfl
    · exact Or.inr (Or.inr hseparator)
    · exact Or.inr (Or.inl hd)
    · exact Or.inr (Or.inl he)

lemma notMem_of_isValid {code : String} (h : isValid code = true) {c : Char}
    (hc : (isLower c || isUpper c || c = '_' || c = '-') = false) : c ∉ code.toList := by
  intro hmem
  simp only [Bool.or_eq_false_iff, decide_eq_false_iff_not] at hc
  rcases isLetter_of_isValid h c hmem with hlower | hupper | hunderscore | hhyphen
  · exact Bool.false_ne_true (hc.1.1.1.symm.trans hlower)
  · exact Bool.false_ne_true (hc.1.1.2.symm.trans hupper)
  · exact hc.1.2 hunderscore
  · exact hc.2 hhyphen

end Code

namespace Files

variable {code : String} (hcode : Code.isValid code = true)

include hcode

lemma isName_json : Location.IsName (code ++ ".json") := by
  have hslash : '/' ∉ code.toList := Code.notMem_of_isValid hcode rfl
  have hnull : '\x00' ∉ code.toList := Code.notMem_of_isValid hcode rfl
  refine Location.isName_of_length ?_ ?_ ?_
  · simp [hslash]
  · simp [hnull]
  · simp only [String.toList_append, List.length_append]
    have hlength : ".json".toList.length = 5 := rfl
    omega

lemma isName_temporaryName (n : ℕ) : Location.IsName (temporaryName code n) := by
  have hother : ∀ c : Char, c.isDigit = false → c ∉ Nat.toDigits 10 n :=
    fun c hc hmem => Bool.false_ne_true (hc.symm.trans (Text.Numeral.isDigit_of_mem_ofNat hmem))
  have hslash : '/' ∉ code.toList := Code.notMem_of_isValid hcode rfl
  have hnull : '\x00' ∉ code.toList := Code.notMem_of_isValid hcode rfl
  refine Location.isName_of_length ?_ ?_ ?_
  · simp [temporaryName, hslash, hother '/' rfl]
  · simp [temporaryName, hnull, hother '\x00' rfl]
  · simp only [temporaryName, String.toList_append, List.length_append]
    have hlength : ".tmp".toList.length = 4 := rfl
    omega

omit hcode in
lemma temporaryName_injective (code : String) : Function.Injective (temporaryName code) := by
  intro m n h
  have hchars := congrArg String.toList h
  simp only [temporaryName, String.toList_append, List.append_cancel_right_eq,
    List.append_cancel_left_eq] at hchars
  simp only [Nat.toString_eq_repr, Nat.toList_repr] at hchars
  have hread := congrArg Text.Numeral.toNat hchars
  rwa [← Text.Numeral.ofNat, ← Text.Numeral.ofNat, Text.Numeral.toNat_ofNat,
    Text.Numeral.toNat_ofNat] at hread

/-! ## Writing -/

/-- The place of a locale's file in the folder of the locale files. -/
def placeIn (folder : Place) (code : String) : Place := folder ++ [code ++ ".json"]

omit hcode in
lemma placeIn_injective (folder : Place) : Function.Injective (placeIn folder) := by
  intro a b h
  have hname := List.singleton_injective (List.append_cancel_left h)
  have hchars := congrArg String.toList hname
  simp only [String.toList_append, List.append_cancel_right_eq] at hchars
  exact String.toList_inj.mp hchars

variable {files : Files} {tree after : FileTree} {folder : Place}
  (hfolder : tree.IsFolder files.directory folder)

include hfolder

lemma find_location : tree.find (files.location code) =
    match tree.at? (placeIn folder code) with
    | none => .error .notFound
    | some node => .ok (placeIn folder code, node) :=
  hfolder.find_join (isName_json hcode)

/-- A temporary file has a free place. -/
lemma exists_temporary : ∃ place, tree.IsFree (files.temporary tree code) place := by
  have hplace : ∀ n, tree.resolve (files.directory.join (temporaryName code n)) =
      .ok (folder ++ [temporaryName code n]) :=
    fun n => hfolder.resolve_join (isName_temporaryName hcode n)
  have hfree : ∀ n, (tree.find (files.directory.join (temporaryName code n))).toOption.isNone = true ↔
      tree.at? (folder ++ [temporaryName code n]) = none := by
    intro n
    rw [hfolder.find_join (isName_temporaryName hcode n)]
    cases tree.at? (folder ++ [temporaryName code n]) <;> simp [Except.toOption]
  simp only [temporary]
  cases hsearch : ((List.range (tree.nodes.length + 1)).map fun n =>
      files.directory.join (temporaryName code n)).find?
      (fun l => (tree.find l).toOption.isNone) with
  | some l =>
    obtain ⟨n, -, rfl⟩ := List.mem_map.mp (List.mem_of_find?_eq_some hsearch)
    have hnone := List.find?_some hsearch
    exact ⟨_, hplace n, (hfree n).mp hnone⟩
  | none =>
    -- there are more names than nodes, so they are not all taken
    have hinjective : Function.Injective fun n => folder ++ [temporaryName code n] := by
      intro m n h
      exact temporaryName_injective code (List.singleton_injective (List.append_cancel_left h))
    have hnodup := (List.nodup_map_iff hinjective).mpr
      (List.nodup_range (n := tree.nodes.length + 1))
    have hlength : tree.nodes.length < ((List.range (tree.nodes.length + 1)).map fun n =>
        folder ++ [temporaryName code n]).length := by simp
    obtain ⟨p, hp, hnone⟩ := FileTree.exists_free hnodup (by simp) hlength
    obtain ⟨n, hn, rfl⟩ := List.mem_map.mp hp
    have htaken := List.find?_eq_none.mp hsearch _ (List.mem_map_of_mem hn)
    exact absurd ((hfree n).mpr hnone) htaken

variable {record : Record} (hlocale : record.locale = .text code)

omit hcode hfolder in
include hlocale in
lemma localeText_eq : localeText record = code := by
  rw [localeText, hlocale, Value.display]

include hlocale

/-- A record is written, at its place and nowhere else, unless a directory is in the way. -/
theorem outcome_write {text : String} (hencode : encode record = .ok text)
    (htarget : ∀ m, tree.at? (placeIn folder code) ≠ some (.directory m)) :
    ∃ after mode, Job.outcome (files.write record) tree = (after, .ok (files.path code)) ∧
      targetMode tree (files.location code) = .ok mode ∧
      ∀ p, after.at? p = if p = placeIn folder code then some (.file text.toUTF8 mode)
        else tree.at? p := by
  have hresolve : tree.resolve (files.location code) = .ok (placeIn folder code) :=
    hfolder.resolve_join (isName_json hcode)
  obtain ⟨mode, hmode⟩ := exists_targetMode hresolve
  refine ⟨tree.set (placeIn folder code) (.file text.toUTF8 mode), mode, ?_, hmode, fun p =>
    FileTree.at?_set _ _ p _ (FileTree.ne_nil_of_not_directory htarget)⟩
  refine writeAgainst_eq_ok_iff.mpr ⟨by rw [localeText_eq hlocale], text, hencode, ?_⟩
  rw [localeText_eq hlocale]
  exact replace_eq_ok_iff.mpr ⟨fun _ => rfl, exists_temporary hcode hfolder, placeIn folder code,
    mode, hresolve, htarget, hmode, rfl⟩

/-- A directory at its place keeps a record from being written. -/
theorem write_directory {m : ℕ} (htarget : tree.at? (placeIn folder code) = some (.directory m)) :
    ∃ e, (files.write record tree).result = .error e := by
  cases hresult : (files.write record tree).result with
  | error e => exact ⟨e, rfl⟩
  | ok path =>
    obtain ⟨-, -, text, goal, mode, -, hgoal, hclear, -⟩ :=
      exists_set_of_writeAgainst (Job.outcome_of_result hresult)
    rw [localeText_eq hlocale] at hgoal
    obtain rfl := Except.ok.inj ((hfolder.resolve_join (isName_json hcode)).symm.trans hgoal)
    exact absurd htarget (hclear m)

omit hcode hfolder hlocale

/-! ## Reading -/

/-- The text of the file of a record that can be written. -/
def content (record : Record) : String :=
  String.ofList (Json.write (.indented 2) 0 record.toValue ++ ['\n'])

lemma encode_eq (h : record.toValue.IsJson) : encode record = .ok (content record) := by
  rw [encode, Json.encode_of_isJson _ h]
  rfl

lemma unifyLineEnds_of_notMem {cs : List Char} (h : '\r' ∉ cs) : unifyLineEnds cs = cs := by
  induction cs with
  | nil => rfl
  | cons c cs ih =>
    simp only [List.mem_cons, not_or] at h
    rw [unifyLineEnds, ih h.2]
    · exact fun s hc _ => h.1 hc.symm
    · exact fun hc => h.1 hc.symm

lemma fromUTF8?_toUTF8 (s : String) : String.fromUTF8? s.toUTF8 = some s := by
  have hvalid : s.toByteArray.IsValidUTF8 := s.isValidUTF8
  unfold String.fromUTF8?
  simp [String.fromUTF8, hvalid]

/-- What the text of a file writes. -/
def parse (text : String) : Except Json.ReadError Value :=
  Json.readDocument (unifyLineEnds text.toList)

/-- What is written is read as the value of the record. -/
theorem parse_content (h : record.toValue.IsJson) : parse (content record) = .ok record.toValue := by
  have hreturn : '\r' ∉ Json.write (.indented 2) 0 record.toValue ++ ['\n'] := by
    rw [List.mem_append, List.mem_singleton]
    rintro (hwritten | hfeed)
    · rcases Json.isWritten_of_mem_write h 0 _ hwritten with hshown | ⟨-, hfeed⟩
      · exact absurd hshown (by decide)
      · exact absurd hfeed (by decide)
    · exact absurd hfeed (by decide)
  have hblanks : ∀ c ∈ ['\n'], Json.isBlank c = true := List.forall_mem_singleton.mpr rfl
  rw [parse, content, String.toList_ofList, unifyLineEnds_of_notMem hreturn]
  exact Json.readDocument_write_append (.indented 2) 0 h hblanks

include hcode hfolder

lemma isPresent_iff : files.isPresent tree code = true ↔
    ∃ bytes mode, tree.at? (placeIn folder code) = some (.file bytes mode) := by
  rw [isPresent, FileTree.isFile, find_location hcode hfolder]
  cases tree.at? (placeIn folder code) with
  | none => simp
  | some node => cases node <;> simp

end Files

end LocaleBundle.Locale
