import LocaleBundle.Proofs.File.Tree

/-!
# Temporary files

A file that is made where nothing was can be filled, renamed over another file, or removed again. None
of that touches a directory, so all locations keep their places meanwhile. And when the file has left
its place, nothing shows that it was there.
-/

namespace LocaleBundle.FileTree

variable {tree after created : FileTree} {location temp target : Location} {directory : Location}
  {folder place goal : Place} {name : String} {node new : FileNode} {content old : ByteArray}
  {mode : ℕ} {nodes : List (Place × FileNode)}

/-! ## Nodes that come and go -/

lemma setNode_setNode (place : Place) (node new : FileNode) (nodes : List (Place × FileNode)) :
    setNode place new (setNode place node nodes) = setNode place new nodes := by
  induction nodes with
  | nil => simp [setNode]
  | cons head nodes ih =>
    obtain ⟨p, n⟩ := head
    by_cases hp : p = place
    · simp [setNode, hp]
    · simp [setNode, hp, ih]

lemma filter_setNode (place : Place) (node : FileNode) (nodes : List (Place × FileNode)) :
    ((setNode place node nodes).filter fun (p, _) => p ≠ place) =
      nodes.filter fun (p, _) => p ≠ place := by
  induction nodes with
  | nil => simp [setNode]
  | cons head nodes ih =>
    obtain ⟨p, n⟩ := head
    by_cases hp : p = place
    · simp [setNode, hp]
    · simpa [setNode, hp] using ih

lemma filter_of_lookup_none (h : nodes.lookup place = none) :
    (nodes.filter fun (p, _) => p ≠ place) = nodes := by
  rw [List.filter_eq_self]
  rintro ⟨p, n⟩ hmem
  have hne : place ≠ p := by simpa using List.lookup_eq_none_iff.mp h _ hmem
  simpa using hne.symm

/-- Writing what is there changes nothing. -/
lemma setNode_of_lookup (h : nodes.lookup place = some node) : setNode place node nodes = nodes := by
  induction nodes with
  | nil => exact absurd h (by simp)
  | cons head nodes ih =>
    obtain ⟨p, n⟩ := head
    by_cases hp : p = place
    · subst hp
      rw [List.lookup_cons_self] at h
      rw [setNode, if_pos rfl, Option.some.inj h]
    · rw [List.lookup_cons, beq_false_of_ne (Ne.symm hp)] at h
      rw [setNode, if_neg hp, ih h]

lemma set_set (tree : FileTree) (place : Place) (node new : FileNode) :
    (tree.set place node).set place new = tree.set place new :=
  congrArg FileTree.mk (setNode_setNode place node new tree.nodes)

lemma ne_nil_of_not_directory (h : ∀ m, tree.at? place ≠ some (.directory m)) : place ≠ [] := by
  rintro rfl
  exact h newDirectoryMode rfl

/-- What was put where nothing was and is removed again has left nothing. -/
lemma remove_set (h : tree.at? place = none) (node : FileNode) :
    (tree.set place node).remove place = tree := by
  have hplace : place ≠ [] := by
    rintro rfl
    exact absurd h (by simp [at?])
  have hlookup : tree.nodes.lookup place = none := by rwa [at?, if_neg hplace] at h
  exact congrArg FileTree.mk
    ((filter_setNode place node tree.nodes).trans (filter_of_lookup_none hlookup))

lemma set_of_at? (hplace : place ≠ []) (h : tree.at? place = some node) :
    tree.set place node = tree := by
  rw [at?, if_neg hplace] at h
  exact congrArg FileTree.mk (setNode_of_lookup h)

/-! ## The same directories -/

/-- The place of a file is in its directory, if that is there. -/
lemma exists_isFolder_of_resolve (hname : Location.IsName name)
    (h : tree.resolve (directory.join name) = .ok place) :
    ∃ folder, tree.IsFolder directory folder ∧ place = folder ++ [name] := by
  rw [resolve, Location.join_of_isName directory hname] at h
  by_cases hnameable : Location.isNameable { directory with parts := directory.parts ++ [name] } = true
  · simp only [hnameable, Bool.not_true, Bool.false_eq_true, if_false] at h
    by_cases hroot : directory.root = ""
    · rw [if_pos hroot, resolveFrom_append_name hname.notUp] at h
      cases henters : tree.enterAll [] directory.parts with
      | error e =>
        rw [henters] at h
        exact absurd h (by simp [Except.map])
      | ok folder =>
        rw [henters] at h
        refine ⟨folder, ⟨hroot, ?_, henters⟩, (Except.ok.inj h).symm⟩
        unfold Location.isNameable at hnameable ⊢
        rw [List.all_append, Bool.and_eq_true] at hnameable
        exact hnameable.1
    · rw [if_neg hroot] at h
      exact absurd h (by simp)
  · simp [hnameable] at h

lemma resolveFrom_of_keepsDirectories (hkeeps : KeepsDirectories tree after) {parts : List String}
    (h : resolveFrom tree place parts = .ok goal) : resolveFrom after place parts = .ok goal := by
  induction parts generalizing place with
  | nil => exact h
  | cons part parts ih =>
    cases parts with
    | nil => exact h
    | cons next rest =>
      rw [resolveFrom] at h ⊢
      · cases hstep : enter tree place part with
        | error e =>
          rw [hstep] at h
          exact absurd h (by simp)
        | ok middle =>
          rw [hstep] at h
          rw [enter_of_keepsDirectories hkeeps hstep]
          exact ih h
      · simp
      · simp

lemma resolve_of_keepsDirectories (hkeeps : KeepsDirectories tree after)
    (h : tree.resolve location = .ok place) : after.resolve location = .ok place := by
  unfold resolve at h ⊢
  split
  · rename_i hnot
    rw [if_pos hnot] at h
    exact absurd h (by simp)
  · rename_i hnameable
    rw [if_neg hnameable] at h
    split
    · rename_i hroot
      rw [if_pos hroot] at h
      exact resolveFrom_of_keepsDirectories hkeeps h
    · rename_i hroot
      rw [if_neg hroot] at h
      exact absurd h (by simp)

/-- Whether two trees have the same directories. -/
def SameDirectories (tree after : FileTree) : Prop :=
  ∀ p m, after.at? p = some (.directory m) ↔ tree.at? p = some (.directory m)

namespace SameDirectories

lemma refl (tree : FileTree) : SameDirectories tree tree := fun _ _ => Iff.rfl

lemma trans {middle : FileTree} (h : SameDirectories tree middle)
    (h' : SameDirectories middle after) : SameDirectories tree after :=
  fun p m => (h' p m).trans (h p m)

/-- A file is put where no directory is. -/
lemma set_file (h : ∀ m, tree.at? place ≠ some (.directory m)) (content : ByteArray) (mode : ℕ) :
    SameDirectories tree (tree.set place (.file content mode)) := by
  intro p m
  rw [at?_set _ _ _ _ (ne_nil_of_not_directory h)]
  by_cases hp : p = place
  · rw [if_pos hp, hp]
    exact iff_of_false (by simp) (h m)
  · rw [if_neg hp]

variable (h : SameDirectories tree after)

include h

lemma keeps : KeepsDirectories tree after := fun p m => (h p m).mpr

lemma keeps_back : KeepsDirectories after tree := fun p m => (h p m).mp

lemma isFolder_iff : after.IsFolder directory folder ↔ tree.IsFolder directory folder :=
  ⟨fun hfolder => hfolder.of_keepsDirectories h.keeps_back,
    fun hfolder => hfolder.of_keepsDirectories h.keeps⟩

/-- Locations have the same places in trees with the same directories. -/
lemma resolve_iff : after.resolve location = .ok place ↔ tree.resolve location = .ok place :=
  ⟨resolve_of_keepsDirectories h.keeps_back, resolve_of_keepsDirectories h.keeps⟩

end SameDirectories

/-! ## What is at a location -/

lemma find_of_resolve (h : tree.resolve location = .ok place) (hnode : tree.at? place = some node) :
    tree.find location = .ok (place, node) := by
  simp only [find, h, hnode]

/-- What is read is in a file at the place. -/
lemma read_eq_ok_iff : tree.read location = .ok content ↔
    ∃ place mode, tree.resolve location = .ok place ∧
      tree.at? place = some (.file content mode) := by
  unfold read find
  cases tree.resolve location with
  | error e => simp
  | ok place =>
    cases hnode : tree.at? place with
    | none => simp [hnode]
    | some node => cases node <;> simp [hnode]

/-- A file that was written is read. -/
lemma read_set (h : tree.resolve location = .ok place)
    (hclear : ∀ m, tree.at? place ≠ some (.directory m)) (content : ByteArray) (mode : ℕ) :
    (tree.set place (.file content mode)).read location = .ok content := by
  refine read_eq_ok_iff.mpr ⟨place, mode, ?_, ?_⟩
  · exact (SameDirectories.set_file hclear content mode).resolve_iff.mpr h
  · rw [at?_set _ _ _ _ (ne_nil_of_not_directory hclear), if_pos rfl]

/-! ## A file at a free place -/

/-- Whether nothing is at the place of a location. -/
structure IsFree (tree : FileTree) (location : Location) (place : Place) : Prop where
  resolves : tree.resolve location = .ok place
  free : tree.at? place = none

lemma createFile_eq_ok_iff : tree.createFile location = .ok created ↔
    ∃ place, tree.IsFree location place ∧
      created = tree.set place (.file ByteArray.empty 0o600) := by
  unfold createFile
  cases hresolve : tree.resolve location with
  | error e =>
    refine iff_of_false (by simp) ?_
    rintro ⟨place, hfree, -⟩
    exact absurd (hresolve.symm.trans hfree.resolves) (by simp)
  | ok place =>
    cases hnode : tree.at? place with
    | some node =>
      simp only [hnode]
      refine iff_of_false (by simp) ?_
      rintro ⟨other, hfree, -⟩
      obtain rfl := Except.ok.inj (hresolve.symm.trans hfree.resolves)
      exact absurd (hnode.symm.trans hfree.free) (by simp)
    | none =>
      simp only [hnode, Except.ok.injEq]
      constructor
      · rintro rfl
        exact ⟨place, ⟨hresolve, hnode⟩, rfl⟩
      · rintro ⟨other, hfree, rfl⟩
        rw [Except.ok.inj (hresolve.symm.trans hfree.resolves)]

namespace IsFree

variable (h : tree.IsFree temp place)

include h

lemma not_directory (m : ℕ) : tree.at? place ≠ some (.directory m) := by simp [h.free]

lemma sameDirectories (content : ByteArray) (mode : ℕ) :
    SameDirectories tree (tree.set place (.file content mode)) :=
  .set_file h.not_directory content mode

/-- The file that was put there is found. -/
lemma find_set (content : ByteArray) (mode : ℕ) :
    (tree.set place (.file content mode)).find temp = .ok (place, .file content mode) := by
  refine find_of_resolve ((h.sameDirectories content mode).resolve_iff.mpr h.resolves) ?_
  rw [at?_set _ _ _ _ (ne_nil_of_not_directory h.not_directory), if_pos rfl]

lemma writeFile_set (old content : ByteArray) (mode : ℕ) :
    (tree.set place (.file old mode)).writeFile temp content =
      .ok (tree.set place (.file content mode)) := by
  have hresolve := (h.sameDirectories old mode).resolve_iff.mpr h.resolves
  have hnode := at?_set tree place place (.file old mode) (ne_nil_of_not_directory h.not_directory)
  rw [if_pos rfl] at hnode
  simp only [writeFile, hresolve, hnode, set_set]

lemma setMode_set (content : ByteArray) (mode new : ℕ) :
    (tree.set place (.file content mode)).setMode temp new =
      .ok (tree.set place (.file content new)) := by
  simp only [setMode, h.find_set content mode, set_set]

/-- Removed again, the file has left nothing. -/
lemma removeFile_set (content : ByteArray) (mode : ℕ) :
    (tree.set place (.file content mode)).removeFile temp = .ok tree := by
  simp only [removeFile, h.find_set content mode, remove_set h.free]

/-- Renamed, the file is where it was moved to, and nowhere else. -/
lemma rename_set_eq_ok_iff (content : ByteArray) (mode : ℕ) :
    (tree.set place (.file content mode)).rename temp target = .ok after ↔
      ∃ goal, tree.resolve target = .ok goal ∧ (∀ m, tree.at? goal ≠ some (.directory m)) ∧
        after = tree.set goal (.file content mode) := by
  have hsame := h.sameDirectories content mode
  unfold rename
  simp only [h.find_set content mode, remove_set h.free]
  cases hgoal : (tree.set place (.file content mode)).resolve target with
  | error e =>
    refine iff_of_false (by simp) ?_
    rintro ⟨goal, hresolve, -⟩
    exact absurd (hgoal.symm.trans (hsame.resolve_iff.mpr hresolve)) (by simp)
  | ok goal =>
    have hresolve := hsame.resolve_iff.mp hgoal
    simp only
    split
    · rename_i m hdirectory
      refine iff_of_false (by simp) ?_
      rintro ⟨other, hother, hclear, -⟩
      obtain rfl := Except.ok.inj (hresolve.symm.trans hother)
      exact hclear m ((hsame goal m).mp hdirectory)
    · rename_i hclear
      constructor
      · intro hafter
        exact ⟨goal, hresolve, fun m hm => hclear m ((hsame goal m).mpr hm),
          (Except.ok.inj hafter).symm⟩
      · rintro ⟨other, hother, -, rfl⟩
        rw [Except.ok.inj (hresolve.symm.trans hother)]

end IsFree

end LocaleBundle.FileTree
