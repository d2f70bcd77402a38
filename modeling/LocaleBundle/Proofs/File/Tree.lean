import LocaleBundle.File.Tree
import Mathlib.Data.List.Perm.Subperm
import Mathlib.Tactic.Lemma

/-!
# Files in one directory

A directory that can be entered has a place, and the files in it are at that place and their own
name. It keeps its place in every tree that has the same directories, whatever files come and go.

Making a directory loses nothing: it only puts directories where nothing was.
-/

namespace LocaleBundle

namespace Location

/-- Whether a text is the name of one file, not a path and not a way up. -/
structure IsName (s : String) : Prop where
  noSlash : '/' ∉ s.toList
  noNull : '\x00' ∉ s.toList
  notEmpty : s ≠ ""
  notHere : s ≠ "."
  notUp : s ≠ ".."

/-- A text of three characters or more is neither empty nor made of dots that mean something. -/
lemma isName_of_length {s : String} (hslash : '/' ∉ s.toList) (hnull : '\x00' ∉ s.toList)
    (hlength : 2 < s.toList.length) : IsName s := by
  refine ⟨hslash, hnull, ?_, ?_, ?_⟩ <;> rintro rfl <;> exact absurd hlength (by decide)

lemma splitSlashes_of_notMem {cs : List Char} (h : '/' ∉ cs) : splitSlashes cs = [cs] := by
  induction cs with
  | nil => rfl
  | cons c cs ih =>
    simp only [List.mem_cons, not_or] at h
    rw [splitSlashes, if_neg (Ne.symm h.1), ih h.2]

lemma join_of_isName (l : Location) {s : String} (h : IsName s) :
    l.join s = { l with parts := l.parts ++ [s] } := by
  have hslashes : s.toList.takeWhile (· = '/') = [] := by
    cases hcs : s.toList with
    | nil => rfl
    | cons c cs =>
      have hc : c ≠ '/' := fun hc => h.noSlash (by rw [hcs, hc]; exact List.mem_cons_self)
      simp [List.takeWhile, hc]
  have hnames : names s.toList = [s] := by
    have hempty : s.toList ≠ [] := fun hs => h.notEmpty (String.toList_inj.mp hs)
    have hdot : s.toList ≠ ['.'] := fun hs => h.notHere (String.toList_inj.mp hs)
    rw [names, splitSlashes_of_notMem h.noSlash]
    simp only [List.filter_cons, hempty, hdot, List.filter_nil, ne_eq, not_false_eq_true,
      decide_true, Bool.and_true, if_true, List.map_cons, List.map_nil, String.ofList_toList]
  have htext : ofText s = ⟨"", [s]⟩ := by
    simp only [ofText, hslashes, hnames, List.length_nil, if_true]
  rw [join, htext]
  rfl

end Location

namespace FileTree

variable {tree after made : FileTree} {directory : Location} {folder place : Place} {name : String}

/-! ## Folders -/

/-- The place that entering directories by name leads to. -/
def enterAll (tree : FileTree) (place : Place) : List String → Except FileError Place
  | [] => .ok place
  | name :: rest =>
    match enter tree place name with
    | .error e => .error e
    | .ok place => enterAll tree place rest

/-- Whether a location is a directory, at the place `folder`. -/
structure IsFolder (tree : FileTree) (directory : Location) (folder : Place) : Prop where
  root : directory.root = ""
  nameable : directory.isNameable = true
  enters : tree.enterAll [] directory.parts = .ok folder

/-- Whether all directories of a tree are still there in another. -/
def KeepsDirectories (tree after : FileTree) : Prop :=
  ∀ p mode, tree.at? p = some (.directory mode) → after.at? p = some (.directory mode)

lemma enter_of_keepsDirectories (hkeeps : KeepsDirectories tree after) {goal : Place}
    (h : enter tree place name = .ok goal) : enter after place name = .ok goal := by
  unfold enter at h ⊢
  by_cases hup : name = ".."
  · rwa [if_pos hup] at h ⊢
  · rw [if_neg hup] at h ⊢
    cases hnode : tree.at? (place ++ [name]) with
    | none =>
      rw [hnode] at h
      exact absurd h (by simp)
    | some node =>
      cases node with
      | file content mode =>
        rw [hnode] at h
        exact absurd h (by simp)
      | directory mode =>
        rw [hnode] at h
        rw [hkeeps _ _ hnode]
        exact h

lemma enterAll_of_keepsDirectories (hkeeps : KeepsDirectories tree after) {parts : List String}
    {goal : Place} (h : enterAll tree place parts = .ok goal) :
    enterAll after place parts = .ok goal := by
  induction parts generalizing place with
  | nil => exact h
  | cons part parts ih =>
    unfold enterAll at h ⊢
    cases hstep : enter tree place part with
    | error e =>
      rw [hstep] at h
      exact absurd h (by simp)
    | ok next =>
      rw [hstep] at h
      rw [enter_of_keepsDirectories hkeeps hstep]
      exact ih h

lemma IsFolder.of_keepsDirectories (h : tree.IsFolder directory folder)
    (hkeeps : KeepsDirectories tree after) : after.IsFolder directory folder :=
  ⟨h.root, h.nameable, enterAll_of_keepsDirectories hkeeps h.enters⟩

lemma resolveFrom_append_name (hname : name ≠ "..") (parts : List String) :
    resolveFrom tree place (parts ++ [name]) =
      (enterAll tree place parts).map fun folder => folder ++ [name] := by
  induction parts generalizing place with
  | nil => simp [resolveFrom, enterAll, Except.map, hname]
  | cons part parts ih =>
    obtain ⟨next, rest, hcons⟩ : ∃ next rest, parts ++ [name] = next :: rest :=
      List.exists_cons_of_ne_nil (by simp)
    rw [List.cons_append, hcons, resolveFrom, enterAll, ← hcons]
    · cases hstep : enter tree place part with
      | error e => rfl
      | ok goal => exact ih
    · simp

/-! ## Files of a folder -/

section

variable (hfolder : tree.IsFolder directory folder) (hname : Location.IsName name)

include hfolder hname

lemma IsFolder.resolve_join : tree.resolve (directory.join name) = .ok (folder ++ [name]) := by
  have hnameable : (directory.join name).isNameable = true := by
    have hparts := hfolder.nameable
    unfold Location.isNameable at hparts ⊢
    rw [Location.join_of_isName directory hname, List.all_append, hparts]
    simpa using hname.noNull
  rw [resolve, hnameable, Location.join_of_isName directory hname]
  simp only [Bool.not_true, Bool.false_eq_true, if_false, hfolder.root, if_true]
  rw [resolveFrom_append_name hname.notUp, hfolder.enters]
  rfl

lemma IsFolder.find_join : tree.find (directory.join name) =
    match tree.at? (folder ++ [name]) with
    | none => .error .notFound
    | some node => .ok (folder ++ [name], node) := by
  have hresolve := hfolder.resolve_join hname
  cases hnode : tree.at? (folder ++ [name]) with
  | none => simp only [find, hresolve, hnode]
  | some node => simp only [find, hresolve, hnode]

end

lemma append_name_ne_nil (folder : Place) (name : String) : folder ++ [name] ≠ [] := by simp

/-! ## Making directories -/

/-- Whether a tree is another one with directories where nothing was. -/
def HasMoreDirectories (tree made : FileTree) : Prop :=
  ∀ p, made.at? p = tree.at? p ∨
    tree.at? p = none ∧ made.at? p = some (.directory newDirectoryMode)

namespace HasMoreDirectories

lemma refl (tree : FileTree) : HasMoreDirectories tree tree := fun _ => Or.inl rfl

lemma trans {middle : FileTree} (h : HasMoreDirectories tree middle)
    (h' : HasMoreDirectories middle made) : HasMoreDirectories tree made := by
  intro p
  rcases h' p with hsame | ⟨hnone, hmade⟩
  · rw [hsame]
    exact h p
  · rcases h p with hsame | ⟨-, hsome⟩
    · exact Or.inr ⟨hsame ▸ hnone, hmade⟩
    · exact absurd (hnone.symm.trans hsome) (by simp)

lemma set (hnone : tree.at? place = none) :
    HasMoreDirectories tree (tree.set place (.directory newDirectoryMode)) := by
  intro p
  have hplace : place ≠ [] := by
    rintro rfl
    exact absurd hnone (by simp [at?])
  rw [at?_set _ _ _ _ hplace]
  by_cases hp : p = place
  · exact Or.inr ⟨hp ▸ hnone, if_pos hp⟩
  · exact Or.inl (if_neg hp)

lemma keepsDirectories (h : HasMoreDirectories tree made) : KeepsDirectories tree made := by
  intro p mode hp
  rcases h p with hsame | ⟨hnone, -⟩
  · rw [hsame, hp]
  · exact absurd (hnone.symm.trans hp) (by simp)

/-- The files are the same. -/
lemma at?_eq_file_iff (h : HasMoreDirectories tree made) (p : Place) (content : ByteArray)
    (mode : ℕ) : made.at? p = some (.file content mode) ↔ tree.at? p = some (.file content mode) := by
  rcases h p with hsame | ⟨hnone, hmade⟩
  · rw [hsame]
  · simp [hnone, hmade]

end HasMoreDirectories

lemma enter_of_directory {mode : ℕ} (hup : name ≠ "..")
    (h : tree.at? (place ++ [name]) = some (.directory mode)) :
    enter tree place name = .ok (place ++ [name]) := by
  rw [enter, if_neg hup, h]

lemma makeDirectoriesFrom_spec {parts : List String}
    (h : makeDirectoriesFrom tree place parts = .ok made) :
    HasMoreDirectories tree made ∧ ∃ folder, enterAll made place parts = .ok folder := by
  induction parts generalizing tree place with
  | nil =>
    obtain rfl := Except.ok.inj h
    exact ⟨.refl tree, place, rfl⟩
  | cons part parts ih =>
    rw [makeDirectoriesFrom] at h
    by_cases hup : part = ".."
    · rw [if_pos hup] at h
      obtain ⟨hmore, folder, hfolder⟩ := ih h
      refine ⟨hmore, folder, ?_⟩
      rwa [enterAll, enter, if_pos hup]
    · rw [if_neg hup] at h
      -- from a tree where the next directory is there, the rest is made and entered
      have hrest : ∀ (middle : FileTree) (mode : ℕ), HasMoreDirectories tree middle →
          middle.at? (place ++ [part]) = some (.directory mode) →
          makeDirectoriesFrom middle (place ++ [part]) parts = .ok made →
          HasMoreDirectories tree made ∧ ∃ folder, enterAll made place (part :: parts) = .ok folder := by
        intro middle mode hmiddle hthere hmade
        obtain ⟨hmore, folder, hfolder⟩ := ih hmade
        refine ⟨hmiddle.trans hmore, folder, ?_⟩
        rw [enterAll, enter_of_directory hup (hmore.keepsDirectories _ _ hthere)]
        exact hfolder
      cases hnode : tree.at? (place ++ [part]) with
      | none =>
        rw [hnode] at h
        refine hrest _ newDirectoryMode (.set hnode) ?_ h
        rw [at?_set _ _ _ _ (append_name_ne_nil _ _), if_pos rfl]
      | some node =>
        rw [hnode] at h
        cases node with
        | file content mode => exact absurd h (by simp)
        | directory mode => exact hrest tree mode (.refl tree) hnode h

lemma makeDirectoriesFrom_of_enterAll {parts : List String}
    (h : enterAll tree place parts = .ok folder) :
    makeDirectoriesFrom tree place parts = .ok tree := by
  induction parts generalizing place with
  | nil => rfl
  | cons part parts ih =>
    rw [enterAll, enter] at h
    rw [makeDirectoriesFrom]
    by_cases hup : part = ".."
    · rw [if_pos hup] at h ⊢
      exact ih h
    · rw [if_neg hup] at h ⊢
      cases hnode : tree.at? (place ++ [part]) with
      | none =>
        rw [hnode] at h
        exact absurd h (by simp)
      | some node =>
        rw [hnode] at h
        cases node with
        | file content mode => exact absurd h (by simp)
        | directory mode => exact ih h

/-- A directory that was made is a folder, and nothing else has changed. -/
theorem isFolder_of_makeDirectories (h : tree.makeDirectories directory = .ok made) :
    HasMoreDirectories tree made ∧ ∃ folder, made.IsFolder directory folder := by
  rw [makeDirectories] at h
  by_cases hnameable : directory.isNameable = true
  · by_cases hroot : directory.root = ""
    · simp only [hnameable, hroot, Bool.not_true, Bool.false_eq_true, if_false, if_true] at h
      obtain ⟨hmore, folder, henters⟩ := makeDirectoriesFrom_spec h
      exact ⟨hmore, folder, hroot, hnameable, henters⟩
    · simp [hnameable, hroot] at h
  · simp [hnameable] at h

/-- A folder need not be made again. -/
lemma IsFolder.makeDirectories (h : tree.IsFolder directory folder) :
    tree.makeDirectories directory = .ok tree := by
  rw [FileTree.makeDirectories, h.nameable, h.root]
  exact makeDirectoriesFrom_of_enterAll h.enters

/-! ## Free places -/

lemma mem_places_of_lookup {nodes : List (Place × FileNode)} {node : FileNode}
    (h : nodes.lookup place = some node) : place ∈ nodes.map Prod.fst := by
  induction nodes with
  | nil => exact absurd h (by simp)
  | cons head nodes ih =>
    obtain ⟨p, n⟩ := head
    by_cases hp : place = p
    · rw [hp]
      exact List.mem_cons_self
    · rw [List.lookup_cons, beq_false_of_ne hp] at h
      exact List.mem_cons_of_mem p (ih h)

/-- A tree has no more places than nodes. -/
lemma exists_free {places : List Place} (hnodup : places.Nodup) (hne : ∀ p ∈ places, p ≠ [])
    (hlength : tree.nodes.length < places.length) : ∃ p ∈ places, tree.at? p = none := by
  by_contra hall
  push Not at hall
  have hsub : places ⊆ tree.nodes.map Prod.fst := by
    intro p hp
    have hthere := hall p hp
    rw [at?, if_neg (hne p hp)] at hthere
    obtain ⟨node, hnode⟩ := Option.ne_none_iff_exists'.mp hthere
    exact mem_places_of_lookup hnode
  have hle := (hnodup.subperm hsub).length_le
  rw [List.length_map] at hle
  omega

end FileTree

end LocaleBundle
