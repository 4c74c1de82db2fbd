import Mathlib
import Reckon.Log.Sink
import Reckon.Proofs.Trees

/-!
Adding bytes to files. An append makes the folders on the way to its file, and changes this one
file; if it fails, it has changed none.
-/

namespace Reckon.Log

open Store (Path Place Grown)
open Text (Bytes)

/-! ### Named files -/

section

variable {path : Path}

def IsNamed (path : Path) : Prop :=
  ∃ folder name, name ≠ ".." ∧ path = Path.child folder name

theorem isNamed_child (folder : Path) {name : String} (down : name ≠ "..") :
    IsNamed (folder.child name) :=
  ⟨folder, name, down, rfl⟩

theorem IsNamed.visited_parent (named : IsNamed path) : path.parent.visited = path.through := by
  obtain ⟨folder, name, -, rfl⟩ := named
  rw [Path.parent_child, Path.through_child]

end

/-! ### Files that grow -/

def IsOpen [Limits] (s : Store) (path : Path) : Prop :=
  s.refusal? path = none ∧ s.isFile path.place = true

/-- Some files are longer by the bytes, and the others are what they were. The folders are those from
before and those on the way. -/
structure Extended [Limits] (s after : Store) (paths : List Path) (bytes : Bytes) : Prop where
  tree : after.IsTree
  folders : ∀ place, after.isFolder place = true ↔
    s.isFolder place = true ∨ ∃ path ∈ paths, place ∈ path.through
  opened : ∀ path ∈ paths, IsOpen after path
  added : ∀ path ∈ paths, after.content path.place = s.content path.place ++ bytes
  others : ∀ place, place ∉ paths.map Path.place → after.file? place = s.file? place

section

variable [Limits] {s mid after : Store} {path : Path} {paths : List Path} {bytes more : Bytes}

theorem IsOpen.of_grown (opened : IsOpen s path) (tree : after.IsTree)
    (folders : ∀ place, s.isFolder place = true → after.isFolder place = true)
    (file : after.isFile path.place = true) : IsOpen after path :=
  ⟨tree.refusal?_of_isFile
    (Store.obstacle?_of_kept folders (Store.refusal?_eq_none_iff.mp opened.1).1) file, file⟩

theorem IsOpen.isFolder (opened : IsOpen s path) : ∀ place ∈ path.through, s.isFolder place = true :=
  (Store.obstacle?_eq_none_iff.mp (Store.refusal?_eq_none_iff.mp opened.1).1).2

namespace Extended

theorem kept (extended : Extended s after paths bytes) {place : Place}
    (there : s.isFolder place = true) : after.isFolder place = true :=
  (extended.folders place).mpr (.inl there)

theorem isFile_of_not_mem (extended : Extended s after paths bytes) {place : Place}
    (absent : place ∉ paths.map Path.place) : after.isFile place = s.isFile place := by
  rw [Store.isFile, extended.others place absent, Store.isFile]

theorem content_of_not_mem (extended : Extended s after paths bytes) {place : Place}
    (absent : place ∉ paths.map Path.place) : after.content place = s.content place := by
  rw [Store.content, extended.others place absent, Store.content]

theorem refl (tree : s.IsTree) (opened : ∀ path ∈ paths, IsOpen s path) :
    Extended s s paths [] where
  tree := tree
  folders place := by
    refine (or_iff_left_of_imp ?_).symm
    rintro ⟨path, member, way⟩
    exact (opened path member).isFolder place way
  opened := opened
  added _ _ := (List.append_nil _).symm
  others _ _ := rfl

theorem trans (first : Extended s mid paths bytes) (second : Extended mid after paths more) :
    Extended s after paths (bytes ++ more) where
  tree := second.tree
  folders place := by rw [second.folders, first.folders, or_assoc, or_self]
  opened := second.opened
  added path member := by
    rw [second.added path member, first.added path member, List.append_assoc]
  others place absent := (second.others place absent).trans (first.others place absent)

theorem cons (first : Extended s mid [path] bytes) (second : Extended mid after paths bytes)
    (apart : path.place ∉ paths.map Path.place) : Extended s after (path :: paths) bytes where
  tree := second.tree
  folders place := by
    rw [second.folders, first.folders, or_assoc]
    simp
  opened := by
    have file : after.isFile path.place = true := by
      rw [second.isFile_of_not_mem apart]
      exact (first.opened path List.mem_cons_self).2
    have own := first.opened path List.mem_cons_self
    exact List.forall_mem_cons.mpr
      ⟨own.of_grown second.tree (fun _ => second.kept) file, second.opened⟩
  added := by
    have own : after.content path.place = s.content path.place ++ bytes := by
      rw [second.content_of_not_mem apart]
      exact first.added path List.mem_cons_self
    refine List.forall_mem_cons.mpr ⟨own, fun other member => ?_⟩
    have different : other.place ∉ [path].map Path.place := by
      rw [List.map_singleton, List.mem_singleton]
      intro same
      exact apart (same ▸ List.mem_map_of_mem member)
    rw [second.added other member, first.content_of_not_mem different]
  others place absent := by
    obtain ⟨different, outside⟩ := not_or.mp (mt List.mem_cons.mpr absent)
    exact (second.others place outside).trans (first.others place (by simpa using different))

end Extended

/-! ### Appending -/

theorem standard_of_makeFolder {made : Store} (makes : s.makeFolder path.parent = (made, none))
    (accepted : made.refusal? path = none) :
    Appender.standard s path bytes =
      (made.put path.place (made.content path.place ++ bytes), none) := by
  have appends : made.append path bytes =
      .ok (made.put path.place (made.content path.place ++ bytes)) :=
    Store.append_eq_ok_iff.mpr ⟨accepted, rfl⟩
  simp only [Appender.standard, makes, appends]

/-- An append that fails has made folders at most; one that goes well has also put the bytes behind
those of the file. -/
theorem standard_cases (s : Store) (path : Path) (bytes : Bytes) :
    (∃ made e, Grown s made path.parent.visited ∧
        Appender.standard s path bytes = (made, some e)) ∨
      ∃ made, s.makeFolder path.parent = (made, none) ∧ made.refusal? path = none ∧
        Appender.standard s path bytes =
          (made.put path.place (made.content path.place ++ bytes), none) := by
  have grown := Store.grown_makeFolder s path.parent
  rcases makes : s.makeFolder path.parent with ⟨made, _ | e⟩
  · rw [makes] at grown
    cases refused : made.refusal? path with
    | some e =>
      have failed : made.append path bytes = .error e := by rw [Store.append, refused]
      exact .inl ⟨made, e, grown, by simp only [Appender.standard, makes, failed]⟩
    | none => exact .inr ⟨made, rfl, refused, standard_of_makeFolder makes refused⟩
  · rw [makes] at grown
    exact .inl ⟨made, e, grown, by simp only [Appender.standard, makes]⟩

/-- An append leaves a tree a tree, and no folder goes away. -/
theorem tree_of_standard (tree : s.IsTree) (path : Path) (bytes : Bytes) :
    (Appender.standard s path bytes).1.IsTree ∧
      ∀ place, s.isFolder place = true →
        (Appender.standard s path bytes).1.isFolder place = true := by
  rcases standard_cases s path bytes with ⟨made, e, grown, failed⟩ | ⟨made, makes, accepted, done⟩
  · rw [failed]
    exact ⟨grown.tree tree, grown.kept⟩
  · have grown := Store.grown_makeFolder s path.parent
    rw [makes] at grown
    rw [done]
    exact ⟨(grown.tree tree).put_of_refusal? accepted _, grown.kept⟩

theorem IsNamed.fits_parent (named : IsNamed path) (fits : path.fits = true) :
    path.parent.fits = true := by
  obtain ⟨folder, name, -, rfl⟩ := named
  rw [Path.parent_child]
  exact Path.fits_of_child fits

/-- An append that went well has made a file longer, and nothing else. -/
theorem extended_of_standard (tree : s.IsTree) (named : IsNamed path)
    (appends : Appender.standard s path bytes = (after, none)) :
    Extended s after [path] bytes := by
  rcases standard_cases s path bytes with ⟨made, e, -, failed⟩ | ⟨made, makes, accepted, done⟩
  · cases appends.symm.trans failed
  obtain ⟨rfl, -⟩ := Prod.mk.inj (appends.symm.trans done)
  have grown := Store.grown_makeFolder s path.parent
  have there := (Store.isFolder_of_makeFolder makes).2
  rw [makes, named.visited_parent] at grown
  rw [named.visited_parent] at there
  have tree' := (grown.tree tree).put_of_refusal? accepted (made.content path.place ++ bytes)
  have file : (made.put path.place (made.content path.place ++ bytes)).isFile path.place = true :=
    Store.isFile_put_iff.mpr (.inl rfl)
  refine ⟨tree', fun place => ?_, ?_, ?_, fun place absent => ?_⟩
  · rw [Store.isFolder_put, grown.isFolder_iff there]
    simp
  · rw [List.forall_mem_singleton]
    have free := (Store.refusal?_eq_none_iff.mp accepted).1
    exact ⟨tree'.refusal?_of_isFile (Store.obstacle?_of_kept (s := made) (fun _ => id) free) file, file⟩
  · rw [List.forall_mem_singleton, Store.content_put_self, Store.content, grown.file?_eq,
      Store.content]
  · rw [Store.file?_put_of_ne (by simpa using absent), grown.file?_eq]

/-- An append goes well exactly if the path of the file fits, no file is on its way, and the file is
no folder and does not become one. -/
theorem standard_eq_none_iff (tree : s.IsTree) (named : IsNamed path) :
    (Appender.standard s path bytes).2 = none ↔
      path.fits = true ∧ (∀ place ∈ path.through, s.isFile place = false) ∧
        s.isFolder path.place = false ∧ path.place ∉ path.through := by
  have grown := Store.grown_makeFolder s path.parent
  have clear : (s.makeFolder path.parent).2 = none ↔ _ := tree.makeFolder_eq_none_iff
  rw [named.visited_parent] at grown clear
  -- where the folders can be made, the file is refused for its own sake alone
  have refused {made : Store} (makes : s.makeFolder path.parent = (made, none)) :
      made.refusal? path = none ↔
        path.fits = true ∧ s.isFolder path.place = false ∧ path.place ∉ path.through := by
    have there := (Store.isFolder_of_makeFolder makes).2
    rw [makes] at grown
    rw [named.visited_parent] at there
    rw [Store.refusal?_eq_none_iff, Store.obstacle?_eq_none_iff, and_iff_left there,
      ← Bool.not_eq_true, ← Bool.not_eq_true, grown.isFolder_iff there, not_or]
  constructor
  · intro none
    rcases standard_cases s path bytes with ⟨made, e, -, failed⟩ | ⟨made, makes, accepted, -⟩
    · rw [failed] at none
      cases none
    · obtain ⟨fits, free⟩ := (refused makes).mp accepted
      rw [makes] at clear
      exact ⟨fits, (clear.mp rfl).2, free⟩
  · rintro ⟨fits, absent, free⟩
    obtain ⟨made, makes⟩ : ∃ made, s.makeFolder path.parent = (made, none) :=
      ⟨_, Prod.ext rfl (clear.mpr ⟨named.fits_parent fits, absent⟩)⟩
    exact congrArg Prod.snd (standard_of_makeFolder makes ((refused makes).mpr ⟨fits, free⟩))

theorem standard_of_isOpen (named : IsNamed path) (opened : IsOpen s path) (bytes : Bytes) :
    ∃ after, Appender.standard s path bytes = (after, none) := by
  obtain ⟨fits, folders⟩ :=
    Store.obstacle?_eq_none_iff.mp (Store.refusal?_eq_none_iff.mp opened.1).1
  rw [← named.visited_parent, Path.visited, List.forall_mem_append,
    List.forall_mem_singleton] at folders
  have free : s.obstacle? path.parent = none :=
    Store.obstacle?_eq_none_iff.mpr ⟨named.fits_parent fits, folders.1⟩
  exact ⟨_, standard_of_makeFolder (Store.makeFolder_of_isFolder free folders.2) opened.1⟩

theorem extended_of_appendAll (tree : s.IsTree) (named : ∀ path ∈ paths, IsNamed path)
    (distinct : (paths.map Path.place).Nodup)
    (appends : Sink.appendAll .standard bytes s paths = (after, none)) :
    Extended s after paths bytes := by
  induction paths generalizing s with
  | nil =>
    cases appends
    exact ⟨tree, by simp, by simp, by simp, fun _ _ => rfl⟩
  | cons path paths ih =>
    obtain ⟨named, others⟩ := List.forall_mem_cons.mp named
    rw [List.map_cons, List.nodup_cons] at distinct
    unfold Sink.appendAll at appends
    split at appends
    case h_1 mid first =>
      have one := extended_of_standard tree named first
      exact one.cons (ih one.tree others distinct.2 appends) distinct.1
    case h_2 => cases appends

theorem appendAll_of_isOpen (tree : s.IsTree) (named : ∀ path ∈ paths, IsNamed path)
    (opened : ∀ path ∈ paths, IsOpen s path) (bytes : Bytes) :
    ∃ after, Sink.appendAll .standard bytes s paths = (after, none) := by
  induction paths generalizing s with
  | nil => exact ⟨s, rfl⟩
  | cons path paths ih =>
    obtain ⟨named, others⟩ := List.forall_mem_cons.mp named
    obtain ⟨first, remaining⟩ := List.forall_mem_cons.mp opened
    obtain ⟨mid, appends⟩ := standard_of_isOpen named first bytes
    have one := extended_of_standard tree named appends
    have kept : ∀ path ∈ paths, IsOpen mid path := by
      intro other member
      have old := remaining other member
      refine old.of_grown one.tree (fun _ => one.kept) ?_
      by_cases same : other.place = path.place
      · exact same ▸ (one.opened path List.mem_cons_self).2
      · rw [one.isFile_of_not_mem (by simpa using same)]
        exact old.2
    obtain ⟨after, appends'⟩ := ih one.tree others kept
    exact ⟨after, by rw [Sink.appendAll, appends]; exact appends'⟩

end

end Reckon.Log
