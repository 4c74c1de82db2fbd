import Mathlib
import Reckon.Proofs.Paths

/-!
Files and folders as a tree. Whatever is in a store is in a folder of it, and no folder is a file;
making folders and writing files keeps that. A folder is made just if its path fits and no file is
on the way to it.
-/

namespace Reckon.Store

open Text (Bytes)

/-- Everything is in a folder, and no folder is a file. -/
structure IsTree (s : Store) : Prop where
  inside : ∀ place, s.has place = true → s.isFolder place.dropLast = true
  apart : ∀ place, s.isFolder place = true → s.isFile place = false

variable {s mid made after : Store} {path : Path} {place other : Place} {bytes : Bytes}

theorem has_of_isFile (there : s.isFile place = true) : s.has place = true :=
  Bool.or_eq_true_iff.mpr (.inl there)

theorem has_of_isFolder (there : s.isFolder place = true) : s.has place = true :=
  Bool.or_eq_true_iff.mpr (.inr there)

theorem isFolder_iff :
    s.isFolder place = true ↔
      (∀ name ∈ place, name = "..") ∨ place = ["/"] ∨ place ∈ s.folders := by
  simp [isFolder, or_assoc]

theorem isFolder_nil (s : Store) : s.isFolder [] = true :=
  isFolder_iff.mpr (.inl (by simp))

theorem isFolder_start (s : Store) (path : Path) : s.isFolder path.start = true := by
  rw [Path.start]
  split
  · exact isFolder_iff.mpr (.inr (.inl rfl))
  · exact isFolder_nil s

def IsClear (s : Store) (place : Place) : Prop :=
  ∀ other, other <+: place → s.isFile other = false

/-! ### Folders above a place -/

namespace IsTree

variable (tree : s.IsTree)
include tree

theorem isFolder_of_prefix (there : s.isFolder place = true) (above : other <+: place) :
    s.isFolder other = true := by
  -- one name of the place after the other is taken away, the last one first
  induction place using List.reverseRecOn with
  | nil =>
    rw [List.prefix_nil.mp above]
    exact there
  | append_singleton higher name ih =>
    have folder := tree.inside _ (has_of_isFolder there)
    rw [List.dropLast_concat] at folder
    rcases List.prefix_concat_iff.mp above with rfl | further
    · exact there
    · exact ih folder further

theorem not_isFolder_of_isFile (there : s.isFile place = true) : s.isFolder place = false := by
  rw [Bool.eq_false_iff]
  intro folder
  exact Bool.false_ne_true ((tree.apart place folder).symm.trans there)

/-- A step from a folder leads to a place in a folder. -/
theorem isFolder_dropLast_step (there : s.isFolder place = true) (part : String) :
    s.isFolder (Path.step place part).dropLast = true := by
  unfold Path.step Path.up
  split_ifs
  · exact tree.isFolder_of_prefix there place.dropLast_prefix
  · split
    · split_ifs
      · rwa [List.dropLast_concat]
      · exact tree.isFolder_of_prefix there
          ((List.dropLast_prefix _).trans place.dropLast_prefix)
    · exact isFolder_nil s
  · rwa [List.dropLast_concat]

variable [Limits]

theorem isFolder_dropLast (free : s.obstacle? path = none) :
    s.isFolder path.place.dropLast = true := by
  by_cases named : path.parts = []
  · have start : path.place = path.start := by rw [Path.place, named, List.foldl_nil]
    rw [start]
    exact tree.isFolder_of_prefix (isFolder_start s path) (List.dropLast_prefix _)
  · rw [Path.eq_child_of_parts named] at free ⊢
    have folders := (obstacle?_eq_none_iff.mp free).2
    rw [Path.through_child] at folders
    rw [Path.place, Path.child, List.foldl_append]
    exact tree.isFolder_dropLast_step (folders _ (Path.place_mem_visited _)) _

end IsTree

/-! ### Making folders -/

structure Grown (s made : Store) (places : List Place) : Prop where
  files : made.files = s.files
  clock : made.clock = s.clock
  kept : ∀ place, s.isFolder place = true → made.isFolder place = true
  new : ∀ place, made.isFolder place = true → s.isFolder place = true ∨ place ∈ places
  tree : s.IsTree → made.IsTree

namespace Grown

variable {places more : List Place}

theorem refl (s : Store) (places : List Place) : Grown s s places :=
  ⟨rfl, rfl, fun _ => id, fun _ => .inl, id⟩

theorem trans (first : Grown s mid places) (second : Grown mid made places) :
    Grown s made places where
  files := second.files.trans first.files
  clock := second.clock.trans first.clock
  kept place there := second.kept place (first.kept place there)
  new place there := (second.new place there).elim (first.new place) .inr
  tree tree := second.tree (first.tree tree)

theorem mono (grown : Grown s made places) (more_of : places ⊆ more) : Grown s made more :=
  { grown with new := fun place there => (grown.new place there).imp_right (more_of ·) }

theorem file?_eq (grown : Grown s made places) (place : Place) :
    made.file? place = s.file? place := by
  rw [file?, grown.files, file?]

theorem isFile_eq (grown : Grown s made places) (place : Place) :
    made.isFile place = s.isFile place := by
  rw [isFile, grown.file?_eq, isFile]

theorem isFolder_iff (grown : Grown s made places)
    (there : ∀ place ∈ places, made.isFolder place = true) :
    made.isFolder place = true ↔ s.isFolder place = true ∨ place ∈ places :=
  ⟨grown.new place, Or.rec (grown.kept place) (there place)⟩

end Grown

section

variable [Limits]

theorem grown_makeOne (makes : s.makeOne path = .ok made) : Grown s made [path.place] := by
  unfold makeOne at makes
  split at makes
  case h_1 => cases makes
  case h_2 free =>
    split_ifs at makes with there file
    · cases makes
      exact .refl _ _
    · cases makes
      have folders (place : Place) :
          Store.isFolder { s with folders := s.folders ++ [path.place] } place = true ↔
            s.isFolder place = true ∨ place = path.place := by
        simp [Store.isFolder_iff, or_assoc]
      refine ⟨rfl, rfl, fun place old => (folders place).mpr (.inl old), fun place found => ?_, ?_⟩
      · exact ((folders place).mp found).imp_right List.mem_singleton.mpr
      · intro tree
        constructor
        · intro place has
          rw [folders]
          rcases Bool.or_eq_true_iff.mp has with old | found
          · exact .inl (tree.inside place (has_of_isFile old))
          · rcases (folders place).mp found with old | rfl
            · exact .inl (tree.inside place (has_of_isFolder old))
            · exact .inl (tree.isFolder_dropLast free)
        · intro place found
          rcases (folders place).mp found with old | rfl
          · exact tree.apart place old
          · exact Bool.eq_false_iff.mpr file

theorem isFolder_of_makeOne (makes : s.makeOne path = .ok made) :
    path.fits = true ∧ ∀ place ∈ path.visited, made.isFolder place = true := by
  have grown := grown_makeOne makes
  unfold makeOne at makes
  split at makes
  case h_1 => cases makes
  case h_2 free =>
    obtain ⟨fits, folders⟩ := obstacle?_eq_none_iff.mp free
    refine ⟨fits, List.forall_mem_append.mpr
      ⟨fun place member => grown.kept place (folders place member), ?_⟩⟩
    rw [List.forall_mem_singleton]
    split_ifs at makes with there file
    · cases makes
      exact there
    · cases makes
      exact isFolder_iff.mpr (.inr (.inr (by simp)))

/-- A folder can be made in a folder, if no file is in its place. -/
theorem exists_makeOne (free : s.obstacle? path = none) (absent : s.isFile path.place = false) :
    ∃ made, s.makeOne path = .ok made := by
  unfold makeOne
  rw [free, absent]
  by_cases there : s.isFolder path.place = true
  · exact ⟨s, if_pos there⟩
  · exact ⟨_, (if_neg there).trans (if_neg Bool.false_ne_true)⟩

/-- Whether or not all goes well, no folder is made but those on the way. -/
theorem grown_makeUpTo (s : Store) (path : Path) (count : Nat) :
    Grown s (s.makeUpTo path count).1 (path.upTo count).visited := by
  have last (count : Nat) : [(path.upTo count).place] ⊆ (path.upTo count).visited :=
    by simpa using Path.place_mem_visited _
  induction count with
  | zero => exact .refl _ _
  | succ count ih =>
    have above := ih.mono (Path.visited_upTo_mono path count)
    unfold makeUpTo
    split
    case h_1 made makes => exact (grown_makeOne makes).mono (last _)
    case h_2 =>
      split
      case h_1 mid e stops =>
        rw [stops] at above
        exact above
      case h_2 mid made =>
        rw [made] at above
        split
        case h_1 done makes => exact above.trans ((grown_makeOne makes).mono (last _))
        case h_2 => exact above
    case h_3 => exact .refl _ _

/-- If all goes well, there are folders on all of the way. -/
theorem isFolder_of_makeUpTo {count : Nat} (inside : count ≤ path.parts.length)
    (makes : s.makeUpTo path count = (made, none)) :
    (path.upTo count).fits = true ∧
      ∀ place ∈ (path.upTo count).visited, made.isFolder place = true := by
  cases count with
  | zero =>
    refine ⟨Path.fits_of_parts rfl, ?_⟩
    rw [Path.visited_upTo_zero, List.forall_mem_singleton]
    exact isFolder_start made path
  | succ count =>
    unfold makeUpTo at makes
    split at makes
    case h_1 one first =>
      cases makes
      exact isFolder_of_makeOne first
    case h_2 =>
      split at makes
      case h_1 => cases makes
      case h_2 =>
        split at makes
        case h_1 one second =>
          cases makes
          exact isFolder_of_makeOne second
        case h_2 => cases makes
    case h_3 => cases makes

theorem exists_makeUpTo {count : Nat} (inside : count ≤ path.parts.length)
    (fits : (path.upTo count).fits = true)
    (clear : ∀ place ∈ (path.upTo count).visited, s.isFile place = false) :
    ∃ made, s.makeUpTo path count = (made, none) := by
  induction count with
  | zero => exact ⟨s, rfl⟩
  | succ count ih =>
    have child := Path.upTo_succ path inside
    have way : (path.upTo (count + 1)).through = (path.upTo count).visited := by
      rw [child, Path.through_child]
    have above := Path.visited_upTo_mono path count
    have absent := clear _ (Path.place_mem_visited _)
    rw [makeUpTo]
    cases stops : s.obstacle? (path.upTo (count + 1)) with
    | none =>
      obtain ⟨made, makes⟩ := exists_makeOne stops absent
      exact ⟨made, by rw [makes]⟩
    | some e =>
      -- no file is on the way, so what is missing are folders
      obtain ⟨long, -⟩ | ⟨place, member, -, rfl⟩ := obstacle?_cases stops
      · exact absurd fits (Bool.eq_false_iff.mp long)
      have free := clear place (above (way ▸ member))
      rw [free, if_neg Bool.false_ne_true] at stops
      have missing : s.makeOne (path.upTo (count + 1)) =
          .error (.notFound (path.upTo (count + 1)).text) := by rw [makeOne, stops]
      have fits' : (path.upTo count).fits = true := by
        rw [child] at fits
        exact Path.fits_of_child fits
      obtain ⟨mid, makes⟩ := ih (by omega) fits' fun place member => clear place (above member)
      have grown := grown_makeUpTo s path count
      rw [makes] at grown
      have folders := (isFolder_of_makeUpTo (by omega) makes).2
      have open_ : mid.obstacle? (path.upTo (count + 1)) = none :=
        obstacle?_eq_none_iff.mpr ⟨fits, way ▸ folders⟩
      obtain ⟨made, makes'⟩ := exists_makeOne open_ ((grown.isFile_eq _).trans absent)
      exact ⟨made, by simp only [missing, makes, makes']⟩

theorem grown_makeFolder (s : Store) (path : Path) :
    Grown s (s.makeFolder path).1 path.visited := by
  have grown := grown_makeUpTo s path path.parts.length
  rwa [Path.upTo_length] at grown

theorem isFolder_of_makeFolder (makes : s.makeFolder path = (made, none)) :
    path.fits = true ∧ ∀ place ∈ path.visited, made.isFolder place = true := by
  have folders := isFolder_of_makeUpTo le_rfl makes
  rwa [Path.upTo_length] at folders

/-- A folder can be made exactly if its path fits and no file is on the way to it. -/
theorem IsTree.makeFolder_eq_none_iff (tree : s.IsTree) :
    (s.makeFolder path).2 = none ↔
      path.fits = true ∧ ∀ place ∈ path.visited, s.isFile place = false := by
  constructor
  · intro none
    have grown := grown_makeFolder s path
    obtain ⟨fits, folders⟩ := isFolder_of_makeFolder (Prod.ext rfl none)
    refine ⟨fits, fun place member => ?_⟩
    rw [← grown.isFile_eq]
    exact (grown.tree tree).apart place (folders place member)
  · rintro ⟨fits, clear⟩
    have whole := Path.upTo_length path
    obtain ⟨made, makes⟩ := exists_makeUpTo le_rfl (whole.symm ▸ fits) (whole.symm ▸ clear)
    exact congrArg Prod.snd makes

theorem makeFolder_of_isFolder (free : s.obstacle? path = none)
    (there : s.isFolder path.place = true) : s.makeFolder path = (s, none) := by
  rw [makeFolder]
  cases count : path.parts.length with
  | zero => rfl
  | succ count' =>
    have one : s.makeOne (path.upTo (count' + 1)) = .ok s := by
      rw [← count, Path.upTo_length, makeOne, free, if_pos there]
    rw [makeUpTo, one]

end

/-! ### Files -/

def content (s : Store) (place : Place) : Bytes :=
  ((s.file? place).map (·.content)).getD []

theorem file?_put_self (place : Place) (bytes : Bytes) :
    (s.put place bytes).file? place = some ⟨bytes, s.clock⟩ :=
  Entries.lookup_set_self place _ s.files

theorem file?_put_of_ne (different : other ≠ place) (bytes : Bytes) :
    (s.put place bytes).file? other = s.file? other :=
  Entries.lookup_set_of_ne different _ s.files

theorem isFolder_put : (s.put place bytes).isFolder other = s.isFolder other :=
  rfl

theorem isFile_put_iff :
    (s.put place bytes).isFile other = true ↔ other = place ∨ s.isFile other = true := by
  by_cases same : other = place
  · simp [isFile, same, file?_put_self]
  · simp [isFile, same, file?_put_of_ne same]

theorem content_put_self : (s.put place bytes).content place = bytes := by
  rw [content, file?_put_self]
  rfl

theorem content_put_of_ne (different : other ≠ place) :
    (s.put place bytes).content other = s.content other := by
  rw [content, file?_put_of_ne different, content]

theorem IsTree.put (tree : s.IsTree) (free : s.isFolder place = false)
    (there : s.isFolder place.dropLast = true) (bytes : Bytes) : (s.put place bytes).IsTree where
  inside other has := by
    rcases Bool.or_eq_true_iff.mp has with file | folder
    · rcases isFile_put_iff.mp file with rfl | old
      · exact there
      · exact tree.inside other (has_of_isFile old)
    · exact tree.inside other (has_of_isFolder folder)
  apart other folder := by
    have different : other ≠ place := by
      rintro rfl
      exact Bool.false_ne_true (free.symm.trans folder)
    rw [isFile, file?_put_of_ne different]
    exact tree.apart other folder

section

variable [Limits]

theorem IsTree.put_of_refusal? (tree : s.IsTree) (accepted : s.refusal? path = none)
    (bytes : Bytes) : (s.put path.place bytes).IsTree := by
  obtain ⟨free, file⟩ := refusal?_eq_none_iff.mp accepted
  exact tree.put file (tree.isFolder_dropLast free) bytes

theorem IsTree.refusal?_of_isFile (tree : s.IsTree) (free : s.obstacle? path = none)
    (there : s.isFile path.place = true) : s.refusal? path = none :=
  refusal?_eq_none_iff.mpr ⟨free, tree.not_isFolder_of_isFile there⟩

theorem write_eq_ok_iff :
    s.write path bytes = .ok after ↔ s.refusal? path = none ∧ after = s.put path.place bytes := by
  rw [write]
  cases s.refusal? path <;> simp [eq_comm]

theorem append_eq_ok_iff :
    s.append path bytes = .ok after ↔
      s.refusal? path = none ∧ after = s.put path.place (s.content path.place ++ bytes) := by
  rw [append]
  cases s.refusal? path <;> simp [eq_comm, content]

theorem IsTree.write (tree : s.IsTree) (writes : s.write path bytes = .ok after) :
    after.IsTree := by
  obtain ⟨accepted, rfl⟩ := write_eq_ok_iff.mp writes
  exact tree.put_of_refusal? accepted bytes

end

/-- Without folders there is a tree as long as all files are in the working directory. -/
theorem isTree_of_flat (folderless : s.folders = [])
    (flat : ∀ entry ∈ s.files, entry.1.length = 1 ∧ entry.1 ≠ [".."] ∧ entry.1 ≠ ["/"]) :
    s.IsTree := by
  have named {place : Place} (found : s.isFile place = true) :
      place.length = 1 ∧ place ≠ [".."] ∧ place ≠ ["/"] := by
    obtain ⟨stored, lookup⟩ := Option.isSome_iff_exists.mp found
    obtain ⟨before, behind, same, -⟩ := List.lookup_eq_some_iff.mp lookup
    exact flat (place, stored) (by simp [same])
  have folder {place : Place} (found : s.isFolder place = true) :
      (∀ name ∈ place, name = "..") ∨ place = ["/"] := by
    rw [isFolder_iff, folderless] at found
    simpa [List.mem_nil_iff] using found
  constructor
  · intro other there
    rcases Bool.or_eq_true_iff.mp there with file | found
    · have short : other.dropLast = [] := by
        rw [← List.length_eq_zero_iff, List.length_dropLast, (named file).1]
      rw [short]
      exact isFolder_nil s
    · rcases folder found with up | rfl
      · exact isFolder_iff.mpr (.inl fun name member => up name (List.dropLast_subset _ member))
      · exact isFolder_nil s
  · intro other found
    rw [Bool.eq_false_iff]
    intro file
    obtain ⟨one, notUp, notRoot⟩ := named file
    obtain ⟨name, rfl⟩ := List.length_eq_one_iff.mp one
    rcases folder found with up | root
    · exact notUp (by rw [up name (List.mem_singleton_self _)])
    · exact notRoot root

end Reckon.Store
