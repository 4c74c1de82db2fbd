import Mathlib
import Reckon.Store.Basic

/-!
Where paths lead, and what may be in their way. A path leads to its end if it is short enough and
everything on its way is a folder.
-/

namespace Reckon.Store

namespace Path

/-! ### Ends -/

theorem parent_child (folder : Path) (name : String) : (folder.child name).parent = folder := by
  simp [parent, child]

theorem place_child (folder : Path) {name : String} (down : name ≠ "..") :
    (folder.child name).place = folder.place ++ [name] := by
  have last : (folder.child name).place = step folder.place name := by
    simp only [place, child, List.foldl_append, List.foldl_cons, List.foldl_nil]
    rfl
  rw [last, step, if_neg down]

theorem throughFrom_concat (here : Place) (parts : List String) (last : String) :
    throughFrom here (parts ++ [last]) = throughFrom here parts ++ [parts.foldl step here] := by
  induction parts generalizing here with
  | nil => rfl
  | cons part rest ih => simp only [List.cons_append, throughFrom, ih, List.foldl_cons]

theorem through_child (folder : Path) (name : String) :
    (folder.child name).through = folder.visited :=
  throughFrom_concat _ _ _

theorem place_mem_visited (p : Path) : p.place ∈ p.visited :=
  List.mem_concat_self

theorem visited_child (folder : Path) (name : String) :
    (folder.child name).visited = folder.visited ++ [(folder.child name).place] := by
  rw [visited, through_child]

theorem eq_child_of_parts {p : Path} (named : p.parts ≠ []) :
    p = p.parent.child (p.parts.getLast named) := by
  rw [child, parent]
  simp only [List.dropLast_append_getLast named]

/-- Without steps upwards a path leads through nothing but what is above its end. -/
theorem prefix_of_mem_through {p : Path} (straight : ".." ∉ p.parts) {place : Place}
    (member : place ∈ p.through) : place <+: p.place := by
  have further (parts : List String) (straight : ".." ∉ parts) (here : Place) :
      here <+: parts.foldl step here ∧
        ∀ place ∈ throughFrom here parts, place <+: parts.foldl step here := by
    induction parts generalizing here with
    | nil => simp [throughFrom]
    | cons part rest ih =>
      obtain ⟨down, others⟩ := not_or.mp (mt List.mem_cons.mpr straight)
      obtain ⟨below, inside⟩ := ih others (step here part)
      have one : here <+: step here part := by
        rw [step, if_neg (Ne.symm down)]
        exact List.prefix_append _ _
      rw [throughFrom, List.foldl_cons, List.forall_mem_cons]
      exact ⟨one.trans below, one.trans below, inside⟩
  exact (further p.parts straight p.start).2 place member

/-! ### First parts -/

theorem upTo_length (p : Path) : p.upTo p.parts.length = p := by
  rw [upTo, List.take_length]

theorem upTo_succ (p : Path) {count : Nat} (inside : count < p.parts.length) :
    p.upTo (count + 1) = (p.upTo count).child p.parts[count] := by
  simp only [upTo, child, List.take_succ_eq_append_getElem inside]

theorem visited_upTo_zero (p : Path) : (p.upTo 0).visited = [p.start] := by
  simp only [upTo, List.take_zero]
  rfl

theorem visited_upTo_mono (p : Path) (count : Nat) :
    (p.upTo count).visited ⊆ (p.upTo (count + 1)).visited := by
  rcases Nat.lt_or_ge count p.parts.length with inside | beyond
  · rw [upTo_succ p inside, visited_child]
    exact List.subset_append_left _ _
  · rw [upTo, upTo, List.take_of_length_le beyond, List.take_of_length_le (by omega)]
    exact List.Subset.refl _

theorem visited_upTo_subset (p : Path) (count : Nat) : (p.upTo count).visited ⊆ p.visited := by
  induction missing : p.parts.length - count generalizing count with
  | zero =>
    rw [upTo, List.take_of_length_le (by omega)]
    exact List.Subset.refl _
  | succ missing ih =>
    exact List.Subset.trans (visited_upTo_mono p count) (ih (count + 1) (by omega))

/-! ### Lengths -/

theorem span_append (front back : List String) : span (front ++ back) = span front + span back := by
  induction front with
  | nil => exact (Nat.zero_add _).symm
  | cons part front ih =>
    rw [List.cons_append, span, span, ih]
    exact (Nat.add_assoc _ _ _).symm

variable [Limits]

def fits (p : Path) : Bool :=
  decide (p.size ≤ Limits.path) && p.parts.all fun part => decide (part.utf8ByteSize ≤ Limits.name)

variable {p : Path}

theorem fits_iff :
    p.fits = true ↔ p.size ≤ Limits.path ∧ ∀ part ∈ p.parts, part.utf8ByteSize ≤ Limits.name := by
  simp [fits]

theorem fits_child_iff {folder : Path} {name : String} :
    (folder.child name).fits = true ↔
      (folder.child name).size ≤ Limits.path ∧ name.utf8ByteSize ≤ Limits.name ∧
        folder.fits = true := by
  have longer : folder.size ≤ (folder.child name).size := by
    simp only [size, child, span_append]
    omega
  rw [fits_iff, fits_iff, child, List.forall_mem_append, List.forall_mem_singleton]
  constructor
  · rintro ⟨short, others, last⟩
    exact ⟨short, last, longer.trans short, others⟩
  · rintro ⟨short, last, -, others⟩
    exact ⟨short, others, last⟩

theorem fits_of_child {folder : Path} {name : String} (fits : (folder.child name).fits = true) :
    folder.fits = true :=
  (fits_child_iff.mp fits).2.2

theorem fits_of_parts (empty : p.parts = []) : p.fits = true := by
  cases absolute : p.isAbsolute <;> simp [fits, size, span, empty, absolute]

end Path

/-! ### Obstacles -/

section

variable [Limits] {s : Store} {p : Path} {e : Error}

theorem obstacleFrom?_eq_none_iff {asked : String} {here : Place} {parts : List String} :
    s.obstacleFrom? asked here parts = none ↔
      (∀ place ∈ Path.throughFrom here parts, s.isFolder place = true) ∧
        ∀ part ∈ parts, part.utf8ByteSize ≤ Limits.name := by
  induction parts generalizing here with
  | nil => simp [obstacleFrom?, Path.throughFrom]
  | cons part rest ih =>
    rw [obstacleFrom?, Path.throughFrom, List.forall_mem_cons, List.forall_mem_cons]
    cases there : s.isFolder here with
    | false => simp
    | true =>
      rcases Nat.lt_or_ge Limits.name part.utf8ByteSize with long | short
      · simp [long]
      · simp [Nat.not_lt.mpr short, short, ih]

theorem obstacle?_eq_none_iff :
    s.obstacle? p = none ↔ p.fits = true ∧ ∀ place ∈ p.through, s.isFolder place = true := by
  rw [obstacle?, Path.fits_iff]
  split
  case isTrue long => simp [Nat.not_le.mpr long]
  case isFalse short =>
    rw [obstacleFrom?_eq_none_iff, and_iff_right (Nat.not_lt.mp short), and_comm]
    rfl

/-- What is in the way is a name that is too long, or a place that is no folder. -/
theorem obstacleFrom?_cases {asked : String} {here : Place} {parts : List String}
    (stops : s.obstacleFrom? asked here parts = some e) :
    ((∃ part ∈ parts, Limits.name < part.utf8ByteSize) ∧ e = .tooLong asked) ∨
      ∃ place ∈ Path.throughFrom here parts, s.isFolder place = false ∧
        e = if s.isFile place then .notFolder asked else .notFound asked := by
  induction parts generalizing here with
  | nil => cases stops
  | cons part rest ih =>
    rw [obstacleFrom?] at stops
    cases there : s.isFolder here with
    | false =>
      rw [there] at stops
      exact .inr ⟨here, List.mem_cons_self, there, (Option.some.inj stops).symm⟩
    | true =>
      rw [there, if_neg (by simp)] at stops
      rcases Nat.lt_or_ge Limits.name part.utf8ByteSize with long | short
      · rw [if_pos long] at stops
        exact .inl ⟨⟨part, List.mem_cons_self, long⟩, (Option.some.inj stops).symm⟩
      · rw [if_neg (Nat.not_lt.mpr short)] at stops
        rcases ih stops with ⟨⟨other, member, long⟩, same⟩ | ⟨place, member, missing⟩
        · exact .inl ⟨⟨other, List.mem_cons_of_mem _ member, long⟩, same⟩
        · exact .inr ⟨place, List.mem_cons_of_mem _ member, missing⟩

theorem obstacleFrom?_concat (asked : String) (here : Place) (parts : List String) (last : String) :
    s.obstacleFrom? asked here (parts ++ [last]) =
      (s.obstacleFrom? asked here parts).or
        (s.obstacleFrom? asked (parts.foldl Path.step here) [last]) := by
  induction parts generalizing here with
  | nil => rfl
  | cons part rest ih =>
    rw [List.cons_append, obstacleFrom?, obstacleFrom?, List.foldl_cons, ih]
    split_ifs <;> rfl

theorem obstacle?_cases (stops : s.obstacle? p = some e) :
    (p.fits = false ∧ e = .tooLong p.text) ∨
      ∃ place ∈ p.through, s.isFolder place = false ∧
        e = if s.isFile place then .notFolder p.text else .notFound p.text := by
  rw [obstacle?] at stops
  rw [Bool.eq_false_iff, ne_eq, Path.fits_iff]
  split at stops
  case isTrue long =>
    exact .inl ⟨fun fits => absurd fits.1 (Nat.not_le.mpr long), (Option.some.inj stops).symm⟩
  case isFalse =>
    refine (obstacleFrom?_cases stops).imp_left fun ⟨⟨part, member, long⟩, same⟩ => ⟨?_, same⟩
    exact fun fits => absurd (fits.2 part member) (Nat.not_le.mpr long)

theorem obstacle?_of_kept {after : Store} (kept : ∀ place, s.isFolder place = true →
      after.isFolder place = true) (free : s.obstacle? p = none) : after.obstacle? p = none := by
  obtain ⟨fits, folders⟩ := obstacle?_eq_none_iff.mp free
  exact obstacle?_eq_none_iff.mpr ⟨fits, fun place member => kept place (folders place member)⟩

/-- Only what is on the way matters. -/
theorem obstacle?_congr {after : Store} (same : ∀ place ∈ p.through,
      after.isFolder place = s.isFolder place ∧ after.isFile place = s.isFile place) :
    after.obstacle? p = s.obstacle? p := by
  have from_ (asked : String) (here : Place) (parts : List String)
      (same : ∀ place ∈ Path.throughFrom here parts,
        after.isFolder place = s.isFolder place ∧ after.isFile place = s.isFile place) :
      after.obstacleFrom? asked here parts = s.obstacleFrom? asked here parts := by
    induction parts generalizing here with
    | nil => rfl
    | cons part rest ih =>
      rw [Path.throughFrom, List.forall_mem_cons] at same
      rw [obstacleFrom?, obstacleFrom?, same.1.1, same.1.2, ih _ same.2]
  rw [obstacle?, obstacle?, from_ _ _ _ same]

/-- Something is there just if the path leads to it. -/
theorem exists?_eq_true_iff :
    s.exists? p = .ok true ↔ s.obstacle? p = none ∧ s.has p.place = true := by
  rw [exists?]
  rcases s.obstacle? p with _ | (_ | _ | _ | _ | _) <;> simp

theorem exists?_of_fits (fits : p.fits = true) :
    s.exists? p = .ok (p.through.all s.isFolder && s.has p.place) := by
  rw [exists?]
  cases stops : s.obstacle? p with
  | none =>
    have folders := List.all_eq_true.mpr (obstacle?_eq_none_iff.mp stops).2
    simp only [folders, Bool.true_and]
  | some e =>
    obtain ⟨long, -⟩ | ⟨place, member, missing, rfl⟩ := obstacle?_cases stops
    · exact absurd fits (Bool.eq_false_iff.mp long)
    · have blocked : p.through.all s.isFolder = false :=
        List.all_eq_false.mpr ⟨place, member, Bool.eq_false_iff.mp missing⟩
      rw [blocked]
      cases s.isFile place <;> rfl

/-- A path that does not fit cannot be looked at, if it is not something on its way that is
missing. -/
theorem exists?_of_not_fits (long : p.fits = false) :
    s.exists? p = .error (.tooLong p.text) ∨
      s.exists? p = .ok false ∧ ∃ place ∈ p.through, s.isFolder place = false := by
  rw [exists?]
  cases stops : s.obstacle? p with
  | none => exact absurd (obstacle?_eq_none_iff.mp stops).1 (Bool.eq_false_iff.mp long)
  | some e =>
    obtain ⟨-, rfl⟩ | ⟨place, member, missing, rfl⟩ := obstacle?_cases stops
    · exact .inl rfl
    · refine .inr ⟨?_, place, member, missing⟩
      cases s.isFile place <;> rfl

/-- In a folder whose path fits, what does not fit cannot be looked at as soon as the folder is
there; and a path that is too long as a whole never can. -/
theorem exists?_child_of_not_fits {folder : Path} {name : String} (fits : folder.fits = true)
    (long : (folder.child name).fits = false) :
    s.exists? (folder.child name) =
      if Limits.path < (folder.child name).size ∨ ∀ place ∈ folder.visited, s.isFolder place = true
      then .error (.tooLong (folder.child name).text) else .ok false := by
  by_cases whole : Limits.path < (folder.child name).size
  · rw [if_pos (.inl whole), exists?, obstacle?, if_pos whole]
  by_cases there : ∀ place ∈ folder.visited, s.isFolder place = true
  · rw [if_pos (.inr there)]
    refine (exists?_of_not_fits long).resolve_right ?_
    rintro ⟨-, place, member, missing⟩
    rw [Path.through_child] at member
    exact Bool.false_ne_true (missing.symm.trans (there place member))
  · rw [if_neg (not_or.mpr ⟨whole, there⟩), exists?, obstacle?, if_neg whole]
    have parts : (folder.child name).parts = folder.parts ++ [name] := rfl
    rw [parts, obstacleFrom?_concat]
    -- the way stops before it comes to the name
    cases stops : s.obstacleFrom? (folder.child name).text (folder.child name).start folder.parts with
    | some e =>
      obtain ⟨⟨part, member, more⟩, -⟩ | ⟨place, -, -, rfl⟩ := obstacleFrom?_cases stops
      · exact absurd ((Path.fits_iff.mp fits).2 part member) (Nat.not_le.mpr more)
      · cases s.isFile place <;> rfl
    | none =>
      have way := (obstacleFrom?_eq_none_iff.mp stops).1
      have missing : s.isFolder folder.place = false := by
        by_contra found
        refine there (List.forall_mem_append.mpr ⟨way, ?_⟩)
        simpa using found
      have start : folder.parts.foldl Path.step (folder.child name).start = folder.place := rfl
      rw [start, obstacleFrom?, missing]
      cases s.isFile folder.place <;> rfl

theorem refusal?_eq_none_iff :
    s.refusal? p = none ↔ s.obstacle? p = none ∧ s.isFolder p.place = false := by
  rw [refusal?]
  cases s.obstacle? p <;> simp

end

end Reckon.Store
