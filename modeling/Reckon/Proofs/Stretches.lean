import Mathlib.Data.List.TakeWhile

/-!
Stretches of a list. A stretch is a row of entries that all pass a test, and no entry next to it
does; it may be empty. The first stretch is what is taken while the test is passed, and all others
lie behind it.
-/

namespace Reckon

variable {α : Type} {p : α → Bool} {c : α} {l part : List α}

/-- The part stands in the list, all its entries pass the test, and the entries next to it do not. -/
def IsStretch (p : α → Bool) (l part : List α) : Prop :=
  ∃ before after, l = before ++ part ++ after ∧ (∀ a ∈ part, p a = true) ∧
    (∀ a ∈ before.getLast?, p a = false) ∧ ∀ a ∈ after.head?, p a = false

namespace IsStretch

theorem eq_nil (stretch : IsStretch p [] part) : part = [] := by
  obtain ⟨before, after, split, -⟩ := stretch
  exact (List.append_eq_nil_iff.mp (List.append_eq_nil_iff.mp split.symm).1).2

theorem cons_iff (fails : p c = false) (filled : part ≠ []) :
    IsStretch p (c :: l) part ↔ IsStretch p l part := by
  constructor
  · rintro ⟨before, after, split, inside, left, right⟩
    cases before with
    | nil =>
      obtain ⟨a, rest, rfl⟩ := List.exists_cons_of_ne_nil filled
      obtain ⟨rfl, -⟩ := List.cons.inj split
      exact absurd (inside c List.mem_cons_self) (by simp [fails])
    | cons d before =>
      obtain ⟨rfl, rfl⟩ := List.cons.inj split
      refine ⟨before, after, rfl, inside, fun a last => left a ?_, right⟩
      rw [List.getLast?_cons, Option.mem_def.mp last]
      rfl
  · rintro ⟨before, after, rfl, inside, left, right⟩
    refine ⟨c :: before, after, rfl, inside, fun a last => ?_, right⟩
    rw [List.getLast?_cons, Option.mem_some_iff] at last
    cases ends : before.getLast? with
    | none =>
      rw [ends] at last
      exact last ▸ fails
    | some d =>
      rw [ends] at last
      exact left a (last ▸ ends)

/-- The first stretch of the list ends where the test fails first. -/
theorem takeWhile (p : α → Bool) (l : List α) : IsStretch p l (l.takeWhile p) := by
  refine ⟨[], l.dropWhile p, List.takeWhile_append_dropWhile.symm,
    fun a member => List.all_eq_true.mp List.all_takeWhile a member, nofun, fun a first => ?_⟩
  have stops := List.head?_dropWhile_not p l
  rwa [Option.mem_def.mp first] at stops

theorem eq_takeWhile {after : List α} (inside : ∀ a ∈ part, p a = true)
    (right : ∀ a ∈ after.head?, p a = false) : part = (part ++ after).takeWhile p := by
  rw [List.takeWhile_append_of_pos inside]
  cases after with
  | nil => simp
  | cons a after => simp [right a rfl]

/-- A stretch is the first one, or lies behind it. -/
theorem iff_takeWhile (filled : part ≠ []) :
    IsStretch p l part ↔ part = l.takeWhile p ∨ IsStretch p (l.dropWhile p) part := by
  constructor
  · rintro ⟨before, after, rfl, inside, left, right⟩
    cases ends : before.getLast? with
    | none =>
      rw [List.getLast?_eq_none_iff.mp ends]
      exact .inl (eq_takeWhile inside right)
    | some d =>
      have fails : p d = false := left d ends
      have kept : before.dropWhile p ≠ [] := fun none => by
        simp [List.dropWhile_eq_nil_iff.mp none d (List.mem_of_getLast? ends)] at fails
      have last : (before.dropWhile p).getLast? = before.getLast? := by
        have joined := congrArg List.getLast? (List.takeWhile_append_dropWhile (p := p) (l := before))
        rwa [List.getLast?_append, Option.or_of_isSome (by simpa using kept)] at joined
      refine .inr ⟨before.dropWhile p, after, ?_, inside, last ▸ left, right⟩
      rw [List.append_assoc, List.dropWhile_append, if_neg (by simpa using kept), List.append_assoc]
  · rintro (rfl | ⟨before, after, split, inside, left, right⟩)
    · exact takeWhile p l
    · have stops := List.head?_dropWhile_not p l
      refine ⟨l.takeWhile p ++ before, after, ?_, inside, ?_, right⟩
      · rw [List.append_assoc, List.append_assoc, ← List.append_assoc before, ← split,
          List.takeWhile_append_dropWhile]
      · cases before with
        | nil =>
          obtain ⟨a, rest, rfl⟩ := List.exists_cons_of_ne_nil filled
          simp [split, inside a List.mem_cons_self] at stops
        | cons b before =>
          rwa [List.getLast?_append, Option.or_of_isSome (by simp)]

end IsStretch

end Reckon
