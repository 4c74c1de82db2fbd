import Reckon.Proofs.Naming
import Reckon.Proofs.Stretches

/-!
The names of any text, well formed or not. A block is a stretch of letters and underscores; all other
characters lie between blocks. A name is what a block holds from its first letter on, so every block
with a letter has one name, and the variables are these names without that of the square root.
-/

namespace Reckon.Formula

def isBlockChar (c : Char) : Bool :=
  ('A' ≤ c && c ≤ 'Z') || ('a' ≤ c && c ≤ 'z') || c == '_'

theorem isNameChar_eq_isBlockChar : isNameChar = isBlockChar := by
  funext c
  simp [isNameChar, isBlockChar, Char.isAlpha, Char.isUpper, Char.isLower, Char.le_def]

/-- The name is what a block of the text holds behind the underscores in its front. -/
def Bares (text name : List Char) : Prop :=
  name ≠ [] ∧ ∃ block, IsStretch isBlockChar text block ∧ name = block.dropWhile (· == '_')

namespace Bares

variable {c : Char} {text rest name : List Char}

theorem block_ne_nil {block : List Char} (filled : block.dropWhile (· == '_') ≠ []) :
    block ≠ [] := by
  rintro rfl
  exact filled rfl

theorem not_nil (name : List Char) : ¬ Bares [] name := by
  rintro ⟨filled, block, stretch, rfl⟩
  exact block_ne_nil filled stretch.eq_nil

theorem iff_takeWhile (text name : List Char) :
    Bares text name ↔
      (name ≠ [] ∧ name = (text.takeWhile isBlockChar).dropWhile (· == '_')) ∨
        Bares (text.dropWhile isBlockChar) name := by
  constructor
  · rintro ⟨filled, block, stretch, rfl⟩
    refine ((IsStretch.iff_takeWhile (block_ne_nil filled)).mp stretch).imp ?_ ?_
    · rintro rfl
      exact ⟨filled, rfl⟩
    · exact fun behind => ⟨filled, block, behind, rfl⟩
  · rintro (⟨filled, rfl⟩ | ⟨filled, block, stretch, rfl⟩)
    · exact ⟨filled, _, .takeWhile _ _, rfl⟩
    · exact ⟨filled, block, (IsStretch.iff_takeWhile (block_ne_nil filled)).mpr (.inr stretch), rfl⟩

theorem letter_iff (letter : c.isAlpha = true) (rest name : List Char) :
    Bares (c :: rest) name ↔
      name = c :: rest.takeWhile isBlockChar ∨ Bares (rest.dropWhile isBlockChar) name := by
  have inside : isBlockChar c = true := by
    rw [← isNameChar_eq_isBlockChar, isNameChar, letter, Bool.true_or]
  have first : c ≠ '_' := by
    rintro rfl
    exact absurd letter (by decide)
  rw [iff_takeWhile, List.takeWhile_cons_of_pos inside, List.dropWhile_cons_of_pos inside,
    List.dropWhile_cons_of_neg (by simpa using first), and_iff_right_of_imp]
  rintro rfl
  exact List.cons_ne_nil _ _

/-- An underscore in front of a text lengthens the first block or is a block of its own, and bares
no other name. -/
theorem underscore_iff (rest name : List Char) : Bares ('_' :: rest) name ↔ Bares rest name := by
  rw [iff_takeWhile, iff_takeWhile rest, List.takeWhile_cons_of_pos rfl,
    List.dropWhile_cons_of_pos rfl, List.dropWhile_cons_of_pos rfl]

theorem other_iff (other : isBlockChar c = false) (rest name : List Char) :
    Bares (c :: rest) name ↔ Bares rest name := by
  refine and_congr_right fun filled => exists_congr fun block => and_congr_left ?_
  rintro rfl
  exact IsStretch.cons_iff other (block_ne_nil filled)

end Bares

theorem mem_names_iff {text : List Char} {name : String} :
    name ∈ names text ↔ Bares text name.toList := by
  fun_induction names text with
  | case1 => simp [Bares.not_nil]
  | case2 c rest letter ih =>
    rw [List.mem_cons, ih, Bares.letter_iff letter, isNameChar_eq_isBlockChar, ← String.toList_inj,
      String.toList_ofList]
  | case3 c rest other ih =>
    rw [ih]
    by_cases underscore : c = '_'
    · rw [underscore, Bares.underscore_iff]
    · refine (Bares.other_iff ?_ rest _).symm
      rw [← isNameChar_eq_isBlockChar]
      simp [isNameChar, other, underscore]

/-- The variables of any text stand in ascending order, each once: they are the names of its blocks,
but for that of the square root. -/
theorem variableNames_eq_blocks (text : String) :
    (variableNames text).Pairwise (· < ·) ∧
      ∀ name : String, name ∈ variableNames text ↔ name ≠ "" ∧ name ≠ "sqrt" ∧
        ∃ block, IsStretch isBlockChar text.toList block ∧
          name.toList = block.dropWhile (· == '_') := by
  refine ⟨pairwise_sortNames _, fun name => ?_⟩
  rw [variableNames, mem_sortNames, List.mem_filter, mem_names_iff, Bares, decide_eq_true_iff,
    and_right_comm, and_assoc, Ne, String.toList_eq_nil_iff]
  rfl

/-- A digit and a letter with a mark part blocks, and underscores in front hide no square root. -/
example : variableNames "_a1b__+é+sqrt(_sqrt)+sqrt_" = ["a", "b__", "sqrt_"] := by decide +kernel

end Reckon.Formula
