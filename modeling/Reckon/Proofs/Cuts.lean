import Reckon.Proofs.Phrases

/-!
How a text is cut into tokens. `Cuts` lays the tokens over the text: each is spelled as its kind
demands, what stands behind it ends it, and between tokens there are only blanks. The lexer
succeeds exactly where such a cut exists. Where it fails, the text before the offence is cut, and
of all that stands behind it only the first character matters to that cut.
-/

namespace Reckon.Formula

namespace Lexer

variable {start : Nat} {chars rest more : List Char} {ts : List Token}

inductive Cuts (rest : List Char) : Nat → List Char → List Token → Prop where
  | nil {start : Nat} : Cuts rest start [] []
  | blank {start : Nat} {c : Char} {chars : List Char} {ts : List Token}
      (blank : Text.isBlank c = true) (behind : Cuts rest (start + 1) chars ts) :
      Cuts rest start (c :: chars) ts
  | lexeme {start : Nat} {kind : Kind} {c : Char} {run chars : List Char} {ts : List Token}
      (spells : Spells kind (c :: run)) (stops : Stops kind (chars ++ rest))
      (behind : Cuts rest (start + run.length + 1) chars ts) :
      Cuts rest start (c :: (run ++ chars))
        (⟨kind, String.ofList (c :: run), some start⟩ :: ts)

namespace Cuts

/-- What stands behind a cut matters only in so far as it ends the tokens before it. -/
theorem imp (cuts : Cuts rest start chars ts)
    (stops : ∀ kind, Stops kind rest → Stops kind more) : Cuts more start chars ts := by
  induction cuts with
  | nil => exact .nil
  | blank blank behind ih => exact .blank blank ih
  | @lexeme _ kind c run chars ts spells stopped behind ih =>
    refine .lexeme spells ?_ ih
    cases chars with
    | nil => exact stops kind stopped
    | cons d chars => exact stopped

theorem alone (cuts : Cuts rest start chars ts) : Cuts [] start chars ts :=
  cuts.imp fun kind _ => stops_nil kind

theorem before_ends (cuts : Cuts rest start chars ts) (ends : Ends more) : Cuts more start chars ts :=
  cuts.imp fun kind _ => ends.stops kind

theorem before_same {c : Char} (cuts : Cuts (c :: rest) start chars ts) (more : List Char) :
    Cuts (c :: more) start chars ts :=
  cuts.imp fun _ stopped => stopped

theorem after_blanks {gap : List Char} (blank : ∀ c ∈ gap, Text.isBlank c = true)
    (cuts : Cuts rest (start + gap.length) chars ts) : Cuts rest start (gap ++ chars) ts := by
  induction gap generalizing start with
  | nil => exact cuts
  | cons c gap ih =>
    obtain ⟨first, others⟩ := List.forall_mem_cons.mp blank
    refine .blank first (ih others ?_)
    rwa [Nat.add_assoc, Nat.add_comm 1]

/-- The lexer reads the tokens of a cut, and goes on behind it. -/
theorem scans (cuts : Cuts rest start chars ts) :
    Scans start (chars ++ rest) ts (start + chars.length) rest := by
  induction cuts with
  | nil =>
    simp only [Scans, List.nil_append, List.length_nil, Nat.add_zero]
    cases scan _ rest <;> rfl
  | @blank start c chars ts blank behind ih =>
    rw [Scans, List.cons_append, scan, if_pos blank, ih, List.length_cons, Nat.add_assoc,
      Nat.add_comm 1]
  | @lexeme start kind c run chars ts spells stops behind ih =>
    have read : token c (run ++ (chars ++ rest)) start = _ := token_of_spells spells stops
    have first := Scans.of_token (isBlank_of_spells spells) read
    have length : start + (c :: (run ++ chars)).length = start + run.length + 1 + chars.length := by
      rw [List.length_cons, List.length_append]
      omega
    rw [List.cons_append, List.append_assoc, length]
    exact first.trans ih

end Cuts

theorem exists_of_token {c : Char} {t : Token} (read : token c rest start = .ok t) :
    ∃ kind run behind, rest = run ++ behind ∧ Spells kind (c :: run) ∧ Stops kind behind ∧
      t = ⟨kind, String.ofList (c :: run), some start⟩ := by
  have spells := spells_token read
  cases start_cases c with
  | number digit =>
    rw [token_of_isDigit digit] at read
    obtain ⟨letter, -, -, rfl⟩ := number_eq_ok_iff.mp read
    rw [String.toList_ofList] at spells
    refine ⟨_, _, _, List.takeWhile_append_dropWhile.symm, spells, fun x head => ?_, rfl⟩
    have other := List.head?_dropWhile_not isNumberChar rest
    rw [Option.mem_def.mp head] at other
    exact Bool.or_eq_false_iff.mpr ⟨other, letter x head⟩
  | word letter =>
    rw [token_of_isAlpha letter] at read
    obtain ⟨-, rfl⟩ := word_eq_ok_iff.mp read
    rw [String.toList_ofList] at spells
    refine ⟨_, _, _, List.takeWhile_append_dropWhile.symm, spells, fun x head => ?_, rfl⟩
    have other := List.head?_dropWhile_not isWordChar rest
    rw [Option.mem_def.mp head] at other
    split <;> exact other
  | @sign kind sign single =>
    rw [single, String.singleton_eq_ofList] at read
    cases read
    refine ⟨kind, [], rest, rfl, spells_sign sign, ?_, rfl⟩
    cases sign <;> exact fun _ _ => rfl
  | offence refused =>
    rw [refused] at read
    cases read

/-- The lexer succeeds only on what can be cut. -/
theorem cuts_of_scan (read : scan start chars = .ok ts) : Cuts [] start chars ts := by
  fun_induction scan start chars generalizing ts with
  | case1 =>
    cases read
    exact .nil
  | case2 start c rest blank ih => exact .blank blank (ih read)
  | case3 start c rest ink e failed => cases read
  | case4 start c rest ink t first e failed ih => cases read
  | case5 start c rest ink t first others more ih =>
    cases read
    obtain ⟨kind, run, behind, rfl, spells, stops, rfl⟩ := exists_of_token first
    have cut := ih more
    simp only [String.length_ofList, List.length_cons, Nat.add_sub_cancel, List.drop_left,
      ← Nat.add_assoc] at cut
    exact .lexeme spells (by rwa [List.append_nil]) cut

theorem scan_eq_ok_iff : scan start chars = .ok ts ↔ Cuts [] start chars ts := by
  refine ⟨cuts_of_scan, fun cuts => ?_⟩
  have scans := cuts.scans
  rw [List.append_nil] at scans
  exact scans.ok

/-- Where the lexer fails, the text before the offence is cut, and no token starts the rest. -/
theorem exists_of_scan_error {e : LexError} (failed : scan start chars = .error e) :
    ∃ front c rest ts, chars = front ++ c :: rest ∧ Cuts (c :: rest) start front ts ∧
      Text.isBlank c = false ∧ token c rest (start + front.length) = .error e := by
  fun_induction scan start chars with
  | case1 => cases failed
  | case2 start c rest blank ih =>
    obtain ⟨front, d, behind, ts, rfl, cuts, ink, offends⟩ := ih failed
    refine ⟨c :: front, d, behind, ts, rfl, .blank blank cuts, ink, ?_⟩
    rw [← offends, List.length_cons, Nat.add_assoc, Nat.add_comm 1]
  | case3 start c rest ink e offends =>
    cases failed
    exact ⟨[], c, rest, [], rfl, .nil, Bool.eq_false_iff.mpr ink, offends⟩
  | case4 start c rest ink t first e' stuck ih =>
    cases failed
    obtain ⟨kind, run, behind, rfl, spells, stops, rfl⟩ := exists_of_token first
    simp only [String.length_ofList, List.length_cons, Nat.add_sub_cancel, List.drop_left,
      ← Nat.add_assoc] at stuck ih
    obtain ⟨front, d, after, ts, rfl, cuts, ink', offends⟩ := ih stuck
    refine ⟨c :: (run ++ front), d, after, _, by simp, .lexeme spells stops cuts, ink', ?_⟩
    rw [← offends, List.length_cons, List.length_append]
    congr 1
    omega
  | case5 start c rest ink t first others more ih => cases failed

end Lexer

end Reckon.Formula
