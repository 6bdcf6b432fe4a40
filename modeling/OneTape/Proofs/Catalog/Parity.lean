import Mathlib.Algebra.Group.Nat.Even
import OneTape.Proofs.Catalog.Entries

namespace OneTape

namespace Catalog

variable {word : List Symbol} {s : Symbol} {i : Nat}

theorem scan?_evenOnes (binary : IsBinary word) (state : i < 2) :
    evenOnesTable.scan? i word = some ((i + word.count '1') % 2) := by
  induction word generalizing i with
  | nil => rw [Description.Outline.scan?_nil, List.count_nil, Nat.add_zero, Nat.mod_eq_of_lt state]
  | cons s word ih =>
    obtain ⟨rfl | rfl, rest⟩ := isBinary_cons.1 binary
    · have passed : evenOnesTable.pass? i '0' = some i := by
        rcases Nat.le_one_iff_eq_zero_or_eq_one.1 (Nat.le_of_lt_succ state) with rfl | rfl <;> rfl
      rw [Description.Outline.scan?_cons, passed, Option.bind_some, ih rest state,
        List.count_cons_of_ne (by decide)]
    · have passed : evenOnesTable.pass? i '1' = some (1 - i) := by
        rcases Nat.le_one_iff_eq_zero_or_eq_one.1 (Nat.le_of_lt_succ state) with rfl | rfl <;> rfl
      rw [Description.Outline.scan?_cons, passed, Option.bind_some, ih rest (by omega),
        List.count_cons_self]
      congr 1
      omega

theorem evenOnes_stuck (other : ¬ (s = '0' ∨ s = '1')) (i : Nat) :
    evenOnesTable.rule? i s = none := by
  obtain ⟨zero, one⟩ := not_or.1 other
  match i with
  | 0 | 1 => simp [Description.Outline.rule?, evenOnesTable, Ne.symm zero, Ne.symm one]
  | _ + 2 => rfl

/-- The machine accepts exactly if the number of ones among the leading digits is even. -/
theorem even_ones_decides_parity : ∃ m, Machine.builtin "even-ones" = .ok m ∧
    ∀ row, ∃ c v, m.HaltsAfter row (leadingDigits row).length c ∧
      c.head = (leadingDigits row).length ∧
      (∀ o, c.tape.read o = (m.start row).tape.read o) ∧
      (∀ fuel, m.judge row fuel =
        if (leadingDigits row).length ≤ fuel then some (m.report c [], v) else none) ∧
      (if Even ((leadingDigits row).count '1') then
        (m.report c []).finalState = "even" ∧ v = .accepted
      else (m.report c []).finalState = "odd" ∧ v = .rejected) ∧
      (IsBinary row → (v = .accepted ↔ Even (row.count '1'))) := by
  have entry : source? "even-ones" = some evenOnes := rfl
  obtain ⟨m, found, parsed, table⟩ := exists_builtin entry outline_evenOnes
  have initial : m.initial = 0 := congrArg Description.Outline.initial table
  refine ⟨m, found, fun row => ?_⟩
  obtain ⟨rest, split, other⟩ := exists_leadingDigits row
  have binary := isBinary_leadingDigits row
  have whole (digits : IsBinary row) : leadingDigits row = row := leadingDigits_of_isBinary digits
  generalize leadingDigits row = word at split binary whole ⊢
  subst split
  have scanned := scan?_evenOnes binary (Nat.zero_lt_two)
  rw [Nat.zero_add] at scanned
  have arrives := Textbook.after?_start (m := m) (by rwa [table, initial]) rest
  have stuck : (⟨word.count '1' % 2, word.length, Textbook.contents (word ++ rest)⟩ :
      Textbook).rule? m = none := by
    rw [Textbook.rule?_eq rfl, table]
    refine evenOnes_stuck ?_ _
    cases rest with
    | nil =>
      rw [List.append_nil, Textbook.contents_of_length_le (Int.le_refl _)]
      decide
    | cons s rest =>
      rw [Textbook.contents_append_length]
      exact other s rfl
  obtain ⟨c, halts, plain⟩ := Machine.exists_haltsAfter (Machine.valid_ofText parsed) arrives stuck
  have state : c.state = word.count '1' % 2 := congrArg Textbook.state plain
  have cells : c.tape.read = Textbook.contents (word ++ rest) := congrArg Textbook.cells plain
  have start : (m.start (word ++ rest)).tape.read = Textbook.contents (word ++ rest) :=
    congrArg Textbook.cells (Textbook.plain_start (m := m))
  have name : (m.report c []).finalState = (evenOnesTable.names[c.state]?).getD "" := by
    rw [← table, ← Machine.nameOf_eq]
    rfl
  have accepting : m.isAcceptingId c.state = true ↔ c.state ∈ evenOnesTable.accepting := by
    rw [(Machine.consistent_ofText parsed).isAcceptingId_iff, ← table]
    rfl
  have verdict : Verdict.ofBool (m.isAcceptingId c.state) = .accepted ↔
      Even (word.count '1') := by
    rw [Nat.even_iff, ← state]
    simp [Verdict.ofBool, accepting, evenOnesTable]
  refine ⟨c, _, halts, congrArg Textbook.head plain, fun o => by rw [cells, start], halts.judge_eq,
    ?answer, ?whole⟩
  case answer =>
    split
    · rename_i even
      exact ⟨by rw [name, state, Nat.even_iff.1 even]; rfl, verdict.2 even⟩
    · rename_i odd
      refine ⟨by rw [name, state, Nat.not_even_iff.1 odd]; rfl, ?_⟩
      cases given : Verdict.ofBool (m.isAcceptingId c.state) with
      | rejected => rfl
      | accepted => exact absurd (verdict.1 given) odd
  case whole =>
    intro digits
    rw [verdict, congrArg (List.count '1') (whole digits)]

theorem even_ones_decides_parity_foreign : IsBinary ['1', '0', '1', '1'] ∧
    ∃ m r r', Machine.builtin "even-ones" = .ok m ∧
      m.judge ['1', '0', '1', '1'] 4 = some (r, .rejected) ∧ r.finalState = "odd" ∧
      m.judge ['1', '1', '_', '1'] 2 = some (r', .accepted) ∧ r'.finalState = "even" := by
  have binary : IsBinary ['1', '0', '1', '1'] := by simp [IsBinary]
  obtain ⟨m, found, decides⟩ := even_ones_decides_parity
  obtain ⟨c, v, -, -, -, judged, answer, parity⟩ := decides ['1', '0', '1', '1']
  obtain ⟨c', v', -, -, -, judged', answer', -⟩ := decides ['1', '1', '_', '1']
  have odd : ¬ Even ((leadingDigits ['1', '0', '1', '1']).count '1') := by decide
  have even : Even ((leadingDigits ['1', '1', '_', '1']).count '1') := by decide
  rw [if_neg odd] at answer
  rw [if_pos even] at answer'
  have rejected : v = .rejected := by
    cases v with
    | rejected => rfl
    | accepted => exact absurd ((parity binary).1 rfl) (by decide)
  rw [rejected] at judged
  rw [answer'.2] at judged'
  exact ⟨binary, m, _, _, found, judged 4, answer.1, judged' 2, answer'.1⟩

end Catalog

end OneTape
