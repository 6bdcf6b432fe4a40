import OneTape.Proofs.Catalog.Entries

/-!
What each state still accepts is a residual of the language, so that the states are compared with
the word that is left, digit by digit.
-/

namespace OneTape

namespace Catalog

variable {word : List Symbol} {s : Symbol} {i j : Nat}

def IsZerosOne (word : List Symbol) : Prop := ∃ zeros, word = List.replicate zeros '0' ++ ['1']

def IsOnesZerosOne (word : List Symbol) : Prop :=
  ∃ ones zeros, word = List.replicate ones '1' ++ List.replicate zeros '0' ++ ['1']

theorem not_isZerosOne_nil : ¬ IsZerosOne [] := by
  simp [IsZerosOne]

theorem isZerosOne_cons_zero : IsZerosOne ('0' :: word) ↔ IsZerosOne word := by
  constructor
  · rintro ⟨_ | zeros, eq⟩
    · simp at eq
    · exact ⟨zeros, (List.cons.inj eq).2⟩
  · rintro ⟨zeros, rfl⟩
    exact ⟨zeros + 1, rfl⟩

theorem isZerosOne_cons_one : IsZerosOne ('1' :: word) ↔ word = [] := by
  constructor
  · rintro ⟨_ | zeros, eq⟩
    · exact (List.cons.inj eq).2
    · simp [List.replicate_succ] at eq
  · rintro rfl
    exact ⟨0, rfl⟩

theorem not_isOnesZerosOne_nil : ¬ IsOnesZerosOne [] := by
  simp [IsOnesZerosOne]

theorem isOnesZerosOne_cons_zero : IsOnesZerosOne ('0' :: word) ↔ IsZerosOne word := by
  rw [← isZerosOne_cons_zero]
  constructor
  · rintro ⟨_ | ones, zeros, eq⟩
    · exact ⟨zeros, eq⟩
    · simp [List.replicate_succ] at eq
  · rintro ⟨zeros, eq⟩
    exact ⟨0, zeros, eq⟩

theorem isOnesZerosOne_cons_one :
    IsOnesZerosOne ('1' :: word) ↔ word = [] ∨ IsOnesZerosOne word := by
  constructor
  · rintro ⟨_ | ones, zeros, eq⟩
    · exact .inl (isZerosOne_cons_one.1 ⟨zeros, eq⟩)
    · exact .inr ⟨ones, zeros, (List.cons.inj eq).2⟩
  · rintro (rfl | ⟨ones, zeros, rfl⟩)
    · exact ⟨0, 0, rfl⟩
    · exact ⟨ones + 1, zeros, rfl⟩

/-! ## Residuals -/

/-- The word is passed over from the state `i`, up to a state that accepts at its end. -/
def Passes (i : Nat) (word : List Symbol) : Prop :=
  ∃ j, onesZerosOneTable.scan? i word = some j ∧ j ∈ [2, 4, 6]

theorem passes_nil : Passes i [] ↔ i ∈ [2, 4, 6] := by
  simp [Passes]

theorem passes_cons (passed : onesZerosOneTable.pass? i s = some j) :
    Passes i (s :: word) ↔ Passes j word := by
  rw [Passes, Description.Outline.scan?_cons, passed]
  rfl

theorem not_passes_cons (stuck : onesZerosOneTable.pass? i s = none) : ¬ Passes i (s :: word) := by
  rw [Passes, Description.Outline.scan?_cons, stuck]
  rintro ⟨j, scanned, -⟩
  cases scanned

theorem passes_four (binary : IsBinary word) : Passes 4 word ↔ word = [] := by
  cases word with
  | nil => simp [passes_nil]
  | cons s word =>
    have stuck : onesZerosOneTable.pass? 4 s = none := by
      rcases (isBinary_cons.1 binary).1 with rfl | rfl <;> rfl
    simp [not_passes_cons stuck]

theorem passes_three (binary : IsBinary word) : Passes 3 word ↔ IsZerosOne word := by
  induction word with
  | nil => simp [passes_nil, not_isZerosOne_nil]
  | cons s word ih =>
    obtain ⟨rfl | rfl, rest⟩ := isBinary_cons.1 binary
    · rw [passes_cons rfl, ih rest, isZerosOne_cons_zero]
    · rw [passes_cons rfl, passes_four rest, isZerosOne_cons_one]

theorem passes_six (binary : IsBinary word) : Passes 6 word ↔ word = [] ∨ IsOnesZerosOne word := by
  induction word with
  | nil => simp [passes_nil]
  | cons s word ih =>
    rw [or_iff_right (List.cons_ne_nil s word)]
    obtain ⟨rfl | rfl, rest⟩ := isBinary_cons.1 binary
    · rw [passes_cons rfl, passes_three rest, isOnesZerosOne_cons_zero]
    · rw [passes_cons rfl, ih rest, isOnesZerosOne_cons_one]

/-- The third state and the last differ on the blank only. -/
theorem passes_two (binary : IsBinary word) : Passes 2 word ↔ Passes 6 word := by
  cases word with
  | nil => simp [passes_nil]
  | cons s word =>
    rcases (isBinary_cons.1 binary).1 with rfl | rfl
    · rw [passes_cons rfl, passes_cons rfl]
    · rw [passes_cons rfl, passes_cons rfl]

theorem passes_one (binary : IsBinary word) : Passes 1 word ↔ IsOnesZerosOne word := by
  cases word with
  | nil => simp [passes_nil, not_isOnesZerosOne_nil]
  | cons s word =>
    obtain ⟨rfl | rfl, rest⟩ := isBinary_cons.1 binary
    · rw [passes_cons rfl, passes_three rest, isOnesZerosOne_cons_zero]
    · rw [passes_cons rfl, passes_two rest, passes_six rest, isOnesZerosOne_cons_one]

theorem passes_zero (binary : IsBinary word) : Passes 0 word ↔
    ∃ ones zeros, word = '1' :: List.replicate ones '1' ++ List.replicate zeros '0' ++ ['1'] := by
  cases word with
  | nil => simp [passes_nil]
  | cons s word =>
    obtain ⟨rfl | rfl, rest⟩ := isBinary_cons.1 binary
    · have stuck : ¬ Passes 0 ('0' :: word) := not_passes_cons rfl
      simp [stuck]
    · rw [passes_cons rfl, passes_one rest, IsOnesZerosOne]
      simp

/-! ## Runs -/

theorem scanned_mem (scanned : onesZerosOneTable.scan? 0 word = some j) :
    j ∈ [0, 1, 2, 3, 4, 6] :=
  Description.Outline.scan?_induction (P := (· ∈ [0, 1, 2, 3, 4, 6])) (by decide) (by decide)
    scanned

theorem stuck_of_pass?_eq_none (passable : j ∈ [0, 1, 2, 3, 4, 6]) (digit : s = '0' ∨ s = '1')
    (stuck : onesZerosOneTable.pass? j s = none) :
    onesZerosOneTable.rule? j s = none ∧ j ∉ onesZerosOneTable.accepting := by
  revert stuck
  revert j
  rcases digit with rfl | rfl <;> decide

/-- Behind the word a state stands still, or turns into one that accepts and stands still. -/
theorem blank_rule? (passable : j ∈ [0, 1, 2, 3, 4, 6]) :
    onesZerosOneTable.rule? j .blank = none ∧
        (j ∈ onesZerosOneTable.accepting ↔ j ∈ [2, 4, 6]) ∨
      onesZerosOneTable.rule? j .blank = some ⟨.blank, .blank, .stay, 5⟩ ∧ j ∈ [2, 4, 6] := by
  revert j
  decide

theorem exists_arrival {m : Machine} (table : m.outline = onesZerosOneTable)
    (binary : IsBinary word) : ∃ k ≤ word.length + 1, ∃ i h,
      Textbook.after? m k (.start m word) = some ⟨i, h, Textbook.contents word⟩ ∧
        m.outline.rule? i (Textbook.contents word h) = none ∧
          (i ∈ m.outline.accepting ↔ Passes 0 word) := by
  have initial : m.initial = 0 := congrArg Description.Outline.initial table
  obtain ⟨passed, rest, j, rfl, scanned, stuck⟩ := onesZerosOneTable.exists_scanned 0 word
  have arrives := Textbook.after?_start (by rwa [table, initial]) rest
  rw [table]
  cases rest with
  | cons s rest =>
    obtain ⟨digit, -⟩ := isBinary_cons.1 (isBinary_append.1 binary).2
    have stuck : onesZerosOneTable.pass? j s = none := stuck s rfl
    obtain ⟨halted, rejecting⟩ := stuck_of_pass?_eq_none (scanned_mem scanned) digit stuck
    have unread : ¬ Passes 0 (passed ++ s :: rest) := by
      rintro ⟨k, read, -⟩
      rw [Description.Outline.scan?_append, scanned, Option.bind_some,
        Description.Outline.scan?_cons, stuck] at read
      cases read
    refine ⟨_, by simp; omega, j, _, arrives, ?_, iff_of_false rejecting unread⟩
    rw [Textbook.contents_append_length, halted]
  | nil =>
    rw [List.append_nil] at binary arrives ⊢
    have beyond : Textbook.contents passed passed.length = .blank :=
      Textbook.contents_of_length_le (Int.le_refl _)
    have passes : j ∈ [2, 4, 6] ↔ Passes 0 passed := by simp [Passes, scanned]
    rcases blank_rule? (scanned_mem scanned) with ⟨halted, accepting⟩ | ⟨applies, accepting⟩
    · exact ⟨_, Nat.le_succ _, j, _, arrives, by rw [beyond, halted], accepting.trans passes⟩
    · refine ⟨passed.length + 1, Nat.le_refl _, 5, passed.length, ?_, rfl,
        iff_of_true (by decide) (passes.1 accepting)⟩
      rw [Textbook.after?_add, arrives, Option.bind_some,
        Textbook.after?_step beyond (by rw [table, applies]), Textbook.update_contents_self beyond]
      simp [Direction.delta]

theorem recognizes_ones_zeros_one : ∃ m, Machine.builtin "ones-zeros-one" = .ok m ∧
    ∀ word, IsBinary word → ∃ (r : Report) (v : Verdict), r.steps ≤ word.length + 1 ∧
      (∀ fuel, m.judge word fuel = if r.steps ≤ fuel then some (r, v) else none) ∧
      r.tape = word ∧ r.tapeOrigin = 0 ∧
      (v = .accepted ↔ ∃ ones zeros,
        word = '1' :: List.replicate ones '1' ++ List.replicate zeros '0' ++ ['1']) := by
  have entry : source? "ones-zeros-one" = some onesZerosOne := rfl
  obtain ⟨m, found, parsed, table⟩ := exists_builtin entry outline_onesZerosOne
  refine ⟨m, found, fun word binary => ?_⟩
  obtain ⟨k, bound, i, h, arrives, halted, accepting⟩ := exists_arrival table binary
  rw [← Textbook.placed_zero] at arrives halted
  refine ⟨⟨_, i, .noMatchingRule, k, h, 0, word, []⟩, _, bound,
    binary.judge_eq parsed (fun _ => rfl) arrives halted, rfl, rfl, ?_⟩
  rw [← passes_zero binary, ← accepting]
  simp [Verdict.ofBool]

theorem recognizes_ones_zeros_one_two : IsBinary ['1', '1', '0', '1'] ∧ IsBinary ['1', '0'] ∧
    ∃ m r r', Machine.builtin "ones-zeros-one" = .ok m ∧
      m.judge ['1', '1', '0', '1'] 5 = some (r, .accepted) ∧ r.tape = ['1', '1', '0', '1'] ∧
      m.judge ['1', '0'] 3 = some (r', .rejected) := by
  have first : IsBinary ['1', '1', '0', '1'] := by simp [IsBinary]
  have second : IsBinary ['1', '0'] := by simp [IsBinary]
  obtain ⟨m, found, recognizes⟩ := recognizes_ones_zeros_one
  obtain ⟨r, v, bound, judged, tape, -, accepted⟩ := recognizes _ first
  obtain ⟨r', v', bound', judged', -, -, accepted'⟩ := recognizes _ second
  have verdict : v = .accepted := accepted.2 ⟨1, 1, rfl⟩
  have verdict' : v' = .rejected := by
    cases v' with
    | rejected => rfl
    | accepted =>
      obtain ⟨_ | ones, _ | zeros, eq⟩ := accepted'.1 rfl <;> simp [List.replicate_succ] at eq
  rw [verdict] at judged
  rw [verdict'] at judged'
  exact ⟨first, second, m, r, r', found, (judged 5).trans (if_pos bound), tape,
    (judged' 3).trans (if_pos bound')⟩

end Catalog

end OneTape
