import OneTape.Proofs.Description.Errors
import OneTape.Proofs.Execution.Dependence
import OneTape.Proofs.Tape.Storage

namespace OneTape

open Tape (Spanned)

theorem Direction.le_delta (d : Direction) : -1 ≤ d.delta := by
  cases d <;> decide

namespace Machine

variable {m : Machine} {row : List Symbol} {c d : Configuration} {n k : Nat} {o p : Int}

/-- The head is at the offset in one of the first `n` configurations. -/
def HeadBefore (m : Machine) (row : List Symbol) (n : Nat) (o : Int) : Prop :=
  ∃ k < n, ∃ c, m.after? k (m.start row) = some c ∧ c.head = o

theorem le_head_apply (c : Configuration) (r : Rule) : c.head - 1 ≤ (c.apply r).head := by
  have moved := r.direction.le_delta
  change c.head - 1 ≤ c.head + r.direction.delta
  omega

theorem le_head_advance : c.head - n ≤ (m.advance n c).head := by
  induction n generalizing c with
  | zero => simp [advance]
  | succ n ih =>
    cases applies : m.rule? c with
    | none =>
      rw [advance_succ_none applies]
      omega
    | some r =>
      have moved := le_head_apply c r
      have rest := ih (c := c.apply r)
      rw [advance_succ_some applies]
      omega

theorem head_after?_near (reached : m.after? n c = some d) :
    c.head - n ≤ d.head ∧ d.head ≤ c.head + n := by
  obtain ⟨-, rfl⟩ := after?_eq_some_iff.1 reached
  exact ⟨le_head_advance, head_advance_le⟩

theorem after?_of_le {l : Nat} (le : k ≤ l) (early : m.after? k (m.start row) = some c)
    (late : m.after? l (m.start row) = some d) : m.after? (l - k) c = some d := by
  have split := m.after?_add k (l - k) (m.start row)
  rwa [Nat.add_sub_cancel' le, late, early, Option.bind_some, eq_comm] at split

theorem HeadBefore.sub_lt (before : m.HeadBefore row n o) (before' : m.HeadBefore row n p) :
    p - o < n := by
  obtain ⟨k, less, c, reached, rfl⟩ := before
  obtain ⟨l, less', d, reached', rfl⟩ := before'
  rcases Nat.le_total k l with le | le
  · have near := head_after?_near (after?_of_le le reached reached')
    omega
  · have near := head_after?_near (after?_of_le le reached' reached)
    omega

theorem HeadBefore.zero (before : m.HeadBefore row n o) : m.HeadBefore row n 0 := by
  obtain ⟨k, less, -⟩ := before
  exact ⟨0, by omega, m.start row, rfl, rfl⟩

theorem HeadBefore.mono (before : m.HeadBefore row k o) (le : k ≤ n) : m.HeadBefore row n o := by
  obtain ⟨l, less, reached⟩ := before
  exact ⟨l, by omega, reached⟩

theorem spanned_headBefore_sub_lt (spanned : Spanned (m.HeadBefore row n) o)
    (spanned' : Spanned (m.HeadBefore row n) p) : p - o < n := by
  obtain ⟨first, -, before, -, le, -⟩ := spanned
  obtain ⟨-, last, -, before', -, ge⟩ := spanned'
  have width := before.sub_lt before'
  omega

theorem spanned_headBefore_zero (spanned : Spanned (m.HeadBefore row n) o) :
    Spanned (m.HeadBefore row n) 0 := by
  obtain ⟨first, -, before, -⟩ := spanned
  exact .of_mem before.zero

/-! ## What has been written -/

def writesOf (steps : List (Configuration × Rule)) : List Tape.Write :=
  steps.map fun p => (p.1.head, p.2.write)

theorem tape_advance : (m.advance n c).tape = c.tape.writes (writesOf (m.path n c)) := by
  induction n generalizing c with
  | zero => rfl
  | succ n ih =>
    cases applies : m.rule? c with
    | none =>
      rw [advance_succ_none applies, path_succ_none applies]
      rfl
    | some r =>
      rw [advance_succ_some applies, path_succ_some applies, ih]
      rfl

theorem exists_after?_of_mem_path {s : Configuration × Rule} (member : s ∈ m.path n c) :
    ∃ k < n, m.after? k c = some s.1 := by
  induction n generalizing c with
  | zero => simp [path] at member
  | succ n ih =>
    cases applies : m.rule? c with
    | none => simp [path_succ_none applies] at member
    | some r =>
      rw [path_succ_some applies, List.mem_cons] at member
      rcases member with rfl | member
      · exact ⟨0, by omega, rfl⟩
      · obtain ⟨k, less, reached⟩ := ih member
        refine ⟨k + 1, by omega, ?_⟩
        rwa [after?, step?, applies, Option.map_some, Option.bind_some]

theorem headBefore_of_mem_writesOf {w : Tape.Write}
    (member : w ∈ writesOf (m.path n (m.start row))) : m.HeadBefore row n w.1 := by
  obtain ⟨s, taken, rfl⟩ := List.mem_map.1 member
  obtain ⟨k, less, reached⟩ := exists_after?_of_mem_path taken
  exact ⟨k, less, s.1, reached, rfl⟩

theorem tape_after? (reached : m.after? n (m.start row) = some c) :
    c.tape = Tape.made row (writesOf (m.path n (m.start row))) := by
  obtain ⟨-, rfl⟩ := after?_eq_some_iff.1 reached
  exact tape_advance

theorem headBefore_of_changed (reached : m.after? n (m.start row) = some c)
    (changed : c.tape.read o ≠ (m.start row).tape.read o) : m.HeadBefore row n o := by
  rw [tape_after? reached, Tape.made, Tape.read_writes] at changed
  have written : (Tape.lastWritten? (writesOf (m.path n (m.start row))) o).isSome := by
    by_contra never
    rw [Option.not_isSome_iff_eq_none] at never
    exact changed (by rw [never]; rfl)
  obtain ⟨w, member, here⟩ := List.lookup_isSome_iff.1 written
  rw [eq_of_beq here]
  exact headBefore_of_mem_writesOf (List.mem_reverse.1 member)

/-! ## What is stored -/

theorem headBefore_or_of_needed
    (needed : Tape.Needed row (writesOf (m.path n (m.start row))) o) :
    m.HeadBefore row n o ∨ (0 ≤ o ∧ o < row.length) := by
  rcases needed with inside | ⟨w, member, rfl, -⟩
  · exact .inr inside
  · exact .inl (headBefore_of_mem_writesOf member)

/-- The positions of the head and the row have the start in common, so that no cell between them is
left out. -/
theorem spanned_or_of_stores (reached : m.after? n (m.start row) = some c)
    (stored : c.tape.Stores o) :
    Spanned (m.HeadBefore row n) o ∨ (0 ≤ o ∧ o < row.length) := by
  rw [tape_after? reached, Tape.stores_made] at stored
  obtain ⟨first, last, needed, needed', le, ge⟩ := stored
  rcases headBefore_or_of_needed needed with before | inside <;>
    rcases headBefore_or_of_needed needed' with before' | inside'
  · exact .inl ⟨first, last, before, before', le, ge⟩
  · by_cases left : o < 0
    · exact .inl ⟨first, 0, before, before.zero, le, by omega⟩
    · exact .inr (by omega)
  · exact .inl ⟨0, last, before'.zero, before', by omega, ge⟩
  · exact .inr (by omega)

theorem length_cells_le (reached : m.after? n (m.start row) = some c) :
    c.tape.cells.length ≤ row.length + n := by
  by_cases empty : c.tape.cells.length = 0
  · omega
  have first : c.tape.Stores c.tape.origin := ⟨by omega, by omega⟩
  have last : c.tape.Stores (c.tape.origin + c.tape.cells.length - 1) := ⟨by omega, by omega⟩
  rcases spanned_or_of_stores reached first with spanned | inside <;>
    rcases spanned_or_of_stores reached last with spanned' | inside'
  · have width := spanned_headBefore_sub_lt spanned spanned'
    omega
  · have left := spanned_headBefore_sub_lt spanned (spanned_headBefore_zero spanned)
    omega
  · have right := spanned_headBefore_sub_lt (spanned_headBefore_zero spanned') spanned'
    omega
  · omega

theorem footprint_bounded (reached : m.after? n (m.start row) = some c) :
    (-(n : Int) ≤ c.head ∧ c.head ≤ n) ∧
    (∀ k ≤ n, ∀ d, m.after? k (m.start row) = some d → ∀ o,
      d.tape.read o ≠ (m.start row).tape.read o → Spanned (m.HeadBefore row n) o) ∧
    (∀ o, c.tape.Stores o → Spanned (m.HeadBefore row n) o ∨ (0 ≤ o ∧ o < row.length)) ∧
    c.tape.cells.length ≤ row.length + n := by
  refine ⟨?_, fun k le d reached' o changed => ?_, fun o => spanned_or_of_stores reached,
    length_cells_le reached⟩
  · have near := head_after?_near reached
    have origin : (m.start row).head = 0 := rfl
    omega
  · exact .of_mem ((headBefore_of_changed reached' changed).mono le)

theorem footprint_bounded_left_of_row : ∃ m c,
    Machine.ofText "A, B\ninit A\nA:\n\t1, 0, <, A\n\t_, 1, <, B\n" = .ok m ∧
      m.after? 2 (m.start ['1']) = some c ∧ c.head = -2 ∧ c.tape.read (-1) = '1' ∧
      Spanned (m.HeadBefore ['1'] 2) (-1) ∧ c.tape.cells.length ≤ 1 + 2 := by
  have checked : ((Machine.ofText
      "A, B\ninit A\nA:\n\t1, 0, <, A\n\t_, 1, <, B\n").toOption.any fun m =>
        (m.path 2 (m.start ['1'])).length == 2 && (m.advance 2 (m.start ['1'])).head == -2 &&
          (m.advance 2 (m.start ['1'])).tape.read (-1) == '1') = true := by
    decide +kernel
  obtain ⟨m, parsed, answers⟩ := Description.ok_of_any checked
  simp only [Bool.and_eq_true, beq_iff_eq] at answers
  obtain ⟨⟨taken, head⟩, written⟩ := answers
  have reached : m.after? 2 (m.start ['1']) = some (m.advance 2 (m.start ['1'])) :=
    after?_eq_some_iff.2 ⟨taken, rfl⟩
  obtain ⟨-, changed, -, few⟩ := footprint_bounded reached
  have blank : (m.start ['1']).tape.read (-1) = Symbol.blank := rfl
  have differs : (m.advance 2 (m.start ['1'])).tape.read (-1) ≠
      (m.start ['1']).tape.read (-1) := by
    rw [written, blank]
    decide
  have spanned := changed 2 (Nat.le_refl 2) _ reached (-1) differs
  exact ⟨m, _, parsed, reached, head, written, spanned, few⟩

end Machine

end OneTape
