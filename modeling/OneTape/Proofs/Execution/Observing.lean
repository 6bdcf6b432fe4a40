import OneTape.Proofs.Execution.StepLimit

namespace OneTape.Machine

variable {m : Machine} {row : List Symbol} {c : Configuration} {n k fuel : Nat}
variable {options : RunOptions}

def observed (m : Machine) (options : RunOptions) (row : List Symbol) (fuel : Nat) :
    List Configuration :=
  m.observe options id row fuel

theorem observe_eq_map {β : Type} (view : Configuration → β) :
    m.observe options view row fuel = (m.observed options row fuel).map view := by
  simp [observed, observe_eq]

theorem observed_eq : m.observed options row fuel =
    (m.path (allowance options.stepLimit fuel (m.start row)) (m.start row)).map Prod.fst ++
      [m.advance (allowance options.stepLimit fuel (m.start row)) (m.start row)] := by
  simp [observed, observe_eq]

theorem visits_of_mem_observed (member : c ∈ m.observed options row fuel) : m.Visits row c := by
  have start : m.Visits row (m.start row) := .advance m row 0
  rw [observed_eq, List.mem_append, List.mem_map, List.mem_singleton] at member
  rcases member with ⟨p, onPath, rfl⟩ | rfl
  · exact (start.of_mem_path p onPath).2
  · exact .advance m row _

theorem mem_observe {β : Type} {view : Configuration → β} {x : β}
    (seen : x ∈ m.observe options view row fuel) : ∃ c, m.Visits row c ∧ view c = x := by
  rw [observe_eq_map] at seen
  obtain ⟨c, member, rfl⟩ := List.mem_map.1 seen
  exact ⟨c, visits_of_mem_observed member, rfl⟩

theorem RunsOnAfter.mem_observed {recordTrace : Bool} (runs : m.RunsOnAfter row k c)
    (enough : k ≤ fuel) : c ∈ m.observed ⟨some k, recordTrace⟩ row fuel := by
  have last : m.advance k (m.start row) = c := (runsOnAfter_iff.1 runs).1
  rw [observed_eq, allowance_start, Option.elim_some, Nat.min_eq_right enough, last]
  exact List.mem_append_right _ List.mem_cons_self

theorem steps_of_mem_path : ∀ p ∈ m.path n c, p.1.steps ≤ c.steps + n := by
  induction n generalizing c with
  | zero => simp [path_zero]
  | succ n ih =>
    cases applies : m.rule? c with
    | none => simp [path_succ_none applies]
    | some r =>
      rw [path_succ_some applies]
      refine List.forall_mem_cons.2 ⟨by simp, fun p member => ?_⟩
      have := ih p member
      rw [apply_steps] at this
      omega

theorem steps_of_mem_observed (seen : c ∈ m.observed options row fuel) :
    c.steps ≤ fuel ∧ ∀ l ∈ options.stepLimit, c.steps ≤ l := by
  have few : c.steps ≤ allowance options.stepLimit fuel (m.start row) := by
    have zero : (m.start row).steps = 0 := rfl
    rw [observed_eq, List.mem_append, List.mem_map, List.mem_singleton] at seen
    rcases seen with ⟨p, member, rfl⟩ | rfl
    · have := steps_of_mem_path p member
      omega
    · rw [steps_advance, zero, Nat.zero_add]
      exact length_path_le
  rw [allowance_start] at few
  cases limit : options.stepLimit with
  | none =>
    rw [limit] at few
    exact ⟨few, fun l given => absurd given (by simp)⟩
  | some l =>
    rw [limit] at few
    refine ⟨Nat.le_trans few (Nat.min_le_left _ _), ?_⟩
    rintro l ⟨⟩
    exact Nat.le_trans few (Nat.min_le_right _ _)

theorem runWith_recordTrace (limit : Option Nat) (recordTrace : Bool) :
    m.runWith ⟨limit, recordTrace⟩ row fuel =
      match m.runWith ⟨limit, false⟩ row fuel with
      | .halted r => .halted { r with trace := (if recordTrace then
          m.traceOf (m.path (allowance limit fuel (m.start row)) (m.start row)) else []) }
      | other => other := by
  rw [runWith_eq, runWith_eq]
  dsimp only
  split
  · rfl
  · split <;> rfl

/-! ## More fuel -/

theorem path_prefix (le : k ≤ n) : (m.path k c).map Prod.fst ++ [m.advance k c] <+:
    (m.path n c).map Prod.fst ++ [m.advance n c] := by
  induction k generalizing c n with
  | zero =>
    rw [path_zero, advance_zero]
    cases n with
    | zero => exact List.prefix_refl _
    | succ n =>
      cases applies : m.rule? c with
      | none => simp [path_succ_none applies, advance_succ_none applies]
      | some r => simp [path_succ_some applies]
  | succ k ih =>
    obtain ⟨n, rfl⟩ := Nat.exists_eq_add_one_of_ne_zero (show n ≠ 0 by omega)
    cases applies : m.rule? c with
    | none => simp [path_succ_none applies, advance_succ_none applies]
    | some r =>
      simp only [path_succ_some applies, advance_succ_some applies, List.map_cons, List.cons_append]
      exact List.prefix_cons_inj _ |>.2 (ih (Nat.le_of_succ_le_succ le))

theorem observed_prefix (le : k ≤ n) : m.observed options row k <+: m.observed options row n := by
  rw [observed_eq, observed_eq]
  refine path_prefix ?_
  rw [allowance_start, allowance_start]
  cases options.stepLimit with
  | none => exact le
  | some l => exact Nat.le_min.2 ⟨Nat.le_trans (Nat.min_le_left _ _) le, Nat.min_le_right _ _⟩

theorem runWith_of_le (ended : m.runWith options row k ≠ .unfinished) (le : k ≤ n) :
    m.runWith options row n = m.runWith options row k := by
  obtain ⟨extra, rfl⟩ := Nat.exists_eq_add_of_le le
  exact runWith_add ended extra

theorem observed_of_le (ended : m.runWith options row k ≠ .unfinished) (le : k ≤ n) :
    m.observed options row n = m.observed options row k := by
  obtain ⟨extra, rfl⟩ := Nat.exists_eq_add_of_le le
  rw [observed, observed, observe, observe]
  cases final : m.drive options.stepLimit (fun seen c _ => id c :: seen) k (m.start row) [] with
  | mk stop rest =>
    have decided : stop ≠ .fuel := by
      rintro rfl
      have stopped := congrArg Prod.fst final
      rw [drive_eq] at stopped
      refine ended ?_
      rw [runWith_eq]
      dsimp only at stopped ⊢
      split_ifs at stopped ⊢
      rfl
    rw [drive_add final decided]

end OneTape.Machine
