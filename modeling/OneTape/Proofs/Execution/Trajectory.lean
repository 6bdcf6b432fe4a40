import Mathlib.Tactic.Common
import OneTape.Proofs.Machine.Consistent
import OneTape.Verdict

/-!
A run with its limit and its fuel follows the trajectory up to a bound and looks at what is there:
`drive_eq` and `exhaust_eq` say so for any record that is kept of it.
-/

namespace OneTape

theorem Direction.delta_le (d : Direction) : d.delta ≤ 1 := by
  cases d <;> decide

namespace Machine

/-- The configuration that `n` steps lead to, none if the machine halts before. -/
def after? (m : Machine) : Nat → Configuration → Option Configuration
  | 0, c => some c
  | n + 1, c => (m.step? c).bind fun s => m.after? n s.2

def path (m : Machine) : Nat → Configuration → List (Configuration × Rule)
  | 0, _ => []
  | n + 1, c =>
    match m.rule? c with
    | none => []
    | some r => (c, r) :: m.path n (c.apply r)

variable {m : Machine} {c d : Configuration} {n k : Nat}

theorem isHalted_iff : m.isHalted c = true ↔ m.rule? c = none := by
  rw [isHalted, Option.isNone_iff_eq_none]

@[simp] theorem apply_steps (c : Configuration) (r : Rule) : (c.apply r).steps = c.steps + 1 := rfl

theorem head_apply_le (c : Configuration) (r : Rule) : (c.apply r).head ≤ c.head + 1 :=
  Int.add_le_add_left (Direction.delta_le r.direction) c.head

theorem advance_zero : m.advance 0 c = c := rfl

theorem path_zero : m.path 0 c = [] := rfl

theorem advance_succ_none (halted : m.rule? c = none) : m.advance (n + 1) c = c := by
  simp [advance, halted]

theorem advance_succ_some {r : Rule} (applies : m.rule? c = some r) :
    m.advance (n + 1) c = m.advance n (c.apply r) := by
  simp [advance, applies]

theorem path_succ_none (halted : m.rule? c = none) : m.path (n + 1) c = [] := by
  simp [path, halted]

theorem path_succ_some {r : Rule} (applies : m.rule? c = some r) :
    m.path (n + 1) c = (c, r) :: m.path n (c.apply r) := by
  simp [path, applies]

theorem advance_of_isHalted (halted : m.isHalted c = true) : m.advance n c = c := by
  cases n with
  | zero => rfl
  | succ n => exact advance_succ_none (isHalted_iff.1 halted)

theorem path_of_isHalted (halted : m.isHalted c = true) : m.path n c = [] := by
  cases n with
  | zero => rfl
  | succ n => exact path_succ_none (isHalted_iff.1 halted)

theorem advance_induction {P : Configuration → Prop} (start : P c)
    (kept : ∀ c r, m.rule? c = some r → P c → P (c.apply r)) : P (m.advance n c) := by
  induction n generalizing c with
  | zero => exact start
  | succ n ih =>
    cases applies : m.rule? c with
    | none => rwa [advance_succ_none applies]
    | some r =>
      rw [advance_succ_some applies]
      exact ih (kept c r applies start)

theorem steps_advance : (m.advance n c).steps = c.steps + (m.path n c).length := by
  induction n generalizing c with
  | zero => rfl
  | succ n ih =>
    cases applies : m.rule? c with
    | none => simp [advance_succ_none applies, path_succ_none applies]
    | some r =>
      rw [advance_succ_some applies, path_succ_some applies, ih, apply_steps, List.length_cons]
      omega

theorem length_path_le : (m.path n c).length ≤ n := by
  induction n generalizing c with
  | zero => simp [path]
  | succ n ih =>
    cases applies : m.rule? c with
    | none => simp [path_succ_none applies]
    | some r =>
      rw [path_succ_some applies, List.length_cons]
      exact Nat.succ_le_succ ih

theorem length_path_eq (running : m.isHalted (m.advance n c) = false) :
    (m.path n c).length = n := by
  induction n generalizing c with
  | zero => rfl
  | succ n ih =>
    cases applies : m.rule? c with
    | none =>
      rw [advance_succ_none applies, ← Bool.not_eq_true, isHalted_iff] at running
      exact absurd applies running
    | some r =>
      rw [advance_succ_some applies] at running
      rw [path_succ_some applies, List.length_cons, ih running]

theorem after?_eq_some_iff :
    m.after? n c = some d ↔ (m.path n c).length = n ∧ m.advance n c = d := by
  induction n generalizing c with
  | zero => simp [after?, path, advance]
  | succ n ih =>
    cases applies : m.rule? c with
    | none => simp [after?, step?, applies, path_succ_none applies]
    | some r =>
      rw [after?, step?, applies, Option.map_some, Option.bind_some, ih, path_succ_some applies,
        advance_succ_some applies]
      simp

theorem advance_eq_of_le (halted : m.isHalted (m.advance k c) = true) (le : k ≤ n) :
    m.advance n c = m.advance k c ∧ m.path n c = m.path k c := by
  induction k generalizing c n with
  | zero =>
    exact ⟨advance_of_isHalted halted, path_of_isHalted halted⟩
  | succ k ih =>
    obtain ⟨n, rfl⟩ := Nat.exists_eq_add_one_of_ne_zero (show n ≠ 0 by omega)
    cases applies : m.rule? c with
    | none => simp [advance_succ_none applies, path_succ_none applies]
    | some r =>
      rw [advance_succ_some applies] at halted
      rw [advance_succ_some applies, advance_succ_some applies, path_succ_some applies,
        path_succ_some applies]
      have later := ih halted (Nat.le_of_succ_le_succ le)
      exact ⟨later.1, by rw [later.2]⟩

theorem after?_length_path : m.after? (m.path n c).length c = some (m.advance n c) := by
  induction n generalizing c with
  | zero => rfl
  | succ n ih =>
    cases applies : m.rule? c with
    | none => simp [advance_succ_none applies, path_succ_none applies, after?]
    | some r =>
      rw [advance_succ_some applies, path_succ_some applies, List.length_cons, after?, step?,
        applies, Option.map_some, Option.bind_some]
      exact ih

theorem exists_after?_le (m : Machine) (n : Nat) (c : Configuration) :
    ∃ k, k ≤ n ∧ m.after? k c = some (m.advance n c) :=
  ⟨(m.path n c).length, length_path_le, after?_length_path⟩

theorem after?_add (j k : Nat) (c : Configuration) :
    m.after? (j + k) c = (m.after? j c).bind (m.after? k) := by
  induction j generalizing c with
  | zero => rw [Nat.zero_add, after?, Option.bind_some]
  | succ j ih =>
    rw [Nat.succ_add, after?, after?, Option.bind_assoc]
    exact congrArg _ (funext fun s => ih s.2)

theorem listed_of_rule? {r : Rule} (applies : m.rule? c = some r) :
    ∃ q, m.state? c.state = some q ∧ r ∈ q.rules.toList := by
  obtain ⟨q, stored, found⟩ := Option.bind_eq_some_iff.1 applies
  obtain ⟨i, -, entry⟩ := Option.bind_eq_some_iff.1 found
  exact ⟨q, stored, List.mem_of_getElem? (by simpa using entry)⟩

theorem mem_rules_of_rule? {r : Rule} (applies : m.rule? c = some r) :
    ∃ q ∈ m.states.toList, r ∈ q.rules.toList := by
  obtain ⟨q, stored, listed⟩ := listed_of_rule? applies
  exact ⟨q, mem_states_of_state stored, listed⟩

theorem Valid.read_eq_symbol (valid : m.Valid) {r : Rule} (applies : m.rule? c = some r) :
    r.read = c.symbol := by
  obtain ⟨q, stored, found⟩ := Option.bind_eq_some_iff.1 applies
  rw [(valid.indexed q (mem_states_of_state stored)).rule?_eq_find?] at found
  simpa using List.find?_some found

theorem Valid.next_lt_of_rule? (valid : m.Valid) {r : Rule} (applies : m.rule? c = some r) :
    r.next < m.states.size := by
  obtain ⟨q, member, listed⟩ := mem_rules_of_rule? applies
  exact valid.next_lt q member r listed

theorem Valid.state_lt (valid : m.Valid) (start : c.state < m.states.size) :
    (m.advance n c).state < m.states.size :=
  advance_induction (P := fun c => c.state < m.states.size) start
    fun _ _ applies _ => valid.next_lt_of_rule? applies

theorem Valid.exists_state (valid : m.Valid) (row : List Symbol) (n : Nat) :
    ∃ q, m.state? (m.advance n (m.start row)).state = some q :=
  exists_state_of_lt (valid.state_lt valid.initial_lt)

/-- The machine passes through `c` when it is run on the row, for however long. -/
def Visits (m : Machine) (row : List Symbol) (c : Configuration) : Prop :=
  ∃ n, m.after? n (m.start row) = some c

namespace Visits

variable {row : List Symbol}

theorem advance (m : Machine) (row : List Symbol) (n : Nat) :
    m.Visits row (m.advance n (m.start row)) := ⟨_, after?_length_path⟩

theorem apply {r : Rule} (visited : m.Visits row c) (applies : m.rule? c = some r) :
    m.Visits row (c.apply r) := by
  obtain ⟨n, reached⟩ := visited
  refine ⟨n + 1, ?_⟩
  rw [after?_add, reached, Option.bind_some, after?, step?, applies]
  rfl

theorem induction {P : Configuration → Prop} (visited : m.Visits row c) (start : P (m.start row))
    (kept : ∀ c r, m.rule? c = some r → P c → P (c.apply r)) : P c := by
  obtain ⟨n, reached⟩ := visited
  obtain ⟨-, rfl⟩ := after?_eq_some_iff.1 reached
  exact advance_induction start kept

theorem exists_state (visited : m.Visits row c) (valid : m.Valid) :
    ∃ q, m.state? c.state = some q := by
  obtain ⟨n, reached⟩ := visited
  obtain ⟨-, rfl⟩ := after?_eq_some_iff.1 reached
  exact valid.exists_state row n

theorem of_mem_path (visited : m.Visits row c) :
    ∀ p ∈ m.path n c, m.rule? p.1 = some p.2 ∧ m.Visits row p.1 := by
  induction n generalizing c with
  | zero => simp [path]
  | succ n ih =>
    cases applies : m.rule? c with
    | none => simp [path_succ_none applies]
    | some r =>
      rw [path_succ_some applies]
      exact List.forall_mem_cons.2 ⟨⟨applies, visited⟩, ih (visited.apply applies)⟩

end Visits

/-! ## Runs follow the trajectory -/

theorem exhaust_eq {α : Type} (visit : α → Rule → Configuration → α) (fuel : Nat)
    (c : Configuration) (record : α) :
    m.exhaust visit fuel c record =
      (if m.isHalted (m.advance fuel c) then .halted else .fuel, m.advance fuel c,
        (m.path fuel c).foldl (fun a p => visit a p.2 (p.1.apply p.2)) record) := by
  induction fuel generalizing c record with
  | zero =>
    unfold exhaust
    cases applies : m.rule? c <;> simp [advance, path, isHalted, applies]
  | succ fuel ih =>
    unfold exhaust
    cases applies : m.rule? c with
    | none => simp [advance_succ_none applies, path_succ_none applies, isHalted, applies]
    | some r => simp [advance_succ_some applies, path_succ_some applies, ih]

/-- The number of steps that a run may take from `c` on. -/
def allowance (limit : Option Nat) (fuel : Nat) (c : Configuration) : Nat :=
  match limit with
  | none => fuel
  | some l => min fuel (l - c.steps)

theorem allowance_of_reached {limit : Option Nat} (reached : limit.any (· ≤ c.steps) = true)
    (fuel : Nat) : allowance limit fuel c = 0 := by
  cases limit with
  | none => simp at reached
  | some l =>
    have : l ≤ c.steps := by simpa using reached
    simp only [allowance]
    omega

theorem allowance_succ {limit : Option Nat} (open_ : limit.any (· ≤ c.steps) = false)
    (fuel : Nat) (r : Rule) :
    allowance limit (fuel + 1) c = allowance limit fuel (c.apply r) + 1 := by
  cases limit with
  | none => rfl
  | some l =>
    have : c.steps < l := by simpa using open_
    simp only [allowance, apply_steps]
    omega

theorem drive_eq {α : Type} (limit : Option Nat) (visit : α → Configuration → Rule → α)
    (fuel : Nat) (c : Configuration) (record : α) :
    m.drive limit visit fuel c record =
      let d := m.advance (allowance limit fuel c) c
      (if m.isHalted d then .halted else if limit.any (· ≤ d.steps) then .limit else .fuel, d,
        (m.path (allowance limit fuel c) c).foldl (fun a p => visit a p.1 p.2) record) := by
  induction fuel generalizing c record with
  | zero =>
    have none_left : allowance limit 0 c = 0 := by
      cases limit <;> simp [allowance]
    unfold drive
    rw [none_left, advance_zero, path_zero]
    cases applies : m.rule? c <;> by_cases reached : limit.any (· ≤ c.steps) = true <;>
      simp [isHalted, applies, reached]
  | succ fuel ih =>
    unfold drive
    by_cases reached : limit.any (· ≤ c.steps) = true
    · rw [allowance_of_reached reached, advance_zero, path_zero]
      cases applies : m.rule? c <;> simp [isHalted, applies, reached]
    · cases applies : m.rule? c with
      | none =>
        have halted : m.isHalted c = true := isHalted_iff.2 applies
        simp [advance_of_isHalted halted, path_of_isHalted halted, halted]
      | some r =>
        rw [Bool.not_eq_true] at reached
        rw [allowance_succ reached fuel r, advance_succ_some applies, path_succ_some applies]
        simp [ih, reached]

variable {row : List Symbol} {fuel : Nat} {options : RunOptions}

theorem run_eq : m.run row fuel = if m.isHalted (m.advance fuel (m.start row))
    then some (m.report (m.advance fuel (m.start row)) []) else none := by
  rw [run, exhaust_eq]
  cases m.isHalted (m.advance fuel (m.start row)) <;> rfl

def traceOf (m : Machine) (steps : List (Configuration × Rule)) : List TraceEntry :=
  steps.map fun p => m.traceEntry p.1 p.2

theorem foldl_cons_reverse {α β : Type} (f : α → β) (xs : List α) (seen : List β) :
    xs.foldl (fun ys x => f x :: ys) seen = (xs.map f).reverse ++ seen := by
  induction xs generalizing seen with
  | nil => rfl
  | cons x xs ih => simp [ih]

theorem foldl_recordStep (steps : List (Configuration × Rule)) :
    (steps.foldl (fun trace p => m.recordStep options trace p.1 p.2) []).reverse =
      if options.recordTrace then m.traceOf steps else [] := by
  by_cases recorded : options.recordTrace = true
  · simp [recordStep, recorded, traceOf,
      foldl_cons_reverse (fun p : Configuration × Rule => m.traceEntry p.1 p.2)]
  · have kept (trace : List TraceEntry) : steps.foldl (fun trace _ => trace) trace = trace := by
      induction steps <;> simp_all
    simp [recordStep, recorded, kept]

theorem runWith_eq : m.runWith options row fuel =
    let n := allowance options.stepLimit fuel (m.start row)
    let d := m.advance n (m.start row)
    if m.isHalted d then
      .halted (m.report d (if options.recordTrace then m.traceOf (m.path n (m.start row)) else []))
    else if options.stepLimit.any (· ≤ d.steps) then
      .limitExceeded (m.limitExceeded (options.stepLimit.getD 0) d)
    else .unfinished := by
  rw [runWith, drive_eq]
  generalize allowance options.stepLimit fuel (m.start row) = n
  by_cases halted : m.isHalted (m.advance n (m.start row)) = true
  · simp [halted, foldl_recordStep]
  · by_cases reached : options.stepLimit.any (· ≤ (m.advance n (m.start row)).steps) = true <;>
      simp [halted, reached]

theorem observe_eq {β : Type} (view : Configuration → β) : m.observe options view row fuel =
    let n := allowance options.stepLimit fuel (m.start row)
    (m.path n (m.start row)).map (fun p => view p.1) ++ [view (m.advance n (m.start row))] := by
  rw [observe, drive_eq]
  simp [foldl_cons_reverse (fun p : Configuration × Rule => view p.1)]

end Machine

end OneTape
