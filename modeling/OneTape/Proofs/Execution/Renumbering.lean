import OneTape.Proofs.Execution.Trajectory
import OneTape.Proofs.Machine.Renaming

namespace OneTape

def Configuration.rename (f : Nat → Nat) (c : Configuration) : Configuration :=
  { c with state := f c.state }

def Report.rename (f : Nat → Nat) (r : Report) : Report :=
  { r with finalStateId := f r.finalStateId }

def Outcome.rename (f : Nat → Nat) : Outcome → Outcome
  | halted r => halted (r.rename f)
  | limitExceeded e => limitExceeded e
  | unfinished => unfinished

theorem Configuration.apply_rename (f : Nat → Nat) (c : Configuration) (r : Rule) :
    (c.rename f).apply (r.rename f) = (c.apply r).rename f := rfl

namespace Machine

variable {f : Nat → Nat} {m m' : Machine} {c : Configuration} {n : Nat}
variable {row : List Symbol} {fuel : Nat} {options : RunOptions}

theorem Valid.path_lt (valid : m.Valid) (inside : c.state < m.states.size) :
    ∀ p ∈ m.path n c, p.1.state < m.states.size ∧ p.2.next < m.states.size := by
  induction n generalizing c with
  | zero => simp [path]
  | succ n ih =>
    cases applies : m.rule? c with
    | none => simp [path_succ_none applies]
    | some r =>
      have next := valid.next_lt_of_rule? applies
      rw [path_succ_some applies]
      exact List.forall_mem_cons.2 ⟨⟨inside, next⟩, ih next⟩

theorem Valid.finalStateId_lt (valid : m.Valid) {r : Report}
    (halted : m.runWith options row fuel = .halted r) : r.finalStateId < m.states.size := by
  rw [runWith_eq] at halted
  dsimp only at halted
  split at halted
  · cases halted
    exact valid.state_lt valid.initial_lt
  · split at halted <;> cases halted

/-! ## Runs -/

namespace Renamed

theorem rule?_rename (renamed : Renamed f m m') (consistent : m.Consistent)
    (consistent' : m'.Consistent) (inside : c.state < m.states.size) :
    m'.rule? (c.rename f) = (m.rule? c).map (Rule.rename f) := by
  obtain ⟨q, stored⟩ := exists_state_of_lt inside
  obtain ⟨q', stored', same⟩ := renamed.rule? consistent consistent' stored c.symbol
  have there : m'.state? (c.rename f).state = some q' := stored'
  rw [Machine.rule?, there, Option.bind_some, Machine.rule?, stored, Option.bind_some]
  exact same

theorem isHalted_rename (renamed : Renamed f m m') (consistent : m.Consistent)
    (consistent' : m'.Consistent) (inside : c.state < m.states.size) :
    m'.isHalted (c.rename f) = m.isHalted c := by
  rw [isHalted, renamed.rule?_rename consistent consistent' inside, Option.isNone_map, isHalted]

theorem advance_rename (renamed : Renamed f m m') (consistent : m.Consistent)
    (consistent' : m'.Consistent) (inside : c.state < m.states.size) :
    m'.advance n (c.rename f) = (m.advance n c).rename f ∧
      m'.path n (c.rename f) = (m.path n c).map fun p => (p.1.rename f, p.2.rename f) := by
  induction n generalizing c with
  | zero => exact ⟨rfl, rfl⟩
  | succ n ih =>
    have step := renamed.rule?_rename consistent consistent' inside
    cases applies : m.rule? c with
    | none =>
      rw [applies, Option.map_none] at step
      rw [advance_succ_none step, path_succ_none step, advance_succ_none applies,
        path_succ_none applies]
      exact ⟨rfl, rfl⟩
    | some r =>
      rw [applies, Option.map_some] at step
      obtain ⟨last, steps⟩ := ih (c := c.apply r) (consistent.valid.next_lt_of_rule? applies)
      rw [advance_succ_some step, path_succ_some step, advance_succ_some applies,
        path_succ_some applies, Configuration.apply_rename, last, steps]
      exact ⟨rfl, rfl⟩

theorem start_rename (renamed : Renamed f m m') (row : List Symbol) :
    m'.start row = (m.start row).rename f := by
  rw [start, renamed.initial]
  rfl

theorem traceOf_rename (renamed : Renamed f m m') {steps : List (Configuration × Rule)}
    (inside : ∀ p ∈ steps, p.1.state < m.states.size ∧ p.2.next < m.states.size) :
    m'.traceOf (steps.map fun p => (p.1.rename f, p.2.rename f)) = m.traceOf steps := by
  rw [traceOf, List.map_map, traceOf]
  refine List.map_congr_left fun p member => ?_
  obtain ⟨here, next⟩ := inside p member
  simp only [Function.comp_apply, traceEntry, Configuration.rename, Rule.rename,
    renamed.name here, renamed.name next]

theorem report_rename (renamed : Renamed f m m') (inside : c.state < m.states.size)
    (trace : List TraceEntry) :
    m'.report (c.rename f) trace = (m.report c trace).rename f := by
  simp only [report, Configuration.rename, renamed.name inside, Report.rename]

theorem runWith (renamed : Renamed f m m') (consistent : m.Consistent)
    (consistent' : m'.Consistent) :
    m'.runWith options row fuel = (m.runWith options row fuel).rename f := by
  have allowed : allowance options.stepLimit fuel ((m.start row).rename f) =
      allowance options.stepLimit fuel (m.start row) := rfl
  rw [runWith_eq, runWith_eq, renamed.start_rename, allowed]
  generalize allowance options.stepLimit fuel (m.start row) = n
  have inside : (m.advance n (m.start row)).state < m.states.size :=
    consistent.valid.state_lt consistent.valid.initial_lt
  have start_lt : (m.start row).state < m.states.size := consistent.valid.initial_lt
  obtain ⟨last, steps⟩ := renamed.advance_rename (n := n) consistent consistent' start_lt
  simp only [last, steps, renamed.isHalted_rename consistent consistent' inside,
    renamed.traceOf_rename (consistent.valid.path_lt start_lt),
    renamed.report_rename inside]
  have number : ((m.advance n (m.start row)).rename f).steps = (m.advance n (m.start row)).steps :=
    rfl
  have exceeded (limit : Nat) : m'.limitExceeded limit ((m.advance n (m.start row)).rename f) =
      m.limitExceeded limit (m.advance n (m.start row)) := by
    simp only [limitExceeded, Configuration.rename, renamed.name inside]
  rw [number, exceeded]
  split
  · rfl
  · split <;> rfl

theorem verdict (renamed : Renamed f m m') (consistent : m.Consistent)
    (consistent' : m'.Consistent) {r : Report} (inside : r.finalStateId < m.states.size) :
    m'.verdict (r.rename f) = m.verdict r := by
  rw [Machine.verdict, Machine.verdict]
  exact congrArg Verdict.ofBool (renamed.isAcceptingId consistent consistent' inside)

theorem judge (renamed : Renamed f m m') (consistent : m.Consistent)
    (consistent' : m'.Consistent) :
    m'.judge row fuel = (m.judge row fuel).map fun p => (p.1.rename f, p.2) := by
  have inside : (m.advance fuel (m.start row)).state < m.states.size :=
    consistent.valid.state_lt consistent.valid.initial_lt
  have start_lt : (m.start row).state < m.states.size := consistent.valid.initial_lt
  obtain ⟨last, -⟩ := renamed.advance_rename (n := fuel) consistent consistent' start_lt
  rw [Machine.judge, Machine.judge, run_eq, run_eq, renamed.start_rename, last,
    renamed.isHalted_rename consistent consistent' inside, renamed.report_rename inside]
  split
  · have same := renamed.verdict consistent consistent'
      (r := m.report (m.advance fuel (m.start row)) []) inside
    rw [Option.map_some, Option.map_some, Option.map_some, same]
  · rfl

end Renamed

end Machine

end OneTape
