import OneTape.Proofs.Description.Errors
import OneTape.Proofs.Execution.Trajectory
import OneTape.Proofs.Machine.Search

/-!
The operations once more with every access by number checked, so that they end in an error where
an element is asked for that is not there.
-/

namespace OneTape

inductive OutOfRange where
  | state (i : Nat)
  | rule (state : String) (i : Nat)
deriving DecidableEq

abbrev Checked (α : Type) : Type := Except OutOfRange α

namespace Checked

def state (m : Machine) (i : Nat) : Checked State :=
  match m.state? i with
  | none => .error (.state i)
  | some q => .ok q

def name (m : Machine) (i : Nat) : Checked String := (state m i).map State.name

def ruleFor (q : State) (s : Symbol) : Checked (Option Rule) :=
  match q.index[s]? with
  | none => .ok none
  | some i =>
    match q.rules[i]? with
    | none => .error (.rule q.name i)
    | some r => .ok (some r)

def stateNamed (m : Machine) (name : String) : Checked (Option State) :=
  match m.idOf? name with
  | none => .ok none
  | some i => (state m i).map some

def acceptingStates (m : Machine) : Checked (List State) := m.accepting.mapM (state m)

def transition (m : Machine) (c : Configuration) : Checked (Option Rule) := do
  let q ← state m c.state
  ruleFor q c.symbol

def step (m : Machine) (c : Configuration) : Checked (Option (Rule × Configuration)) := do
  let rule ← transition m c
  return rule.map fun r => (r, c.apply r)

def report (m : Machine) (c : Configuration) (trace : List TraceEntry) : Checked Report := do
  let finalState ← name m c.state
  return { m.report c trace with finalState := finalState }

def traceEntry (m : Machine) (c : Configuration) (r : Rule) : Checked TraceEntry := do
  let left ← name m c.state
  let entered ← name m r.next
  return { m.traceEntry c r with state := left, next := entered }

def exhaust (m : Machine) : Nat → Configuration → Checked (Stop × Configuration)
  | 0, c => do
    let rule ← transition m c
    return (if rule.isNone then .halted else .fuel, c)
  | fuel + 1, c => do
    match ← transition m c with
    | none => return (.halted, c)
    | some r =>
      -- The log names the state that is entered.
      let _ ← name m r.next
      exhaust m fuel (c.apply r)

def run (m : Machine) (row : List Symbol) (fuel : Nat) : Checked (Option Report) := do
  let (stop, c) ← exhaust m fuel (m.start row)
  match stop with
  | .halted => (report m c []).map some
  | _ => return none

def drive {α : Type} (m : Machine) (limit : Option Nat)
    (visit : α → Configuration → Rule → Checked α) :
    Nat → Configuration → α → Checked (Stop × Configuration × α)
  | 0, c, record => do
    let rule ← transition m c
    return (if rule.isNone then .halted else if limit.any (· ≤ c.steps) then .limit else .fuel, c,
      record)
  | fuel + 1, c, record => do
    match ← transition m c with
    | none => return (.halted, c, record)
    | some r =>
      if limit.any (· ≤ c.steps) then return (.limit, c, record)
      let record ← visit record c r
      -- The observer is shown the state that is entered.
      let _ ← state m r.next
      drive m limit visit fuel (c.apply r) record

def recordStep (m : Machine) (options : RunOptions) (trace : List TraceEntry) (c : Configuration)
    (r : Rule) : Checked (List TraceEntry) :=
  if options.recordTrace then (traceEntry m c r).map (· :: trace) else return trace

def limitExceeded (m : Machine) (limit : Nat) (c : Configuration) : Checked StepLimitExceeded := do
  let left ← name m c.state
  return { m.limitExceeded limit c with state := left }

def runWith (m : Machine) (options : RunOptions) (row : List Symbol) (fuel : Nat) :
    Checked Outcome := do
  let _ ← state m m.initial
  let (stop, c, trace) ← drive m options.stepLimit (recordStep m options) fuel (m.start row) []
  match stop with
  | .halted => (report m c trace.reverse).map .halted
  | .limit => (limitExceeded m (options.stepLimit.getD 0) c).map .limitExceeded
  | .fuel => return .unfinished

def turn (m : Machine) : List Nat × Std.TreeSet Nat → Checked (List Nat × Std.TreeSet Nat)
  | ([], seen) => return ([], seen)
  | (i :: todo, seen) =>
    if i ∈ seen then return (todo, seen)
    else do
      let q ← state m i
      return (q.rules.toList.map Rule.next ++ todo, seen.insert i)

def search (m : Machine) : Nat → List Nat × Std.TreeSet Nat →
    Checked (List Nat × Std.TreeSet Nat)
  | 0, p => return p
  | n + 1, p => do
    let p ← turn m p
    search m n p

/-! ## Sequences of operations -/

inductive Operation where
  | state
  | transition
  | step
  | report
  | ruleOf (state : String) (s : Symbol)
  | acceptingStates
  | search (turns : Nat)
  | run (row : List Symbol) (fuel : Nat)
  | runWith (options : RunOptions) (row : List Symbol) (fuel : Nat)

def Operation.isStep : Operation → Bool
  | step => true
  | _ => false

/-- The configuration of the run after the operation. Only a step makes another one of it. -/
def perform (m : Machine) (c : Configuration) : Operation → Checked Configuration
  | .state => (state m c.state).map fun _ => c
  | .transition => (transition m c).map fun _ => c
  | .step => (step m c).map fun taken => (taken.map Prod.snd).getD c
  | .report => (report m c []).map fun _ => c
  | .ruleOf name s => do
    match ← stateNamed m name with
    | none => return c
    | some q => (ruleFor q s).map fun _ => c
  | .acceptingStates => (acceptingStates m).map fun _ => c
  | .search turns => (search m turns ([m.initial], ∅)).map fun _ => c
  | .run row fuel => (run m row fuel).map fun _ => c
  | .runWith options row fuel => (runWith m options row fuel).map fun _ => c

end Checked

/-! ## Agreement -/

theorem State.Indexed.lt_size {q : State} (indexed : q.Indexed) {s : Symbol} {i : Nat}
    (found : q.index[s]? = some i) : i < q.rules.size := by
  rw [indexed] at found
  exact (List.findIdx?_eq_some_iff_getElem.1 found).1

namespace Machine

variable {m : Machine} {c : Configuration} {r : Rule}

theorem advance_add (j k : Nat) (c : Configuration) :
    m.advance (j + k) c = m.advance k (m.advance j c) := by
  induction j generalizing c with
  | zero => rw [Nat.zero_add, advance_zero]
  | succ j ih =>
    cases applies : m.rule? c with
    | none =>
      rw [Nat.succ_add, advance_succ_none applies, advance_succ_none applies,
        advance_of_isHalted (isHalted_iff.2 applies)]
    | some r => rw [Nat.succ_add, advance_succ_some applies, advance_succ_some applies, ih]

theorem Consistent.id_lt (consistent : m.Consistent) {name : String} {i : Nat}
    (found : m.idOf? name = some i) : i < m.states.size := by
  obtain ⟨q, stored, -⟩ := (consistent.idOf?_iff name i).1 found
  exact lt_of_state stored

end Machine

namespace Checked

open Description (ok_bind)

variable {m : Machine} {c : Configuration} {r : Rule} {q : State} {i : Nat} {row : List Symbol}
variable {fuel : Nat} {options : RunOptions}

theorem state_eq (stored : m.state? i = some q) : state m i = .ok q := by
  rw [state, stored]

theorem name_eq (inside : i < m.states.size) : name m i = .ok (m.nameOf i) := by
  obtain ⟨q, stored⟩ := Machine.exists_state_of_lt inside
  rw [name, state_eq stored, Machine.nameOf, stored]
  rfl

theorem ruleFor_eq (indexed : q.Indexed) (s : Symbol) : ruleFor q s = .ok (q.rule? s) := by
  unfold ruleFor State.rule?
  cases found : q.index[s]? with
  | none => rfl
  | some i => simp [indexed.lt_size found]

theorem stateNamed_eq (consistent : m.Consistent) (name : String) :
    stateNamed m name = .ok (m.stateNamed? name) := by
  unfold stateNamed Machine.stateNamed?
  cases found : m.idOf? name with
  | none => rfl
  | some i =>
    obtain ⟨q, stored⟩ := Machine.exists_state_of_lt (consistent.id_lt found)
    simp only [state_eq stored, Option.bind_some, stored]
    rfl

theorem mapM_state_eq {ids : List Nat} (inside : ∀ i ∈ ids, i < m.states.size) :
    ids.mapM (state m) = .ok (ids.filterMap m.state?) := by
  induction ids with
  | nil => rfl
  | cons i ids ih =>
    obtain ⟨first, rest⟩ := List.forall_mem_cons.1 inside
    obtain ⟨q, stored⟩ := Machine.exists_state_of_lt first
    rw [List.mapM_cons, state_eq stored, ih rest, List.filterMap_cons, stored]
    rfl

theorem acceptingStates_eq (consistent : m.Consistent) :
    acceptingStates m = .ok m.acceptingStates :=
  mapM_state_eq fun _ => consistent.accepting_lt

theorem transition_eq (valid : m.Valid) (inside : c.state < m.states.size) :
    transition m c = .ok (m.rule? c) := by
  obtain ⟨q, stored⟩ := Machine.exists_state_of_lt inside
  have indexed := valid.indexed q (Machine.mem_states_of_state stored)
  rw [transition, state_eq stored, ok_bind, ruleFor_eq indexed, Machine.rule?, stored,
    Option.bind_some]

theorem step_eq (valid : m.Valid) (inside : c.state < m.states.size) :
    step m c = .ok (m.step? c) := by
  rw [step, transition_eq valid inside]
  rfl

theorem report_eq (inside : c.state < m.states.size) (trace : List TraceEntry) :
    report m c trace = .ok (m.report c trace) := by
  rw [report, name_eq inside]
  rfl

theorem limitExceeded_eq (inside : c.state < m.states.size) (limit : Nat) :
    limitExceeded m limit c = .ok (m.limitExceeded limit c) := by
  rw [limitExceeded, name_eq inside]
  rfl

theorem traceEntry_eq (valid : m.Valid) (inside : c.state < m.states.size)
    (applies : m.rule? c = some r) : traceEntry m c r = .ok (m.traceEntry c r) := by
  rw [traceEntry, name_eq inside, name_eq (valid.next_lt_of_rule? applies)]
  rfl

theorem recordStep_eq (valid : m.Valid) (inside : c.state < m.states.size)
    (applies : m.rule? c = some r) (trace : List TraceEntry) :
    recordStep m options trace c r = .ok (m.recordStep options trace c r) := by
  unfold recordStep Machine.recordStep
  split
  · rw [traceEntry_eq valid inside applies]
    rfl
  · rfl

theorem exhaust_eq (valid : m.Valid) (inside : c.state < m.states.size) :
    exhaust m fuel c = .ok (
      let (stop, d, _) := m.exhaust (fun _ _ _ => ()) fuel c ()
      (stop, d)) := by
  induction fuel generalizing c with
  | zero =>
    unfold exhaust Machine.exhaust
    rw [transition_eq valid inside]
    cases m.rule? c <;> rfl
  | succ fuel ih =>
    unfold exhaust Machine.exhaust
    rw [transition_eq valid inside]
    cases applies : m.rule? c with
    | none => rfl
    | some r =>
      have entered := valid.next_lt_of_rule? applies
      rw [ok_bind]
      dsimp only
      rw [name_eq entered, ok_bind, ih (c := c.apply r) entered]

/-- A rule that leads to a state that is not there is found out when it is applied. -/
example : (exhaust (.ofStates #[⟨"A", #[⟨'1', '1', .right, 7⟩], .ofList [('1', 0)]⟩] 0 [] false) 1
    ⟨.ofRow ['1'], 0, 0, 0⟩) = .error (.state 7) := by
  rfl

theorem drive_eq {α : Type} {limit : Option Nat} {checked : α → Configuration → Rule → Checked α}
    {visit : α → Configuration → Rule → α} (valid : m.Valid)
    (agree : ∀ record c r, c.state < m.states.size → m.rule? c = some r →
      checked record c r = .ok (visit record c r))
    (inside : c.state < m.states.size) (record : α) :
    drive m limit checked fuel c record = .ok (m.drive limit visit fuel c record) := by
  induction fuel generalizing c record with
  | zero =>
    unfold drive Machine.drive
    rw [transition_eq valid inside, Machine.isHalted]
    cases m.rule? c <;> cases limit.any (· ≤ c.steps) <;> rfl
  | succ fuel ih =>
    unfold drive Machine.drive
    rw [transition_eq valid inside, Machine.isHalted]
    cases applies : m.rule? c with
    | none => cases limit.any (· ≤ c.steps) <;> rfl
    | some r =>
      have entered := valid.next_lt_of_rule? applies
      obtain ⟨q, stored⟩ := Machine.exists_state_of_lt entered
      cases limit.any (· ≤ c.steps) with
      | true => rfl
      | false =>
        rw [ok_bind]
        dsimp only [Bool.false_and, Bool.false_eq_true, if_false]
        rw [agree record c r inside applies, ok_bind, state_eq stored, ok_bind]
        exact ih (c := c.apply r) entered _

theorem run_eq (valid : m.Valid) : run m row fuel = .ok (m.run row fuel) := by
  have inside : (m.advance fuel (m.start row)).state < m.states.size :=
    valid.state_lt valid.initial_lt
  rw [run, exhaust_eq valid valid.initial_lt, Machine.run_eq, Machine.exhaust_eq]
  cases m.isHalted (m.advance fuel (m.start row)) with
  | true => exact congrArg (Except.map some) (report_eq inside [])
  | false => rfl

theorem runWith_eq (valid : m.Valid) :
    runWith m options row fuel = .ok (m.runWith options row fuel) := by
  obtain ⟨q, stored⟩ := Machine.exists_state_of_lt valid.initial_lt
  have inside : (m.drive options.stepLimit (m.recordStep options) fuel (m.start row) []).2.1.state <
      m.states.size := by
    rw [Machine.drive_eq]
    exact valid.state_lt valid.initial_lt
  rw [runWith, state_eq stored, ok_bind, drive_eq valid
    (fun trace _ _ inside applies => recordStep_eq valid inside applies trace) valid.initial_lt [],
    ok_bind, Machine.runWith]
  generalize m.drive options.stepLimit (m.recordStep options) fuel (m.start row) [] = ended
    at inside
  obtain ⟨stop, c, trace⟩ := ended
  cases stop with
  | halted => exact congrArg (Except.map Outcome.halted) (report_eq inside trace.reverse)
  | limit => exact congrArg (Except.map Outcome.limitExceeded) (limitExceeded_eq inside _)
  | fuel => rfl

theorem turn_eq {p : List Nat × Std.TreeSet Nat} (valid : m.Valid)
    (listed : ∀ i ∈ p.1, i < m.states.size) :
    turn m p = .ok (m.turn p) ∧ ∀ i ∈ (m.turn p).1, i < m.states.size := by
  obtain ⟨todo, seen⟩ := p
  cases todo with
  | nil => exact ⟨rfl, listed⟩
  | cons i todo =>
    obtain ⟨first, rest⟩ := List.forall_mem_cons.1 listed
    by_cases old : i ∈ seen
    · rw [turn, if_pos old, Machine.turn_old old]
      exact ⟨rfl, rest⟩
    · obtain ⟨q, stored⟩ := Machine.exists_state_of_lt first
      have targets : m.targets i = q.rules.toList.map Rule.next := by
        rw [Machine.targets, stored]
        rfl
      rw [turn, if_neg old, Machine.turn_new old, state_eq stored, targets]
      refine ⟨rfl, fun j member => ?_⟩
      rcases List.mem_append.1 member with target | member
      · obtain ⟨r, rule, rfl⟩ := List.mem_map.1 target
        exact valid.next_lt q (Machine.mem_states_of_state stored) r rule
      · exact rest j member

theorem search_eq {n : Nat} {p : List Nat × Std.TreeSet Nat} (valid : m.Valid)
    (listed : ∀ i ∈ p.1, i < m.states.size) : search m n p = .ok (m.turn^[n] p) := by
  induction n generalizing p with
  | zero => rfl
  | succ n ih =>
    obtain ⟨turned, listed⟩ := turn_eq valid listed
    rw [search, turned, ok_bind, ih listed, Function.iterate_succ_apply]

theorem perform_eq (consistent : m.Consistent) (inside : c.state < m.states.size)
    (operation : Operation) :
    perform m c operation = .ok (m.advance (if operation.isStep then 1 else 0) c) := by
  have valid := consistent.valid
  obtain ⟨q, stored⟩ := Machine.exists_state_of_lt inside
  cases operation with
  | state => rw [perform, state_eq stored]; rfl
  | transition => rw [perform, transition_eq valid inside]; rfl
  | step =>
    rw [perform, step_eq valid inside, Machine.step?]
    simp only [Operation.isStep, if_true, Machine.advance]
    cases m.rule? c <;> rfl
  | report => rw [perform, report_eq inside]; rfl
  | ruleOf name s =>
    rw [perform, stateNamed_eq consistent, ok_bind]
    cases named : m.stateNamed? name with
    | none => rfl
    | some p =>
      obtain ⟨i, -, stored⟩ := Option.bind_eq_some_iff.1 named
      have indexed := valid.indexed p (Machine.mem_states_of_state stored)
      dsimp only
      rw [ruleFor_eq indexed]
      rfl
  | acceptingStates => rw [perform, acceptingStates_eq consistent]; rfl
  | search turns =>
    have listed : ∀ i ∈ [m.initial], i < m.states.size := by simpa using valid.initial_lt
    rw [perform, search_eq valid listed]
    rfl
  | run row fuel => rw [perform, run_eq valid]; rfl
  | runWith options row fuel => rw [perform, runWith_eq valid]; rfl

theorem foldlM_perform (consistent : m.Consistent) (inside : c.state < m.states.size)
    (operations : List Operation) :
    operations.foldlM (perform m) c =
      .ok (m.advance (operations.countP Operation.isStep) c) := by
  induction operations generalizing c with
  | nil => rfl
  | cons operation operations ih =>
    rw [List.foldlM_cons, perform_eq consistent inside, ok_bind,
      ih (consistent.valid.state_lt inside), List.countP_cons, Nat.add_comm, Machine.advance_add]

/-- No operation asks for an element that is not there, in whatever order operations are carried
out, and each gives what it gives unchecked. -/
theorem nothing_out_of_range {text : String} (parsed : Machine.ofText text = .ok m) :
    (m.initial < m.states.size ∧ (∀ i ∈ m.accepting, i < m.states.size) ∧
      (∀ name i, m.idOf? name = some i → i < m.states.size) ∧
      ∀ q ∈ m.states.toList, (∀ r ∈ q.rules.toList, r.next < m.states.size) ∧
        (∀ (s : Symbol) i, q.index[s]? = some i → i < q.rules.size) ∧
        ∀ s, ruleFor q s = .ok (q.rule? s)) ∧
    (∀ row n, let c := m.advance n (m.start row)
      c.state < m.states.size ∧ name m c.state = .ok (m.nameOf c.state) ∧
        transition m c = .ok (m.rule? c) ∧ step m c = .ok (m.step? c) ∧
        ∀ trace, report m c trace = .ok (m.report c trace)) ∧
    (∀ row fuel, run m row fuel = .ok (m.run row fuel)) ∧
    (∀ options row fuel, runWith m options row fuel = .ok (m.runWith options row fuel)) ∧
    (∀ name, stateNamed m name = .ok (m.stateNamed? name)) ∧
    acceptingStates m = .ok m.acceptingStates ∧
    (∀ n, search m n ([m.initial], ∅) = .ok (m.turn^[n] ([m.initial], ∅))) ∧
    (∀ n, m.pending ([m.initial], ∅) ≤ n →
      search m n ([m.initial], ∅) = .ok ([], m.reachable)) ∧
    ∀ row (operations : List Operation), operations.foldlM (perform m) (m.start row) =
      .ok (m.advance (operations.countP Operation.isStep) (m.start row)) := by
  have consistent := Machine.consistent_ofText parsed
  have valid := consistent.valid
  have started : ∀ i ∈ [m.initial], i < m.states.size := by simpa using valid.initial_lt
  refine ⟨⟨valid.initial_lt, fun i => consistent.accepting_lt, fun name i => consistent.id_lt,
      fun q member => ⟨valid.next_lt q member,
        fun _ _ found => (valid.indexed q member).lt_size found,
        ruleFor_eq (valid.indexed q member)⟩⟩,
    fun row n => ?along, fun row fuel => run_eq valid, fun options row fuel => runWith_eq valid,
    stateNamed_eq consistent, acceptingStates_eq consistent, fun n => search_eq valid started,
    fun n enough => ?found, fun row => foldlM_perform consistent valid.initial_lt⟩
  case along =>
    have inside : (m.advance n (m.start row)).state < m.states.size :=
      valid.state_lt valid.initial_lt
    exact ⟨inside, name_eq inside, transition_eq valid inside, step_eq valid inside,
      report_eq inside⟩
  case found => rw [search_eq valid started, Machine.iterate_turn enough, Machine.reachable]

theorem nothing_out_of_range_two_states : ∃ m,
    Machine.ofText "A, B\ninit A\naccept B\nA:\n\t1, 0, >, B\n" = .ok m ∧
      (∃ q ∈ m.states.toList, q.index['1']? = some 0 ∧ 0 < q.rules.size) ∧
      runWith m ⟨none, true⟩ ['1'] 1 = .ok (.halted
        ⟨"B", 1, .noMatchingRule, 1, 1, 0, ['0'], [⟨1, "A", 0, '1', '0', .right, "B"⟩]⟩) ∧
      runWith m ⟨some 0, false⟩ ['1'] 1 = .ok (.limitExceeded ⟨0, "A", 0⟩) ∧
      m.pending ([m.initial], ∅) ≤ 2 ∧ search m 2 ([m.initial], ∅) = .ok ([], m.reachable) ∧
      [.step, .ruleOf "B" '1', .search 1, .step, .report].foldlM (perform m) (m.start ['1']) =
        .ok (m.advance 2 (m.start ['1'])) := by
  have checked : ((Machine.ofText
      "A, B\ninit A\naccept B\nA:\n\t1, 0, >, B\n").toOption.any fun m =>
        m.states.toList.any (fun q => q.index['1']? == some 0) &&
          m.runWith ⟨none, true⟩ ['1'] 1 == .halted
            ⟨"B", 1, .noMatchingRule, 1, 1, 0, ['0'], [⟨1, "A", 0, '1', '0', .right, "B"⟩]⟩ &&
          m.runWith ⟨some 0, false⟩ ['1'] 1 == .limitExceeded ⟨0, "A", 0⟩ &&
          (m.states.toList.map fun q => q.rules.size).sum == 1) = true := by
    decide +kernel
  obtain ⟨m, parsed, answers⟩ := Description.ok_of_any checked
  simp only [Bool.and_eq_true, beq_iff_eq, List.any_eq_true] at answers
  obtain ⟨⟨⟨⟨q, member, indexed⟩, traced⟩, exceeded⟩, rules⟩ := answers
  obtain ⟨⟨-, -, -, states⟩, -, -, runs, -, -, -, searches, sequences⟩ :=
    nothing_out_of_range parsed
  have pending : m.pending ([m.initial], ∅) ≤ 2 := by
    rw [Machine.pending, Machine.rulesAhead_empty, rules, List.length_singleton]
  exact ⟨m, parsed, ⟨q, member, indexed, (states q member).2.1 '1' 0 indexed⟩,
    (runs _ _ _).trans (congrArg _ traced), (runs _ _ _).trans (congrArg _ exceeded), pending,
    searches 2 pending, sequences ['1'] _⟩

end Checked

end OneTape
