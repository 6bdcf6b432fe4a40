import Mathlib.Data.List.OfFn
import OneTape.Log
import OneTape.Proofs.Execution.Trajectory

namespace OneTape

namespace Machine

/-- What a machine passes through when it applies `k` rules on a row. -/
structure Passage (m : Machine) (row : List Symbol) (k : Nat) where
  configuration : Fin (k + 1) → Configuration
  rule : Fin k → Rule
  state : Fin (k + 1) → State
  starts : configuration 0 = m.start row
  steps : ∀ i, m.step? (configuration i.castSucc) = some (rule i, configuration i.succ)
  stored : ∀ j, m.state? (configuration j).state = some (state j)

namespace Passage

variable {m : Machine} {row : List Symbol} {k : Nat}

def final (p : m.Passage row k) : Configuration := p.configuration (Fin.last k)

def appliedEvent (p : m.Passage row k) (i : Fin k) : Event :=
  .applied (i + 1) (p.state i.castSucc).name (p.configuration i.castSucc).head (p.rule i).read
    (p.rule i).write (p.rule i).direction

def haltedEvent (p : m.Passage row k) : Event :=
  .halted (p.state (Fin.last k)).name k p.final.head

def traceEntry (p : m.Passage row k) (i : Fin k) : TraceEntry where
  step := i + 1
  state := (p.state i.castSucc).name
  head := (p.configuration i.castSucc).head
  read := (p.configuration i.castSucc).symbol
  write := (p.rule i).write
  direction := (p.rule i).direction
  next := (p.state i.succ).name

end Passage

end Machine

def Tape.replay (t : Tape) (entries : List TraceEntry) : Tape :=
  entries.foldl (fun t e => t.write e.head e.write) t

namespace Machine

variable {m : Machine} {row : List Symbol} {c : Configuration} {n k fuel : Nat}
variable {options : RunOptions}

/-! ## The trajectory by its indices -/

theorem getElem_path {i : Nat} (inside : i < (m.path n c).length) :
    (m.path n c)[i].1 = m.advance i c ∧
      m.step? (m.advance i c) = some ((m.path n c)[i].2, m.advance (i + 1) c) := by
  induction n generalizing c i with
  | zero => simp [path] at inside
  | succ n ih =>
    cases applies : m.rule? c with
    | none => simp [path_succ_none applies] at inside
    | some r =>
      simp only [path_succ_some applies] at inside ⊢
      cases i with
      | zero => simp [advance, step?, applies]
      | succ i =>
        rw [List.length_cons] at inside
        simpa [advance_succ_some applies] using ih (Nat.lt_of_succ_lt_succ inside)

theorem advance_length_path : m.advance (m.path n c).length c = m.advance n c :=
  (after?_eq_some_iff.1 after?_length_path).2

def Valid.passage (valid : m.Valid) (row : List Symbol) (n : Nat) :
    m.Passage row (m.path n (m.start row)).length where
  configuration j := m.advance j (m.start row)
  rule i := (m.path n (m.start row))[i].2
  state j :=
    have inside : (m.advance j (m.start row)).state < m.states.size :=
      valid.state_lt valid.initial_lt
    m.states[(m.advance j (m.start row)).state]
  starts := rfl
  steps i := (getElem_path i.isLt).2
  stored j := Array.getElem?_eq_getElem (valid.state_lt valid.initial_lt)

/-! ## Steps of a passage -/

theorem step?_eq_some_iff {r : Rule} {d : Configuration} :
    m.step? c = some (r, d) ↔ m.rule? c = some r ∧ c.apply r = d := by
  simp [step?]

namespace Passage

variable (p : m.Passage row k)

theorem rule_applies (i : Fin k) : m.rule? (p.configuration i.castSucc) = some (p.rule i) :=
  (step?_eq_some_iff.1 (p.steps i)).1

theorem apply_rule (i : Fin k) :
    (p.configuration i.castSucc).apply (p.rule i) = p.configuration i.succ :=
  (step?_eq_some_iff.1 (p.steps i)).2

theorem nameOf_state (j : Fin (k + 1)) :
    m.nameOf (p.configuration j).state = (p.state j).name := by
  rw [nameOf, p.stored]
  rfl

theorem nameOf_next (i : Fin k) : m.nameOf (p.rule i).next = (p.state i.succ).name := by
  rw [← p.nameOf_state, ← p.apply_rule]
  rfl

theorem steps_configuration (j : Fin (k + 1)) : (p.configuration j).steps = j := by
  induction j using Fin.induction with
  | zero => rw [p.starts]; rfl
  | succ i ih => rw [← p.apply_rule, apply_steps, ih]; rfl

theorem head_succ (i : Fin k) : (p.configuration i.succ).head =
    (p.configuration i.castSucc).head + (p.rule i).direction.delta := by
  rw [← p.apply_rule]
  rfl

theorem tape_succ (i : Fin k) : (p.configuration i.succ).tape =
    (p.configuration i.castSucc).tape.write (p.configuration i.castSucc).head (p.rule i).write := by
  rw [← p.apply_rule]
  rfl

theorem appliedEvent_eq (i : Fin k) :
    m.appliedEvent (p.configuration i.castSucc) (p.rule i) = p.appliedEvent i := by
  rw [Machine.appliedEvent, p.steps_configuration, p.nameOf_state]
  rfl

theorem haltedEvent_eq : m.haltedEvent p.final = p.haltedEvent := by
  rw [Machine.haltedEvent, final, p.steps_configuration, p.nameOf_state]
  rfl

theorem traceEntry_eq (valid : m.Valid) (i : Fin k) :
    m.traceEntry (p.configuration i.castSucc) (p.rule i) = p.traceEntry i := by
  rw [Machine.traceEntry, p.steps_configuration, p.nameOf_state, p.nameOf_next,
    valid.read_eq_symbol (p.rule_applies i)]
  rfl

theorem replay_trace : (Tape.ofRow row).replay (List.ofFn p.traceEntry) = p.final.tape := by
  have prefixes (j : Fin (k + 1)) :
      (Tape.ofRow row).replay ((List.ofFn p.traceEntry).take j) = (p.configuration j).tape := by
    induction j using Fin.induction with
    | zero => rw [p.starts]; rfl
    | succ i ih =>
      have entry : (List.ofFn p.traceEntry)[(i : Nat)]? = some (p.traceEntry i) := by simp
      rw [p.tape_succ, ← ih, Fin.val_succ, List.take_add_one, entry, Tape.replay, List.foldl_append]
      rfl
  have whole := prefixes (Fin.last k)
  rwa [Fin.val_last, List.take_of_length_le (by simp)] at whole

end Passage

/-! ## What is recorded -/

theorem Valid.map_path (valid : m.Valid) {β : Type} (view : Configuration → Rule → β) :
    (m.path n (m.start row)).map (fun s => view s.1 s.2) =
      List.ofFn fun i => view ((valid.passage row n).configuration i.castSucc)
        ((valid.passage row n).rule i) := by
  rw [← List.ofFn_getElem_eq_map]
  congr 1
  funext i
  rw [(getElem_path i.isLt).1]
  rfl

theorem Valid.final_passage (valid : m.Valid) :
    (valid.passage row n).final = m.advance n (m.start row) := advance_length_path

theorem runWithLog_eq : m.runWithLog options row fuel =
    let n := allowance options.stepLimit fuel (m.start row)
    let d := m.advance n (m.start row)
    (m.path n (m.start row)).map (fun s => m.appliedEvent s.1 s.2) ++
      if m.isHalted d then [m.haltedEvent d] else [] := by
  have applied := foldl_cons_reverse fun s : Configuration × Rule => m.appliedEvent s.1 s.2
  rw [runWithLog, drive_eq]
  generalize allowance options.stepLimit fuel (m.start row) = n
  cases halted : m.isHalted (m.advance n (m.start row)) with
  | true => simp [closeLog, applied, halted]
  | false =>
    cases reached : options.stepLimit.any (· ≤ (m.advance n (m.start row)).steps) <;>
      simp [closeLog, applied, halted, reached]

theorem Valid.observe_passage (valid : m.Valid) {β : Type} (view : Configuration → β) :
    m.observe options view row fuel = List.ofFn fun j =>
      view ((valid.passage row (allowance options.stepLimit fuel (m.start row))).configuration j) := by
  rw [observe_eq]
  dsimp only
  rw [List.ofFn_succ', List.concat_eq_append, ← valid.final_passage,
    valid.map_path fun c _ => view c]
  rfl

theorem Valid.runWithLog_passage (valid : m.Valid) :
    let p := valid.passage row (allowance options.stepLimit fuel (m.start row))
    m.runWithLog options row fuel =
      List.ofFn p.appliedEvent ++ if m.isHalted p.final then [p.haltedEvent] else [] := by
  intro p
  have events : (fun i => m.appliedEvent (p.configuration i.castSucc) (p.rule i)) =
      p.appliedEvent := funext p.appliedEvent_eq
  rw [runWithLog_eq]
  dsimp only
  rw [valid.map_path m.appliedEvent, ← valid.final_passage, ← p.haltedEvent_eq, events]

theorem Valid.traceOf_passage (valid : m.Valid) (n : Nat) :
    m.traceOf (m.path n (m.start row)) = List.ofFn (valid.passage row n).traceEntry := by
  rw [traceOf, valid.map_path m.traceEntry]
  exact congrArg List.ofFn (funext fun i => (valid.passage row n).traceEntry_eq valid i)

theorem Valid.runWith_passage (valid : m.Valid) :
    let p := valid.passage row (allowance options.stepLimit fuel (m.start row))
    m.runWith options row fuel =
      if m.isHalted p.final then
        .halted (m.report p.final (if options.recordTrace then List.ofFn p.traceEntry else []))
      else if options.stepLimit.any (· ≤ p.final.steps) then
        .limitExceeded (m.limitExceeded (options.stepLimit.getD 0) p.final)
      else .unfinished := by
  intro p
  rw [runWith_eq]
  dsimp only
  rw [valid.traceOf_passage, ← valid.final_passage]

theorem limit_eq_length_path {limit : Option Nat}
    (reached : limit.any (· ≤ (m.path (allowance limit fuel c) c).length) = true)
    (started : c.steps = 0) : limit = some (m.path (allowance limit fuel c) c).length := by
  cases limit with
  | none => cases reached
  | some l =>
    have above : l ≤ (m.path (allowance (some l) fuel c) c).length := by simpa using reached
    have below : (m.path (allowance (some l) fuel c) c).length ≤ min fuel (l - c.steps) :=
      length_path_le
    exact congrArg some (by omega)

/-- Each configuration passed through is observed once, each rule applied is logged once and, if a
trace is asked for, has one entry in it. The log is closed exactly if the run halts. -/
theorem records_tell_passage {text : String} (parsed : Machine.ofText text = .ok m)
    (row : List Symbol) (options : RunOptions) (fuel : Nat) :
    ∃ k, ∃ p : m.Passage row k,
      (∀ j, (p.configuration j).steps = j) ∧
      (∀ i, (p.configuration i.succ).head =
        (p.configuration i.castSucc).head + (p.rule i).direction.delta) ∧
      (∀ {β : Type} (view : Configuration → β), m.observe options view row fuel =
        List.ofFn fun j => view (p.configuration j)) ∧
      (m.runWithLog options row fuel =
          List.ofFn p.appliedEvent ++ (if m.isHalted p.final then [p.haltedEvent] else []) ∧
        (∀ i, (p.appliedEvent i).level = .trace) ∧
        p.haltedEvent.level = .debug ∧ p.haltedEvent.message = "machine halted") ∧
      (m.isHalted p.final = true ↔ ∃ r, m.runWith options row fuel = .halted r) ∧
      (∀ e, m.runWith options row fuel = .limitExceeded e → options.stepLimit = some k) ∧
      (∀ r, m.runWith options row fuel = .halted r →
        r.steps = k ∧
        r.trace = (if options.recordTrace then List.ofFn p.traceEntry else []) ∧
        (r.tapeOrigin, r.tape) = p.final.tape.written) ∧
      (Tape.ofRow row).replay (List.ofFn p.traceEntry) = p.final.tape := by
  have valid := valid_ofText parsed
  let p := valid.passage row (allowance options.stepLimit fuel (m.start row))
  have outcome : m.runWith options row fuel = _ := valid.runWith_passage
  have taken : p.final.steps = (m.path _ (m.start row)).length := p.steps_configuration (Fin.last _)
  refine ⟨_, p, p.steps_configuration, p.head_succ, valid.observe_passage,
    ⟨valid.runWithLog_passage, fun _ => rfl, rfl, rfl⟩, ?ending, ?limit, ?report, p.replay_trace⟩
  case ending =>
    rw [outcome]
    constructor
    · intro halted
      exact ⟨_, if_pos halted⟩
    · rintro ⟨r, returned⟩
      split at returned
      · assumption
      · split at returned <;> cases returned
  case limit =>
    intro e exceeded
    rw [outcome] at exceeded
    split at exceeded
    · cases exceeded
    · split at exceeded
      · rename_i reached
        rw [taken] at reached
        exact limit_eq_length_path reached rfl
      · cases exceeded
  case report =>
    intro r returned
    rw [outcome] at returned
    split at returned
    · obtain rfl := Outcome.halted.inj returned
      exact ⟨taken, rfl, rfl⟩
    · split at returned <;> cases returned

theorem records_tell_passage_two : ∃ m,
    Machine.ofText "A, B\ninit A\nA:\n\t1, 0, >, B\nB:\n\t1, _, <, A\n" = .ok m ∧
      ∃ p : m.Passage ['1', '1'] 2, ∃ r,
        m.runWith ⟨some 5, true⟩ ['1', '1'] 9 = .halted r ∧ r.trace = List.ofFn p.traceEntry ∧
        r.trace.map TraceEntry.read = ['1', '1'] ∧
        m.runWithLog ⟨some 5, true⟩ ['1', '1'] 9 = List.ofFn p.appliedEvent ++ [p.haltedEvent] := by
  have checked : ((Machine.ofText
      "A, B\ninit A\nA:\n\t1, 0, >, B\nB:\n\t1, _, <, A\n").toOption.any fun m =>
        (m.observe ⟨some 5, true⟩ Configuration.steps ['1', '1'] 9).length == 3 &&
          m.runWith ⟨some 5, true⟩ ['1', '1'] 9 == .halted
            ⟨"A", 0, .noMatchingRule, 2, 0, 0, ['0'],
              [⟨1, "A", 0, '1', '0', .right, "B"⟩, ⟨2, "B", 1, '1', .blank, .left, "A"⟩]⟩) = true := by
    decide +kernel
  cases parsed : Machine.ofText "A, B\ninit A\nA:\n\t1, 0, >, B\nB:\n\t1, _, <, A\n" with
  | error e => simp [parsed, Except.toOption] at checked
  | ok m =>
    simp only [parsed, Except.toOption, Option.any_some, Bool.and_eq_true, beq_iff_eq] at checked
    obtain ⟨observed, returned⟩ := checked
    obtain ⟨k, p, -, -, seen, ⟨log, -⟩, ending, -, reported, -⟩ :=
      records_tell_passage parsed ['1', '1'] ⟨some 5, true⟩ 9
    rw [seen, List.length_ofFn] at observed
    obtain rfl : k = 2 := Nat.succ.inj observed
    have halted : m.isHalted p.final = true := ending.2 ⟨_, returned⟩
    rw [if_pos halted] at log
    exact ⟨m, rfl, p, _, returned, (reported _ returned).2.1, rfl, log⟩

end Machine

end OneTape
