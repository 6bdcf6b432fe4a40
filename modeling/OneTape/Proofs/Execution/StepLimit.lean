import OneTape.Execution.Lemmas
import OneTape.Proofs.Execution.Trajectory

namespace OneTape.Machine

/-- The machine halts in `c` after exactly `k` steps on `row`. -/
def HaltsAfter (m : Machine) (row : List Symbol) (k : Nat) (c : Configuration) : Prop :=
  m.after? k (m.start row) = some c ∧ m.isHalted c = true

/-- A rule still applies in `c`, which the machine reaches after exactly `k` steps on `row`. -/
def RunsOnAfter (m : Machine) (row : List Symbol) (k : Nat) (c : Configuration) : Prop :=
  m.after? k (m.start row) = some c ∧ m.isHalted c = false

variable {m : Machine} {row : List Symbol} {c : Configuration} {k l fuel : Nat}
variable {recordTrace : Bool} {limit : Option Nat} {r : Report}

theorem haltsAfter_iff : m.HaltsAfter row k c ↔
    (m.path k (m.start row)).length = k ∧ m.advance k (m.start row) = c ∧
      m.isHalted c = true := by
  rw [HaltsAfter, after?_eq_some_iff, and_assoc]

theorem runsOnAfter_iff : m.RunsOnAfter row k c ↔
    m.advance k (m.start row) = c ∧ m.isHalted c = false := by
  rw [RunsOnAfter, after?_eq_some_iff, and_assoc]
  constructor
  · rintro ⟨-, reached⟩
    exact reached
  · rintro ⟨rfl, running⟩
    exact ⟨length_path_eq running, rfl, running⟩

def closing (m : Machine) (row : List Symbol) (recordTrace : Bool) (k : Nat) (c : Configuration) :
    Report :=
  m.report c (if recordTrace then m.traceOf (m.path k (m.start row)) else [])

theorem allowance_start (limit : Option Nat) (fuel : Nat) :
    allowance limit fuel (m.start row) = limit.elim fuel (min fuel) := by
  cases limit <;> simp [allowance, start]

theorem le_allowance_start (allowed : ∀ l ∈ limit, k ≤ l) (enough : k ≤ fuel) :
    k ≤ allowance limit fuel (m.start row) := by
  rw [allowance_start]
  cases limit with
  | none => exact enough
  | some l => exact Nat.le_min.2 ⟨enough, allowed l rfl⟩

theorem HaltsAfter.run (halts : m.HaltsAfter row k c) (enough : k ≤ fuel) :
    m.run row fuel = some (m.report c []) := by
  obtain ⟨-, rfl, halted⟩ := haltsAfter_iff.1 halts
  rw [run_eq, (advance_eq_of_le halted enough).1, if_pos halted]

theorem HaltsAfter.runWith (halts : m.HaltsAfter row k c) (allowed : ∀ l ∈ limit, k ≤ l)
    (enough : k ≤ fuel) :
    m.runWith ⟨limit, recordTrace⟩ row fuel = .halted (m.closing row recordTrace k c) := by
  obtain ⟨-, rfl, halted⟩ := haltsAfter_iff.1 halts
  have le : k ≤ allowance limit fuel (m.start row) := le_allowance_start allowed enough
  have later := advance_eq_of_le halted le
  rw [runWith_eq]
  simp only [later.1, later.2, halted, if_true, closing]

theorem runWith_eq_halted_iff : m.runWith ⟨limit, recordTrace⟩ row fuel = .halted r ↔
    ∃ k c, m.HaltsAfter row k c ∧ (∀ l ∈ limit, k ≤ l) ∧ k ≤ fuel ∧
      r = m.closing row recordTrace k c := by
  constructor
  · intro returned
    have halted :
        m.isHalted (m.advance (allowance limit fuel (m.start row)) (m.start row)) = true := by
      rw [runWith_eq] at returned
      simp only at returned
      split at returned
      · assumption
      · split at returned <;> cases returned
    obtain ⟨k, le, reached⟩ := exists_after?_le m (allowance limit fuel (m.start row)) (m.start row)
    rw [allowance_start] at le
    have allowed : ∀ l ∈ limit, k ≤ l := by
      rintro l rfl
      exact Nat.le_trans le (Nat.min_le_right _ _)
    have enough : k ≤ fuel := by
      cases limit with
      | none => exact le
      | some l => exact Nat.le_trans le (Nat.min_le_left _ _)
    refine ⟨k, _, ⟨reached, halted⟩, allowed, enough, ?_⟩
    rw [HaltsAfter.runWith ⟨reached, halted⟩ allowed enough] at returned
    exact (Outcome.halted.inj returned).symm
  · rintro ⟨k, c, halts, allowed, enough, rfl⟩
    exact halts.runWith allowed enough

theorem run_eq_some_iff : m.run row fuel = some r ↔
    ∃ k c, m.HaltsAfter row k c ∧ k ≤ fuel ∧ r = m.report c [] := by
  constructor
  · intro returned
    rw [run_eq] at returned
    split at returned
    · obtain ⟨k, le, reached⟩ := exists_after?_le m fuel (m.start row)
      exact ⟨k, _, ⟨reached, ‹_›⟩, le, (Option.some.inj returned).symm⟩
    · cases returned
  · rintro ⟨k, c, halts, enough, rfl⟩
    exact halts.run enough

theorem HaltsAfter.unique {j : Nat} {d : Configuration} (halts : m.HaltsAfter row k c)
    (other : m.HaltsAfter row j d) : k = j ∧ c = d := by
  obtain ⟨taken, rfl, halted⟩ := haltsAfter_iff.1 halts
  obtain ⟨taken', rfl, halted'⟩ := haltsAfter_iff.1 other
  rcases Nat.le_total k j with le | le
  · have later := advance_eq_of_le halted le
    refine ⟨?_, later.1.symm⟩
    rw [← taken, ← taken', later.2]
  · have later := advance_eq_of_le halted' le
    refine ⟨?_, later.1⟩
    rw [← taken, ← taken', later.2]

theorem verdict_report (m : Machine) (c : Configuration) (trace : List TraceEntry) :
    m.verdict (m.report c trace) = .ofBool (m.isAcceptingId c.state) := rfl

theorem HaltsAfter.judge_eq (halts : m.HaltsAfter row k c) (fuel : Nat) :
    m.judge row fuel =
      if k ≤ fuel then some (m.report c [], .ofBool (m.isAcceptingId c.state)) else none := by
  split
  · rw [judge, halts.run ‹_›, Option.map_some, verdict_report]
  · rename_i short
    cases returned : m.run row fuel with
    | none => rw [judge, returned, Option.map_none]
    | some r =>
      obtain ⟨j, d, other, enough, -⟩ := run_eq_some_iff.1 returned
      exact absurd ((halts.unique other).1 ▸ enough) short

/-! ## Exceeding the limit -/

theorem runWith_eq_limitExceeded_iff {e : StepLimitExceeded} :
    m.runWith ⟨some l, recordTrace⟩ row fuel = .limitExceeded e ↔
      l ≤ fuel ∧ ∃ c, m.RunsOnAfter row l c ∧ e = m.limitExceeded l c := by
  rw [runWith_eq]
  simp only [allowance_start, Option.elim_some, Option.any_some, decide_eq_true_eq,
    Option.getD_some]
  constructor
  · intro exceeded
    split at exceeded
    · cases exceeded
    · rename_i running
      rw [Bool.not_eq_true] at running
      split at exceeded
      · rename_i reached
        have taken : (m.advance (min fuel l) (m.start row)).steps = min fuel l := by
          rw [steps_advance, length_path_eq running]
          simp [start]
        rw [taken] at reached
        have le : l ≤ fuel := Nat.le_trans reached (Nat.min_le_left _ _)
        rw [Nat.min_eq_right le] at running exceeded
        exact ⟨le, _, runsOnAfter_iff.2 ⟨rfl, running⟩, (Outcome.limitExceeded.inj exceeded).symm⟩
      · cases exceeded
  · rintro ⟨le, c, runs, rfl⟩
    obtain ⟨rfl, running⟩ := runsOnAfter_iff.1 runs
    have taken : (m.advance l (m.start row)).steps = l := by
      rw [steps_advance, length_path_eq running]
      simp [start]
    rw [Nat.min_eq_right le, if_neg (by simp [running]), if_pos (Nat.le_of_eq taken.symm)]

theorem runWith_ne_unfinished (enough : l ≤ fuel) :
    m.runWith ⟨some l, recordTrace⟩ row fuel ≠ .unfinished := by
  cases halted : m.isHalted (m.advance l (m.start row)) with
  | true =>
    obtain ⟨k, le, reached⟩ := exists_after?_le m l (m.start row)
    have allowed : ∀ l' ∈ some l, k ≤ l' := by
      rintro _ ⟨⟩
      exact le
    rw [HaltsAfter.runWith ⟨reached, halted⟩ allowed (Nat.le_trans le enough)]
    exact Outcome.noConfusion
  | false =>
    rw [runWith_eq_limitExceeded_iff.2 ⟨enough, _, runsOnAfter_iff.2 ⟨rfl, halted⟩, rfl⟩]
    exact Outcome.noConfusion

theorem runWith_add {options : RunOptions} (ended : m.runWith options row fuel ≠ .unfinished)
    (extra : Nat) : m.runWith options row (fuel + extra) = m.runWith options row fuel := by
  unfold runWith at ended ⊢
  cases final : m.drive options.stepLimit (m.recordStep options) fuel (m.start row) [] with
  | mk stop rest =>
    have decided : stop ≠ .fuel := by
      rintro rfl
      simp [final] at ended
    rw [drive_add final decided]

/-! ## Bounded and unbounded runs -/

/-- A limit is exceeded exactly if a rule still applies after as many steps as it allows. -/
theorem bounded_run_agrees {text : String} (parsed : Machine.ofText text = .ok m)
    (row : List Symbol) :
    (∀ k c, m.HaltsAfter row k c → ∃ report : Report,
      (∀ fuel, k ≤ fuel → m.run row fuel = some report ∧
        m.judge row fuel = some (report, m.verdict report)) ∧
      ∀ limit recordTrace, (∀ l ∈ limit, k ≤ l) → ∃ trace, ∀ fuel, k ≤ fuel →
        m.runWith ⟨limit, recordTrace⟩ row fuel = .halted { report with trace := trace }) ∧
    (∀ l recordTrace fuel e, m.runWith ⟨some l, recordTrace⟩ row fuel = .limitExceeded e ↔
      l ≤ fuel ∧ ∃ c q, m.RunsOnAfter row l c ∧ m.state? c.state = some q ∧
        e = ⟨l, q.name, c.head⟩) ∧
    (∀ l recordTrace fuel, l ≤ fuel → m.runWith ⟨some l, recordTrace⟩ row fuel ≠ .unfinished) ∧
    (∀ l recordTrace fuel r, m.runWith ⟨some l, recordTrace⟩ row fuel = .halted r →
      ∀ limit, (∀ l' ∈ limit, l ≤ l') → m.runWith ⟨limit, recordTrace⟩ row fuel = .halted r) ∧
    (∀ limit limit' recordTrace fuel fuel' r r',
      m.runWith ⟨limit, recordTrace⟩ row fuel = .halted r →
      m.runWith ⟨limit', recordTrace⟩ row fuel' = .halted r' → r = r') ∧
    ((∀ l recordTrace fuel r, m.runWith ⟨some l, recordTrace⟩ row fuel ≠ .halted r) →
      ∀ fuel, m.run row fuel = none) := by
  refine ⟨?reports, ?exceeded, fun _ _ _ => runWith_ne_unfinished, ?larger, ?unique, ?never⟩
  case reports =>
    intro k c halts
    refine ⟨m.report c [], fun fuel enough => ?_, fun limit recordTrace allowed => ?_⟩
    · have returned := halts.run enough
      exact ⟨returned, by rw [judge, returned, Option.map_some]⟩
    · exact ⟨_, fun fuel enough => halts.runWith allowed enough⟩
  case exceeded =>
    intro l recordTrace fuel e
    rw [runWith_eq_limitExceeded_iff]
    refine and_congr_right fun _ => exists_congr fun c => ?_
    constructor
    · rintro ⟨runs, rfl⟩
      obtain ⟨q, stored⟩ := (valid_ofText parsed).exists_state row l
      rw [(runsOnAfter_iff.1 runs).1] at stored
      refine ⟨q, runs, stored, ?_⟩
      rw [limitExceeded, nameOf, stored]
      rfl
    · rintro ⟨q, runs, stored, rfl⟩
      refine ⟨runs, ?_⟩
      rw [limitExceeded, nameOf, stored]
      rfl
  case larger =>
    intro l recordTrace fuel r returned limit larger
    obtain ⟨k, c, halts, allowed, enough, rfl⟩ := runWith_eq_halted_iff.1 returned
    exact halts.runWith (fun l' given => Nat.le_trans (allowed l rfl) (larger l' given)) enough
  case unique =>
    intro limit limit' recordTrace fuel fuel' r r' returned returned'
    obtain ⟨k, c, halts, -, -, rfl⟩ := runWith_eq_halted_iff.1 returned
    obtain ⟨k', c', halts', -, -, rfl⟩ := runWith_eq_halted_iff.1 returned'
    obtain ⟨rfl, rfl⟩ := halts.unique halts'
    rfl
  case never =>
    intro none_suffices fuel
    by_contra returned
    obtain ⟨r, returned⟩ := Option.ne_none_iff_exists'.1 returned
    obtain ⟨k, c, halts, enough, rfl⟩ := run_eq_some_iff.1 returned
    have allowed : ∀ l ∈ some k, k ≤ l := by
      rintro _ ⟨⟩
      exact Nat.le_refl k
    exact none_suffices k false k _ (halts.runWith allowed (Nat.le_refl k))

theorem bounded_run_agrees_one : ∃ m,
    Machine.ofText "A, B\ninit A\nA:\n\t1, 0, >, B\n" = .ok m ∧
      m.runWith ⟨some 0, true⟩ ['1'] 1 = .limitExceeded ⟨0, "A", 0⟩ ∧
      ∀ l, 0 < l → ∃ report trace, m.run ['1'] 1 = some report ∧
        m.runWith ⟨some l, true⟩ ['1'] 1 = .halted { report with trace := trace } := by
  have checked : ((Machine.ofText "A, B\ninit A\nA:\n\t1, 0, >, B\n").toOption.any fun m =>
      (m.path 1 (m.start ['1'])).length == 1 && m.isHalted (m.advance 1 (m.start ['1'])) &&
      !m.isHalted (m.start ['1']) && (m.state? m.initial).any (·.name = "A")) = true := by
    decide +kernel
  cases parsed : Machine.ofText "A, B\ninit A\nA:\n\t1, 0, >, B\n" with
  | error e => simp [parsed, Except.toOption] at checked
  | ok m =>
    simp only [parsed, Except.toOption, Option.any_some, Bool.and_eq_true, beq_iff_eq,
      Bool.not_eq_true', Option.any_eq_true, decide_eq_true_eq] at checked
    obtain ⟨⟨⟨taken, halted⟩, running⟩, q, stored, name⟩ := checked
    have agrees := bounded_run_agrees parsed ['1']
    have halts : m.HaltsAfter ['1'] 1 (m.advance 1 (m.start ['1'])) :=
      haltsAfter_iff.2 ⟨taken, rfl, halted⟩
    obtain ⟨report, runs, limited⟩ := agrees.1 1 _ halts
    refine ⟨m, rfl, ?_, fun l positive => ?_⟩
    · exact (agrees.2.1 0 true 1 _).2
        ⟨Nat.zero_le 1, m.start ['1'], q, runsOnAfter_iff.2 ⟨rfl, running⟩, stored,
          by rw [name]; rfl⟩
    · have allowed : ∀ l' ∈ some l, 1 ≤ l' := by
        rintro _ ⟨⟩
        exact positive
      obtain ⟨trace, returned⟩ := limited (some l) true allowed
      exact ⟨report, trace, (runs 1 (Nat.le_refl 1)).1, returned 1 (Nat.le_refl 1)⟩

end OneTape.Machine
