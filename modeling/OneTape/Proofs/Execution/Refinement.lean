import OneTape.Proofs.Execution.Textbook

namespace OneTape

open Machine

def Configuration.plain (c : Configuration) : Textbook := ⟨c.state, c.head, c.tape.read⟩

def Machine.stepped (m : Machine) (c : Configuration) : Configuration :=
  (m.step? c).elim c (·.2)

namespace Textbook

variable {m : Machine} {row : List Symbol} {c d : Configuration} {n fuel : Nat}

theorem plain_start : (m.start row).plain = start m row := by
  have read : (Tape.ofRow row).read = contents row := by
    funext o
    cases o with
    | ofNat i => exact Tape.read_ofRow_natCast row i
    | negSucc i => exact Tape.read_ofRow_of_neg row (Int.negSucc_lt_zero i)
  simp [Machine.start, Configuration.plain, start, read]

theorem plain_apply (c : Configuration) (r : Rule) : (c.apply r).plain = c.plain.apply r := by
  have read : (c.tape.write c.head r.write).read = Function.update c.tape.read c.head r.write := by
    funext o
    rw [Tape.read_write, Function.update_apply]
  simp [Configuration.apply, Configuration.plain, apply, read]

theorem plain_rule? (valid : m.Valid) (c : Configuration) : c.plain.rule? m = m.rule? c := by
  unfold rule? Machine.rule?
  cases stored : m.state? c.state with
  | none => simp [Configuration.plain, stored]
  | some q =>
    have member : q ∈ m.states.toList :=
      List.mem_of_getElem? (by simpa [state?] using stored)
    simp only [Configuration.plain, stored, Option.bind_some]
    exact ((valid.indexed q member).rule?_eq_find? c.symbol).symm

/-! ## Trajectories -/

theorem plain_advance (valid : m.Valid) (n : Nat) (c : Configuration) :
    (m.advance n c).plain = advance m n c.plain := by
  induction n generalizing c with
  | zero => rfl
  | succ n ih =>
    cases applies : m.rule? c with
    | none => simp [advance_succ_none applies, advance, plain_rule? valid, applies]
    | some r =>
      rw [advance_succ_some applies, ih, plain_apply, advance, plain_rule? valid, applies]

theorem plain_path (valid : m.Valid) (n : Nat) (c : Configuration) :
    (m.path n c).map (fun p => (p.1.plain, p.2)) = path m n c.plain := by
  induction n generalizing c with
  | zero => rfl
  | succ n ih =>
    cases applies : m.rule? c with
    | none => simp [path_succ_none applies, path, plain_rule? valid, applies]
    | some r =>
      rw [path_succ_some applies, List.map_cons, ih, plain_apply, path, plain_rule? valid, applies]

theorem length_path (valid : m.Valid) (n : Nat) (c : Configuration) :
    (path m n c.plain).length = (m.path n c).length := by
  rw [← plain_path valid, List.length_map]

theorem map_path {β : Type} (valid : m.Valid) (view : Configuration × Rule → β)
    (shown : (Textbook × Rule) × Nat → β)
    (plain : ∀ c r, view (c, r) = shown ((c.plain, r), c.steps)) (n : Nat) (c : Configuration) :
    (m.path n c).map view = ((path m n c.plain).zipIdx c.steps).map shown := by
  induction n generalizing c with
  | zero => rfl
  | succ n ih =>
    cases applies : m.rule? c with
    | none => simp [path_succ_none applies, path, plain_rule? valid, applies]
    | some r =>
      rw [path_succ_some applies, List.map_cons, ih, plain_apply, path, plain_rule? valid, applies]
      simp [plain]

theorem isHalted_eq (valid : m.Valid) (c : Configuration) :
    m.isHalted c = (c.plain.rule? m).isNone := by
  rw [plain_rule? valid, isHalted]

theorem advance_eq_iterate (n : Nat) (c : Configuration) :
    m.advance n c = m.stepped^[n] c := by
  induction n generalizing c with
  | zero => rfl
  | succ n ih =>
    rw [Function.iterate_succ_apply, ← ih]
    cases applies : m.rule? c with
    | none =>
      have same : m.stepped c = c := by simp [stepped, step?, applies]
      rw [same, advance_succ_none applies, advance_of_isHalted (isHalted_iff.2 applies)]
    | some r =>
      have next : m.stepped c = c.apply r := by simp [stepped, step?, applies]
      rw [next, advance_succ_some applies]

/-! ## What is told of a configuration -/

theorem bounds_eq_extent (t : Tape) : t.bounds = extent t.read := by
  unfold extent
  cases bounded : t.bounds with
  | none =>
    have blank : ¬ ∃ ends : Int × Int, Tape.IsExtent t.read ends.1 ends.2 := by
      rintro ⟨ends, extended⟩
      exact extended.first_ne (t.bounds_eq_none bounded _)
    rw [dif_neg blank]
  | some ends =>
    have extended := t.bounds_isExtent bounded
    have found : ∃ ends : Int × Int, Tape.IsExtent t.read ends.1 ends.2 := ⟨ends, extended⟩
    rw [dif_pos found]
    exact congrArg some (extended.unique found.choose_spec)

theorem written_eq (t : Tape) : t.written = written t.read := by
  rw [Tape.written, written, bounds_eq_extent]
  rfl

theorem report_eq (c : Configuration) (entries : List TraceEntry) :
    m.report c entries = report m c.steps c.plain entries := by
  rw [Machine.report, written_eq]
  rfl

theorem window_eq (c : Configuration) : c.window = c.plain.window := by
  rw [Configuration.window, window, bounds_eq_extent]
  rfl

theorem limitExceeded_eq (limit : Nat) (c : Configuration) :
    m.limitExceeded limit c = ⟨limit, m.nameOf c.plain.state, c.plain.head⟩ := rfl

theorem picture?_eq (c : Configuration) : m.picture? c = c.plain.picture? m := by
  rw [Machine.picture?, picture?, Configuration.indentation, Configuration.row, window_eq]
  rfl

def seen (m : Machine) (c : Configuration) : Snapshot :=
  ⟨c.steps, m.nameOf c.state, c.head, m.picture? c⟩

theorem seen_eq (c : Configuration) : seen m c = snapshot m c.plain c.steps := by
  rw [seen, snapshot, picture?_eq]
  rfl

/-! ## Runs -/

theorem steps_advance_start (valid : m.Valid) (n : Nat) (row : List Symbol) :
    (m.advance n (m.start row)).steps = (path m n (start m row)).length := by
  rw [steps_advance, ← plain_start, length_path valid]
  exact Nat.zero_add _

theorem run_eq (valid : m.Valid) (row : List Symbol) (fuel : Nat) :
    m.run row fuel = run m row fuel := by
  rw [Machine.run_eq, run, isHalted_eq valid, report_eq, steps_advance_start valid,
    plain_advance valid, plain_start]
  cases rule? m (advance m fuel (start m row)) <;> rfl

theorem allowance_start (limit : Option Nat) (fuel : Nat) :
    allowance limit fuel (m.start row) = bound limit fuel := by
  cases limit <;> rfl

theorem traceOf_eq (valid : m.Valid) (n : Nat) (row : List Symbol) :
    m.traceOf (m.path n (m.start row)) = trace m (path m n (start m row)) := by
  rw [traceOf, trace, map_path valid _ (fun p => traceEntry m p.1.1 p.1.2 p.2) fun _ _ => rfl,
    plain_start]
  rfl

theorem runWith_eq (valid : m.Valid) (options : RunOptions) (row : List Symbol) (fuel : Nat) :
    m.runWith options row fuel = runWith m options row fuel := by
  rw [Machine.runWith_eq, runWith, allowance_start]
  simp only [isHalted_eq valid, report_eq, limitExceeded_eq, steps_advance_start valid,
    plain_advance valid, plain_start, traceOf_eq valid]
  cases rule? m (advance m (bound options.stepLimit fuel) (start m row)) <;> rfl

theorem observe_eq (valid : m.Valid) (options : RunOptions) (row : List Symbol) (fuel : Nat) :
    m.observe options (seen m) row fuel = observe m options row fuel := by
  rw [Machine.observe_eq, observe, allowance_start]
  simp only [seen_eq, steps_advance_start valid, plain_advance valid, plain_start]
  rw [map_path valid _ (fun p => snapshot m p.1.1 p.2) fun _ _ => rfl, plain_start]
  rfl

/-- Whatever is reported and observed of a run is a function of the textbook run, and so the same
for all words that leave the same symbols on a tape. -/
theorem simulates_textbook {text : String} (parsed : Machine.ofText text = .ok m)
    (row : List Symbol) :
    (∀ n, let c := m.stepped^[n] (m.start row)
      c.plain = advance m n (start m row) ∧
        c.state < m.states.size ∧
        c.steps = (path m n (start m row)).length ∧
        (m.step? c).map (·.1) = rule? m (advance m n (start m row)) ∧
        (rule? m (advance m n (start m row)) = none →
          ∀ k, m.stepped^[n + k] (m.start row) = c ∧
            m.step? (m.stepped^[n + k] (m.start row)) = none)) ∧
    (∀ fuel, m.run row fuel = run m row fuel) ∧
    (∀ options fuel, m.runWith options row fuel = runWith m options row fuel) ∧
    (∀ options fuel, m.observe options (seen m) row fuel = observe m options row fuel) ∧
    ∀ row', contents row' = contents row → ∀ options fuel,
      m.run row' fuel = m.run row fuel ∧
        m.runWith options row' fuel = m.runWith options row fuel ∧
        m.observe options (seen m) row' fuel = m.observe options (seen m) row fuel := by
  have valid := valid_ofText parsed
  refine ⟨?steps, run_eq valid row, fun options => runWith_eq valid options row,
    fun options => observe_eq valid options row, ?congruence⟩
  case steps =>
    intro n
    have applied (c : Configuration) : (m.step? c).map (·.1) = m.rule? c := by
      simp [step?, Function.comp_def]
    simp only [← advance_eq_iterate, applied]
    rw [← plain_rule? valid, plain_advance valid, plain_start]
    refine ⟨rfl, valid.state_lt valid.initial_lt, steps_advance_start valid n row, rfl,
      fun halts k => ?_⟩
    have halted : m.isHalted (m.advance n (m.start row)) = true := by
      rw [isHalted_eq valid, plain_advance valid, plain_start, halts]
      rfl
    rw [(advance_eq_of_le halted (Nat.le_add_right n k)).1]
    exact ⟨rfl, by simp [step?, isHalted_iff.1 halted]⟩
  case congruence =>
    intro row' same options fuel
    have started : start m row' = start m row := by rw [start, start, same]
    refine ⟨?_, ?_, ?_⟩
    · simp only [run_eq valid, run, started]
    · simp only [runWith_eq valid, runWith, started]
    · simp only [observe_eq valid, observe, started]

theorem simulates_textbook_trailing_blank : ∃ m,
    Machine.ofText "A, B\ninit A\nA:\n\t1, 0, >, B\n" = .ok m ∧
      (m.stepped^[1] (m.start ['1'])).plain = advance m 1 (start m ['1']) ∧
      ∀ fuel, m.run ['1', Symbol.blank] fuel = m.run ['1'] fuel := by
  have checked :
      (Machine.ofText "A, B\ninit A\nA:\n\t1, 0, >, B\n").toOption.isSome = true := by
    decide +kernel
  cases parsed : Machine.ofText "A, B\ninit A\nA:\n\t1, 0, >, B\n" with
  | error e => simp [parsed, Except.toOption] at checked
  | ok m =>
    have simulates := simulates_textbook parsed ['1']
    have same := simulates.2.2.2.2 ['1', Symbol.blank] (contents_append_blanks ['1'] 1)
    exact ⟨m, rfl, (simulates.1 1).1, fun fuel => (same ⟨none, false⟩ fuel).1⟩

end Textbook

end OneTape
