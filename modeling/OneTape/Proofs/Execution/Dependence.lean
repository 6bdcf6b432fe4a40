import OneTape.Proofs.Execution.Refinement
import OneTape.Proofs.Execution.StepLimit

namespace OneTape

open Textbook (contents)

/-- Configurations of two runs, on the rows `u` and `v`. They differ only where the rows do, and
there each tape has kept the symbol of its own row. -/
structure Configuration.Parallel (u v : List Symbol) (c d : Configuration) : Prop where
  state : d.state = c.state
  head : d.head = c.head
  steps : d.steps = c.steps
  shared : ∀ o, contents u o = contents v o → d.tape.read o = c.tape.read o
  own : ∀ o, contents u o ≠ contents v o →
    c.tape.read o = contents u o ∧ d.tape.read o = contents v o

namespace Machine

variable {m : Machine} {u v : List Symbol} {c d : Configuration} {n k : Nat}

theorem head_advance_le : (m.advance k c).head ≤ c.head + k := by
  induction k generalizing c with
  | zero => simp [advance]
  | succ k ih =>
    cases applies : m.rule? c with
    | none =>
      rw [advance_succ_none applies]
      omega
    | some r =>
      have moved := head_apply_le c r
      have rest := ih (c := c.apply r)
      rw [advance_succ_some applies]
      omega

theorem parallel_start (m : Machine) (u v : List Symbol) :
    (m.start u).Parallel u v (m.start v) := by
  have read (row : List Symbol) : (m.start row).tape.read = contents row :=
    congrArg Textbook.cells Textbook.plain_start
  refine ⟨rfl, rfl, rfl, fun o same => ?_, fun o _ => ?_⟩
  · rw [read, read, same]
  · rw [read, read]
    exact ⟨rfl, rfl⟩

theorem rule?_parallel (parallel : c.Parallel u v d) (same : contents u c.head = contents v c.head) :
    m.rule? d = m.rule? c := by
  have symbol : d.symbol = c.symbol := by
    rw [Configuration.symbol, parallel.head, parallel.shared _ same, Configuration.symbol]
  rw [rule?, parallel.state, symbol, rule?]

theorem isHalted_parallel (parallel : c.Parallel u v d)
    (same : contents u c.head = contents v c.head) : m.isHalted d = m.isHalted c := by
  rw [isHalted, rule?_parallel parallel same, isHalted]

theorem parallel_apply (parallel : c.Parallel u v d) (same : contents u c.head = contents v c.head)
    (r : Rule) : (c.apply r).Parallel u v (d.apply r) := by
  have read (c : Configuration) (o : Int) :
      (c.apply r).tape.read o = if o = c.head then r.write else c.tape.read o :=
    c.tape.read_write c.head o r.write
  refine ⟨rfl, ?head, ?steps, fun o agreed => ?shared, fun o differs => ?own⟩
  case head =>
    change d.head + _ = c.head + _
    rw [parallel.head]
  case steps => rw [apply_steps, apply_steps, parallel.steps]
  case shared => rw [read, read, parallel.head, parallel.shared o agreed]
  case own =>
    have elsewhere : o ≠ c.head := by
      rintro rfl
      exact differs same
    rw [read, read, parallel.head, if_neg elsewhere, if_neg elsewhere]
    exact parallel.own o differs

theorem parallel_run {bound : Int} (near : ∀ o < bound, contents u o = contents v o)
    (parallel : c.Parallel u v d) (short : c.head + k ≤ bound) :
    (m.advance k c).Parallel u v (m.advance k d) ∧
      List.Forall₂ (fun p q => p.1.Parallel u v q.1 ∧ q.2 = p.2) (m.path k c) (m.path k d) := by
  induction k generalizing c d with
  | zero => exact ⟨parallel, .nil⟩
  | succ k ih =>
    have same : contents u c.head = contents v c.head := near c.head (by omega)
    have rules := rule?_parallel (m := m) parallel same
    cases applies : m.rule? c with
    | none =>
      rw [applies] at rules
      rw [advance_succ_none applies, advance_succ_none rules, path_succ_none applies,
        path_succ_none rules]
      exact ⟨parallel, .nil⟩
    | some r =>
      rw [applies] at rules
      have moved := head_apply_le c r
      obtain ⟨last, steps⟩ := ih (parallel_apply parallel same r) (by omega)
      rw [advance_succ_some applies, advance_succ_some rules, path_succ_some applies,
        path_succ_some rules]
      exact ⟨last, .cons ⟨parallel, rfl⟩ steps⟩

theorem map_path_parallel {β : Type} {view : Configuration × Rule → β}
    {xs ys : List (Configuration × Rule)}
    (steps : List.Forall₂ (fun p q => p.1.Parallel u v q.1 ∧ q.2 = p.2) xs ys)
    (seen : ∀ c d r, c.Parallel u v d → view (d, r) = view (c, r)) : ys.map view = xs.map view := by
  induction steps with
  | nil => rfl
  | @cons p q _ _ related _ ih =>
    obtain ⟨c, r⟩ := p
    obtain ⟨d, s⟩ := q
    obtain ⟨parallel, rfl⟩ := related
    rw [List.map_cons, List.map_cons, seen c d s parallel, ih]

theorem traceEntry_parallel (parallel : c.Parallel u v d) (r : Rule) :
    m.traceEntry d r = m.traceEntry c r := by
  rw [traceEntry, parallel.steps, parallel.state, parallel.head, traceEntry]

/-! ## Inputs with a common beginning -/

theorem contents_eq_of_lt (agree : ∀ i < n, u[i]?.getD Symbol.blank = v[i]?.getD Symbol.blank) :
    ∀ o < (n : Int), contents u o = contents v o := by
  intro o before
  cases o with
  | ofNat i => exact agree i (Int.ofNat_lt.1 before)
  | negSucc i => rfl

theorem parallel_runs (m : Machine)
    (agree : ∀ i < n, u[i]?.getD Symbol.blank = v[i]?.getD Symbol.blank) (le : k ≤ n) :
    (m.advance k (m.start u)).Parallel u v (m.advance k (m.start v)) ∧
      List.Forall₂ (fun p q => p.1.Parallel u v q.1 ∧ q.2 = p.2)
        (m.path k (m.start u)) (m.path k (m.start v)) := by
  refine parallel_run (contents_eq_of_lt agree) (parallel_start m u v) ?_
  change (0 : Int) + k ≤ n
  omega

theorem isHalted_parallel_runs (m : Machine)
    (agree : ∀ i < n, u[i]?.getD Symbol.blank = v[i]?.getD Symbol.blank) (less : k < n) :
    m.isHalted (m.advance k (m.start v)) = m.isHalted (m.advance k (m.start u)) := by
  refine isHalted_parallel (parallel_runs m agree (Nat.le_of_lt less)).1 ?_
  have reached : (m.advance k (m.start u)).head ≤ 0 + k := head_advance_le
  exact contents_eq_of_lt agree _ (by omega)

theorem isSome_after?_iff : (m.after? k c).isSome ↔ (m.path k c).length = k := by
  simp [Option.isSome_iff_exists, after?_eq_some_iff]

theorem exists_haltsAfter_iff {row : List Symbol} : (∃ c, m.HaltsAfter row k c) ↔
    (m.path k (m.start row)).length = k ∧ m.isHalted (m.advance k (m.start row)) = true := by
  simp [haltsAfter_iff]

/-- What `n` steps do depends on the first `n` cells of the input only. -/
theorem beginning_decides (m : Machine)
    (agree : ∀ i < n, u[i]?.getD Symbol.blank = v[i]?.getD Symbol.blank) :
    (∀ k ≤ n, ((m.after? k (m.start u)).isSome ↔ (m.after? k (m.start v)).isSome) ∧
      ∀ c d, m.after? k (m.start u) = some c → m.after? k (m.start v) = some d →
        c.Parallel u v d ∧
          (m.path k (m.start v)).map Prod.snd = (m.path k (m.start u)).map Prod.snd) ∧
    ∀ k < n, ((∃ c, m.HaltsAfter u k c) ↔ ∃ d, m.HaltsAfter v k d) ∧
      ∀ c d, m.HaltsAfter u k c → m.HaltsAfter v k d → c.Parallel u v d ∧
        ∀ limit fuel, (∀ l ∈ limit, k ≤ l) → k ≤ fuel → ∃ r r' : Report,
          m.runWith ⟨limit, true⟩ u fuel = .halted r ∧
          m.runWith ⟨limit, true⟩ v fuel = .halted r' ∧
          r'.finalStateId = r.finalStateId ∧ r'.finalState = r.finalState ∧
          r'.head = r.head ∧ r'.steps = r.steps ∧ r'.trace = r.trace := by
  constructor
  · intro k le
    obtain ⟨parallel, steps⟩ := parallel_runs m agree le
    refine ⟨?_, fun c d reached reached' => ?_⟩
    · rw [isSome_after?_iff, isSome_after?_iff, steps.length_eq]
    · obtain ⟨-, rfl⟩ := after?_eq_some_iff.1 reached
      obtain ⟨-, rfl⟩ := after?_eq_some_iff.1 reached'
      exact ⟨parallel, map_path_parallel steps fun _ _ _ _ => rfl⟩
  · intro k less
    obtain ⟨parallel, steps⟩ := parallel_runs m agree (Nat.le_of_lt less)
    refine ⟨?_, fun c d halts halts' => ?_⟩
    · rw [exists_haltsAfter_iff, exists_haltsAfter_iff, steps.length_eq,
        isHalted_parallel_runs m agree less]
    · obtain ⟨-, rfl, -⟩ := haltsAfter_iff.1 halts
      obtain ⟨-, rfl, -⟩ := haltsAfter_iff.1 halts'
      refine ⟨parallel, fun limit fuel allowed enough => ⟨_, _, halts.runWith allowed enough,
        halts'.runWith allowed enough, parallel.state, congrArg m.nameOf parallel.state,
        parallel.head, parallel.steps, ?_⟩⟩
      exact map_path_parallel steps fun _ _ r related => traceEntry_parallel related r

theorem beginning_decides_two : ∃ m,
    Machine.ofText "A, B\ninit A\nA:\n\t1, 0, >, B\n" = .ok m ∧
      (∀ i < 2, (['1', '1', 'x'] : List Symbol)[i]?.getD Symbol.blank =
        (['1', '1'] : List Symbol)[i]?.getD Symbol.blank) ∧
      ∃ c d, m.HaltsAfter ['1', '1', 'x'] 1 c ∧ m.HaltsAfter ['1', '1'] 1 d ∧ d.state = c.state ∧
        d.tape.read 0 = c.tape.read 0 ∧ c.tape.read 2 = 'x' ∧ d.tape.read 2 = Symbol.blank ∧
        ∃ r r' : Report, m.runWith ⟨some 1, true⟩ ['1', '1', 'x'] 1 = .halted r ∧
          m.runWith ⟨some 1, true⟩ ['1', '1'] 1 = .halted r' ∧ r'.trace = r.trace := by
  have checked : ((Machine.ofText "A, B\ninit A\nA:\n\t1, 0, >, B\n").toOption.any fun m =>
      (m.path 1 (m.start ['1', '1', 'x'])).length == 1 &&
        m.isHalted (m.advance 1 (m.start ['1', '1', 'x']))) = true := by
    decide +kernel
  cases parsed : Machine.ofText "A, B\ninit A\nA:\n\t1, 0, >, B\n" with
  | error e => simp [parsed, Except.toOption] at checked
  | ok m =>
    simp only [parsed, Except.toOption, Option.any_some, Bool.and_eq_true, beq_iff_eq] at checked
    have agree : ∀ i < 2, (['1', '1', 'x'] : List Symbol)[i]?.getD Symbol.blank =
        (['1', '1'] : List Symbol)[i]?.getD Symbol.blank := by decide
    obtain ⟨-, halting⟩ := beginning_decides m agree
    obtain ⟨both, same⟩ := halting 1 (by omega)
    have halts : m.HaltsAfter ['1', '1', 'x'] 1 (m.advance 1 (m.start ['1', '1', 'x'])) :=
      haltsAfter_iff.2 ⟨checked.1, rfl, checked.2⟩
    obtain ⟨d, halts'⟩ := both.1 ⟨_, halts⟩
    obtain ⟨parallel, traced⟩ := same _ d halts halts'
    have allowed : ∀ l ∈ some 1, 1 ≤ l := by
      rintro _ ⟨⟩
      exact Nat.le_refl 1
    obtain ⟨r, r', returned, returned', -, -, -, -, trace⟩ := traced (some 1) 1 allowed (by omega)
    have kept := parallel.own 2 (by decide)
    exact ⟨m, rfl, agree, _, d, halts, halts', parallel.state, parallel.shared 0 (by decide),
      kept.1, kept.2, r, r', returned, returned', trace⟩

end Machine

end OneTape
