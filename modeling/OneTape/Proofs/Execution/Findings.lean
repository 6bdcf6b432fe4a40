import OneTape.Proofs.Execution.Observing
import OneTape.Proofs.Machine.Renaming

namespace OneTape

def Report.stateNames (r : Report) : List String :=
  r.finalState :: r.trace.flatMap fun e => [e.state, e.next]

def Outcome.stateNames : Outcome → List String
  | halted r => r.stateNames
  | limitExceeded e => [e.state]
  | unfinished => []

namespace Machine

variable {m : Machine} {row : List Symbol} {c : Configuration} {name : String}
variable {options : RunOptions} {fuel : Nat}

theorem mem_stateNames_report (visited : m.Visits row c) (steps : List (Configuration × Rule))
    (passed : ∀ p ∈ steps, m.rule? p.1 = some p.2 ∧ m.Visits row p.1)
    (named : name ∈ (m.report c (m.traceOf steps)).stateNames) :
    ∃ d, m.Visits row d ∧ m.nameOf d.state = name := by
  rcases List.mem_cons.1 named with rfl | named
  · exact ⟨c, visited, rfl⟩
  · simp only [report, traceOf, List.flatMap_map, List.mem_flatMap] at named
    obtain ⟨⟨d, r⟩, member, named⟩ := named
    obtain ⟨applies, there⟩ := passed _ member
    -- The state that a rule leads to is that of the configuration behind it.
    rcases List.mem_pair.1 named with rfl | rfl
    · exact ⟨d, there, rfl⟩
    · exact ⟨d.apply r, there.apply applies, rfl⟩

theorem mem_stateNames_run {r : Report} (returned : m.run row fuel = some r)
    (named : name ∈ r.stateNames) : ∃ c, m.Visits row c ∧ m.nameOf c.state = name := by
  obtain ⟨k, c, halts, -, rfl⟩ := run_eq_some_iff.1 returned
  exact mem_stateNames_report ⟨k, halts.1⟩ [] (by simp) named

theorem mem_stateNames_runWith (named : name ∈ (m.runWith options row fuel).stateNames) :
    ∃ c, m.Visits row c ∧ m.nameOf c.state = name := by
  rw [runWith_eq] at named
  generalize allowance options.stepLimit fuel (m.start row) = n at named
  have visited := Visits.advance m row n
  dsimp only at named
  split at named
  · cases recorded : options.recordTrace with
    | true =>
      rw [recorded] at named
      exact mem_stateNames_report visited _ (Visits.advance m row 0).of_mem_path named
    | false =>
      rw [recorded] at named
      exact mem_stateNames_report visited [] (by simp) named
  · split at named
    · exact ⟨_, visited, (List.mem_singleton.1 named).symm⟩
    · exact absurd named List.not_mem_nil

/-! ## States within reach -/

theorem leads_of_rule? {r : Rule} (applies : m.rule? c = some r) : m.Leads c.state r.next := by
  obtain ⟨q, stored, listed⟩ := listed_of_rule? applies
  rw [Leads, targets, stored]
  exact List.mem_map_of_mem listed

theorem Visits.reaches (visited : m.Visits row c) : m.Reaches m.initial c.state :=
  visited.induction (P := fun c => m.Reaches m.initial c.state) .refl
    fun _ _ applies reaches => reaches.tail (leads_of_rule? applies)

theorem mem_analyze_iff {w : Warning} :
    w ∈ m.analyze ↔ m.unreachableWarning? = some w ∨ m.acceptingWarning? = some w := by
  rw [analyze, List.mem_append, Option.mem_toList, Option.mem_toList]

theorem unreachableWarning?_eq_some_iff {w : Warning} : m.unreachableWarning? = some w ↔
    m.unreachableNames ≠ [] ∧ w = .unreachableStates m.unreachableNames := by
  unfold unreachableWarning?
  cases m.unreachableNames with
  | nil => simp
  | cons first rest => simp [eq_comm]

theorem acceptingWarning?_eq_some_iff {w : Warning} : m.acceptingWarning? = some w ↔
    m.accepting = [] ∧ w = .noAcceptingStates ∨
      m.accepting ≠ [] ∧ (∀ i ∈ m.accepting, i ∉ m.reachable) ∧ w = .neverAccepts := by
  have some_reached : m.accepting.any m.reachable.contains = true ↔
      ¬ ∀ i ∈ m.accepting, i ∉ m.reachable := by
    simp [List.any_eq_true]
  unfold acceptingWarning?
  by_cases none_declared : m.accepting = []
  · simp [none_declared, eq_comm]
  · rw [if_neg (by simpa using none_declared)]
    by_cases out : ∀ i ∈ m.accepting, i ∉ m.reachable
    · rw [if_neg fun reached => some_reached.1 reached out, Option.some.injEq,
        or_iff_right fun empty => none_declared empty.1, and_iff_right none_declared,
        and_iff_right out, eq_comm]
    · rw [if_pos (some_reached.2 out), or_iff_right fun empty => none_declared empty.1]
      constructor
      · intro found
        cases found
      · intro never
        exact absurd never.2.1 out

theorem unreachableStates_mem_analyze_iff {names : List String} :
    .unreachableStates names ∈ m.analyze ↔ m.unreachableNames ≠ [] ∧ names = m.unreachableNames := by
  simp [mem_analyze_iff, unreachableWarning?_eq_some_iff, acceptingWarning?_eq_some_iff]

theorem Consistent.nameOf_notMem_unreachableNames (consistent : m.Consistent)
    (visited : m.Visits row c) : m.nameOf c.state ∉ m.unreachableNames := by
  intro listed
  obtain ⟨i, p, stored, same, out⟩ := mem_unreachableNames_iff.1 listed
  obtain ⟨q, here⟩ := visited.exists_state consistent.valid
  have name : m.nameOf c.state = q.name := by simp [nameOf, here]
  obtain rfl := consistent.eq_of_name stored here (same.trans name)
  exact out (mem_reachable_iff.2 visited.reaches)

theorem notMem_accepting_of_warning
    (warned : .noAcceptingStates ∈ m.analyze ∨ .neverAccepts ∈ m.analyze)
    (visited : m.Visits row c) : c.state ∉ m.accepting := by
  intro listed
  have declared : m.accepting ≠ [] := List.ne_nil_of_mem listed
  have out : ∀ i ∈ m.accepting, i ∉ m.reachable := by
    simpa [mem_analyze_iff, unreachableWarning?_eq_some_iff, acceptingWarning?_eq_some_iff,
      declared] using warned
  exact out _ listed (mem_reachable_iff.2 visited.reaches)

theorem Consistent.isAcceptingId_eq_false (consistent : m.Consistent)
    (warned : .noAcceptingStates ∈ m.analyze ∨ .neverAccepts ∈ m.analyze)
    (visited : m.Visits row c) : m.isAcceptingId c.state = false := by
  rw [← Bool.not_eq_true, consistent.isAcceptingId_iff]
  exact notMem_accepting_of_warning warned visited

theorem Consistent.isAccepting_nameOf (consistent : m.Consistent) (visited : m.Visits row c) :
    m.isAccepting (m.nameOf c.state) = m.isAcceptingId c.state := by
  obtain ⟨q, stored⟩ := visited.exists_state consistent.valid
  have named : m.nameOf c.state = q.name := by simp [nameOf, stored]
  rw [isAccepting, named, consistent.idOf?_name stored, Option.any_some]

theorem analysis_sound {text : String} (parsed : Machine.ofText text = .ok m)
    (row : List Symbol) :
    (∀ names, .unreachableStates names ∈ m.analyze → ∀ name ∈ names,
      (∀ c, m.Visits row c → ∃ q, m.state? c.state = some q ∧ q.name ≠ name) ∧
      (∀ fuel r, m.run row fuel = some r → name ∉ r.stateNames) ∧
      ∀ options fuel, name ∉ (m.runWith options row fuel).stateNames ∧
        name ∉ m.observe options (fun c => m.nameOf c.state) row fuel) ∧
    (.noAcceptingStates ∈ m.analyze ∨ .neverAccepts ∈ m.analyze →
      (∀ c, m.Visits row c → m.isAcceptingId c.state = false ∧
        m.isAccepting (m.nameOf c.state) = false) ∧
      (∀ k c, m.HaltsAfter row k c → ∃ r, ∀ fuel, k ≤ fuel →
        m.judge row fuel = some (r, .rejected)) ∧
      ∀ options fuel r, m.runWith options row fuel = .halted r → m.verdict r = .rejected) := by
  have consistent := consistent_ofText parsed
  constructor
  · intro names warned name listed
    rw [(unreachableStates_mem_analyze_iff.1 warned).2] at listed
    have unmet (c : Configuration) (visited : m.Visits row c) : m.nameOf c.state ≠ name :=
      fun same => consistent.nameOf_notMem_unreachableNames visited (same ▸ listed)
    refine ⟨fun c visited => ?_, fun fuel r returned named => ?_, fun options fuel => ⟨?_, ?_⟩⟩
    · obtain ⟨q, stored⟩ := visited.exists_state consistent.valid
      refine ⟨q, stored, ?_⟩
      simpa [nameOf, stored] using unmet c visited
    · obtain ⟨c, visited, same⟩ := mem_stateNames_run returned named
      exact unmet c visited same
    · intro named
      obtain ⟨c, visited, same⟩ := mem_stateNames_runWith named
      exact unmet c visited same
    · intro seen
      obtain ⟨c, visited, same⟩ := mem_observe seen
      exact unmet c visited same
  · intro warned
    have rejecting (c : Configuration) (visited : m.Visits row c) :
        m.isAcceptingId c.state = false := consistent.isAcceptingId_eq_false warned visited
    refine ⟨fun c visited => ⟨rejecting c visited, ?_⟩, fun k c halts => ?_,
      fun options fuel r halted => ?_⟩
    · rw [consistent.isAccepting_nameOf visited, rejecting c visited]
    · refine ⟨m.report c [], fun fuel enough => ?_⟩
      rw [halts.judge_eq, if_pos enough, rejecting c ⟨k, halts.1⟩]
      rfl
    · cases options
      obtain ⟨k, c, halts, -, -, rfl⟩ := runWith_eq_halted_iff.1 halted
      rw [closing, verdict_report, rejecting c ⟨k, halts.1⟩]
      rfl

theorem analysis_sound_two_findings : ∃ m,
    Machine.ofText "A, B, C\ninit A\naccept C\nA:\n\t1, 1, >, B\n" = .ok m ∧
      .unreachableStates m.unreachableNames ∈ m.analyze ∧ "C" ∈ m.unreachableNames ∧
      .neverAccepts ∈ m.analyze ∧
      (∀ options, "C" ∉ (m.runWith options ['1'] 1).stateNames) ∧
      ∃ r, m.judge ['1'] 1 = some (r, .rejected) := by
  have checked : ((Machine.ofText
      "A, B, C\ninit A\naccept C\nA:\n\t1, 1, >, B\n").toOption.any fun m =>
        m.initial == 0 && m.targets 0 == [1] && m.targets 1 == [] && m.accepting == [2] &&
          (m.state? 2).any (·.name = "C") && (m.path 1 (m.start ['1'])).length == 1 &&
            m.isHalted (m.advance 1 (m.start ['1']))) = true := by
    decide +kernel
  cases parsed : Machine.ofText "A, B, C\ninit A\naccept C\nA:\n\t1, 1, >, B\n" with
  | error e => simp [parsed, Except.toOption] at checked
  | ok m =>
    simp only [parsed, Except.toOption, Option.any_some, Bool.and_eq_true, beq_iff_eq,
      Option.any_eq_true, decide_eq_true_eq] at checked
    obtain ⟨⟨⟨⟨⟨⟨initial, first⟩, second⟩, accepting⟩, q, stored, name⟩, taken⟩, halted⟩ := checked
    have within (j : Nat) (reaches : m.Reaches m.initial j) : j ≤ 1 := by
      induction reaches with
      | refl => omega
      | @tail i j _ leads ih =>
        obtain rfl | rfl : i = 0 ∨ i = 1 := by omega
        · rw [Leads, first, List.mem_singleton] at leads
          omega
        · rw [Leads, second] at leads
          cases leads
    have out : 2 ∉ m.reachable := fun reached => by
      have := within 2 (mem_reachable_iff.1 reached)
      omega
    have listed : "C" ∈ m.unreachableNames := mem_unreachableNames_iff.2 ⟨2, q, stored, name, out⟩
    have warned : .unreachableStates m.unreachableNames ∈ m.analyze :=
      unreachableStates_mem_analyze_iff.2 ⟨List.ne_nil_of_mem listed, rfl⟩
    have never : .neverAccepts ∈ m.analyze :=
      mem_analyze_iff.2 (.inr (acceptingWarning?_eq_some_iff.2 (.inr (by simp [accepting, out]))))
    have halts : m.HaltsAfter ['1'] 1 (m.advance 1 (m.start ['1'])) :=
      haltsAfter_iff.2 ⟨taken, rfl, halted⟩
    obtain ⟨unmet, rejected⟩ := analysis_sound parsed ['1']
    obtain ⟨r, judged⟩ := (rejected (.inr never)).2.1 1 _ halts
    exact ⟨m, rfl, warned, listed, never,
      fun options => ((unmet _ warned "C" listed).2.2 options 1).1, r, judged 1 (Nat.le_refl 1)⟩

end Machine

end OneTape
