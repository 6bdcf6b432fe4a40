import Mathlib.Algebra.BigOperators.Fin
import Mathlib.Logic.Function.Iterate
import OneTape.Proofs.Machine.Renaming

/-!
Every turn uses up an entry of the list, and every rule makes an entry at most once, so that the
search ends.
-/

namespace OneTape.Machine

variable {m : Machine} {i : Nat} {todo : List Nat} {seen : Std.TreeSet Nat}

def turn (m : Machine) : List Nat × Std.TreeSet Nat → List Nat × Std.TreeSet Nat
  | ([], seen) => ([], seen)
  | (i :: todo, seen) =>
    if i ∈ seen then (todo, seen) else (m.targets i ++ todo, seen.insert i)

/-- The number of rules of states that were not seen. -/
def rulesAhead (m : Machine) (seen : Std.TreeSet Nat) : Nat :=
  ∑ i ∈ (Finset.range m.states.size).filter (· ∉ seen), (m.targets i).length

theorem rulesAhead_insert (new : i ∉ seen) :
    (m.targets i).length + m.rulesAhead (seen.insert i) = m.rulesAhead seen := by
  unfold rulesAhead
  by_cases inside : i < m.states.size
  · have member : i ∈ (Finset.range m.states.size).filter (· ∉ seen) := by
      simp [inside, new]
    have others : (Finset.range m.states.size).filter (· ∉ seen.insert i) =
        ((Finset.range m.states.size).filter (· ∉ seen)).erase i := by
      ext j
      simp only [Finset.mem_filter, Finset.mem_erase, mem_insert_iff]
      tauto
    rw [others, Finset.add_sum_erase _ (fun j => (m.targets j).length) member]
  · have same : (Finset.range m.states.size).filter (· ∉ seen.insert i) =
        (Finset.range m.states.size).filter (· ∉ seen) := by
      refine Finset.filter_congr fun j member => ?_
      have other : j ≠ i := by
        rintro rfl
        exact inside (Finset.mem_range.1 member)
      rw [mem_insert_iff, or_iff_right other]
    rw [same, targets_eq_nil inside, List.length_nil, Nat.zero_add]

theorem rulesAhead_empty :
    m.rulesAhead ∅ = (m.states.toList.map fun q => q.rules.size).sum := by
  have all : (Finset.range m.states.size).filter (· ∉ (∅ : Std.TreeSet Nat)) =
      Finset.range (m.states.toList.map fun q => q.rules.size).length := by
    simp
  rw [rulesAhead, all, Finset.sum_range, ← Fin.sum_univ_getElem]
  refine Finset.sum_congr rfl fun i _ => ?_
  have inside : i.1 < m.states.size := by simpa using i.isLt
  simp [targets, state?, inside]

theorem turn_old (old : i ∈ seen) : m.turn (i :: todo, seen) = (todo, seen) := if_pos old

theorem turn_new (new : i ∉ seen) :
    m.turn (i :: todo, seen) = (m.targets i ++ todo, seen.insert i) := if_neg new

/-- The number of entries of the list, with those that may still be made. -/
def pending (m : Machine) (p : List Nat × Std.TreeSet Nat) : Nat := p.1.length + m.rulesAhead p.2

theorem pending_turn : m.pending (m.turn (i :: todo, seen)) + 1 = m.pending (i :: todo, seen) := by
  by_cases old : i ∈ seen
  · simp only [turn_old old, pending, List.length_cons]
    omega
  · simp only [turn_new old, pending, List.length_append, List.length_cons,
      ← rulesAhead_insert old]
    omega

theorem reachFrom_turn (p : List Nat × Std.TreeSet Nat) :
    m.reachFrom (m.turn p).1 (m.turn p).2 = m.reachFrom p.1 p.2 := by
  obtain ⟨todo, seen⟩ := p
  cases todo with
  | nil => rfl
  | cons i todo =>
    dsimp only
    rw [reachFrom.eq_2]
    by_cases old : i ∈ seen
    · rw [turn_old old, if_pos old]
    · rw [turn_new old, if_neg old]

/-- The search is over after as many turns as there are entries made or to be made. -/
theorem iterate_turn {n : Nat} {p : List Nat × Std.TreeSet Nat} (enough : m.pending p ≤ n) :
    m.turn^[n] p = ([], m.reachFrom p.1 p.2) := by
  induction n generalizing p with
  | zero =>
    obtain ⟨todo, seen⟩ := p
    have none_pending : todo.length + m.rulesAhead seen ≤ 0 := enough
    obtain rfl : todo = [] := List.eq_nil_of_length_eq_zero (by omega)
    rw [reachFrom]
    rfl
  | succ n ih =>
    obtain ⟨todo, seen⟩ := p
    cases todo with
    | nil => rw [Function.iterate_fixed rfl, reachFrom]
    | cons i todo =>
      have fewer : m.pending (m.turn (i :: todo, seen)) + 1 = m.pending (i :: todo, seen) :=
        pending_turn
      rw [Function.iterate_succ_apply, ih (by omega), reachFrom_turn]

/-! ## Findings -/

open Classical in
noncomputable def expectedFindings (m : Machine) : List Warning :=
  let unreached := (List.range m.states.size).filter fun i => ¬ m.Reaches m.initial i
  (if unreached = [] then [] else [.unreachableStates (unreached.map m.nameOf)]) ++
    if m.accepting = [] then [.noAcceptingStates]
    else if ∃ i ∈ m.accepting, m.Reaches m.initial i then []
    else [.neverAccepts]

theorem unreachableNames_eq (m : Machine) : m.unreachableNames =
    ((List.range m.states.size).filter fun i => !m.reachable.contains i).map m.nameOf := by
  have numbers : List.range m.states.size = m.states.toList.zipIdx.map Prod.snd := by
    rw [List.zipIdx_map_snd, List.range_eq_range', Array.length_toList]
  rw [numbers, List.filter_map, List.map_map, unreachableNames]
  refine List.map_congr_left fun p member => ?_
  have stored : m.state? p.2 = some p.1 := by
    have listed := List.mem_zipIdx_iff_getElem?.1 (List.mem_of_mem_filter member)
    rwa [Array.getElem?_toList] at listed
  simp [nameOf, stored]

theorem contains_reachable_eq (m : Machine) (i : Nat) [Decidable (m.Reaches m.initial i)] :
    m.reachable.contains i = decide (m.Reaches m.initial i) := by
  rw [Bool.eq_iff_iff, ← Std.TreeSet.mem_iff_contains, mem_reachable_iff, decide_eq_true_iff]

theorem analyze_eq_expectedFindings (m : Machine) : m.analyze = m.expectedFindings := by
  classical
  have names : m.unreachableNames =
      ((List.range m.states.size).filter fun i => ¬ m.Reaches m.initial i).map m.nameOf := by
    rw [unreachableNames_eq]
    congr 2
    funext i
    rw [contains_reachable_eq, decide_not]
  have accepted : m.accepting.any m.reachable.contains =
      decide (∃ i ∈ m.accepting, m.Reaches m.initial i) := by
    rw [Bool.eq_iff_iff, List.any_eq_true, decide_eq_true_iff]
    simp only [← Std.TreeSet.mem_iff_contains, mem_reachable_iff]
  have first : m.unreachableWarning?.toList =
      if m.unreachableNames = [] then [] else [.unreachableStates m.unreachableNames] := by
    unfold unreachableWarning?
    cases m.unreachableNames <;> rfl
  have second : m.acceptingWarning?.toList =
      if m.accepting = [] then [.noAcceptingStates]
      else if ∃ i ∈ m.accepting, m.Reaches m.initial i then []
      else [.neverAccepts] := by
    unfold acceptingWarning?
    rw [accepted]
    by_cases none_declared : m.accepting = []
    · simp [none_declared]
    · by_cases reached : ∃ i ∈ m.accepting, m.Reaches m.initial i <;> simp [none_declared, reached]
  rw [analyze, first, second, names, expectedFindings]
  simp only [List.map_eq_nil_iff]

/-- The search ends within as many turns as there are rules, and one. The states that it has not
seen are those that no chain of rules leads to. -/
theorem analysis_exact {text : String} (parsed : Machine.ofText text = .ok m) :
    (∀ n, (m.states.toList.map fun q => q.rules.size).sum < n →
      m.turn^[n] ([m.initial], ∅) = ([], m.reachable)) ∧
    (∀ j, j ∈ m.reachable ↔ m.Reaches m.initial j) ∧
    (∀ j ∈ m.reachable, j < m.states.size) ∧
    m.analyze = m.expectedFindings := by
  have consistent := consistent_ofText parsed
  refine ⟨fun n enough => ?_, fun j => mem_reachable_iff, fun j reached => ?_,
    m.analyze_eq_expectedFindings⟩
  · have bound : m.pending ([m.initial], ∅) ≤ n := by
      rw [pending, rulesAhead_empty, List.length_singleton]
      omega
    exact iterate_turn bound
  · exact consistent.valid.reaches_lt consistent.valid.initial_lt (mem_reachable_iff.1 reached)

theorem analysis_exact_orphan : ∃ m,
    Machine.ofText "A, B, C\ninit A\naccept C\nA:\n\t1, 1, >, B\nB:\n\t1, 1, <, A\n" = .ok m ∧
      m.turn^[3] ([m.initial], ∅) = ([], m.reachable) ∧
      m.analyze = [.unreachableStates ["C"], .neverAccepts] ∧ m.analyze = m.expectedFindings := by
  have checked : ((Machine.ofText
      "A, B, C\ninit A\naccept C\nA:\n\t1, 1, >, B\nB:\n\t1, 1, <, A\n").toOption.any fun m =>
        let seen := (m.turn^[3] ([m.initial], ∅)).2
        (m.states.toList.map fun q => q.rules.size).sum == 2 &&
          ((List.range m.states.size).filter fun i => !seen.contains i).map m.nameOf == ["C"] &&
            !m.accepting.isEmpty && !m.accepting.any seen.contains) = true := by
    decide +kernel
  cases parsed : Machine.ofText
      "A, B, C\ninit A\naccept C\nA:\n\t1, 1, >, B\nB:\n\t1, 1, <, A\n" with
  | error e => simp [parsed, Except.toOption] at checked
  | ok m =>
    obtain ⟨ended, -, -, found⟩ := analysis_exact parsed
    simp only [parsed, Except.toOption, Option.any_some, Bool.and_eq_true, beq_iff_eq,
      Bool.not_eq_true'] at checked
    obtain ⟨⟨⟨rules, names⟩, declared⟩, unreached⟩ := checked
    have finished := ended 3 (by omega)
    rw [finished] at names unreached
    rw [← unreachableNames_eq] at names
    refine ⟨m, rfl, finished, ?_, found⟩
    simp [analyze, unreachableWarning?, acceptingWarning?, names, declared, unreached]

end OneTape.Machine
