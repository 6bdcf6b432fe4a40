import Mathlib.Data.List.Nodup
import OneTape.Machine

namespace OneTape.State

/-- The index of the state agrees with a linear search of its rules. -/
def Indexed (q : State) : Prop :=
  ∀ s, q.index[s]? = q.rules.toList.findIdx? (·.read = s)

theorem indexed_ofName (name : String) : (ofName name).Indexed := by
  intro s
  simp [ofName]

def Admits (q : State) (r : Rule) : Prop := ∀ p ∈ q.rules.toList, p.read ≠ r.read

theorem Indexed.index_eq_none_iff {q : State} (indexed : q.Indexed) (r : Rule) :
    q.index[r.read]? = none ↔ q.Admits r := by
  rw [indexed, List.findIdx?_eq_none_iff]
  simp [Admits]

theorem Indexed.push_eq_ok_iff {q q' : State} (indexed : q.Indexed) (r : Rule) :
    q.push r = .ok q' ↔ q.Admits r ∧
      q' = { q with rules := q.rules.push r, index := q.index.insert r.read q.rules.size } := by
  rw [← indexed.index_eq_none_iff]
  unfold push
  cases found : q.index[r.read]? with
  | none => simp [eq_comm]
  | some i => simp

theorem Indexed.push {q q' : State} {r : Rule} (indexed : q.Indexed) (pushed : q.push r = .ok q') :
    q'.Indexed := by
  obtain ⟨admits, rfl⟩ := (indexed.push_eq_ok_iff r).1 pushed
  intro s
  have none_before : q.rules.toList.findIdx? (·.read = r.read) = none := by
    rw [← indexed, indexed.index_eq_none_iff]
    exact admits
  rw [Std.TreeMap.getElem?_insert, Array.toList_push, List.findIdx?_append, indexed s]
  by_cases same : r.read = s
  · subst same
    simp [none_before]
  · have differ : compare r.read s ≠ .eq := fun h => same (Std.LawfulEqCmp.eq_of_compare h)
    simp [same, differ]

theorem Indexed.rule?_eq_find? {q : State} (indexed : q.Indexed) (s : Symbol) :
    q.rule? s = q.rules.toList.find? (·.read = s) := by
  rw [rule?, indexed]
  cases found : q.rules.toList.findIdx? (·.read = s) with
  | none =>
    rw [List.findIdx?_eq_none_iff] at found
    symm
    simpa using found
  | some i =>
    obtain ⟨bound, holds, before⟩ := List.findIdx?_eq_some_iff_getElem.1 found
    have first : q.rules.toList.find? (·.read = s) = some q.rules.toList[i] :=
      List.find?_eq_some_iff_getElem.2
        ⟨holds, i, bound, rfl, fun j hj => by simpa using before j hj⟩
    have stored : q.rules[i]? = some q.rules.toList[i] := by simp
    rw [first, Option.bind_some, stored]

theorem find?_read_eq_some_iff {rules : List Rule} {s : Symbol} {r : Rule}
    (distinct : (rules.map Rule.read).Nodup) :
    rules.find? (·.read = s) = some r ↔ r ∈ rules ∧ r.read = s := by
  constructor
  · intro found
    exact ⟨List.mem_of_find?_eq_some found, by simpa using List.find?_some found⟩
  · rintro ⟨listed, rfl⟩
    obtain ⟨p, found⟩ : ∃ p, rules.find? (·.read = r.read) = some p :=
      Option.isSome_iff_exists.1 (List.find?_isSome.2 ⟨r, listed, decide_eq_true rfl⟩)
    -- The rule that is found reads the same symbol, so it is this one.
    have same : p.read = r.read := by simpa using List.find?_some found
    rw [found, List.inj_on_of_nodup_map distinct (List.mem_of_find?_eq_some found) listed same]

/-! ## Rules and index in step -/

variable {p q q' : State} {r : Rule} {s : Symbol} {i : Nat}

/-- The index is right, and no two rules read the same symbol. -/
structure InStep (q : State) : Prop where
  indexed : q.Indexed
  distinct : (q.rules.toList.map Rule.read).Nodup

theorem inStep_ofName (name : String) : (ofName name).InStep where
  indexed := indexed_ofName name
  distinct := by simp [ofName]

theorem InStep.push (inStep : q.InStep) (pushed : q.push r = .ok q') : q'.InStep := by
  refine ⟨inStep.indexed.push pushed, ?_⟩
  obtain ⟨admits, rfl⟩ := (inStep.indexed.push_eq_ok_iff r).1 pushed
  have new : r.read ∉ q.rules.toList.map Rule.read := by
    simpa [Admits] using admits
  rw [Array.toList_push, List.map_append, List.map_singleton, ← List.concat_eq_append,
    List.nodup_concat]
  exact ⟨new, inStep.distinct⟩

theorem InStep.index_eq_some_iff (inStep : q.InStep) :
    q.index[s]? = some i ↔ ∃ r, q.rules[i]? = some r ∧ r.read = s := by
  rw [inStep.indexed, List.findIdx?_eq_some_iff_getElem]
  constructor
  · rintro ⟨bound, reads, -⟩
    exact ⟨q.rules.toList[i], by simp, of_decide_eq_true reads⟩
  · rintro ⟨r, found, rfl⟩
    obtain ⟨bound, rfl⟩ := Array.getElem?_eq_some_iff.1 found
    -- The rules read different symbols, so the first that reads the symbol is the only one.
    refine ⟨bound, by simp, fun j before => ?_⟩
    have differ := List.pairwise_iff_getElem.1 (List.pairwise_map.1 inStep.distinct) j i
      (Nat.lt_trans before bound) bound before
    simpa using differ

theorem InStep.rule?_eq_some_iff (inStep : q.InStep) :
    q.rule? s = some r ↔ r ∈ q.rules.toList ∧ r.read = s := by
  rw [inStep.indexed.rule?_eq_find?]
  exact find?_read_eq_some_iff inStep.distinct

theorem InStep.rule?_eq_none_iff (inStep : q.InStep) :
    q.rule? s = none ↔ ∀ r ∈ q.rules.toList, r.read ≠ s := by
  rw [inStep.indexed.rule?_eq_find?, List.find?_eq_none]
  simp

theorem InStep.push_eq_error_iff (inStep : q.InStep) :
    q.push r = .error i ↔ ∃ p, q.rules[i]? = some p ∧ p.read = r.read := by
  rw [← inStep.index_eq_some_iff, State.push]
  cases q.index[r.read]? <;> simp

theorem InStep.rule?_congr (left : p.InStep) (right : q.InStep)
    (same : ∀ r, r ∈ p.rules.toList ↔ r ∈ q.rules.toList) (s : Symbol) : p.rule? s = q.rule? s := by
  ext r
  rw [left.rule?_eq_some_iff, right.rule?_eq_some_iff, same]

end OneTape.State
