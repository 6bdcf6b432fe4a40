import Mathlib.Logic.Relation
import OneTape.Analysis

namespace OneTape.Machine

variable {m : Machine} {i j : Nat} {todo : List Nat} {seen : Std.TreeSet Nat}

def Leads (m : Machine) (i j : Nat) : Prop := j ∈ m.targets i

def Reads (m : Machine) (s : Symbol) : Prop :=
  ∃ q ∈ m.states.toList, ∃ r ∈ q.rules.toList, r.read = s

def Reaches (m : Machine) : Nat → Nat → Prop := Relation.ReflTransGen m.Leads

/-- The states that are left to look at are all that the states seen lead to beside themselves. -/
def Closed (m : Machine) (todo : List Nat) (seen : Std.TreeSet Nat) : Prop :=
  ∀ i ∈ seen, ∀ j, m.Leads i j → j ∈ seen ∨ j ∈ todo

theorem Closed.exits (closed : m.Closed todo seen) (inside : i ∈ seen) (reaches : m.Reaches i j) :
    j ∈ seen ∨ ∃ k ∈ todo, m.Reaches k j := by
  induction reaches with
  | refl => exact .inl inside
  | tail _ leads ih =>
    rcases ih with inside | ⟨k, listed, reaches⟩
    · rcases closed _ inside _ leads with inside | listed
      · exact .inl inside
      · exact .inr ⟨_, listed, .refl⟩
    · exact .inr ⟨k, listed, reaches.tail leads⟩

theorem Closed.skip (closed : m.Closed (i :: todo) seen) (old : i ∈ seen) : m.Closed todo seen := by
  intro k inside l leads
  rcases closed k inside l leads with inside | listed
  · exact .inl inside
  · rcases List.mem_cons.1 listed with rfl | listed
    · exact .inl old
    · exact .inr listed

theorem mem_insert_iff : j ∈ seen.insert i ↔ j = i ∨ j ∈ seen := by
  rw [Std.TreeSet.mem_insert, Std.LawfulEqCmp.compare_eq_iff_eq, eq_comm]

theorem Closed.visit (closed : m.Closed (i :: todo) seen) :
    m.Closed (m.targets i ++ todo) (seen.insert i) := by
  intro k inside l leads
  rw [mem_insert_iff, List.mem_append]
  rcases mem_insert_iff.1 inside with rfl | inside
  · exact .inr (.inl leads)
  · rcases closed k inside l leads with inside | listed
    · exact .inl (.inr inside)
    · rcases List.mem_cons.1 listed with rfl | listed
      · exact .inl (.inl rfl)
      · exact .inr (.inr listed)

theorem mem_reachFrom_iff (closed : m.Closed todo seen) :
    j ∈ m.reachFrom todo seen ↔ j ∈ seen ∨ ∃ i ∈ todo, m.Reaches i j := by
  induction todo, seen using reachFrom.induct m with
  | case1 seen => simp [reachFrom]
  | case2 i todo seen old ih =>
    rw [reachFrom, if_pos old, ih (closed.skip old)]
    constructor
    · rintro (inside | ⟨k, listed, reaches⟩)
      · exact .inl inside
      · exact .inr ⟨k, List.mem_cons_of_mem i listed, reaches⟩
    · rintro (inside | ⟨k, listed, reaches⟩)
      · exact .inl inside
      · rcases List.mem_cons.1 listed with rfl | listed
        · exact (closed.skip old).exits old reaches
        · exact .inr ⟨k, listed, reaches⟩
  | case3 i todo seen new ih =>
    rw [reachFrom, if_neg new, ih closed.visit, mem_insert_iff]
    constructor
    · rintro ((rfl | inside) | ⟨k, listed, reaches⟩)
      · exact .inr ⟨j, List.mem_cons_self, .refl⟩
      · exact .inl inside
      · rcases List.mem_append.1 listed with target | listed
        · exact .inr ⟨i, List.mem_cons_self, .head target reaches⟩
        · exact .inr ⟨k, List.mem_cons_of_mem i listed, reaches⟩
    · rintro (inside | ⟨k, listed, reaches⟩)
      · exact .inl (.inr inside)
      · rcases List.mem_cons.1 listed with rfl | listed
        · rcases reaches.cases_head with rfl | ⟨l, leads, reaches⟩
          · exact .inl (.inl rfl)
          · exact .inr ⟨l, List.mem_append_left todo leads, reaches⟩
        · exact .inr ⟨k, List.mem_append_right _ listed, reaches⟩

theorem mem_reachable_iff : j ∈ m.reachable ↔ m.Reaches m.initial j := by
  have closed : m.Closed [m.initial] ∅ := fun i inside => absurd inside Std.TreeSet.not_mem_emptyc
  rw [reachable, mem_reachFrom_iff closed]
  simp

theorem mem_readSymbols_iff {s : Symbol} : s ∈ m.readSymbols ↔ m.Reads s := by
  rw [readSymbols, Std.TreeSet.mem_ofList, List.contains_iff_mem, List.mem_flatMap]
  exact exists_congr fun q => and_congr_right fun _ => List.mem_map

end OneTape.Machine
