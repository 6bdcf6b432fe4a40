import OneTape.Machine
import OneTape.Text.Quoted

namespace OneTape

inductive Warning where
  | unreachableStates (names : List String)
  | noAcceptingStates
  | neverAccepts
  | unhandledSymbols (symbols : List Symbol)
deriving DecidableEq, Repr

def Warning.message : Warning → String
  | unreachableStates names =>
    "Unreachable states detected: " ++ Text.quoteList (names.map Text.quoteString)
  | noAcceptingStates => "No accepting states declared"
  | neverAccepts => "No accepting state is reachable from the initial state"
  | unhandledSymbols symbols =>
    "Input contains symbols not read by any rule: " ++ Text.quoteList (symbols.map Text.quoteChar)

namespace Machine

def targets (m : Machine) (i : Nat) : List Nat :=
  ((m.state? i).map fun q => q.rules.toList.map Rule.next).getD []

def unseen (m : Machine) (seen : Std.TreeSet Nat) : Nat :=
  (List.range m.states.size).countP (!seen.contains ·)

theorem targets_eq_nil {m : Machine} {i : Nat} (h : ¬i < m.states.size) : m.targets i = [] := by
  simp [targets, state?, Nat.le_of_not_lt h]

theorem unseen_insert_eq {m : Machine} {i : Nat} (h : ¬i < m.states.size)
    (seen : Std.TreeSet Nat) : m.unseen (seen.insert i) = m.unseen seen := by
  apply List.countP_congr
  intro j hj
  have : i ≠ j := by have := List.mem_range.1 hj; omega
  simp [Std.TreeSet.contains_insert, this]

theorem unseen_insert_lt {m : Machine} {seen : Std.TreeSet Nat} {i : Nat}
    (h : i < m.states.size) (new : i ∉ seen) : m.unseen (seen.insert i) < m.unseen seen := by
  obtain ⟨before, after, split⟩ := List.append_of_mem (List.mem_range.2 h)
  have mono (l : List Nat) :
      l.countP (!(seen.insert i).contains ·) ≤ l.countP (!seen.contains ·) :=
    List.countP_mono_left fun j _ => by
      simp only [Std.TreeSet.contains_insert]
      cases seen.contains j <;> simp
  have head : (!(seen.insert i).contains i) = false := by
    rw [Std.TreeSet.contains_insert_self, Bool.not_true]
  have old : (!seen.contains i) = true := by
    rw [Bool.not_eq_true', ← Bool.not_eq_true]
    exact fun h => new (Std.TreeSet.mem_iff_contains.2 h)
  have before_le := mono before
  have after_le := mono after
  simp only [unseen, split, List.countP_append, List.countP_cons, head, old, ite_true]
  rw [if_neg Bool.false_ne_true]
  omega

/-- The states of `seen` and all that can be reached from those in the list. -/
def reachFrom (m : Machine) : List Nat → Std.TreeSet Nat → Std.TreeSet Nat
  | [], seen => seen
  | i :: todo, seen =>
    if i ∈ seen then m.reachFrom todo seen
    else m.reachFrom (m.targets i ++ todo) (seen.insert i)
termination_by todo seen => (m.unseen seen, todo.length)
decreasing_by
  · exact .right _ (by simp)
  · rename_i new
    by_cases h : i < m.states.size
    · exact .left _ _ (unseen_insert_lt h new)
    · rw [targets_eq_nil h, unseen_insert_eq h]
      exact .right _ (by simp)

def reachable (m : Machine) : Std.TreeSet Nat := m.reachFrom [m.initial] ∅

def unreachableNames (m : Machine) : List String :=
  let reached := m.reachable
  (m.states.toList.zipIdx.filter fun (_, i) => !reached.contains i).map fun (q, _) => q.name

def unreachableWarning? (m : Machine) : Option Warning :=
  let names := m.unreachableNames
  if names.isEmpty then none else some (.unreachableStates names)

def acceptingWarning? (m : Machine) : Option Warning :=
  if m.accepting.isEmpty then some .noAcceptingStates
  else if m.accepting.any m.reachable.contains then none
  else some .neverAccepts

def analyze (m : Machine) : List Warning :=
  m.unreachableWarning?.toList ++ m.acceptingWarning?.toList

def readSymbols (m : Machine) : Std.TreeSet Symbol :=
  .ofList (m.states.toList.flatMap fun q => q.rules.toList.map Rule.read)

def unhandledSymbols (m : Machine) (row : List Symbol) : List Symbol :=
  let handled := m.readSymbols
  (Std.TreeSet.ofList (row.filter fun s => s ≠ Symbol.blank && !handled.contains s)).toList

def checkInput (m : Machine) (row : List Symbol) : Option Warning :=
  let symbols := m.unhandledSymbols row
  if symbols.isEmpty then none else some (.unhandledSymbols symbols)

end Machine

end OneTape
