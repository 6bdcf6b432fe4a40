import OneTape.Rule
import Std.Data.TreeMap
import Std.Data.TreeSet

namespace OneTape

structure State where
  name : String
  rules : Array Rule
  index : Std.TreeMap Symbol Nat

namespace State

def ofName (name : String) : State := ⟨name, #[], ∅⟩

def rule? (q : State) (s : Symbol) : Option Rule := q.index[s]?.bind (q.rules[·]?)

def isHalting (q : State) : Bool := q.rules.isEmpty

/-- Adds a rule at the end. If a rule reads the same symbol already, its position is the error. -/
def push (q : State) (r : Rule) : Except Nat State :=
  match q.index[r.read]? with
  | some i => .error i
  | none => .ok { q with rules := q.rules.push r, index := q.index.insert r.read q.rules.size }

/-- States are compared by name alone. -/
instance : BEq State := ⟨fun p q => p.name == q.name⟩

end State

structure Machine where
  states : Array State
  ids : Std.TreeMap String Nat
  initial : Nat
  accepting : List Nat
  acceptingSet : Std.TreeSet Nat
  debug : Bool

namespace Machine

def idsOf (states : Array State) : Std.TreeMap String Nat :=
  states.toList.zipIdx.foldl (fun ids (q, i) => ids.insert q.name i) ∅

def ofStates (states : Array State) (initial : Nat) (accepting : List Nat) (debug : Bool) :
    Machine where
  states := states
  ids := idsOf states
  initial := initial
  accepting := accepting
  acceptingSet := .ofList accepting
  debug := debug

def state? (m : Machine) (i : Nat) : Option State := m.states[i]?

def nameOf (m : Machine) (i : Nat) : String := ((m.state? i).map State.name).getD ""

def idOf? (m : Machine) (name : String) : Option Nat := m.ids[name]?

def stateNamed? (m : Machine) (name : String) : Option State := (m.idOf? name).bind m.state?

def rulesOf? (m : Machine) (name : String) : Option (Array Rule) :=
  (m.stateNamed? name).map State.rules

def initialName (m : Machine) : String := m.nameOf m.initial

def acceptingStates (m : Machine) : List State := m.accepting.filterMap m.state?

def isAcceptingId (m : Machine) (i : Nat) : Bool := m.acceptingSet.contains i

def isAccepting (m : Machine) (name : String) : Bool := (m.idOf? name).any m.isAcceptingId

end Machine

end OneTape
