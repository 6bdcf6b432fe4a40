import OneTape.Machine
import OneTape.Tape

namespace OneTape

structure Configuration where
  tape : Tape
  head : Int
  state : Nat
  steps : Nat

namespace Configuration

def symbol (c : Configuration) : Symbol := c.tape.read c.head

def apply : Configuration → Rule → Configuration
  | ⟨tape, head, _, steps⟩, r =>
    ⟨tape.write head r.write, head + r.direction.delta, r.next, steps + 1⟩

def window (c : Configuration) : Int × Int :=
  match c.tape.bounds with
  | some (first, last) => (min first c.head, max last c.head)
  | none => (c.head, c.head)

def row (c : Configuration) : String := c.tape.render c.window.1 c.window.2

def indentation (c : Configuration) : Nat := (c.head - c.window.1).toNat

/-- The widest indentation with which a caret is printed: columns are counted in 16 bits. -/
def maxIndentation : Nat := 65535

end Configuration

namespace Machine

def start (m : Machine) (row : List Symbol) : Configuration := ⟨.ofRow row, 0, m.initial, 0⟩

def rule? (m : Machine) (c : Configuration) : Option Rule :=
  (m.state? c.state).bind (·.rule? c.symbol)

def step? (m : Machine) (c : Configuration) : Option (Rule × Configuration) :=
  (m.rule? c).map fun r => (r, c.apply r)

def isHalted (m : Machine) (c : Configuration) : Bool := (m.rule? c).isNone

/-- There is no picture if the head is too far to the right of the first column. -/
def picture? (m : Machine) (c : Configuration) : Option String :=
  if c.indentation ≤ Configuration.maxIndentation then
    some (c.row ++ "\n" ++ String.ofList (List.replicate c.indentation ' ') ++ "^ " ++
      m.nameOf c.state)
  else none

end Machine

end OneTape
