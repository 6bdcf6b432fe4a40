import OneTape.Description.Draft
import OneTape.Execution
import OneTape.Text.Quoted

namespace OneTape

inductive Level where
  | trace
  | debug
deriving DecidableEq, Repr

def Level.word : Level → String
  | trace => "TRACE"
  | debug => "DEBUG"

inductive FieldValue where
  | text (s : String)
  | number (n : Int)
  | flag (b : Bool)
deriving DecidableEq, Repr

inductive Event where
  | described (states : Nat) (initial : String) (accepting : Nat) (debug : Bool)
  /-- A rule was applied, and led to this state and head position. -/
  | moved (step : Nat) (state : String) (head : Int) (direction : Direction)
  /-- A rule was applied in this state and at this head position. -/
  | applied (step : Nat) (state : String) (head : Int) (read write : Symbol)
      (direction : Direction)
  | halted (finalState : String) (steps : Nat) (head : Int)
deriving DecidableEq, Repr

namespace Event

def level : Event → Level
  | described .. => .debug
  | moved .. => .trace
  | applied .. => .trace
  | halted .. => .debug

def message : Event → String
  | described .. => "parsed machine description"
  | moved .. => "applied rule"
  | applied .. => "applied rule"
  | halted .. => "machine halted"

def fields : Event → List (String × FieldValue)
  | described states initial accepting debug =>
    [("states", .number states), ("initial", .text initial), ("accepting", .number accepting),
      ("verbose", .flag debug)]
  | moved step state head direction =>
    [("step", .number step), ("state", .text state), ("head", .number head),
      ("direction", .text direction.marker.toString)]
  | applied step state head read write direction =>
    [("step", .number step), ("state", .text state), ("head", .number head),
      ("read", .text (Text.quoteChar read.shown)), ("write", .text (Text.quoteChar write.shown)),
      ("direction", .text direction.marker.toString)]
  | halted finalState steps head =>
    [("final_state", .text finalState), ("steps", .number steps), ("head", .number head)]

end Event

namespace Machine

def describedEvent (m : Machine) : Event :=
  .described m.states.size m.initialName m.accepting.length m.debug

def haltedEvent (m : Machine) (c : Configuration) : Event :=
  .halted (m.nameOf c.state) c.steps c.head

def movedEvent (m : Machine) (r : Rule) (c : Configuration) : Event :=
  .moved c.steps (m.nameOf c.state) c.head r.direction

def appliedEvent (m : Machine) (c : Configuration) (r : Rule) : Event :=
  .applied (c.steps + 1) (m.nameOf c.state) c.head r.read r.write r.direction

def closeLog (m : Machine) : Stop × Configuration × List Event → List Event
  | (.halted, c, events) => (m.haltedEvent c :: events).reverse
  | (_, _, events) => events.reverse

def runLog (m : Machine) (row : List Symbol) (fuel : Nat) : List Event :=
  m.closeLog
    (m.exhaust (fun events r c => m.movedEvent r c :: events) fuel (m.start row) [])

def runWithLog (m : Machine) (options : RunOptions) (row : List Symbol) (fuel : Nat) : List Event :=
  m.closeLog
    (m.drive options.stepLimit (fun events c r => m.appliedEvent c r :: events) fuel
      (m.start row) [])

end Machine

end OneTape
