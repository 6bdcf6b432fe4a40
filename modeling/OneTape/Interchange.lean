import OneTape.Json
import OneTape.Verdict

namespace OneTape

def Symbol.toJson (s : Symbol) : Json := .string s.toString

def Symbol.ofJson? : Json → Option Symbol
  | .string text =>
    match text.toList with
    | [c] => some c
    | _ => none
  | _ => none

def Direction.toJson (d : Direction) : Json := .string d.word

/-- The direction of a word, which can also be the name of a member that holds nothing. -/
def Direction.ofJson? : Json → Option Direction
  | .string text => ofWord? text
  | .object [(name, .null)] => ofWord? name
  | _ => none

def maxStateId : Nat := 0xFFFFFFFFFFFFFFFF

def stateIdOfJson? : Json → Option Nat
  | .number (.ofNat n) => if n ≤ maxStateId then some n else none
  | _ => none

namespace Rule

def toJson (r : Rule) : Json :=
  .object [("read", r.read.toJson), ("write", r.write.toJson), ("direction", r.direction.toJson),
    ("next_state", .number r.next)]

def ofFields? (read write direction next : Json) : Option Rule := do
  return ⟨← Symbol.ofJson? read, ← Symbol.ofJson? write, ← Direction.ofJson? direction,
    ← stateIdOfJson? next⟩

def ofJson? : Json → Option Rule
  | .object members => do
    ofFields? (← members.lookup "read") (← members.lookup "write") (← members.lookup "direction")
      (← members.lookup "next_state")
  | .array [read, write, direction, next] => ofFields? read write direction next
  | _ => none

end Rule

def TraceEntry.toJson (e : TraceEntry) : Json :=
  .object [("step", .number e.step), ("state", .string e.state), ("head", .number e.head),
    ("read", e.read.toJson), ("write", e.write.toJson), ("direction", e.direction.toJson),
    ("next_state", .string e.next)]

def Report.members (r : Report) : List (String × Json) :=
  [("final_state", .string r.finalState), ("final_state_id", .number r.finalStateId),
    ("halted_by", .string r.haltedBy.word), ("steps", .number r.steps), ("head", .number r.head),
    ("tape_origin", .number r.tapeOrigin), ("tape", .array (r.tape.map Symbol.toJson)),
    ("trace", .array (r.trace.map TraceEntry.toJson))]

def Report.toJson (word : String) (v : Verdict) (r : Report) : Json :=
  .object (("input", .string word) :: ("verdict", .string v.word) :: r.members)

end OneTape
