import OneTape.Description.Error
import OneTape.Description.Line
import OneTape.Machine

namespace OneTape.Description

structure Draft where
  debug : Bool := false
  states : Array State := #[]
  ids : Std.TreeMap String Nat := ∅
  hasDirective : Bool := false
  hasHeader : Bool := false
  initial : Option Nat := none
  accepting : Option (List Nat) := none
  current : Option Nat := none
  blocks : Std.TreeSet Nat := ∅
  ruleLines : Std.TreeMap Nat (Std.TreeMap Symbol Nat) := ∅

namespace Draft

def declare (number : Nat) (d : Draft) (name : String) : Except Error Draft :=
  if d.ids.contains name then .error (.duplicateName name number)
  else .ok
    { d with ids := d.ids.insert name d.states.size, states := d.states.push (.ofName name) }

def listAccepting (d : Draft) (number : Nat) :
    List Nat × Std.TreeSet Nat → String → Except Error (List Nat × Std.TreeSet Nat)
  | (listed, seen), name =>
    match d.ids[name]? with
    | none => .error (.unknownAccepting name number)
    | some id => .ok (if seen.contains id then (listed, seen) else (id :: listed, seen.insert id))

def resolveAccepting (d : Draft) (number : Nat) (names : List String) :
    Except Error (List Nat) := do
  let (listed, _) ← names.foldlM (d.listAccepting number) ([], ∅)
  return listed.reverse

def ruleLine? (d : Draft) (state : Nat) (s : Symbol) : Option Nat :=
  d.ruleLines[state]?.bind (·[s]?)

def addRule (d : Draft) (number state : Nat) (r : Rule) : Except Error Draft :=
  match d.states[state]? with
  | none => .error (.ruleOutsideBlock number)
  | some q =>
    match q.push r with
    | .error _ =>
      .error (.duplicateRule q.name r.read number ((d.ruleLine? state r.read).getD number))
    | .ok q =>
      let lines := (d.ruleLines[state]?.getD ∅).insert r.read number
      .ok { d with
        states := d.states.setIfInBounds state q
        ruleLines := d.ruleLines.insert state lines }

def readBody (d : Draft) (l : NumberedLine) : Except Error Draft :=
  match l.line with
  | .init name =>
    if d.initial.isSome then .error (.duplicateSection .init l.number)
    else match d.ids[name]? with
      | none => .error (.unknownInitial name l.number)
      | some id => .ok { d with current := none, initial := some id }
  | .accept names =>
    if d.accepting.isSome then .error (.duplicateSection .accept l.number)
    else match d.resolveAccepting l.number names with
      | .error e => .error e
      | .ok ids => .ok { d with current := none, accepting := some ids }
  | .block name =>
    match d.ids[name]? with
    | none => .error (.unknownBlock name l.number)
    | some id =>
      if d.blocks.contains id then .error (.duplicateBlock name l.number)
      else .ok { d with current := some id, blocks := d.blocks.insert id }
  | .rule read write direction target column =>
    match d.current with
    | none => .error (.ruleOutsideBlock l.number)
    | some state =>
      match d.ids[target]? with
      | none => .error (.unknownTarget target l.number column)
      | some next => d.addRule l.number state ⟨read, write, direction, next⟩
  | .malformed => .error (.malformedRule l.number l.trimmed)
  | .unknown | .directive _ | .header _ => .error (.unexpectedLine l.number l.trimmed)

def read (d : Draft) (l : NumberedLine) : Except Error Draft :=
  match l.line with
  | .directive debug =>
    if l.number = 1 then .ok { d with hasDirective := true, debug := debug }
    else .error (.unexpectedLine l.number l.trimmed)
  | .header names =>
    if d.hasHeader then .error (.duplicateSection .header l.number)
    else names.foldlM (declare l.number) { d with hasHeader := true, current := none }
  | _ => if d.hasHeader then d.readBody l else .error (.missingHeader l.number)

def finish (d : Draft) : Except Error Machine :=
  if d.hasHeader then
    match d.initial with
    | none => .error .missingInit
    | some initial => .ok (.ofStates d.states initial (d.accepting.getD []) d.debug)
  else .error (.missingHeader (if d.hasDirective then 2 else 1))

end Draft

def assemble (lines : List NumberedLine) : Except Error Machine := do
  let d ← lines.foldlM Draft.read {}
  d.finish

def read (text : List Char) : Except Error Machine :=
  match linesOf? text with
  | none => .error .unmatched
  | some lines => assemble lines

end OneTape.Description

namespace OneTape

def Machine.ofText (text : String) : Except Description.Error Machine :=
  if text.utf8ByteSize > Description.maxSize then .error (.tooLarge text.utf8ByteSize)
  else Description.read text.toList

end OneTape
