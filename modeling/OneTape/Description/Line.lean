import OneTape.Description.Grammar
import OneTape.Rule
import OneTape.Text.CharacterSets

namespace OneTape.Description

open Grammar

inductive Line where
  | directive (debug : Bool)
  | header (names : List String)
  | init (name : String)
  | accept (names : List String)
  | block (name : String)
  | rule (read write : Symbol) (direction : Direction) (target : String) (column : Nat)
  | malformed
  | unknown
deriving DecidableEq, Repr

structure NumberedLine where
  number : Nat
  text : List Char
  line : Line
deriving DecidableEq, Repr

def NumberedLine.trimmed (l : NumberedLine) : String := String.ofList (Text.trim l.text)

def symbolOf : List Char → Symbol
  | ['\'', c, '\''] => .ofWritten c
  | c :: _ => .ofWritten c
  | [] => .blank

def nameOf (n : Node Element) : String := String.ofList n.text

def ruleOf? : List (Node Element) → Option Line
  | [read, write, direction, target] => do
    let [marker] := direction.text | none
    let d ← Direction.ofMarker? marker
    return .rule (symbolOf read.text) (symbolOf write.text) d (nameOf target) target.start.column
  | _ => none

def Line.ofNode? (n : Node Element) : Option Line :=
  match n.kind with
  | .directive => some (.directive (n.children.head?.any (·.text == ['1'])))
  | .headerLine => some (.header (n.children.map nameOf))
  | .initLine => some (.init ((n.children.head?.map nameOf).getD ""))
  | .acceptLine => some (.accept (n.children.map nameOf))
  | .blockHeader => some (.block ((n.children.head?.map nameOf).getD ""))
  | .ruleLine => some ((ruleOf? n.children).getD .malformed)
  | .malformedRule => some .malformed
  | .unknownLine => some .unknown
  | _ => none

def NumberedLine.ofNode? (n : Node Element) : Option NumberedLine :=
  (Line.ofNode? n).map (⟨n.start.line, n.text, ·⟩)

def linesOf? (text : List Char) : Option (List NumberedLine) :=
  (Element.program.nodes? text).map fun nodes =>
    (nodes.flatMap Node.children).filterMap NumberedLine.ofNode?

end OneTape.Description
