import OneTape.Symbol

namespace OneTape

inductive Direction where
  | left
  | right
  | stay
deriving DecidableEq, Repr

namespace Direction

def delta : Direction → Int
  | left => -1
  | right => 1
  | stay => 0

def marker : Direction → Char
  | left => '<'
  | right => '>'
  | stay => 'S'

def ofMarker? : Char → Option Direction
  | '>' | 'R' => some right
  | '<' | 'L' => some left
  | 'S' => some stay
  | _ => none

def word : Direction → String
  | left => "Left"
  | right => "Right"
  | stay => "Stay"

def ofWord? (text : String) : Option Direction :=
  [left, right, stay].find? (·.word = text)

end Direction

structure Rule where
  read : Symbol
  write : Symbol
  direction : Direction
  next : Nat
deriving DecidableEq, Repr

end OneTape
