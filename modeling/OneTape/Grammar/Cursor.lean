
namespace OneTape.Grammar

structure Position where
  offset : Nat
  index : Nat
  /-- The number of the line, from 1. Only a line feed begins a new line. -/
  line : Nat
  column : Nat
deriving DecidableEq, Repr

namespace Position

def first : Position := ⟨0, 0, 1, 1⟩

def next (p : Position) (c : Char) : Position :=
  if c = '\n' then ⟨p.offset + c.utf8Size, p.index + 1, p.line + 1, 1⟩
  else ⟨p.offset + c.utf8Size, p.index + 1, p.line, p.column + 1⟩

def advance (p : Position) (text : List Char) : Position := text.foldl next p

end Position

structure Cursor where
  position : Position
  rest : List Char
deriving DecidableEq, Repr

namespace Cursor

def ofText (text : List Char) : Cursor := ⟨.first, text⟩

def satisfy? (p : Char → Bool) : Cursor → Option Cursor
  | ⟨_, []⟩ => none
  | ⟨position, c :: rest⟩ => if p c then some ⟨position.next c, rest⟩ else none

def literal? : List Char → Cursor → Option Cursor
  | [], k => some k
  | c :: word, k => (k.satisfy? (· == c)).bind (literal? word)

end Cursor

end OneTape.Grammar
