
namespace OneTape

inductive Json where
  | null
  | bool (b : Bool)
  | number (n : Int)
  /-- A number with this many decimal places. -/
  | decimal (digits : Int) (places : Nat)
  | string (s : String)
  | array (items : List Json)
  | object (members : List (String × Json))
deriving Inhabited

namespace Json

def escapeNumber (c : Char) : List Char :=
  let digits := Nat.toDigits 16 c.toNat
  ['\\', 'u'] ++ List.replicate (4 - digits.length) '0' ++ digits

def escape (c : Char) : List Char :=
  if c = '"' then ['\\', '"']
  else if c = '\\' then ['\\', '\\']
  else if c = '\n' then ['\\', 'n']
  else if c = '\r' then ['\\', 'r']
  else if c = '\t' then ['\\', 't']
  else if c = '\x08' then ['\\', 'b']
  else if c = '\x0c' then ['\\', 'f']
  else if c.toNat < 0x20 then escapeNumber c
  else [c]

def quote (s : String) : String := String.ofList ('"' :: (s.toList.flatMap escape ++ ['"']))

def indentation (depth : Nat) : String := "\n" ++ String.ofList (List.replicate (2 * depth) ' ')

def bracket (opening closing : String) (depth : Nat) : List String → String
  | [] => opening ++ closing
  | items =>
    let inner := indentation (depth + 1)
    opening ++ inner ++ ("," ++ inner).intercalate items ++ indentation depth ++ closing

def decimalText (digits : Int) (places : Nat) : String :=
  let all := Nat.toDigits 10 digits.natAbs
  let padded := List.replicate (places + 1 - all.length) '0' ++ all
  let (whole, fraction) := padded.splitAt (padded.length - places)
  (if digits < 0 then "-" else "") ++ String.ofList whole ++ "." ++ String.ofList fraction

mutual

def render (depth : Nat) : Json → String
  | null => "null"
  | bool b => if b then "true" else "false"
  | number n => toString n
  | decimal digits places => decimalText digits places
  | string s => quote s
  | array items => bracket "[" "]" depth (renderItems (depth + 1) items)
  | object members => bracket "\x7b" "\x7d" depth (renderMembers (depth + 1) members)

def renderItems (depth : Nat) : List Json → List String
  | [] => []
  | item :: rest => item.render depth :: renderItems depth rest

def renderMembers (depth : Nat) : List (String × Json) → List String
  | [] => []
  | (name, value) :: rest => (quote name ++ ": " ++ value.render depth) :: renderMembers depth rest

end

def text (j : Json) : String := j.render 0

end Json

end OneTape
