import OneTape.Text.CharacterSets
import OneTape.Text.GraphemeExtend
import OneTape.Text.Unprintable

namespace OneTape.Text

/-- The halfwidth sound marks join the character before them, but are shown all the same. -/
def isHalfwidthMark (c : Char) : Bool := c.toNat = 0xFF9E || c.toNat = 0xFF9F

def isHidden (c : Char) : Bool :=
  isUnprintable c || isDefaultIgnorable c || isGraphemeExtend c && !isHalfwidthMark c

def escapeNumber (c : Char) : List Char :=
  ['\\', 'u', '\x7b'] ++ Nat.toDigits 16 c.toNat ++ ['\x7d']

def escape (quote : Char) (c : Char) : List Char :=
  if c = '\x00' then ['\\', '0']
  else if c = '\t' then ['\\', 't']
  else if c = '\r' then ['\\', 'r']
  else if c = '\n' then ['\\', 'n']
  else if c = '\\' || c = quote then ['\\', c]
  else if isHidden c then escapeNumber c
  else [c]

def quoteWith (quote : Char) (text : List Char) : String :=
  String.ofList (quote :: (text.flatMap (escape quote) ++ [quote]))

def quoteChar (c : Char) : String := quoteWith '\'' [c]

def quoteString (s : String) : String := quoteWith '"' s.toList

def quoteList (items : List String) : String := "[" ++ ", ".intercalate items ++ "]"

end OneTape.Text
