/-! The blank is U+0000, and it is written as an underscore. -/

namespace OneTape

abbrev Symbol := Char

namespace Symbol

def blank : Symbol := '\x00'

def placeholder : Char := '_'

def ofWritten (c : Char) : Symbol := if c = placeholder then blank else c

def shown (s : Symbol) : Char := if s = blank then placeholder else s

def ofWord (word : String) : List Symbol := word.toList.map ofWritten

def text (row : List Symbol) : String := String.ofList (row.map shown)

end Symbol

end OneTape
