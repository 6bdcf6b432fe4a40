import OneTape.Grammar.Pattern

namespace OneTape.Description

open Grammar

inductive Element where
  | program | line | eol | space | sep | identChar | keyword | name | names | directive | debugFlag
  | blankLine | indent | quoted | bare | symbol | arrow | direction | ruleLine | malformedRule
  | initLine | acceptLine | blockHeader | headerLine | unknownLine | endOfText
deriving DecidableEq, Repr

namespace Element

def label : Element → String
  | program => "program"
  | line => "line"
  | eol => "eol"
  | space => "space"
  | sep => "sep"
  | identChar => "ident_char"
  | keyword => "keyword"
  | name => "name"
  | names => "names"
  | directive => "directive"
  | debugFlag => "debug_flag"
  | blankLine => "blank_line"
  | indent => "indent"
  | quoted => "quoted"
  | bare => "bare"
  | symbol => "symbol"
  | arrow => "arrow"
  | direction => "direction"
  | ruleLine => "rule_line"
  | malformedRule => "malformed_rule"
  | initLine => "init_line"
  | acceptLine => "accept_line"
  | blockHeader => "block_header"
  | headerLine => "header_line"
  | unknownLine => "unknown_line"
  | endOfText => "EOI"

def all : List Element :=
  [program, line, eol, space, sep, identChar, keyword, name, names, directive, debugFlag,
    blankLine, indent, quoted, bare, symbol, arrow, direction, ruleLine, malformedRule, initLine,
    acceptLine, blockHeader, headerLine, unknownLine, endOfText]

def ofLabel? (text : String) : Option Element := all.find? (·.label = text)

end Element

abbrev Form := Pattern Element

namespace Form

open Pattern

def newline : Form := firstOf (literal ['\n']) [literal ['\r', '\n'], literal ['\r']]

def endOfText : Form := node .endOfText atEnd

def eol : Form := choice newline endOfText

def anyChar : Form := satisfy fun _ => true

def lineChar : Form := seq (notAhead newline) anyChar

def space : Form := satisfy fun c => c == ' ' || c == '\t'

def sep : Form := choice (all (many space) [literal [','], many space]) (some1 space)

def identChar : Form := satisfy fun c => c.isAlphanum || c == '_'

def initWord : Form := literal ['i', 'n', 'i', 't']

def acceptWord : Form := literal ['a', 'c', 'c', 'e', 'p', 't']

def debugWord : Form := literal ['D', 'E', 'B', 'U', 'G']

def keyword : Form := seq (choice initWord acceptWord) (notAhead identChar)

def name : Form := leaf .name (seq (notAhead keyword) (some1 identChar))

def names : Form := seq name (many (seq sep name))

def lineEnd : Form := seq (many space) (ahead eol)

def debugFlag : Form := node .debugFlag (choice (literal ['0']) (literal ['1']))

def directive : Form := node .directive (all debugWord [some1 space, debugFlag, lineEnd])

def blankLine : Form := lineEnd

def indent : Form := some1 space

def quoted : Form := all (literal ['\'']) [lineChar, literal ['\'']]

def bare : Form := seq (notAhead (firstOf space [literal [','], newline])) anyChar

def symbol : Form := leaf .symbol (choice quoted bare)

def arrow : Form := literal ['-', '>']

def direction : Form := node .direction (satisfy fun c => ['>', '<', 'S', 'R', 'L'].contains c)

def ruleLine : Form :=
  node .ruleLine
    (all indent [symbol, sep, optional (seq arrow sep), symbol, sep, direction, sep, name, lineEnd])

def malformedRule : Form := node .malformedRule (seq indent (some1 lineChar))

def initLine : Form := node .initLine (all initWord [sep, name, lineEnd])

def acceptLine : Form := node .acceptLine (all acceptWord [optional (seq sep names), lineEnd])

def blockHeader : Form := node .blockHeader (all name [many space, literal [':'], lineEnd])

def headerLine : Form := node .headerLine (seq names lineEnd)

def unknownLine : Form := node .unknownLine (some1 lineChar)

def line : Form :=
  firstOf directive [blankLine, ruleLine, malformedRule, initLine, acceptLine, blockHeader,
    headerLine, unknownLine]

def program : Form := node .program (all line [many (seq newline line), endOfText])

end Form

def Element.form : Element → Form
  | program => Form.program
  | line => Form.line
  | eol => Form.eol
  | space => Form.space
  | sep => Form.sep
  | identChar => Form.identChar
  | keyword => Form.keyword
  | name => Form.name
  | names => Form.names
  | directive => Form.directive
  | debugFlag => Form.debugFlag
  | blankLine => Form.blankLine
  | indent => Form.indent
  | quoted => Form.quoted
  | bare => Form.bare
  | symbol => Form.symbol
  | arrow => Form.arrow
  | direction => Form.direction
  | ruleLine => Form.ruleLine
  | malformedRule => Form.malformedRule
  | initLine => Form.initLine
  | acceptLine => Form.acceptLine
  | blockHeader => Form.blockHeader
  | headerLine => Form.headerLine
  | unknownLine => Form.unknownLine
  | endOfText => Form.endOfText

def Element.nodes? (element : Element) (text : List Char) : Option (List (Node Element)) :=
  (element.form.match? (.ofText text)).map Match.nodes

end OneTape.Description
