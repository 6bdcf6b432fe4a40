import OneTape.Symbol

namespace OneTape.Description

inductive Section where
  | header
  | init
  | accept
deriving DecidableEq, Repr

def Section.text : Section → String
  | header => "header"
  | init => "init"
  | accept => "accept"

def maxSize : Nat := 65536

/-- Lines and columns are counted from 1. -/
inductive Error where
  | unmatched
  | missingHeader (line : Nat)
  | missingInit
  | unknownInitial (name : String) (line : Nat)
  | unknownAccepting (name : String) (line : Nat)
  | unknownBlock (name : String) (line : Nat)
  | unknownTarget (name : String) (line column : Nat)
  | duplicateRule (state : String) (symbol : Symbol) (line firstLine : Nat)
  | malformedRule (line : Nat) (text : String)
  | duplicateName (name : String) (line : Nat)
  | duplicateBlock (name : String) (line : Nat)
  | duplicateSection (which : Section) (line : Nat)
  | ruleOutsideBlock (line : Nat)
  | unexpectedLine (line : Nat) (text : String)
  | tooLarge (bytes : Nat)
deriving DecidableEq, Repr

def Error.message : Error → String
  | unmatched => "Syntax error"
  | missingHeader line => s!"line {line}: expected the header line declaring all states"
  | missingInit => "missing 'init' line"
  | unknownInitial name line =>
    s!"line {line}: initial state '{name}' was not declared in the header"
  | unknownAccepting name line =>
    s!"line {line}: accepting state '{name}' was not declared in the header"
  | unknownBlock name line => s!"line {line}: block for undeclared state '{name}'"
  | unknownTarget name line column =>
    s!"line {line}, column {column}: rule targets undeclared state '{name}'"
  | duplicateRule state symbol line firstLine =>
    let shown := symbol.shown
    s!"line {line}: state '{state}' already has a rule reading '{shown}' (line {firstLine})"
  | malformedRule line text => s!"line {line}: malformed rule line '{text}'"
  | duplicateName name line => s!"line {line}: state '{name}' is declared twice"
  | duplicateBlock name line => s!"line {line}: state '{name}' already has a block"
  | duplicateSection which line =>
    let name := which.text
    s!"line {line}: duplicate '{name}' line"
  | ruleOutsideBlock line => s!"line {line}: rule line outside of a state block"
  | unexpectedLine line text => s!"line {line}: unexpected line '{text}'"
  | tooLarge bytes => s!"description is {bytes} bytes, the limit is {maxSize}"

end OneTape.Description
