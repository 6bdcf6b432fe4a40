
namespace OneTape.CommandLine

structure Arguments where
  program : Option String := none
  builtin : Option String := none
  words : List String := []
  stepLimit : Option Nat := none
  trace : Bool := false
  json : Bool := false
  analyze : Bool := false
  list : Bool := false
deriving DecidableEq, Repr

inductive Flag where
  | trace
  | json
  | analyze
  | list
deriving DecidableEq, Repr

inductive Setting where
  | program
  | builtin
  | stepLimit
deriving DecidableEq, Repr

inductive Switch where
  | flag (f : Flag)
  | setting (s : Setting)
  | version
  | help
deriving DecidableEq, Repr

inductive UsageError where
  | noArguments
  | unknownOption (name : String)
  | repeatedOption (name : String)
  | missingValue (name : String)
  | needlessValue (name : String)
  | invalidValue (name value : String)
  | twoMachines
deriving DecidableEq, Repr

def UsageError.message : UsageError → String
  | noArguments => "no arguments were given"
  | unknownOption name => "unexpected argument '" ++ name ++ "' found"
  | repeatedOption name => "the argument '" ++ name ++ "' cannot be used multiple times"
  | missingValue name => "a value is required for '" ++ name ++ "' but none was supplied"
  | needlessValue name => "unexpected value for '" ++ name ++ "' found; no more were expected"
  | invalidValue name value => "invalid value '" ++ value ++ "' for '" ++ name ++ "'"
  | twoMachines => "the argument '--program' cannot be used with '--builtin'"

inductive Request where
  | run (arguments : Arguments)
  | version
  | help
deriving DecidableEq, Repr

namespace Flag

def name : Flag → String
  | trace => "--trace"
  | json => "--json"
  | analyze => "--analyze"
  | list => "--list"

def isSet (a : Arguments) : Flag → Bool
  | trace => a.trace
  | json => a.json
  | analyze => a.analyze
  | list => a.list

def set (a : Arguments) (f : Flag) : Except UsageError Arguments :=
  if f.isSet a then .error (.repeatedOption f.name)
  else .ok <| match f with
    | trace => { a with trace := true }
    | json => { a with json := true }
    | analyze => { a with analyze := true }
    | list => { a with list := true }

end Flag

def maxStepLimit : Nat := 0xFFFFFFFFFFFFFFFF

def number? (text : String) : Option Nat :=
  let digits := match text.toList with
    | '+' :: rest => rest
    | cs => cs
  if digits.isEmpty || !digits.all Char.isDigit then none
  else
    let n := digits.foldl (fun n c => 10 * n + (c.toNat - '0'.toNat)) 0
    if n ≤ maxStepLimit then some n else none

namespace Setting

def name : Setting → String
  | program => "--program"
  | builtin => "--builtin"
  | stepLimit => "--step-limit"

def isSet (a : Arguments) : Setting → Bool
  | program => a.program.isSome
  | builtin => a.builtin.isSome
  | stepLimit => a.stepLimit.isSome

def set (a : Arguments) (value : String) (s : Setting) : Except UsageError Arguments :=
  if s.isSet a then .error (.repeatedOption s.name)
  else match s with
    | program =>
      if value.isEmpty then .error (.missingValue s.name)
      else .ok { a with program := some value }
    | builtin => .ok { a with builtin := some value }
    | stepLimit =>
      match number? value with
      | none => .error (.invalidValue s.name value)
      | some n => .ok { a with stepLimit := some n }

end Setting

namespace Switch

def ofLong? : String → Option Switch
  | "program" => some (.setting .program)
  | "builtin" => some (.setting .builtin)
  | "step-limit" => some (.setting .stepLimit)
  | "trace" => some (.flag .trace)
  | "json" => some (.flag .json)
  | "analyze" => some (.flag .analyze)
  | "list" => some (.flag .list)
  | "version" => some .version
  | "help" => some .help
  | _ => none

def ofShort? : Char → Option Switch
  | 'p' => some (.setting .program)
  | 'b' => some (.setting .builtin)
  | 's' => some (.setting .stepLimit)
  | 'd' => some (.flag .trace)
  | 'a' => some (.flag .analyze)
  | 'l' => some (.flag .list)
  | 'V' => some .version
  | 'h' => some .help
  | _ => none

end Switch

inductive Reading where
  | free (a : Arguments)
  | awaiting (s : Setting) (a : Arguments)
  | words (a : Arguments)
  | done (r : Request)
deriving DecidableEq, Repr

namespace Reading

def readShort (a : Arguments) : List Char → Except UsageError Reading
  | [] => .ok (.free a)
  | c :: rest =>
    match Switch.ofShort? c with
    | none => .error (.unknownOption ("-" ++ c.toString))
    | some .version => .ok (.done .version)
    | some .help => .ok (.done .help)
    | some (.flag f) =>
      match f.set a with
      | .error e => .error e
      | .ok a => readShort a rest
    | some (.setting s) =>
      match rest with
      | [] => .ok (.awaiting s a)
      | '=' :: value => (s.set a (String.ofList value)).map .free
      | value => (s.set a (String.ofList value)).map .free

def readLong (a : Arguments) (text : List Char) : Except UsageError Reading :=
  let name := String.ofList (text.takeWhile (· ≠ '='))
  let value? := match text.dropWhile (· ≠ '=') with
    | [] => none
    | _ :: value => some (String.ofList value)
  match Switch.ofLong? name, value? with
  | none, _ => .error (.unknownOption ("--" ++ name))
  | some (.setting s), none => .ok (.awaiting s a)
  | some (.setting s), some value => (s.set a value).map .free
  | some _, some _ => .error (.needlessValue ("--" ++ name))
  | some (.flag f), none => (f.set a).map .free
  | some .version, none => .ok (.done .version)
  | some .help, none => .ok (.done .help)

def read (reading : Reading) (argument : String) : Except UsageError Reading :=
  match reading, argument.toList with
  | .done r, _ => .ok (.done r)
  | .words a, _ => .ok (.words { a with words := a.words ++ [argument] })
  | .awaiting s _, '-' :: _ :: _ => .error (.missingValue s.name)
  | .awaiting s a, _ => (s.set a argument).map .free
  | .free a, ['-', '-'] => .ok (.words a)
  | .free a, '-' :: '-' :: text => readLong a text
  | .free a, '-' :: c :: text => readShort a (c :: text)
  | .free a, _ => .ok (.free { a with words := a.words ++ [argument] })

def finish : Reading → Except UsageError Request
  | .done r => .ok r
  | .awaiting s _ => .error (.missingValue s.name)
  | .free a | .words a =>
    if a = {} then .error .noArguments
    else if a.program.isSome && a.builtin.isSome then .error .twoMachines
    else .ok (.run a)

end Reading

/-- The first argument that does not fit is the error, unless the version or help is asked for
before it. -/
def parse (arguments : List String) : Except UsageError Request := do
  let reading ← arguments.foldlM Reading.read (.free {})
  reading.finish

end OneTape.CommandLine
