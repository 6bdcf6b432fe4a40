import OneTape.Analysis
import OneTape.CommandLine.Arguments
import OneTape.Interchange
import OneTape.Loading

namespace OneTape.CommandLine

/-- What the program printed so far. With a code it has ended. -/
structure Transcript where
  stdout : String := ""
  stderr : String := ""
  /-- The exit code, none if the fuel did not suffice to the end. -/
  code : Option Nat := some 0
deriving DecidableEq, Repr

namespace Transcript

def line (text : String) : Transcript := { stdout := text ++ "\n" }

def append : Transcript → Transcript → Transcript
  | ⟨stdout, stderr, code⟩, t =>
    if code = some 0 then ⟨stdout ++ t.stdout, stderr ++ t.stderr, t.code⟩
    else ⟨stdout, stderr, code⟩

instance : Append Transcript := ⟨append⟩

def concat (ts : List Transcript) : Transcript := ts.foldl append {}

end Transcript

def hang (indentation text : String) : String :=
  ("\n" ++ indentation).intercalate (text.splitOn "\n")

def causesText : List String → String
  | [] => ""
  | [cause] => "\n\nCaused by:\n    " ++ hang "    " cause
  | causes =>
    "\n\nCaused by:" ++ String.join (causes.zipIdx.map fun (cause, i) =>
      "\n" ++ String.ofList (List.replicate (5 - (toString i).length) ' ') ++ toString i ++ ": " ++
        hang "       " cause)

def failed (text : String) (causes : List String) : Transcript :=
  { stderr := "Error: " ++ text ++ causesText causes ++ "\n", code := some 1 }

def summaryLine (s : Catalog.Summary) : String :=
  s.name ++ String.ofList (List.replicate (18 - s.name.length) ' ') ++
    s!" {s.stateCount} states, {s.ruleCount} rules, init {s.initial}, accept " ++
    ", ".intercalate s.accepting

def listing : Transcript :=
  .concat (Catalog.machines.map fun (name, m) => .line (summaryLine (Catalog.summarize name m)))

/-! ## Runs -/

def warning (m : Machine) (word : String) : Transcript :=
  match m.checkInput (Symbol.ofWord word) with
  | none => {}
  | some finding =>
    let quoted := Text.quoteString word
    { stderr := "WARN tumasim: " ++ finding.message ++ " input=" ++ quoted ++ "\n" }

def inputCodes (word : String) : Transcript :=
  .line ("Input codes: " ++ " ".intercalate (word.toList.map fun c => toString c.toNat) ++ "\n")

def picture (m : Machine) (c : Configuration) : Transcript :=
  match m.picture? c with
  | some picture => .line (picture ++ "\n")
  | none =>
    { stdout := c.row ++ "\n", stderr := "Error: the head is out of view\n", code := some 101 }

def pictures (m : Machine) (options : RunOptions) (word : String) (fuel : Nat) : Transcript :=
  .concat (m.observe options (picture m) (Symbol.ofWord word) fuel)

def result (m : Machine) (a : Arguments) (options : RunOptions) (word : String) (fuel : Nat) :
    Transcript :=
  match m.runWith options (Symbol.ofWord word) fuel with
  | .unfinished => { code := none }
  | .limitExceeded e =>
    let quoted := Text.quoteString word
    failed ("run on input " ++ quoted ++ " did not halt") [e.message]
  | .halted report =>
    let verdict := m.verdict report
    if a.json then .line (report.toJson word verdict).text
    else .line ("Final state: " ++ report.finalState) ++ .line verdict.text

def runWord (m : Machine) (a : Arguments) (fuel : Nat) (word : String) : Transcript :=
  let options : RunOptions := ⟨a.stepLimit, a.json && a.trace⟩
  let shown : Transcript :=
    if (a.trace || m.debug) && !a.json then inputCodes word ++ pictures m options word fuel else {}
  warning m word ++ shown ++ result m a options word fuel

def Arguments.inputs (a : Arguments) : List String := if a.words.isEmpty then [""] else a.words

def findings (m : Machine) : Transcript :=
  .concat (m.analyze.map fun w => .line ("warning: " ++ w.message))

def runMachine (a : Arguments) (fuel : Nat) (m : Machine) : Transcript :=
  (if a.analyze then findings m else {}) ++ .concat (a.inputs.map (runWord m a fuel))

def runRequest (files : Files.Access) (a : Arguments) (fuel : Nat) : Transcript :=
  if a.list then listing
  else match a.program, a.builtin with
    | some path, _ =>
      match Machine.loadFile files path with
      | .error e => failed ("failed to load " ++ path) (e.message :: e.causes)
      | .ok m => runMachine a fuel m
    | none, some name =>
      match Machine.builtin name with
      | .error e => failed e.message e.causes
      | .ok m => runMachine a fuel m
    | none, none => failed "either --program or --builtin is required" []

/-! ## The program -/

def versionLine : String := "tumasim-cli 0.1.0"

def helpText : String :=
  "Usage: tumasim [OPTIONS] [INPUT]...\n\n" ++
  "Arguments:\n" ++
  "  [INPUT]...  Input words, one run each. `_` stands for a blank cell\n\n" ++
  "Options:\n" ++
  "  -p, --program <PROGRAM>        The machine description file to execute\n" ++
  "  -b, --builtin <BUILTIN>        The built-in machine to execute (see --list)\n" ++
  "  -s, --step-limit <STEP_LIMIT>  Give up after this many steps instead of running until the " ++
    "machine halts\n" ++
  "  -d, --trace                    Print every configuration of the run (also enabled by " ++
    "`DEBUG 1`)\n" ++
  "      --json                     Print a JSON report per input\n" ++
  "  -a, --analyze                  Print static analysis findings before running\n" ++
  "  -l, --list                     List the built-in machines and exit\n" ++
  "  -h, --help                     Print help\n" ++
  "  -V, --version                  Print version\n"

def execute (files : Files.Access) (arguments : List String) (fuel : Nat) : Transcript :=
  match parse arguments with
  | .error e => { stderr := "error: " ++ e.message ++ "\n\n" ++ helpText, code := some 2 }
  | .ok .version => .line versionLine
  | .ok .help => { stdout := helpText }
  | .ok (.run a) => runRequest files a fuel

end OneTape.CommandLine
