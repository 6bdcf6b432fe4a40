import OneTape.Configuration

/-!
A machine need not halt, so every run takes a bound on the number of rules, the fuel; a run that
halts is the same for every fuel that is large enough. A step limit is an option of the run, and
reaching it is an answer.
-/

namespace OneTape

inductive Stop where
  | halted
  /-- A rule applies, but as many steps as the limit allows have been taken. -/
  | limit
  | fuel
deriving DecidableEq, Repr

/-- The configuration after `n` steps, or the one in which the machine halts before. -/
def Machine.advance (m : Machine) : Nat → Configuration → Configuration
  | 0, c => c
  | n + 1, c =>
    match m.rule? c with
    | none => c
    | some r => m.advance n (c.apply r)

/-- Steps on from `c` until no rule applies or the fuel is spent. -/
def Machine.exhaust {α : Type} (m : Machine) (visit : α → Rule → Configuration → α) (fuel : Nat)
    (c : Configuration) (record : α) : Stop × Configuration × α :=
  match m.rule? c with
  | none => (.halted, c, record)
  | some r =>
    match fuel with
    | 0 => (.fuel, c, record)
    | fuel + 1 =>
      let next := c.apply r
      let record := visit record r next
      m.exhaust visit fuel next record

/-- Stops also when the step limit is reached while a rule applies. -/
def Machine.drive {α : Type} (m : Machine) (limit : Option Nat)
    (visit : α → Configuration → Rule → α) (fuel : Nat) (c : Configuration) (record : α) :
    Stop × Configuration × α :=
  if limit.any (· ≤ c.steps) && !m.isHalted c then (.limit, c, record)
  else match m.rule? c with
    | none => (.halted, c, record)
    | some r =>
      match fuel with
      | 0 => (.fuel, c, record)
      | fuel + 1 =>
        let record := visit record c r
        m.drive limit visit fuel (c.apply r) record

structure TraceEntry where
  step : Nat
  state : String
  head : Int
  read : Symbol
  write : Symbol
  direction : Direction
  next : String
deriving DecidableEq, Repr

def Machine.traceEntry (m : Machine) (c : Configuration) (r : Rule) : TraceEntry :=
  ⟨c.steps + 1, m.nameOf c.state, c.head, r.read, r.write, r.direction, m.nameOf r.next⟩

inductive HaltReason where
  | noMatchingRule
deriving DecidableEq, Repr

def HaltReason.word : HaltReason → String
  | noMatchingRule => "NoMatchingRule"

structure Report where
  finalState : String
  finalStateId : Nat
  haltedBy : HaltReason
  steps : Nat
  head : Int
  tapeOrigin : Int
  tape : List Symbol
  trace : List TraceEntry
deriving DecidableEq, Repr

def Report.tapeText (r : Report) : String := Symbol.text r.tape

def Machine.report (m : Machine) (c : Configuration) (trace : List TraceEntry) : Report :=
  let (tapeOrigin, tape) := c.tape.written
  ⟨m.nameOf c.state, c.state, .noMatchingRule, c.steps, c.head, tapeOrigin, tape, trace⟩

structure StepLimitExceeded where
  limit : Nat
  state : String
  head : Int
deriving DecidableEq, Repr

def StepLimitExceeded.message (e : StepLimitExceeded) : String :=
  s!"step limit of {e.limit} exceeded in state '{e.state}' at head position {e.head}"

def Machine.limitExceeded (m : Machine) (limit : Nat) (c : Configuration) : StepLimitExceeded :=
  ⟨limit, m.nameOf c.state, c.head⟩

structure RunOptions where
  stepLimit : Option Nat := none
  recordTrace : Bool := false
deriving DecidableEq, Repr

inductive Outcome where
  | halted (report : Report)
  | limitExceeded (error : StepLimitExceeded)
  /-- The fuel did not suffice to tell. -/
  | unfinished
deriving DecidableEq, Repr

namespace Machine

def run (m : Machine) (row : List Symbol) (fuel : Nat) : Option Report :=
  match m.exhaust (fun _ _ _ => ()) fuel (m.start row) () with
  | (.halted, c, _) => some (m.report c [])
  | _ => none

def recordStep (m : Machine) (options : RunOptions) (trace : List TraceEntry) (c : Configuration)
    (r : Rule) : List TraceEntry :=
  if options.recordTrace then m.traceEntry c r :: trace else trace

def runWith (m : Machine) (options : RunOptions) (row : List Symbol) (fuel : Nat) : Outcome :=
  match m.drive options.stepLimit (m.recordStep options) fuel (m.start row) [] with
  | (.halted, c, trace) => .halted (m.report c trace.reverse)
  | (.limit, c, _) => .limitExceeded (m.limitExceeded (options.stepLimit.getD 0) c)
  | (.fuel, _, _) => .unfinished

def observe {β : Type} (m : Machine) (options : RunOptions) (view : Configuration → β)
    (row : List Symbol) (fuel : Nat) : List β :=
  let (_, c, seen) :=
    m.drive options.stepLimit (fun seen c _ => view c :: seen) fuel (m.start row) []
  (view c :: seen).reverse

end Machine

end OneTape
