import Mathlib.Logic.Function.Iterate
import OneTape.Proofs.Execution.Trajectory
import OneTape.Proofs.Tape.Extent

/-!
A Turing machine as it is defined on paper: the tape is a function from offsets to symbols, and
the rule that applies is the first that reads the symbol under the head.
-/

namespace OneTape

structure Textbook where
  state : Nat
  head : Int
  cells : Int → Symbol

namespace Textbook

def contents (row : List Symbol) : Int → Symbol
  | .ofNat i => row[i]?.getD Symbol.blank
  | .negSucc _ => Symbol.blank

theorem contents_append_blanks (row : List Symbol) (k : Nat) :
    contents (row ++ List.replicate k Symbol.blank) = contents row := by
  funext o
  cases o with
  | ofNat i =>
    by_cases inside : i < row.length
    · simp [contents, List.getElem?_append_left inside]
    · rw [Nat.not_lt] at inside
      simp [contents, List.getElem?_append_right inside, List.getElem?_replicate,
        List.getElem?_eq_none inside]
      split <;> rfl
  | negSucc i => rfl

def start (m : Machine) (row : List Symbol) : Textbook := ⟨m.initial, 0, contents row⟩

def rule? (m : Machine) (c : Textbook) : Option Rule :=
  (m.state? c.state).bind fun q => q.rules.toList.find? (·.read = c.cells c.head)

def apply (c : Textbook) (r : Rule) : Textbook :=
  ⟨r.next, c.head + r.direction.delta, Function.update c.cells c.head r.write⟩

def advance (m : Machine) : Nat → Textbook → Textbook
  | 0, c => c
  | n + 1, c =>
    match c.rule? m with
    | none => c
    | some r => advance m n (c.apply r)

def path (m : Machine) : Nat → Textbook → List (Textbook × Rule)
  | 0, _ => []
  | n + 1, c =>
    match c.rule? m with
    | none => []
    | some r => (c, r) :: path m n (c.apply r)

open Classical in
noncomputable def extent (cells : Int → Symbol) : Option (Int × Int) :=
  if extended : ∃ ends : Int × Int, Tape.IsExtent cells ends.1 ends.2 then some extended.choose
  else none

noncomputable def written (cells : Int → Symbol) : Int × List Symbol :=
  match extent cells with
  | some (first, last) => (first, (Tape.offsets first last).map cells)
  | none => (0, [])

noncomputable def report (m : Machine) (steps : Nat) (c : Textbook) (trace : List TraceEntry) :
    Report :=
  ⟨m.nameOf c.state, c.state, .noMatchingRule, steps, c.head, (written c.cells).1,
    (written c.cells).2, trace⟩

def traceEntry (m : Machine) (c : Textbook) (r : Rule) (taken : Nat) : TraceEntry :=
  ⟨taken + 1, m.nameOf c.state, c.head, r.read, r.write, r.direction, m.nameOf r.next⟩

def trace (m : Machine) (steps : List (Textbook × Rule)) : List TraceEntry :=
  steps.zipIdx.map fun p => traceEntry m p.1.1 p.1.2 p.2

noncomputable def window (c : Textbook) : Int × Int :=
  match extent c.cells with
  | some (first, last) => (min first c.head, max last c.head)
  | none => (c.head, c.head)

noncomputable def picture? (m : Machine) (c : Textbook) : Option String :=
  let indentation := (c.head - c.window.1).toNat
  if indentation ≤ OneTape.Configuration.maxIndentation then
    some (Symbol.text ((Tape.offsets c.window.1 c.window.2).map c.cells) ++ "\n" ++
      String.ofList (List.replicate indentation ' ') ++ "^ " ++ m.nameOf c.state)
  else none

structure Snapshot where
  step : Nat
  state : String
  head : Int
  picture? : Option String

noncomputable def snapshot (m : Machine) (c : Textbook) (taken : Nat) : Snapshot :=
  ⟨taken, m.nameOf c.state, c.head, c.picture? m⟩

/-! ## Runs -/

noncomputable def run (m : Machine) (row : List Symbol) (fuel : Nat) : Option Report :=
  let c := advance m fuel (start m row)
  match c.rule? m with
  | none => some (report m (path m fuel (start m row)).length c [])
  | some _ => none

def bound (limit : Option Nat) (fuel : Nat) : Nat := limit.elim fuel (min fuel)

noncomputable def runWith (m : Machine) (options : RunOptions) (row : List Symbol) (fuel : Nat) :
    Outcome :=
  let n := bound options.stepLimit fuel
  let c := advance m n (start m row)
  let steps := path m n (start m row)
  match c.rule? m with
  | none => .halted (report m steps.length c (if options.recordTrace then trace m steps else []))
  | some _ =>
    if options.stepLimit.any (· ≤ steps.length) then
      .limitExceeded ⟨options.stepLimit.getD 0, m.nameOf c.state, c.head⟩
    else .unfinished

noncomputable def observe (m : Machine) (options : RunOptions) (row : List Symbol) (fuel : Nat) :
    List Snapshot :=
  let n := bound options.stepLimit fuel
  let steps := path m n (start m row)
  (steps.zipIdx.map fun p => snapshot m p.1.1 p.2) ++
    [snapshot m (advance m n (start m row)) steps.length]

end Textbook

end OneTape
