import OneTape.Proofs.CommandLine.Words
import OneTape.Proofs.Description.Flag
import OneTape.Proofs.Execution.Scanning
import OneTape.Proofs.Execution.View

namespace OneTape

namespace Machine

variable {m : Machine} {row : List Symbol} {c : Configuration} {fuel n : Nat}

/-! ## The debug bit -/

theorem advance_withDebug (debug : Bool) : (m.withDebug debug).advance n c = m.advance n c := by
  induction n generalizing c with
  | zero => rfl
  | succ n ih =>
    cases applies : m.rule? c with
    | none =>
      have also : (m.withDebug debug).rule? c = none := applies
      rw [advance_succ_none applies, advance_succ_none also]
    | some r =>
      have also : (m.withDebug debug).rule? c = some r := applies
      rw [advance_succ_some applies, advance_succ_some also, ih]

theorem runWith_withDebug (debug : Bool) (limit : Option Nat) :
    (m.withDebug debug).runWith ⟨limit, false⟩ row fuel = m.runWith ⟨limit, false⟩ row fuel := by
  rw [runWith_eq, runWith_eq]
  dsimp only
  rw [advance_withDebug]
  rfl

theorem run_withDebug (debug : Bool) : (m.withDebug debug).run row fuel = m.run row fuel := by
  rw [run_eq, run_eq, advance_withDebug]
  rfl

end Machine

namespace CommandLine

open Transcript

variable {files : Files.Access} {a : Arguments} {m : Machine} {word : String} {fuel : Nat}
variable {command : List String}

/-! ## What does not depend on the presentation -/

/-- How a run on a word ends, and with which errors, if nothing gets in the way. -/
def outcome (m : Machine) (limit : Option Nat) (fuel : Nat) (word : String) : Transcript :=
  warning m word ++
    match m.runWith ⟨limit, false⟩ (Symbol.ofWord word) fuel with
    | .halted _ => {}
    | .limitExceeded e => exceeded word e
    | .unfinished => { code := none }

theorem silent_result : (result m a a.runOptions word fuel).silent =
    match m.runWith ⟨a.stepLimit, false⟩ (Symbol.ofWord word) fuel with
    | .halted _ => {}
    | .limitExceeded e => exceeded word e
    | .unfinished => { code := none } := by
  have traced : m.runWith a.runOptions (Symbol.ofWord word) fuel = _ :=
    Machine.runWith_recordTrace a.stepLimit (a.json && a.trace)
  cases returned : m.runWith ⟨a.stepLimit, false⟩ (Symbol.ofWord word) fuel with
  | halted r =>
    rw [returned] at traced
    rw [result_of_halted traced]
    rfl
  | limitExceeded e =>
    rw [returned] at traced
    rw [result_of_exceeded traced]
    rfl
  | unfinished =>
    rw [returned] at traced
    rw [result, traced]
    rfl

theorem silent_runWord (visible : ¬ Hidden m a fuel word) :
    (runWord m a fuel word).silent = outcome m a.stepLimit fuel word := by
  have warned : (warning m word).silent = warning m word := by
    rw [warning_eq]
    rfl
  rw [runWord_eq, silent_append, silent_append, silent_shown visible, append_nil, silent_result,
    warned, outcome]

theorem outcome_withDebug (debug : Bool) (limit : Option Nat) (fuel : Nat) (word : String) :
    outcome (m.withDebug debug) limit fuel word = outcome m limit fuel word := by
  rw [outcome, outcome, Machine.runWith_withDebug]
  rfl

theorem code_runWord_of_hidden (hidden : Hidden m a fuel word) :
    (runWord m a fuel word).code = some 101 := by
  obtain ⟨visible, -⟩ | ⟨visible, -⟩ | ⟨-, whole⟩ | ⟨visible, -⟩ := runWord_cases m a fuel word
  · exact absurd hidden visible
  · exact absurd hidden visible
  · rw [whole]
  · exact absurd hidden visible

theorem code_runWord_of_exceeded {e : StepLimitExceeded} (visible : ¬ Hidden m a fuel word)
    (returned : m.runWith a.runOptions (Symbol.ofWord word) fuel = .limitExceeded e) :
    (runWord m a fuel word).code = some 1 := by
  have ending := congrArg code (eq_of_silent (silent_shown visible))
  rw [runWord_eq, result_of_exceeded returned, append_code, append_code, ending, warning_eq]
  rfl

theorem code_execute_of_one (parsed : parse command = .ok (.run a)) (loads : a.Loads files m)
    (inputs : a.inputs = [word]) (fuel : Nat) :
    (execute files command fuel).code = (runWord m a fuel word).code := by
  rw [execute_eq parsed loads, runMachine_eq, inputs, List.map_singleton, concat_cons, concat_nil,
    append_nil, append_of_success rfl]

theorem steps_of_hidden (hidden : Hidden m a fuel word) : Configuration.maxIndentation < fuel ∧
    ∀ l ∈ a.stepLimit, Configuration.maxIndentation < l := by
  obtain ⟨-, c, seen, outside⟩ := hidden
  have many : Configuration.maxIndentation < c.steps := by
    by_contra few
    exact outside ((Machine.visits_of_mem_observed seen).picture?_isSome (Nat.not_lt.1 few))
  obtain ⟨enough, allowed⟩ := Machine.steps_of_mem_observed seen
  exact ⟨Nat.lt_of_lt_of_le many enough, fun l given => Nat.lt_of_lt_of_le many (allowed l given)⟩

theorem exists_report (completed : (runWord m a fuel word).code = some 0) : ∃ r trace,
    m.run (Symbol.ofWord word) fuel = some r ∧
      (runWord m a fuel word).stdout =
        (shown m a fuel word).stdout ++ reportText m a word { r with trace := trace } ∧
      trace.length = if a.json && a.trace then r.steps else 0 := by
  obtain ⟨-, r, returned, whole⟩ | ⟨-, e, -, whole⟩ | ⟨-, whole⟩ | ⟨-, -, unfinished⟩ :=
    runWord_cases m a fuel word
  · obtain ⟨k, c, halts, -, enough, rfl⟩ := Machine.runWith_eq_halted_iff.1 returned
    refine ⟨m.report c [], _, halts.run enough, by rw [whole]; rfl, ?_⟩
    obtain ⟨taken, rfl, -⟩ := Machine.haltsAfter_iff.1 halts
    have steps : (m.report (m.advance k (m.start (Symbol.ofWord word))) []).steps = k := by
      show (m.advance k (m.start (Symbol.ofWord word))).steps = k
      rw [Machine.steps_advance, taken]
      exact Nat.zero_add k
    rw [steps]
    cases a.json && a.trace
    · rfl
    · rw [if_pos rfl, if_pos rfl, Machine.traceOf, List.length_map, taken]
  · simp [whole] at completed
  · simp [whole] at completed
  · simp [unfinished] at completed

def Arguments.presented (a : Arguments) (trace json analyze : Bool) : Arguments :=
  { a with trace := trace, json := json, analyze := analyze }

def wordsRun (m : Machine) (a : Arguments) (fuel : Nat) : List String :=
  attempted (runWord m a fuel) a.inputs

def Visible (m : Machine) (a : Arguments) (fuel : Nat) : Prop :=
  ∀ word ∈ wordsRun m a fuel, ¬ Hidden m a fuel word

theorem execute_eq_wordsRun (parsed : parse command = .ok (.run a)) (loads : a.Loads files m)
    (fuel : Nat) : execute files command fuel =
      ⟨a.findingsText m, "", some 0⟩ ++ concat ((wordsRun m a fuel).map (runWord m a fuel)) := by
  rw [execute_eq parsed loads, runMachine_eq, wordsRun, concat_attempted]

theorem visible_outcome (visible : Visible m a fuel) :
    wordsRun m a fuel = attempted (outcome m a.stepLimit fuel) a.inputs ∧
      (concat ((wordsRun m a fuel).map (runWord m a fuel))).silent =
        (concat (a.inputs.map (outcome m a.stepLimit fuel))).silent := by
  have same : ∀ word ∈ wordsRun m a fuel,
      (runWord m a fuel word).silent = outcome m a.stepLimit fuel word :=
    fun word member => silent_runWord (visible word member)
  have attempts : attempted (outcome m a.stepLimit fuel) a.inputs = wordsRun m a fuel :=
    attempted_congr fun word member => by rw [← same word member]; rfl
  refine ⟨attempts.symm, ?_⟩
  rw [← concat_attempted (outcome m a.stepLimit fuel), attempts]
  refine silent_concat_congr fun word member => ?_
  rw [← same word member]
  rfl

theorem wordsRun_withDebug {trace json analyze debug : Bool} (visible : Visible m a fuel)
    (visible' : Visible (m.withDebug debug) (a.presented trace json analyze) fuel) :
    wordsRun (m.withDebug debug) (a.presented trace json analyze) fuel = wordsRun m a fuel ∧
      (concat ((wordsRun (m.withDebug debug) (a.presented trace json analyze) fuel).map
        (runWord (m.withDebug debug) (a.presented trace json analyze) fuel))).silent =
        (concat ((wordsRun m a fuel).map (runWord m a fuel))).silent := by
  obtain ⟨words, ending⟩ := visible_outcome visible
  obtain ⟨words', ending'⟩ := visible_outcome visible'
  have same : outcome (m.withDebug debug) (a.presented trace json analyze).stepLimit fuel =
      outcome m a.stepLimit fuel := funext fun word => outcome_withDebug debug a.stepLimit fuel word
  rw [same] at words' ending'
  exact ⟨words'.trans words.symm, ending'.trans ending.symm⟩

theorem silent_execute (parsed : parse command = .ok (.run a)) (loads : a.Loads files m)
    (fuel : Nat) : (execute files command fuel).silent =
      (concat ((wordsRun m a fuel).map (runWord m a fuel))).silent := by
  rw [execute_eq_wordsRun parsed loads, silent_append]
  exact nil_append _

/-- If no configuration is to be shown whose head is out of view, then neither the errors, nor how
the program ends, nor the words that are run depend on the options of presentation and the debug
bit. Otherwise the program ends with the code 101. -/
theorem presentation_without_influence (parsed : parse command = .ok (.run a))
    (loads : a.Loads files m) :
    (∀ trace json analyze debug other files' fuel,
      parse other = .ok (.run (a.presented trace json analyze)) →
      a.Loads files' (m.withDebug debug) → Visible m a fuel →
      Visible (m.withDebug debug) (a.presented trace json analyze) fuel →
        (execute files' other fuel).code = (execute files command fuel).code ∧
        (execute files' other fuel).stderr = (execute files command fuel).stderr ∧
        wordsRun (m.withDebug debug) (a.presented trace json analyze) fuel = wordsRun m a fuel) ∧
    (∀ trace json analyze debug fuel word,
      (runWord (m.withDebug debug) (a.presented trace json analyze) fuel word).code = some 0 →
      ∃ r entries, m.run (Symbol.ofWord word) fuel = some r ∧
        (runWord (m.withDebug debug) (a.presented trace json analyze) fuel word).stdout =
          (shown (m.withDebug debug) (a.presented trace json analyze) fuel word).stdout ++
            reportText m (a.presented trace json analyze) word { r with trace := entries } ∧
        (json = true →
          (shown (m.withDebug debug) (a.presented trace json analyze) fuel word).stdout = "") ∧
        entries.length = if json && trace then r.steps else 0) ∧
    (∀ fuel, execute files command fuel = ⟨a.findingsText m, "", some 0⟩ ++
      concat ((wordsRun m a fuel).map (runWord m a fuel))) ∧
    (∀ fuel, ¬ Visible m a fuel → (execute files command fuel).code = some 101 ∧
      a.shows m = true ∧ Configuration.maxIndentation < fuel ∧
      ∀ l ∈ a.stepLimit, Configuration.maxIndentation < l) ∧
    ∀ path gap more trailing rest, a.program = some path → Grammar.AtLineEnd rest.toList →
      files.readText path = .ok (Description.directiveText gap more true trailing rest) →
      ∀ files' : Files.Access,
        files'.readText path = .ok (Description.directiveText gap more false trailing rest) →
        ∃ debug, a.Loads files' (m.withDebug debug) := by
  refine ⟨?same, ?reported, execute_eq_wordsRun parsed loads, ?hidden, ?directive⟩
  case same =>
    intro trace json analyze debug other files' fuel parsed' loads' visible visible'
    obtain ⟨words, ending⟩ := wordsRun_withDebug visible visible'
    rw [← silent_execute parsed loads, ← silent_execute parsed' loads'] at ending
    have code := congrArg Transcript.code ending
    have stderr := congrArg Transcript.stderr ending
    exact ⟨code, stderr, words⟩
  case reported =>
    intro trace json analyze debug fuel word completed
    obtain ⟨r, entries, returned, printed, length⟩ := exists_report completed
    rw [Machine.run_withDebug] at returned
    refine ⟨r, entries, returned, printed, ?_, length⟩
    rintro rfl
    rw [shown, if_neg (by simp [Arguments.shows, Arguments.presented])]
  case hidden =>
    intro fuel outside
    obtain ⟨word, member, hidden⟩ : ∃ word ∈ wordsRun m a fuel, Hidden m a fuel word := by
      simpa [Visible] using outside
    have code := code_runWord_of_hidden hidden
    refine ⟨?_, hidden.1, steps_of_hidden hidden⟩
    rw [execute_eq parsed loads, runMachine_eq, append_of_success rfl]
    exact (code_concat_of_attempted member (by simp [code])).trans code
  case directive =>
    intro path gap more trailing rest given ended text files' text'
    obtain ⟨debug, made⟩ := Description.exists_ofText_directiveText gap more trailing rest ended
    refine ⟨debug, loads.1, .inl ⟨path, given, ?_⟩⟩
    have loaded := loads.loadFile given
    rw [loadFile_eq_ok_iff text] at loaded
    rw [loadFile_eq_ok_iff text', made, loaded]
    rfl

theorem presentation_without_influence_one : ∃ files files' : Files.Access,
    files.readText "m.tm" = .ok "DEBUG 1\nA, B\ninit A\nA:\n\t1, 0, >, B\n" ∧
      files'.readText "m.tm" = .ok "DEBUG 0\nA, B\ninit A\nA:\n\t1, 0, >, B\n" ∧
      (execute files ["-p", "m.tm", "1"] 1).code = some 0 ∧
      (execute files' ["-p", "m.tm", "1", "-d", "--json"] 1).code = some 0 ∧
      (execute files' ["-p", "m.tm", "1", "-d", "--json"] 1).stderr =
        (execute files ["-p", "m.tm", "1"] 1).stderr := by
  let rest := "\nA, B\ninit A\nA:\n\t1, 0, >, B\n"
  let a : Arguments := { program := some "m.tm", words := ["1"] }
  have parsed : parse ["-p", "m.tm", "1"] = .ok (.run a) := by decide +kernel
  have parsed' : parse ["-p", "m.tm", "1", "-d", "--json"] =
      .ok (.run (a.presented true true false)) := by decide +kernel
  have checked : ((Machine.ofText ("DEBUG 1" ++ rest)).toOption.any fun m =>
      decide ((runWord m a 1 "1").code = some 0)) = true := by decide +kernel
  obtain ⟨m, read, completed⟩ := Description.ok_of_any checked
  have text := readText_oneFile "m.tm" ("DEBUG 1" ++ rest)
  have text' := readText_oneFile "m.tm" ("DEBUG 0" ++ rest)
  have loads : a.Loads (oneFile "m.tm" ("DEBUG 1" ++ rest)) m :=
    ⟨rfl, .inl ⟨"m.tm", rfl, (loadFile_eq_ok_iff text).2 read⟩⟩
  obtain ⟨same, -, -, outside, directive⟩ := presentation_without_influence parsed loads
  have ended : Grammar.AtLineEnd rest.toList := by simp [rest, Grammar.AtLineEnd]; rfl
  obtain ⟨debug, loads'⟩ := directive "m.tm" .space [] [] rest rfl ended text _ text'
  have visible : Visible m a 1 := by
    by_contra hidden
    exact absurd (outside 1 hidden).2.2.1 (by decide)
  have visible' : Visible (m.withDebug debug) (a.presented true true false) 1 := by
    rintro word - ⟨shows, -⟩
    simp [Arguments.shows, Arguments.presented] at shows
  obtain ⟨code, stderr, -⟩ := same true true false debug _ _ 1 parsed' loads' visible visible'
  have success : (execute (oneFile "m.tm" ("DEBUG 1" ++ rest)) ["-p", "m.tm", "1"] 1).code =
      some 0 :=
    (code_execute_of_one parsed loads rfl 1).trans (of_decide_eq_true completed)
  exact ⟨_, _, text, text', success, code.trans success, stderr⟩

/-! ## A head that leaves the view -/

/-- A machine that leaves a one behind and moves on to the right. -/
def leaving : String := "A B\ninit A\nA:\n\t_ 1 > B\nB:\n\t_ _ > B\n"

def leavingTable : Description.Outline where
  states := [("A", [⟨.blank, '1', .right, 1⟩]), ("B", [⟨.blank, .blank, .right, 1⟩])]
  initial := 0
  accepting := []
  debug := false

theorem exists_leaving (valid : m.Valid) (table : m.outline = leavingTable) (n : Nat) : ∃ c,
    m.RunsOnAfter [] (1 + n) c ∧ c.head = 1 + n ∧ c.tape.read 0 = '1' := by
  let cells : Int → Symbol := Function.update (Textbook.contents []) 0 '1'
  have initial : m.initial = 0 := congrArg Description.Outline.initial table
  have passes : m.outline.pass? 1 .blank = some 1 := by
    rw [table]
    rfl
  have blank (o : Int) (behind : 0 < o) : cells o = .blank := by
    show Function.update (Textbook.contents []) 0 '1' o = .blank
    rw [Function.update_of_ne (by omega)]
    exact Textbook.contents_of_length_le (by simp; omega)
  have scanned : m.outline.scan? 1 (List.replicate n .blank) = some 1 :=
    Description.Outline.scan?_replicate passes n
  have first : Textbook.after? m 1 (.start m []) = some ⟨1, 1, cells⟩ := by
    have found : m.outline.rule? 0 .blank = some ⟨.blank, '1', .right, 1⟩ := by rw [table]; rfl
    have under : Textbook.contents [] 0 = .blank := rfl
    rw [Textbook.start, initial]
    exact Textbook.after?_step under found
  have ahead : ∀ k (inside : k < (List.replicate n Symbol.blank).length),
      cells (1 + k) = (List.replicate n Symbol.blank)[k] :=
    fun k inside => by simpa using blank (1 + k) (by omega)
  have walked := Textbook.after?_scan ahead scanned
  have arrives : Textbook.after? m (1 + n) (.start m []) = some ⟨1, 1 + n, cells⟩ := by
    rw [Textbook.after?_add, first, Option.bind_some]
    simpa using walked
  rw [← Textbook.plain_start, ← Textbook.plain_after? valid, Option.map_eq_some_iff] at arrives
  obtain ⟨c, reached, plain⟩ := arrives
  have running : m.isHalted c = false := by
    rw [Machine.isHalted, ← Textbook.plain_rule? valid, plain,
      Textbook.rule?_eq (blank (1 + n) (by omega)), table]
    rfl
  have read : c.tape.read = cells := congrArg Textbook.cells plain
  refine ⟨c, ⟨reached, running⟩, congrArg Textbook.head plain, ?_⟩
  rw [read]
  exact Function.update_self ..

/-- With the configurations shown the same command ends with another code. -/
theorem shown_head_out_of_view : ∃ files t t', files.readText "m.tm" = .ok leaving ∧
    Ends files ["-p", "m.tm", "-s", "65536"] t ∧ t.code = some 1 ∧
    Ends files ["-p", "m.tm", "-s", "65536", "-d"] t' ∧ t'.code = some 101 := by
  let a : Arguments := { program := some "m.tm", stepLimit := some 65536 }
  have parsed : parse ["-p", "m.tm", "-s", "65536"] = .ok (.run a) := by decide +kernel
  have parsed' : parse ["-p", "m.tm", "-s", "65536", "-d"] =
      .ok (.run (a.presented true false false)) := by decide +kernel
  have checked : (Machine.ofText leaving).toOption.any
      (fun m => decide (m.outline = leavingTable)) = true := by decide +kernel
  obtain ⟨m, read, table⟩ := Description.ok_of_any checked
  have table : m.outline = leavingTable := of_decide_eq_true table
  have text := readText_oneFile "m.tm" leaving
  have loads : a.Loads (oneFile "m.tm" leaving) m :=
    ⟨rfl, .inl ⟨"m.tm", rfl, (loadFile_eq_ok_iff text).2 read⟩⟩
  obtain ⟨c, runs, head, one⟩ := exists_leaving (Machine.valid_ofText read) table 65535
  have row : Symbol.ofWord "" = [] := rfl
  have exceeds : m.runWith a.runOptions (Symbol.ofWord "") 65536 =
      .limitExceeded (m.limitExceeded 65536 c) := by
    rw [row]
    exact Machine.runWith_eq_limitExceeded_iff.2 ⟨Nat.le_refl _, c, runs, rfl⟩
  have quiet : ¬ Hidden m a 65536 "" := by
    rintro ⟨shows, -⟩
    have debug : m.debug = false := congrArg Description.Outline.debug table
    simp [Arguments.shows, debug, a] at shows
  have hidden : Hidden m (a.presented true false false) 65536 "" := by
    refine ⟨rfl, c, ?_, fun inView => ?_⟩
    · rw [row]
      exact runs.mem_observed (Nat.le_refl _)
    · have near := Machine.picture?_isSome_iff.1 inView 0 (by rw [one]; decide)
      rw [head] at near
      exact absurd near (by decide)
  have code := code_execute_of_one parsed loads rfl 65536
  rw [code_runWord_of_exceeded quiet exceeds] at code
  have code' := code_execute_of_one parsed' (m := m) loads rfl 65536
  rw [code_runWord_of_hidden hidden] at code'
  exact ⟨_, _, _, text, ⟨by simp [code], 65536, rfl⟩, code, ⟨by simp [code'], 65536, rfl⟩, code'⟩

end CommandLine

end OneTape
