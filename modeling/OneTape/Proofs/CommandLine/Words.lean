import OneTape.Proofs.CommandLine.Endings
import OneTape.Proofs.CommandLine.Spelling
import OneTape.Proofs.Description.Errors

namespace OneTape.CommandLine

open Transcript

variable {files : Files.Access} {a : Arguments} {m : Machine} {word : String} {fuel : Nat}
variable {command : List String} {t : Transcript} {words : List String} {ts : List Transcript}

def Arguments.Loads (a : Arguments) (files : Files.Access) (m : Machine) : Prop :=
  a.list = false ∧
    ((∃ path, a.program = some path ∧ Machine.loadFile files path = .ok m) ∨
      (a.program = none ∧ ∃ name, a.builtin = some name ∧ Machine.builtin name = .ok m))

theorem Arguments.Loads.loadFile {path : String} (loads : a.Loads files m)
    (given : a.program = some path) : Machine.loadFile files path = .ok m := by
  obtain ⟨-, ⟨path', given', loaded⟩ | ⟨noFile, -⟩⟩ := loads
  · obtain rfl := Option.some.inj (given.symm.trans given')
    exact loaded
  · rw [given] at noFile
    cases noFile

theorem loadFile_eq_ok_iff {path text : String} (read : files.readText path = .ok text) :
    Machine.loadFile files path = .ok m ↔ Machine.ofText text = .ok m := by
  simp only [Machine.loadFile, read, Machine.load]
  cases Machine.ofText text <;> simp

def Arguments.alone (a : Arguments) (word : String) : Arguments :=
  { a with analyze := false, words := [word] }

def Arguments.findingsText (a : Arguments) (m : Machine) : String :=
  if a.analyze then foundText m else ""

theorem Arguments.Readable.alone (readable : a.Readable) (word : String) :
    (a.alone word).Readable where
  path_ne := readable.path_ne
  limit_le := readable.limit_le
  given := by simp [Arguments.alone]
  oneMachine := readable.oneMachine

theorem execute_eq (parsed : parse command = .ok (.run a)) (loads : a.Loads files m) (fuel : Nat) :
    execute files command fuel = runMachine a fuel m := by
  rw [execute, parsed]
  show runRequest files a fuel = _
  -- Behind the new name the kernel does not evaluate the catalog when it compares the branches.
  obtain ⟨find, isBuiltin⟩ : ∃ find, Machine.builtin = find := ⟨_, rfl⟩
  rw [Arguments.Loads, isBuiltin] at loads
  rw [runRequest, isBuiltin]
  obtain ⟨runs, ⟨path, given, loaded⟩ | ⟨noFile, name, given, loaded⟩⟩ := loads
  · simp [runs, given, loaded]
  · simp [runs, noFile, given, loaded]

theorem runMachine_eq (a : Arguments) (fuel : Nat) (m : Machine) : runMachine a fuel m =
    ⟨a.findingsText m, "", some 0⟩ ++ concat (a.inputs.map (runWord m a fuel)) := by
  rw [runMachine, Arguments.findingsText]
  split
  · rw [findings_eq]
  · rfl

theorem runMachine_alone (a : Arguments) (fuel : Nat) (m : Machine) (word : String) :
    runMachine (a.alone word) fuel m = runWord m a fuel word := by
  rw [runMachine_eq]
  show ({} : Transcript) ++ concat [runWord m a fuel word] = _
  rw [nil_append, concat_cons, concat_nil, append_nil]

def WordEnds (m : Machine) (a : Arguments) (word : String) (t : Transcript) : Prop :=
  t.code ≠ none ∧ ∃ fuel, runWord m a fuel word = t

theorem ends_alone_iff (parsed : parse command = .ok (.run (a.alone word)))
    (loads : a.Loads files m) : Ends files command t ↔ WordEnds m a word t := by
  have same (fuel : Nat) : execute files command fuel = runWord m a fuel word := by
    rw [execute_eq parsed (m := m) loads, runMachine_alone]
  simp only [Ends, WordEnds, same]

theorem exists_common_fuel (each : List.Forall₂ (WordEnds m a) words ts) :
    ∃ fuel, ∀ enough, fuel ≤ enough → words.map (runWord m a enough) = ts := by
  induction each with
  | nil => exact ⟨0, fun _ _ => rfl⟩
  | cons first _ ih =>
    obtain ⟨ended, k, rfl⟩ := first
    obtain ⟨n, further⟩ := ih
    refine ⟨max k n, fun enough le => ?_⟩
    rw [List.map_cons, further enough (Nat.le_trans (Nat.le_max_right _ _) le),
      runWord_settles (Nat.le_trans (Nat.le_max_left _ _) le) ended]

theorem ends_of_success (parsed : parse command = .ok (.run a)) (loads : a.Loads files m)
    (each : List.Forall₂ (WordEnds m a) a.inputs ts) (succeed : ∀ t ∈ ts, t.code = some 0) :
    Ends files command ⟨a.findingsText m ++ String.join (ts.map stdout),
      String.join (ts.map stderr), some 0⟩ := by
  obtain ⟨fuel, enough⟩ := exists_common_fuel each
  refine ⟨by simp, fuel, ?_⟩
  rw [execute_eq parsed loads, runMachine_eq, enough fuel (Nat.le_refl fuel),
    concat_of_success succeed, append_of_success rfl, String.empty_append]

theorem ends_of_failure (parsed : parse command = .ok (.run a)) (loads : a.Loads files m)
    {before after : List String} (inputs : a.inputs = before ++ word :: after)
    (each : List.Forall₂ (WordEnds m a) before ts) (succeed : ∀ t ∈ ts, t.code = some 0)
    (last : WordEnds m a word t) (fails : t.code ≠ some 0) :
    Ends files command ⟨a.findingsText m ++ String.join (ts.map stdout) ++ t.stdout,
      String.join (ts.map stderr) ++ t.stderr, t.code⟩ := by
  obtain ⟨k, enough⟩ := exists_common_fuel each
  obtain ⟨ended, n, rfl⟩ := last
  have alone : runWord m a (max k n) word = runWord m a n word :=
    runWord_settles (Nat.le_max_right k n) ended
  refine ⟨ended, max k n, ?_⟩
  rw [execute_eq parsed loads, runMachine_eq, inputs, List.map_append, List.map_cons, alone,
    enough _ (Nat.le_max_left k n), concat_of_failure succeed fails, append_of_success rfl,
    String.empty_append, String.append_assoc]

theorem wordEnds_cases (ends : WordEnds m a word t) :
    (t.code = some 0 ∧ t.stderr = (warning m word).stderr) ∨
      (t.code = some 1 ∧ ∃ e fuel,
        m.runWith a.runOptions (Symbol.ofWord word) fuel = .limitExceeded e ∧
          t.stderr = (warning m word).stderr ++ (exceeded word e).stderr) ∨
      (t.code = some 101 ∧ a.shows m = true ∧
        (∃ c, m.Visits (Symbol.ofWord word) c ∧ m.picture? c = none) ∧
          t.stderr = (warning m word).stderr ++ outOfView.stderr) := by
  obtain ⟨ended, fuel, rfl⟩ := ends
  obtain ⟨-, r, -, whole⟩ | ⟨-, e, returned, whole⟩ | ⟨⟨shows, c, seen, outside⟩, whole⟩ |
    ⟨-, -, unfinished⟩ := runWord_cases m a fuel word
  · rw [whole]
    exact .inl ⟨rfl, rfl⟩
  · rw [whole]
    exact .inr (.inl ⟨rfl, e, fuel, returned, rfl⟩)
  · rw [whole]
    have none : m.picture? c = none := by simpa [InView] using outside
    exact .inr (.inr ⟨rfl, shows, ⟨c, Machine.visits_of_mem_observed seen, none⟩, rfl⟩)
  · exact absurd unfinished ended

/-- A command prints what its words print when they are run alone, one after the other up to the
first word that fails, which also decides how the command ends. -/
theorem words_run_in_turn (parsed : parse command = .ok (.run a)) (loads : a.Loads files m) :
    (∀ word, parse (a.alone word).spelled = .ok (.run (a.alone word))) ∧
    ∀ single : String → List String,
      (∀ word, parse (single word) = .ok (.run (a.alone word))) →
      (∀ ts, List.Forall₂ (fun word => Ends files (single word)) a.inputs ts →
        (∀ t ∈ ts, t.code = some 0) → ∀ whole, Ends files command whole ↔ whole =
          ⟨a.findingsText m ++ String.join (ts.map stdout), String.join (ts.map stderr), some 0⟩) ∧
      (∀ before word after ts t, a.inputs = before ++ word :: after →
        List.Forall₂ (fun word => Ends files (single word)) before ts →
        (∀ t ∈ ts, t.code = some 0) → Ends files (single word) t → t.code ≠ some 0 →
        ∀ whole, Ends files command whole ↔ whole =
          ⟨a.findingsText m ++ String.join (ts.map stdout) ++ t.stdout,
            String.join (ts.map stderr) ++ t.stderr, t.code⟩) ∧
      ∀ word t, Ends files (single word) t →
        (t.code = some 0 ∧ t.stderr = (warning m word).stderr) ∨
        (t.code = some 1 ∧ ∃ e fuel,
          m.runWith a.runOptions (Symbol.ofWord word) fuel = .limitExceeded e ∧
            t.stderr = (warning m word).stderr ++ (exceeded word e).stderr) ∨
        (t.code = some 101 ∧ a.shows m = true ∧
          (∃ c, m.Visits (Symbol.ofWord word) c ∧ m.picture? c = none) ∧
            t.stderr = (warning m word).stderr ++ outOfView.stderr) := by
  refine ⟨fun word => parse_spelled ((readable_of_parse parsed).alone word), fun single alone => ?_⟩
  have same (word : String) : Ends files (single word) = WordEnds m a word :=
    funext fun t => propext (ends_alone_iff (alone word) loads)
  simp only [same]
  refine ⟨fun ts each succeed whole => ?_, fun before word after ts t inputs each succeed last fails
    whole => ?_, fun word t => wordEnds_cases⟩
  · exact (ends_of_success parsed loads each succeed).iff
  · exact (ends_of_failure parsed loads inputs each succeed last fails).iff

def oneFile (path text : String) : Files.Access where
  read p := if p = path then .ok text.toByteArray else .error .notFound
  list _ := .error .notFound

theorem readText_oneFile (path text : String) : (oneFile path text).readText path = .ok text := by
  simp [Files.Access.readText, oneFile, String.fromUTF8?, String.isValidUTF8]
  rfl

theorem words_run_in_turn_three : ∃ files : Files.Access,
    files.readText "m.tm" = .ok "A, B\ninit A\nA:\n\t1, 0, >, B\n" ∧
      ∀ t, Ends files ["-p", "m.tm", "-s", "0", "0", "1", "1"] t ↔
        t = ⟨"Final state: A\nREJECTED\n",
          "WARN tumasim: Input contains symbols not read by any rule: ['0'] input=\"0\"\n" ++
            (exceeded "1" ⟨0, "A", 0⟩).stderr, some 1⟩ := by
  let a : Arguments := { program := some "m.tm", stepLimit := some 0, words := ["0", "1", "1"] }
  have parsed : parse ["-p", "m.tm", "-s", "0", "0", "1", "1"] = .ok (.run a) := by decide +kernel
  have checked : ((Machine.ofText "A, B\ninit A\nA:\n\t1, 0, >, B\n").toOption.any fun m =>
      runWord m a 0 "0" == ⟨"Final state: A\nREJECTED\n",
        "WARN tumasim: Input contains symbols not read by any rule: ['0'] input=\"0\"\n", some 0⟩ &&
      m.runWith ⟨some 0, false⟩ ['1'] 0 == .limitExceeded ⟨0, "A", 0⟩ &&
      warning m "1" == {} && !m.debug) = true := by decide +kernel
  obtain ⟨m, read, answers⟩ := Description.ok_of_any checked
  have text := readText_oneFile "m.tm" "A, B\ninit A\nA:\n\t1, 0, >, B\n"
  have loads : a.Loads (oneFile "m.tm" "A, B\ninit A\nA:\n\t1, 0, >, B\n") m :=
    ⟨rfl, .inl ⟨"m.tm", rfl, (loadFile_eq_ok_iff text).2 read⟩⟩
  refine ⟨_, text, ?_⟩
  simp only [Bool.and_eq_true, beq_iff_eq, Bool.not_eq_true'] at answers
  obtain ⟨⟨⟨zero, returned⟩, unwarned⟩, silent⟩ := answers
  have one : runWord m a 0 "1" = exceeded "1" ⟨0, "A", 0⟩ := by
    rw [runWord_eq, unwarned, shown, if_neg (by simp [Arguments.shows, silent, a]), nil_append,
      nil_append]
    exact result_of_exceeded returned
  obtain ⟨spelled, turns⟩ := words_run_in_turn parsed loads
  have ends_zero := (ends_alone_iff (spelled "0") loads).2 ⟨by simp, 0, zero⟩
  have ends_one := (ends_alone_iff (spelled "1") loads).2 ⟨by simp [exceeded, failed], 0, one⟩
  exact fun t => (turns _ spelled).2.1 ["0"] "1" ["1"] _ _ rfl (.cons ends_zero .nil)
    (List.forall_mem_singleton.2 rfl) ends_one (by simp [exceeded, failed]) t

end OneTape.CommandLine
