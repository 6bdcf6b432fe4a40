import OneTape.Proofs.CommandLine.Transcripts
import OneTape.Proofs.Execution.Observing

namespace OneTape.CommandLine

open Transcript

variable {m : Machine} {a : Arguments} {options : RunOptions} {word : String} {n k fuel : Nat}
variable {c : Configuration} {files : Files.Access} {arguments : List String} {t u : Transcript}

def foundText (m : Machine) : String :=
  String.join (m.analyze.map fun finding => "warning: " ++ finding.message ++ "\n")

theorem findings_eq (m : Machine) : findings m = ⟨foundText m, "", some 0⟩ := by
  have lines := concat_lines (m.analyze.map fun finding => "warning: " ++ finding.message)
  rwa [List.map_map, List.map_map] at lines

theorem warning_eq (m : Machine) (word : String) :
    warning m word = ⟨"", (warning m word).stderr, some 0⟩ := by
  unfold warning
  split <;> rfl

def InView (m : Machine) (c : Configuration) : Prop := (m.picture? c).isSome = true

instance : Decidable (InView m c) := inferInstanceAs (Decidable (_ = true))

def outOfView : Transcript := { stderr := "Error: the head is out of view\n", code := some 101 }

theorem silent_picture (m : Machine) (c : Configuration) :
    (picture m c).silent = if InView m c then {} else outOfView := by
  by_cases inView : InView m c
  · obtain ⟨drawn, found⟩ := Option.isSome_iff_exists.1 inView
    rw [if_pos inView, picture, found]
    rfl
  · have none : m.picture? c = none := by simpa [InView] using inView
    rw [if_neg inView, picture, none]
    rfl

theorem silent_pictures : (pictures m options word fuel).silent =
    if ∀ c ∈ m.observed options (Symbol.ofWord word) fuel, InView m c then {} else outOfView := by
  rw [pictures, Machine.observe_eq_map]
  exact silent_concat_map (by decide) (silent_picture m) _

/-! ## Runs on one word -/

def Arguments.runOptions (a : Arguments) : RunOptions := ⟨a.stepLimit, a.json && a.trace⟩

def Arguments.shows (a : Arguments) (m : Machine) : Bool := (a.trace || m.debug) && !a.json

def shown (m : Machine) (a : Arguments) (fuel : Nat) (word : String) : Transcript :=
  if a.shows m then inputCodes word ++ pictures m a.runOptions word fuel else {}

theorem runWord_eq : runWord m a fuel word =
    warning m word ++ shown m a fuel word ++ result m a a.runOptions word fuel := rfl

/-- A configuration is to be shown that has no picture. -/
def Hidden (m : Machine) (a : Arguments) (fuel : Nat) (word : String) : Prop :=
  a.shows m = true ∧ ∃ c ∈ m.observed a.runOptions (Symbol.ofWord word) fuel, ¬ InView m c

theorem silent_shown_of_hidden (hidden : Hidden m a fuel word) :
    (shown m a fuel word).silent = outOfView := by
  obtain ⟨shows, c, seen, outside⟩ := hidden
  have not_all : ¬ ∀ c ∈ m.observed a.runOptions (Symbol.ofWord word) fuel, InView m c :=
    fun all => outside (all c seen)
  rw [shown, if_pos shows, silent_append, silent_pictures, if_neg not_all]
  rfl

theorem silent_shown (visible : ¬ Hidden m a fuel word) : (shown m a fuel word).silent = {} := by
  rw [shown]
  split
  · have all : ∀ c ∈ m.observed a.runOptions (Symbol.ofWord word) fuel, InView m c := by
      intro c seen
      by_contra outside
      exact visible ⟨‹_›, c, seen, outside⟩
    rw [silent_append, silent_pictures, if_pos all]
    rfl
  · rfl

def reportText (m : Machine) (a : Arguments) (word : String) (r : Report) : String :=
  if a.json then (r.toJson word (m.verdict r)).text ++ "\n"
  else "Final state: " ++ r.finalState ++ "\n" ++ ((m.verdict r).text ++ "\n")

def exceeded (word : String) (e : StepLimitExceeded) : Transcript :=
  failed ("run on input " ++ Text.quoteString word ++ " did not halt") [e.message]

theorem exceeded_eq (word : String) (e : StepLimitExceeded) :
    exceeded word e = ⟨"", (exceeded word e).stderr, some 1⟩ := rfl

theorem result_of_halted {r : Report}
    (returned : m.runWith options (Symbol.ofWord word) fuel = .halted r) :
    result m a options word fuel = ⟨reportText m a word r, "", some 0⟩ := by
  rw [result, returned, reportText]
  dsimp only
  split
  · rfl
  · rw [append_of_success rfl]
    rfl

theorem result_of_exceeded {e : StepLimitExceeded}
    (returned : m.runWith options (Symbol.ofWord word) fuel = .limitExceeded e) :
    result m a options word fuel = exceeded word e := by
  rw [result, returned]
  rfl

/-- Only a run that is reported on succeeds. -/
theorem runWord_cases (m : Machine) (a : Arguments) (fuel : Nat) (word : String) :
    (¬ Hidden m a fuel word ∧
      ∃ r, m.runWith a.runOptions (Symbol.ofWord word) fuel = .halted r ∧
        runWord m a fuel word = ⟨(shown m a fuel word).stdout ++ reportText m a word r,
          (warning m word).stderr, some 0⟩) ∨
    (¬ Hidden m a fuel word ∧
      ∃ e, m.runWith a.runOptions (Symbol.ofWord word) fuel = .limitExceeded e ∧
        runWord m a fuel word = ⟨(shown m a fuel word).stdout,
          (warning m word).stderr ++ (exceeded word e).stderr, some 1⟩) ∨
    (Hidden m a fuel word ∧ runWord m a fuel word = ⟨(shown m a fuel word).stdout,
      (warning m word).stderr ++ outOfView.stderr, some 101⟩) ∨
    (¬ Hidden m a fuel word ∧ m.runWith a.runOptions (Symbol.ofWord word) fuel = .unfinished ∧
      (runWord m a fuel word).code = none) := by
  by_cases hidden : Hidden m a fuel word
  · have shown_eq := eq_of_silent (silent_shown_of_hidden hidden)
    refine .inr (.inr (.inl ⟨hidden, ?_⟩))
    rw [runWord_eq, append_assoc, warning_eq, append_of_success rfl, shown_eq,
      append_of_failure (by simp [outOfView]), String.empty_append]
    rfl
  have shown_eq := eq_of_silent (silent_shown hidden)
  have before : warning m word ++ shown m a fuel word =
      ⟨(shown m a fuel word).stdout, (warning m word).stderr, some 0⟩ := by
    rw [warning_eq, shown_eq, append_of_success rfl, String.empty_append, String.append_empty]
  rw [runWord_eq, before, append_of_success rfl]
  cases returned : m.runWith a.runOptions (Symbol.ofWord word) fuel with
  | halted r =>
    refine .inl ⟨hidden, r, rfl, ?_⟩
    rw [result_of_halted returned, String.append_empty]
  | limitExceeded e =>
    refine .inr (.inl ⟨hidden, e, rfl, ?_⟩)
    rw [result_of_exceeded returned, exceeded_eq, String.append_empty]
  | unfinished =>
    refine .inr (.inr (.inr ⟨hidden, rfl, ?_⟩))
    rw [result, returned]

/-! ## More fuel -/

theorem exists_shown_append (le : k ≤ n) :
    ∃ t, shown m a n word = shown m a k word ++ t := by
  obtain ⟨more, whole⟩ : m.observed a.runOptions (Symbol.ofWord word) k <+:
      m.observed a.runOptions (Symbol.ofWord word) n := Machine.observed_prefix le
  rw [shown, shown]
  split
  · rw [pictures, pictures, Machine.observe_eq_map, Machine.observe_eq_map, ← whole,
      List.map_append, concat_append, ← append_assoc]
    exact ⟨_, rfl⟩
  · exact ⟨{}, rfl⟩

theorem runWord_settles (le : k ≤ n) : Settles (runWord m a k word) (runWord m a n word) := by
  intro ended
  rw [runWord_eq] at ended
  rw [runWord_eq, runWord_eq]
  by_cases finished : m.runWith a.runOptions (Symbol.ofWord word) k = .unfinished
  · -- Without a result the run has ended in what was shown, and more is shown behind it.
    have stopped : (warning m word ++ shown m a k word).code ≠ some 0 := by
      intro success
      rw [append_code, if_pos success, result, finished] at ended
      exact ended rfl
    obtain ⟨more, shown_eq⟩ : ∃ t, shown m a n word = shown m a k word ++ t :=
      exists_shown_append le
    rw [shown_eq, ← append_assoc, append_of_failure stopped, append_of_failure stopped,
      append_of_failure stopped]
  · have same : shown m a n word = shown m a k word := by
      rw [shown, shown, pictures, pictures, Machine.observe_eq_map, Machine.observe_eq_map,
        Machine.observed_of_le finished le]
    rw [same, result, result, Machine.runWith_of_le finished le]

theorem runMachine_settles (le : k ≤ n) : Settles (runMachine a k m) (runMachine a n m) :=
  (Settles.refl _).append (.concat fun _ _ => runWord_settles le)

theorem runRequest_settles (le : k ≤ n) :
    Settles (runRequest files a k) (runRequest files a n) := by
  -- Behind the new name the kernel does not evaluate the catalog when it compares the branches.
  obtain ⟨find, isBuiltin⟩ : ∃ find, Machine.builtin = find := ⟨_, rfl⟩
  rw [runRequest, runRequest, isBuiltin]
  split
  · exact .refl _
  · split
    · split
      · exact .refl _
      · exact runMachine_settles le
    · split
      · exact .refl _
      · exact runMachine_settles le
    · exact .refl _

theorem execute_settles (le : k ≤ n) :
    Settles (execute files arguments k) (execute files arguments n) := by
  unfold execute
  split
  · exact .refl _
  · exact .refl _
  · exact .refl _
  · exact runRequest_settles le

/-- The program has ended, whatever fuel that takes, and the transcript is all that it printed. -/
def Ends (files : Files.Access) (arguments : List String) (t : Transcript) : Prop :=
  t.code ≠ none ∧ ∃ fuel, execute files arguments fuel = t

theorem Ends.unique (first : Ends files arguments t) (second : Ends files arguments u) : t = u := by
  obtain ⟨ended, k, rfl⟩ := first
  obtain ⟨ended', n, rfl⟩ := second
  rcases Nat.le_total k n with le | le
  · exact (execute_settles le ended).symm
  · exact execute_settles le ended'

theorem Ends.iff (ends : Ends files arguments t) : Ends files arguments u ↔ u = t := by
  constructor
  · exact fun other => other.unique ends
  · rintro rfl
    exact ends

end OneTape.CommandLine
