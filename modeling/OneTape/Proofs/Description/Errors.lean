import OneTape.Description.Draft
import OneTape.Proofs.Description.Rows

namespace OneTape.Description

def Error.line? : Error → Option Nat
  | unmatched | missingInit | tooLarge _ => none
  | missingHeader line | unknownInitial _ line | unknownAccepting _ line | unknownBlock _ line
  | unknownTarget _ line _ | duplicateRule _ _ line _ | malformedRule line _ | duplicateName _ line
  | duplicateBlock _ line | duplicateSection _ line | ruleOutsideBlock line
  | unexpectedLine line _ => some line

/-- If this is an error, then an error in the line. -/
def Blames {α : Type} (number : Nat) (r : Except Error α) : Prop :=
  ∀ e, r = .error e → e.line? = some number

variable {α β : Type} {number : Nat} {e : Error}

theorem error_of_map {r : Except Error α} {f : α → β} (failed : r.map f = .error e) :
    r = .error e := by
  cases r with
  | error e' => rw [Except.error.inj failed]
  | ok a => cases failed

theorem ok_of_any {r : Except Error α} {p : α → Bool} (holds : r.toOption.any p = true) :
    ∃ a, r = .ok a ∧ p a = true := by
  cases r with
  | error e => cases holds
  | ok a => exact ⟨a, rfl, holds⟩

theorem blames_ok (a : α) : Blames number (.ok a) := fun _ failed => nomatch failed

theorem blames_error (line : e.line? = some number) :
    Blames number (.error e : Except Error α) := by
  rintro _ ⟨⟩
  exact line

theorem Blames.bind {r : Except Error α} {f : α → Except Error β} (first : Blames number r)
    (further : ∀ a, Blames number (f a)) : Blames number (r >>= f) := by
  cases r with
  | error e => exact blames_error (first e rfl)
  | ok a => exact further a

theorem Blames.foldlM {step : β → α → Except Error β} (each : ∀ b a, Blames number (step b a))
    (xs : List α) (b : β) : Blames number (xs.foldlM step b) := by
  induction xs generalizing b with
  | nil => exact blames_ok b
  | cons a xs ih =>
    rw [List.foldlM_cons]
    exact (each b a).bind ih

theorem blames_declare (d : Draft) (name : String) : Blames number (d.declare number name) := by
  unfold Draft.declare
  split
  · exact blames_error rfl
  · exact blames_ok _

theorem blames_resolveAccepting (d : Draft) (names : List String) :
    Blames number (d.resolveAccepting number names) := by
  refine (Blames.foldlM (fun b name => ?_) names _).bind fun b => blames_ok _
  unfold Draft.listAccepting
  dsimp only
  split
  · exact blames_error rfl
  · exact blames_ok _

theorem blames_addRule (d : Draft) (state : Nat) (r : Rule) :
    Blames number (d.addRule number state r) := by
  unfold Draft.addRule
  split
  · exact blames_error rfl
  · split
    · exact blames_error rfl
    · exact blames_ok _

theorem blames_readBody (d : Draft) (l : NumberedLine) : Blames l.number (d.readBody l) := by
  unfold Draft.readBody
  cases l.line with
  | init name =>
    dsimp only
    split
    · exact blames_error rfl
    · split
      · exact blames_error rfl
      · exact blames_ok _
  | accept names =>
    have resolved : Blames l.number (d.resolveAccepting l.number names) :=
      blames_resolveAccepting d names
    dsimp only
    split
    · exact blames_error rfl
    · split
      · exact blames_error (resolved _ ‹_›)
      · exact blames_ok _
  | block name =>
    dsimp only
    split
    · exact blames_error rfl
    · split
      · exact blames_error rfl
      · exact blames_ok _
  | rule read write direction target column =>
    dsimp only
    split
    · exact blames_error rfl
    · split
      · exact blames_error rfl
      · exact blames_addRule d _ _
  | directive | header | malformed | unknown => exact blames_error rfl

theorem blames_read (d : Draft) (l : NumberedLine) : Blames l.number (d.read l) := by
  have body : Blames l.number
      (if d.hasHeader then d.readBody l else .error (.missingHeader l.number)) := by
    split
    · exact blames_readBody d l
    · exact blames_error rfl
  unfold Draft.read
  cases l.line with
  | directive debug =>
    dsimp only
    split
    · exact blames_ok _
    · exact blames_error rfl
  | header names =>
    dsimp only
    split
    · exact blames_error rfl
    · exact .foldlM blames_declare names _
  | init | accept | block | rule | malformed | unknown => exact body

theorem exists_blamed_line {lines : List NumberedLine} {d : Draft}
    (failed : lines.foldlM Draft.read d = .error e) : ∃ l ∈ lines, e.line? = some l.number := by
  induction lines generalizing d with
  | nil => cases failed
  | cons l lines ih =>
    rw [List.foldlM_cons] at failed
    cases reached : d.read l with
    | error e' =>
      rw [reached] at failed
      obtain rfl : e' = e := Except.error.inj failed
      exact ⟨l, List.mem_cons_self, blames_read d l e' reached⟩
    | ok d' =>
      rw [reached] at failed
      obtain ⟨l', member, blamed⟩ := ih failed
      exact ⟨l', List.mem_cons_of_mem l member, blamed⟩

theorem assemble_eq_error {lines : List NumberedLine} (failed : assemble lines = .error e) :
    (∃ l ∈ lines, e.line? = some l.number) ∨ e = .missingInit ∨ ∃ line, e = .missingHeader line := by
  rw [assemble] at failed
  cases reached : lines.foldlM Draft.read {} with
  | error e' =>
    rw [reached] at failed
    obtain rfl : e' = e := Except.error.inj failed
    exact .inl (exists_blamed_line reached)
  | ok d =>
    rw [reached] at failed
    have failed : d.finish = .error e := failed
    unfold Draft.finish at failed
    split at failed
    · split at failed <;> cases failed
      exact .inr (.inl rfl)
    · cases failed
      exact .inr (.inr ⟨_, rfl⟩)

theorem ofText_ne_unmatched (text : String) : Machine.ofText text ≠ .error .unmatched := by
  unfold Machine.ofText Description.read
  rw [linesOf?_eq]
  split
  · simp
  · intro failed
    rcases assemble_eq_error failed with ⟨l, -, blamed⟩ | missing | ⟨line, missing⟩
    · cases blamed
    · cases missing
    · cases missing

end OneTape.Description
