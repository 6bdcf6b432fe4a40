import OneTape.Proofs.Description.Faults

namespace OneTape.Description

variable {α β γ δ : Type} {f : Nat → Nat} {d d' : Draft} {l : NumberedLine}

def Error.renumber (f : Nat → Nat) : Error → Error
  | unmatched => unmatched
  | missingHeader line => missingHeader (f line)
  | missingInit => missingInit
  | unknownInitial name line => unknownInitial name (f line)
  | unknownAccepting name line => unknownAccepting name (f line)
  | unknownBlock name line => unknownBlock name (f line)
  | unknownTarget name line column => unknownTarget name (f line) column
  | duplicateRule state symbol line firstLine => duplicateRule state symbol (f line) (f firstLine)
  | malformedRule line text => malformedRule (f line) text
  | duplicateName name line => duplicateName name (f line)
  | duplicateBlock name line => duplicateBlock name (f line)
  | duplicateSection which line => duplicateSection which (f line)
  | ruleOutsideBlock line => ruleOutsideBlock (f line)
  | unexpectedLine line text => unexpectedLine (f line) text
  | tooLarge bytes => tooLarge bytes

def NumberedLine.renumber (f : Nat → Nat) (l : NumberedLine) : NumberedLine :=
  { l with number := f l.number }

/-- Both results are values, which are related, or both are errors, which name the same lines. -/
inductive Corresponds (f : Nat → Nat) (R : α → β → Prop) : Except Error α → Except Error β → Prop
  | ok {a : α} {b : β} (related : R a b) : Corresponds f R (.ok a) (.ok b)
  | error (e : Error) : Corresponds f R (.error e) (.error (e.renumber f))

namespace Corresponds

variable {R : α → β → Prop} {S : γ → δ → Prop}

theorem bind {r : Except Error α} {r' : Except Error β} {g : α → Except Error γ}
    {g' : β → Except Error δ} (first : Corresponds f R r r')
    (further : ∀ a b, R a b → Corresponds f S (g a) (g' b)) :
    Corresponds f S (r >>= g) (r' >>= g') := by
  cases first with
  | ok related => exact further _ _ related
  | error e => exact .error e

theorem foldlM {step : α → γ → Except Error α} {step' : β → γ → Except Error β} {xs : List γ}
    (each : ∀ x ∈ xs, ∀ a b, R a b → Corresponds f R (step a x) (step' b x)) {a : α} {b : β}
    (related : R a b) : Corresponds f R (xs.foldlM step a) (xs.foldlM step' b) := by
  induction xs generalizing a b with
  | nil => exact .ok related
  | cons x xs ih =>
    obtain ⟨first, others⟩ := List.forall_mem_cons.1 each
    rw [List.foldlM_cons, List.foldlM_cons]
    exact (first a b related).bind fun _ _ => ih others

theorem eq_ok {r : Except Error α} {r' : Except Error α} {a : α} (same : Corresponds f Eq r r')
    (made : r = .ok a) : r' = .ok a := by
  subst made
  cases same with
  | ok related => rw [related]

theorem eq_error {r : Except Error α} {r' : Except Error β} {e : Error}
    (same : Corresponds f R r r') (failed : r = .error e) : r' = .error (e.renumber f) := by
  subst failed
  cases same with
  | error => rfl

end Corresponds

/-! ## Drafts of such lines -/

structure Draft.Renumbered (f : Nat → Nat) (d d' : Draft) : Prop where
  others : ∃ lines, d' = { d with ruleLines := lines }
  ruleLines : ∀ state s, d'.ruleLine? state s = (d.ruleLine? state s).map f

namespace Draft.Renumbered

theorem refl_empty (f : Nat → Nat) : Renumbered f {} {} where
  others := ⟨∅, rfl⟩
  ruleLines state s := by simp [ruleLine?]

theorem declare (renumbered : Renumbered f d d') (number : Nat) (name : String) :
    Corresponds f (Renumbered f) (d.declare number name) (d'.declare (f number) name) := by
  obtain ⟨⟨lines, rfl⟩, ruleLines⟩ := renumbered
  unfold Draft.declare
  dsimp only
  split
  · exact .error _
  · exact .ok ⟨⟨lines, rfl⟩, ruleLines⟩

theorem resolveAccepting (renumbered : Renumbered f d d') (number : Nat) (names : List String) :
    Corresponds f Eq (d.resolveAccepting number names) (d'.resolveAccepting (f number) names) := by
  obtain ⟨⟨lines, rfl⟩, -⟩ := renumbered
  have listed : Corresponds f Eq (names.foldlM (d.listAccepting number) ([], ∅))
      (names.foldlM (Draft.listAccepting { d with ruleLines := lines } (f number)) ([], ∅)) := by
    refine .foldlM (fun name _ both both' same => ?_) rfl
    subst same
    unfold listAccepting
    dsimp only
    split
    · exact .error _
    · exact .ok rfl
  exact listed.bind fun _ _ same => .ok (by rw [same])

theorem addRule (renumbered : Renumbered f d d') (number state : Nat) (r : Rule) :
    Corresponds f (Renumbered f) (d.addRule number state r) (d'.addRule (f number) state r) := by
  obtain ⟨⟨lines, rfl⟩, ruleLines⟩ := renumbered
  unfold Draft.addRule
  dsimp only
  split
  · exact .error _
  · split
    · -- The error names the line of the earlier rule too, which is looked up in the drafts.
      have named : (Draft.ruleLine? { d with ruleLines := lines } state r.read).getD (f number) =
          f ((d.ruleLine? state r.read).getD number) := by
        rw [ruleLines]
        exact Option.getD_map ..
      rw [named]
      exact .error (.duplicateRule ..)
    · refine .ok ⟨⟨_, rfl⟩, fun state' s => ?_⟩
      refine (ruleLine?_insert { d with ruleLines := lines } ..).trans ?_
      rw [ruleLine?_insert]
      split
      · rfl
      · exact ruleLines state' s

theorem readBody (renumbered : Renumbered f d d') (l : NumberedLine) :
    Corresponds f (Renumbered f) (d.readBody l) (d'.readBody (l.renumber f)) := by
  obtain ⟨number, text, line⟩ := l
  cases line with
  | init name =>
    obtain ⟨⟨lines, rfl⟩, ruleLines⟩ := renumbered
    unfold Draft.readBody NumberedLine.renumber
    dsimp only
    split
    · exact .error _
    · split
      · exact .error _
      · exact .ok ⟨⟨lines, rfl⟩, ruleLines⟩
  | accept names =>
    have resolved := renumbered.resolveAccepting number names
    obtain ⟨⟨lines, rfl⟩, ruleLines⟩ := renumbered
    unfold Draft.readBody NumberedLine.renumber
    dsimp only
    split
    · exact .error _
    · split <;> rename_i listed
      · rw [resolved.eq_error listed]
        exact .error _
      · rw [resolved.eq_ok listed]
        exact .ok ⟨⟨lines, rfl⟩, ruleLines⟩
  | block name =>
    obtain ⟨⟨lines, rfl⟩, ruleLines⟩ := renumbered
    unfold Draft.readBody NumberedLine.renumber
    dsimp only
    split
    · exact .error _
    · split
      · exact .error _
      · exact .ok ⟨⟨lines, rfl⟩, ruleLines⟩
  | rule read write direction target column =>
    have added (state next : Nat) := renumbered.addRule number state
      ⟨read, write, direction, next⟩
    obtain ⟨⟨lines, rfl⟩, ruleLines⟩ := renumbered
    unfold Draft.readBody NumberedLine.renumber
    dsimp only
    split
    · exact .error _
    · split
      · exact .error _
      · exact added _ _
  | malformed => exact .error (.malformedRule ..)
  | unknown | directive | header => exact .error (.unexpectedLine ..)

/-- Only the number of a directive matters, and only if it is 1. -/
theorem read (renumbered : Renumbered f d d') (l : NumberedLine)
    (directive : l.line.directive?.isSome → (f l.number = 1 ↔ l.number = 1)) :
    Corresponds f (Renumbered f) (d.read l) (d'.read (l.renumber f)) := by
  have body := renumbered.readBody l
  obtain ⟨number, text, line⟩ := l
  cases line with
  | directive debug =>
    obtain ⟨⟨lines, rfl⟩, ruleLines⟩ := renumbered
    unfold Draft.read NumberedLine.renumber
    dsimp only
    simp only [directive rfl]
    split
    · exact .ok ⟨⟨lines, rfl⟩, ruleLines⟩
    · exact .error (.unexpectedLine ..)
  | header names =>
    have declared {d d' : Draft} (related : Renumbered f d d') :
        Corresponds f (Renumbered f) (names.foldlM (Draft.declare number) d)
          (names.foldlM (Draft.declare (f number)) d') :=
      .foldlM (fun name _ _ _ related => related.declare number name) related
    obtain ⟨⟨lines, rfl⟩, ruleLines⟩ := renumbered
    unfold Draft.read NumberedLine.renumber
    dsimp only
    split
    · exact .error _
    · exact declared ⟨⟨lines, rfl⟩, ruleLines⟩
  | _ =>
    obtain ⟨⟨lines, rfl⟩, ruleLines⟩ := renumbered
    unfold Draft.read
    dsimp only [NumberedLine.renumber]
    split
    · exact body
    · exact .error (.missingHeader _)

theorem finish (renumbered : Renumbered f d d') : d'.finish = d.finish := by
  obtain ⟨⟨lines, rfl⟩, -⟩ := renumbered
  rfl

end Draft.Renumbered

/-! ## Machines and errors -/

section

variable {lines : List NumberedLine} {e : Error}
variable (directives : ∀ l ∈ lines, l.line.directive?.isSome → (f l.number = 1 ↔ l.number = 1))
include directives

theorem read_renumbered : Corresponds f (Draft.Renumbered f) (lines.foldlM Draft.read {})
    ((lines.map (NumberedLine.renumber f)).foldlM Draft.read {}) := by
  rw [List.foldlM_map]
  exact .foldlM (fun l member _ _ related => related.read l (directives l member)) (.refl_empty f)

theorem assemble_of_read {d : Draft} (reached : lines.foldlM Draft.read {} = .ok d) :
    assemble (lines.map (NumberedLine.renumber f)) = d.finish := by
  have same := read_renumbered directives
  rw [reached] at same
  rw [assemble]
  cases renumbered : (lines.map (NumberedLine.renumber f)).foldlM Draft.read {} with
  | error e => rw [renumbered] at same; cases same
  | ok d' =>
    rw [renumbered] at same
    obtain ⟨related⟩ := same
    exact related.finish

theorem assemble_renumber_ok {m : Machine} (made : assemble lines = .ok m) :
    assemble (lines.map (NumberedLine.renumber f)) = .ok m := by
  rw [assemble] at made
  cases reached : lines.foldlM Draft.read {} with
  | error e => rw [reached, error_bind] at made; cases made
  | ok d =>
    rw [reached, ok_bind] at made
    rw [assemble_of_read directives reached, made]

theorem assemble_renumber_error (failed : assemble lines = .error e)
    (other : ∀ n, e = .missingHeader n → ∃ l ∈ lines, l.line.directive? = none) :
    assemble (lines.map (NumberedLine.renumber f)) = .error (e.renumber f) := by
  rw [assemble] at failed
  cases reached : lines.foldlM Draft.read {} with
  | error e' =>
    rw [reached, error_bind, Except.error.injEq] at failed
    subst failed
    rw [assemble, (read_renumbered directives).eq_error reached, error_bind]
  | ok d =>
    rw [reached, ok_bind] at failed
    rw [assemble_of_read directives reached, failed]
    rcases finish_eq_error failed with rfl | ⟨headless, n, missing⟩
    · rfl
    · obtain ⟨l, member, none⟩ := other n missing
      have directive := directives_of_headless reached headless l member
      simp [none] at directive

theorem assemble_renumber_missingHeader {n : Nat}
    (failed : assemble lines = .error (.missingHeader n))
    (only : ∀ l ∈ lines, l.line.directive?.isSome) :
    assemble (lines.map (NumberedLine.renumber f)) = .error (.missingHeader n) := by
  rw [assemble] at failed
  cases reached : lines.foldlM Draft.read {} with
  | error e' =>
    rw [reached, error_bind, Except.error.injEq] at failed
    subst failed
    obtain ⟨l, member, none⟩ := exists_other_of_missingHeader reached
    have directive := only l member
    simp [none] at directive
  | ok d =>
    rw [reached, ok_bind] at failed
    rw [assemble_of_read directives reached, failed]

end

end OneTape.Description
