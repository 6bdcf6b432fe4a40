import OneTape.Proofs.Description.RoundTrip
import OneTape.Proofs.Description.Truncation

namespace OneTape

def Machine.withDebug (m : Machine) (debug : Bool) : Machine := { m with debug := debug }

namespace Description

open Grammar

namespace Draft

variable {d : Draft} {number : Nat}

def withDebug (debug : Bool) (d : Draft) : Draft := { d with debug := debug }

variable (debug : Bool)

theorem declare_withDebug (name : String) :
    declare number (d.withDebug debug) name = (declare number d name).map (withDebug debug) := by
  unfold declare withDebug
  dsimp only
  split <;> rfl

theorem addRule_withDebug (state : Nat) (r : Rule) : (d.withDebug debug).addRule number state r =
    (d.addRule number state r).map (withDebug debug) := by
  unfold addRule withDebug
  dsimp only
  split
  · rfl
  · split <;> rfl

theorem resolveAccepting_withDebug (names : List String) :
    (d.withDebug debug).resolveAccepting number names = d.resolveAccepting number names := rfl

theorem readBody_withDebug (l : NumberedLine) :
    (d.withDebug debug).readBody l = (d.readBody l).map (withDebug debug) := by
  obtain ⟨number, text, line⟩ := l
  cases line with
  | init name =>
    unfold readBody withDebug
    dsimp only
    split
    · rfl
    · split <;> rfl
  | accept names =>
    unfold readBody
    dsimp only
    rw [resolveAccepting_withDebug]
    unfold withDebug
    dsimp only
    split
    · rfl
    · split <;> rfl
  | block name =>
    unfold readBody withDebug
    dsimp only
    split
    · rfl
    · split <;> rfl
  | rule read write direction target column =>
    have added (state next : Nat) :
        addRule (d.withDebug debug) number state ⟨read, write, direction, next⟩ =
          (addRule d number state ⟨read, write, direction, next⟩).map (withDebug debug) :=
      addRule_withDebug debug state _
    unfold readBody
    dsimp only
    simp only [added]
    unfold withDebug
    dsimp only
    split
    · rfl
    · split <;> rfl
  | malformed | unknown | directive | header => rfl

theorem foldlM_map {α β ε : Type} (step : β → α → Except ε β) {f : β → β}
    (commutes : ∀ b x, step (f b) x = (step b x).map f) (xs : List α) (b : β) :
    xs.foldlM step (f b) = (xs.foldlM step b).map f := by
  induction xs generalizing b with
  | nil => rfl
  | cons x xs ih =>
    rw [List.foldlM_cons, List.foldlM_cons, commutes]
    cases step b x with
    | error e => rfl
    | ok c => exact ih c

/-- A line is read alike whatever the debug bit is. A directive sets it anew. -/
theorem exists_read_withDebug (l : NumberedLine) :
    ∃ b, (d.withDebug debug).read l = (d.read l).map (withDebug b) := by
  obtain ⟨number, text, line⟩ := l
  cases line with
  | directive flag =>
    refine ⟨flag, ?_⟩
    unfold read withDebug
    dsimp only
    split <;> rfl
  | header names =>
    refine ⟨debug, ?_⟩
    have declared := foldlM_map (declare number) (fun d name => declare_withDebug debug name) names
      { d with hasHeader := true, current := none }
    unfold read
    dsimp only
    split
    · rename_i repeated
      rw [if_pos (show d.hasHeader = true from repeated)]
      rfl
    · rename_i first
      rw [if_neg (show ¬ d.hasHeader = true from first)]
      exact declared
  | _ =>
    refine ⟨debug, ?_⟩
    unfold read
    dsimp only
    split
    · rename_i started
      rw [if_pos (show d.hasHeader = true from started)]
      exact readBody_withDebug debug _
    · rename_i early
      rw [if_neg (show ¬ d.hasHeader = true from early)]
      rfl

theorem exists_foldlM_withDebug (lines : List NumberedLine) :
    ∃ b, lines.foldlM read (d.withDebug debug) = (lines.foldlM read d).map (withDebug b) := by
  induction lines generalizing d debug with
  | nil => exact ⟨debug, rfl⟩
  | cons l lines ih =>
    obtain ⟨c, first⟩ := exists_read_withDebug (d := d) debug l
    rw [List.foldlM_cons, List.foldlM_cons, first]
    cases d.read l with
    | error e => exact ⟨debug, rfl⟩
    | ok d => exact ih c

theorem finish_withDebug :
    (d.withDebug debug).finish = d.finish.map (·.withDebug debug) := by
  unfold finish withDebug
  dsimp only
  split
  · split <;> rfl
  · rfl

end Draft

/-! ## The flag of the directive -/

def directiveLine (gap : Blank) (more : List Blank) (debug : Bool) (trailing : List Blank) :
    List Char :=
  ['D', 'E', 'B', 'U', 'G'] ++ (blanks (gap :: more) ++ [if debug then '1' else '0']) ++
    blanks trailing

variable {gap : Blank} {more trailing : List Blank} {rest : List Char}

theorem linesOfRow_directiveLine (gap : Blank) (more trailing : List Blank) (debug : Bool) : ∃ text,
    linesOfRow (.first, directiveLine gap more debug trailing) = [⟨1, text, .directive debug⟩] := by
  obtain ⟨⟨number, text, line⟩, single, first, meaning⟩ :=
    readsAs_directive gap more debug trailing .first
  obtain rfl : number = 1 := first
  have directive : line = .directive debug := by
    cases line <;> simp_all [Line.unplaced]
  exact ⟨text, by rw [directiveLine, single, directive]⟩

theorem unbroken_directiveLine (debug : Bool) :
    Unbroken (directiveLine gap more debug trailing) := by
  have flag : Unbroken [if debug then '1' else '0'] := by cases debug <;> exact unbroken_of_all rfl
  exact unbroken_append (unbroken_append (unbroken_of_all rfl)
    (unbroken_append (unbroken_blanks _) flag)) (unbroken_blanks _)

theorem advance_directiveLine (debug : Bool) (start : Position) :
    start.advance (directiveLine gap more debug trailing) =
      start.advance (directiveLine gap more true trailing) := by
  simp only [directiveLine, Position.advance, List.foldl_append]
  cases debug <;> rfl

theorem exists_described_directiveLine (gap : Blank) (more trailing : List Blank)
    (ended : AtLineEnd rest) : ∃ lines, ∀ debug,
    described .first [] (directiveLine gap more debug trailing ++ rest) =
      linesOfRow (.first, directiveLine gap more debug trailing) ++ lines := by
  cases rest with
  | nil =>
    refine ⟨[], fun debug => ?_⟩
    rw [described, rows_append (unbroken_directiveLine debug), List.nil_append, rows,
      List.flatMap_singleton, List.append_nil]
  | cons c rest =>
    obtain ⟨next, text, newline, -, -⟩ :=
      exists_next_row ended .first (directiveLine gap more true trailing) rest
    refine ⟨described next [] text, fun debug => ?_⟩
    obtain ⟨next', text', newline', split, -⟩ :=
      exists_next_row ended .first (directiveLine gap more debug trailing) rest
    rw [advance_directiveLine, newline] at newline'
    cases newline'
    rw [described, rows_append (unbroken_directiveLine debug)]
    exact described_cons split

def directiveText (gap : Blank) (more : List Blank) (debug : Bool) (trailing : List Blank)
    (rest : String) : String :=
  String.ofList (directiveLine gap more debug trailing) ++ rest

theorem utf8ByteSize_directiveText (debug : Bool) (rest : String) :
    (directiveText gap more debug trailing rest).utf8ByteSize =
      (directiveText gap more true trailing rest).utf8ByteSize := by
  simp only [directiveText, directiveLine, String.ofList_append, String.utf8ByteSize_append]
  cases debug <;> rfl

theorem assemble_directive (flag : Bool) (text : List Char) (lines : List NumberedLine) :
    ∃ debug, assemble (⟨1, text, .directive flag⟩ :: lines) =
      (lines.foldlM Draft.read { hasDirective := true } >>= Draft.finish).map
        (·.withDebug debug) := by
  obtain ⟨b, further⟩ := Draft.exists_foldlM_withDebug (d := { hasDirective := true }) flag lines
  refine ⟨b, ?_⟩
  rw [assemble, List.foldlM_cons]
  refine (congrArg (· >>= Draft.finish) further).trans ?_
  cases lines.foldlM Draft.read { hasDirective := true } with
  | error e => rfl
  | ok d => exact Draft.finish_withDebug b

theorem exists_ofText_directiveText (gap : Blank) (more trailing : List Blank) (rest : String)
    (ended : AtLineEnd rest.toList) :
    ∃ debug, Machine.ofText (directiveText gap more false trailing rest) =
      (Machine.ofText (directiveText gap more true trailing rest)).map (·.withDebug debug) := by
  have size : (directiveText gap more false trailing rest).utf8ByteSize =
      (directiveText gap more true trailing rest).utf8ByteSize :=
    utf8ByteSize_directiveText false rest
  by_cases small : (directiveText gap more true trailing rest).utf8ByteSize ≤ maxSize
  swap
  · rw [Machine.ofText, Machine.ofText, size, if_pos (Nat.not_le.1 small),
      if_pos (Nat.not_le.1 small)]
    exact ⟨false, rfl⟩
  obtain ⟨lines, behind⟩ := exists_described_directiveLine gap more trailing ended
  have assembled (flag : Bool) : ∃ text,
      Machine.ofText (directiveText gap more flag trailing rest) =
        assemble (⟨1, text, .directive flag⟩ :: lines) := by
    obtain ⟨text, row⟩ := linesOfRow_directiveLine gap more trailing flag
    refine ⟨text, ?_⟩
    rw [ofText_eq_assemble (by rwa [utf8ByteSize_directiveText]), directiveText,
      String.toList_append, String.toList_ofList, behind, row]
    rfl
  obtain ⟨zero, read_zero⟩ := assembled false
  obtain ⟨one, read_one⟩ := assembled true
  obtain ⟨b, made_zero⟩ := assemble_directive false zero lines
  obtain ⟨c, made_one⟩ := assemble_directive true one lines
  refine ⟨b, ?_⟩
  rw [read_zero, read_one, made_zero, made_one]
  cases lines.foldlM Draft.read { hasDirective := true } >>= Draft.finish <;> rfl

end Description

end OneTape
