import OneTape.Proofs.Description.Assembly
import OneTape.Proofs.Description.Numbering

namespace OneTape.Description

open Grammar

variable {start position : Position} {row before after line rest text : List Char}
variable {pieces others : List (Position × List Char)} {e : Error}

/-! ## Lines of the beginning of a text -/

def Ended (before : List Char) : Prop := ∀ c ∈ before.getLast?, breaksLine c = true

/-- A text can be cut into `before` and `after` without cutting one of its lines. -/
def Between (before after : List Char) : Prop := AtLineEnd after ∨ Ended before

theorem linesOf?_eq_described (text : List Char) :
    linesOf? text = some (described .first [] text) := linesOf?_eq text

theorem linesOfRow_nil (start : Position) : linesOfRow (start, []) = [] :=
  linesOfRow_blanks start []

theorem described_nil (start : Position) : described start [] [] = [] := by
  simp [described, rows, linesOfRow_nil]

theorem rows_break {c : Char} (breaks : breaksLine c = true)
    (apart : ∀ text', c = '\r' → text ≠ '\n' :: text') :
    rows start row (c :: text) = (start, row) :: rows ((start.advance row).next c) [] text := by
  rcases breaksLine_iff.1 breaks with rfl | rfl
  · exact rows_lineFeed
  · exact rows_carriageReturn fun text' => apart text' rfl

theorem described_cons {next : Position}
    (split : rows start row text = (start, row) :: rows next [] rest) :
    described start row text = linesOfRow (start, row) ++ described next [] rest := by
  rw [described, split, List.flatMap_cons, described]

theorem Ended.tail {c : Char} (ended : Ended (row ++ c :: before)) : Ended before := by
  intro d last
  have longer : (row ++ c :: before).getLast? = some d := by
    cases before with
    | nil => cases last
    | cons b before => simpa using last
  exact ended d longer

theorem exists_described_break {c : Char} (breaks : breaksLine c = true) (start : Position)
    (row rest : List Char) :
    ∃ more, described start row (c :: rest) = linesOfRow (start, row) ++ more := by
  obtain ⟨next, text, -, split, -⟩ := exists_next_row breaks start row rest
  exact ⟨_, described_cons split⟩

theorem described_prefix (unbroken : Unbroken row) (between : Between (row ++ before) after) :
    described start row before <+: described start row (before ++ after) := by
  fun_induction rows start row before with
  | case1 start row =>
    have alone : described start row [] = linesOfRow (start, row) := by simp [described, rows]
    rw [alone, List.nil_append]
    cases after with
    | nil => exact alone ▸ List.prefix_rfl
    | cons c after =>
      rcases between with ended | ended
      · obtain ⟨more, split⟩ := exists_described_break ended start row after
        exact split ▸ List.prefix_append _ more
      · -- The row ends with a line end and holds none.
        have nothing : row = [] := by
          rw [List.append_nil] at ended
          cases last : row.getLast? with
          | none => exact List.getLast?_eq_none_iff.1 last
          | some d =>
            have ordinary := unbroken d (List.mem_of_getLast? last)
            rw [ended d last] at ordinary
            cases ordinary
        subst nothing
        rw [← alone, described_nil]
        exact List.nil_prefix
  | case2 start row before ih =>
    have further : Between ([] ++ before) after := by
      refine between.imp_right fun ended => ?_
      have last : Ended ((row ++ ['\r']) ++ '\n' :: before) := by simpa using ended
      exact last.tail
    rw [List.cons_append, List.cons_append, described_cons rows_both, described_cons rows_both]
    exact List.prefix_append_right_inj _ |>.2 (ih unbroken_nil further)
  | case3 start row c before apart breaks ih =>
    have further : Between ([] ++ before) after := between.imp_right Ended.tail
    have split : rows start row (c :: before) = _ := rows_break breaks apart
    rw [List.cons_append, described_cons split]
    by_cases feed : c = '\r' ∧ ∃ text, before ++ after = '\n' :: text
    · -- The cut is between a carriage return and its line feed.
      obtain ⟨rfl, text, same⟩ := feed
      cases before with
      | cons d before => exact absurd (List.cons.inj same).1 (by rintro rfl; exact apart _ rfl rfl)
      | nil =>
        obtain rfl : after = '\n' :: text := same
        rw [List.nil_append, described_cons rows_both, described_nil, List.append_nil]
        exact List.prefix_append _ _
    · have split' : rows start row (c :: (before ++ after)) = _ := rows_break breaks
        fun text isReturn same => feed ⟨isReturn, text, same⟩
      rw [described_cons split']
      exact List.prefix_append_right_inj _ |>.2 (ih unbroken_nil further)
  | case4 start row c before apart ordinary ih =>
    have ordinary := Bool.eq_false_iff.2 ordinary
    have same (rest : List Char) : described start row (c :: rest) =
        described start (row ++ [c]) rest := by
      rw [described, rows_cons_of_unbroken ordinary, described]
    rw [List.cons_append, same, same]
    exact ih (unbroken.concat ordinary) (by simpa using between)

theorem Cut.exists_line {pieces : List (Position × List Char)}
    (cut : Cut start text (pieces ++ (position, line) :: others)) :
    ∃ before after, text = before ++ (line ++ after) ∧ Ended before ∧ AtLineEnd after ∧
      position = start.advance before ∧
      ∀ line', Unbroken line' → Cut start (before ++ line') (pieces ++ [(position, line')]) := by
  induction pieces generalizing start text with
  | nil =>
    rw [List.nil_append] at cut
    cases cut with
    | last _ unbroken =>
      exact ⟨[], [], by simp, by simp [Ended], trivial, rfl, fun line' => .last position⟩
    | @line _ _ ending text _ unbroken ends whole further =>
      refine ⟨[], ending ++ text, by simp, by simp [Ended], ?_, rfl, fun line' => .last position⟩
      simp only [lineEnds, List.mem_cons, List.not_mem_nil, or_false] at ends
      rcases ends with rfl | rfl | rfl <;> rfl
  | cons piece pieces ih =>
    rw [List.cons_append] at cut
    generalize all : pieces ++ (position, line) :: others = further at cut
    cases cut with
    | last => simp at all
    | @line start first ending text _ unbroken ends whole cut =>
      subst all
      obtain ⟨before, after, rfl, ended, atEnd, rfl, again⟩ := ih cut
      refine ⟨first ++ (ending ++ before), after, by simp, ?_, atEnd, ?_, fun line' unbroken' => ?_⟩
      · intro c last
        cases before with
        | cons b before => exact ended c (by simpa using last)
        | nil =>
          simp only [lineEnds, List.mem_cons, List.not_mem_nil, or_false] at ends
          rcases ends with rfl | rfl | rfl <;> simp at last <;> subst last <;> rfl
      · simp [Position.advance]
      · have whole' : ending = ['\r'] → (before ++ line').head? ≠ some '\n' := by
          intro alone
          cases before with
          | cons b before => exact whole alone
          | nil =>
            intro feed
            cases unbroken' '\n' (List.mem_of_head? feed)
        have longer := Cut.line start unbroken ends whole' (again line' unbroken')
        simpa using longer

/-! ## Errors in lines -/

theorem foldlM_append_error {α β : Type} {step : β → α → Except Error β} {xs : List α} {b : β}
    (failed : xs.foldlM step b = .error e) (ys : List α) :
    (xs ++ ys).foldlM step b = .error e := by
  rw [List.foldlM_append, failed, error_bind]

theorem exists_failing {α β γ : Type} {step : γ → β → Except Error γ} {items : α → List β}
    {xs : List α} {b : γ} (failed : (xs.flatMap items).foldlM step b = .error e) :
    ∃ before x after c, xs = before ++ x :: after ∧
      (before.flatMap items).foldlM step b = .ok c ∧ (items x).foldlM step c = .error e := by
  induction xs generalizing b with
  | nil => cases failed
  | cons x xs ih =>
    rw [List.flatMap_cons, List.foldlM_append] at failed
    cases first : (items x).foldlM step b with
    | error e' =>
      rw [first, error_bind, Except.error.injEq] at failed
      exact ⟨[], x, xs, b, rfl, rfl, failed ▸ first⟩
    | ok c =>
      rw [first, ok_bind] at failed
      obtain ⟨before, y, after, d, rfl, reached, fails⟩ := ih failed
      refine ⟨x :: before, y, after, d, rfl, ?_, fails⟩
      rw [List.flatMap_cons, List.foldlM_append, first, ok_bind, reached]

theorem exists_failing_element {α β : Type} {step : β → α → Except Error β} {xs : List α} {b : β}
    (failed : xs.foldlM step b = .error e) : ∃ before x after c, xs = before ++ x :: after ∧
      before.foldlM step b = .ok c ∧ step c x = .error e := by
  rw [← List.flatMap_singleton' xs] at failed
  obtain ⟨before, x, after, c, rfl, reached, fails⟩ := exists_failing failed
  rw [List.flatMap_singleton'] at reached
  refine ⟨before, x, after, c, rfl, reached, ?_⟩
  cases last : step c x with
  | ok c' => simp [last, pure, Except.pure, ok_bind] at fails
  | error e' =>
    rw [List.foldlM_cons, last, error_bind] at fails
    exact fails

/-- The error is raised by a line of the text, and not by what its lines lack. -/
structure ByLine (text : String) (e : Error) : Prop where
  failed : Machine.ofText text = .error e
  small : ∀ bytes, e ≠ .tooLarge bytes
  initial : e ≠ .missingInit
  header : (∃ n, e = .missingHeader n) → ∃ lines, linesOf? text.toList = some lines ∧
    ∃ l ∈ lines, l.line.directive? = none

theorem ofText_eq_assemble {text : String} (small : text.utf8ByteSize ≤ maxSize) :
    Machine.ofText text = assemble (described .first [] text.toList) := by
  rw [Machine.ofText, if_neg (Nat.not_lt.2 small), read, linesOf?_eq_described]

theorem finish_eq_error {d : Draft} (failed : d.finish = .error e) :
    e = .missingInit ∨ d.hasHeader = false ∧ ∃ n, e = .missingHeader n := by
  unfold Draft.finish at failed
  split at failed
  · split at failed <;> cases failed
    exact .inl rfl
  · cases failed
    exact .inr ⟨Bool.eq_false_iff.2 ‹_›, _, rfl⟩

theorem read_directive {d : Draft} {l : NumberedLine} (directive : l.line.directive?.isSome)
    (failed : d.read l = .error e) : e = .unexpectedLine l.number l.trimmed := by
  cases kind : l.line <;> rw [kind] at directive <;> cases directive
  simp only [Draft.read, kind] at failed
  split at failed <;> cases failed
  rfl

theorem read_lines_ok {lines : List NumberedLine} {d : Draft}
    (reached : lines.foldlM Draft.read {} = .ok d) : Admissible lines ∧ Summary lines d := by
  rcases read_lines lines with ⟨admissible, d', reached', summary⟩ | ⟨-, e, failed⟩
  · obtain rfl := Except.ok.inj (reached.symm.trans reached')
    exact ⟨admissible, summary⟩
  · rw [reached] at failed
    cases failed

theorem directives_of_headless {lines : List NumberedLine} {d : Draft}
    (reached : lines.foldlM Draft.read {} = .ok d) (headless : d.hasHeader = false) :
    ∀ l ∈ lines, l.line.directive?.isSome := by
  obtain ⟨admissible, summary⟩ := read_lines_ok reached
  have missing := not_not.1 (mt summary.header.2 (Bool.eq_false_iff.1 headless))
  intro l member
  obtain ⟨b, directive⟩ := admissible.headless missing l member
  simp [directive, Line.directive?]

/-- A line in front of the header is an error only if it is no directive. -/
theorem exists_other_of_missingHeader {lines : List NumberedLine} {n : Nat}
    (failed : lines.foldlM Draft.read {} = .error (.missingHeader n)) :
    ∃ l ∈ lines, l.line.directive? = none := by
  by_contra all
  obtain ⟨before, l, after, d, split, -, fails⟩ := exists_failing_element failed
  have directive : l.line.directive?.isSome := by
    rw [Option.isSome_iff_ne_none]
    exact fun none => all ⟨l, by rw [split]; simp, none⟩
  cases read_directive directive fails

theorem byLine_iff {text : String} : ByLine text e ↔ text.utf8ByteSize ≤ maxSize ∧
    (described .first [] text.toList).foldlM Draft.read {} = .error e := by
  by_cases small : text.utf8ByteSize ≤ maxSize
  swap
  · refine iff_of_false (fun raised => ?_) fun both => small both.1
    have failed := raised.failed
    rw [Machine.ofText, if_pos (Nat.not_le.1 small)] at failed
    exact raised.small _ (Except.error.inj failed).symm
  have reading := ofText_eq_assemble small
  constructor
  · intro raised
    have failed := raised.failed
    rw [reading, assemble] at failed
    refine ⟨small, ?_⟩
    cases reached : (described .first [] text.toList).foldlM Draft.read {} with
    | ok d =>
      rw [reached, ok_bind] at failed
      rcases finish_eq_error failed with rfl | ⟨headless, missing⟩
      · exact absurd rfl raised.initial
      · -- Then the text has no lines but directives.
        obtain ⟨lines, classified, l, member, other⟩ := raised.header missing
        obtain rfl := Option.some.inj ((linesOf?_eq_described _).symm.trans classified)
        have directive := directives_of_headless reached headless l member
        simp [other] at directive
    | error e' =>
      rw [reached, error_bind, Except.error.injEq] at failed
      rw [failed]
  · rintro ⟨-, fails⟩
    obtain ⟨l, -, blamed⟩ := exists_blamed_line fails
    have failed : Machine.ofText text = .error e := by rw [reading, assemble, fails, error_bind]
    refine ⟨failed, ?_, ?_, ?_⟩
    · rintro bytes rfl
      cases blamed
    · rintro rfl
      cases blamed
    · rintro ⟨n, rfl⟩
      exact ⟨_, linesOf?_eq_described _, exists_other_of_missingHeader fails⟩

/-! ## What follows does not matter -/

theorem ByLine.of_prefix {text longer : String} (raised : ByLine text e)
    (begins : described .first [] text.toList <+: described .first [] longer.toList)
    (small : longer.utf8ByteSize ≤ maxSize) : Machine.ofText longer = .error e := by
  obtain ⟨more, same⟩ := begins
  obtain ⟨-, fails⟩ := byLine_iff.1 raised
  exact (byLine_iff.2 ⟨small, same ▸ foldlM_append_error fails more⟩).failed

def Unblamed (r : Except Error Machine) : Prop :=
  (∃ m, r = .ok m) ∨ r = .error .missingInit ∨ ∃ n, r = .error (.missingHeader n)

theorem unblamed_of_read {text : String} {d : Draft} (small : text.utf8ByteSize ≤ maxSize)
    (reached : (described .first [] text.toList).foldlM Draft.read {} = .ok d) :
    Unblamed (Machine.ofText text) := by
  rw [ofText_eq_assemble small, assemble, reached, ok_bind]
  cases finished : d.finish with
  | ok m => exact .inl ⟨m, rfl⟩
  | error e =>
    rcases finish_eq_error finished with rfl | ⟨-, n, rfl⟩
    · exact .inr (.inl rfl)
    · exact .inr (.inr ⟨n, rfl⟩)

theorem read_of_prefix {lines more : List NumberedLine} {d : Draft} (begins : lines <+: more)
    (reached : more.foldlM Draft.read {} = .ok d) : ∃ d', lines.foldlM Draft.read {} = .ok d' := by
  obtain ⟨rest, rfl⟩ := begins
  cases early : lines.foldlM Draft.read {} with
  | ok d' => exact ⟨d', rfl⟩
  | error e =>
    rw [foldlM_append_error early rest] at reached
    cases reached

/-! ## Texts cut after a line -/

/-- A text cut after one of its lines, with or without its line end. -/
def CutOff (text cut : String) : Prop :=
  ∃ rest, text = cut ++ rest ∧ Between cut.toList rest.toList

def LineBehind (text before line : String) : Prop :=
  ∃ after, text = before ++ line ++ after ∧ Ended before.toList ∧ Unbroken line.toList ∧
    AtLineEnd after.toList

theorem CutOff.described {text cut : String} (off : CutOff text cut) :
    described .first [] cut.toList <+: described .first [] text.toList := by
  obtain ⟨rest, rfl, between⟩ := off
  rw [String.toList_append]
  exact described_prefix unbroken_nil between

theorem CutOff.size {text cut : String} (off : CutOff text cut) :
    cut.utf8ByteSize ≤ text.utf8ByteSize := by
  obtain ⟨rest, rfl, -⟩ := off
  rw [String.utf8ByteSize_append]
  exact Nat.le_add_right _ _

theorem CutOff.append {text rest : String} (ends : AtLineEnd rest.toList) :
    CutOff (text ++ rest) text := ⟨rest, rfl, .inl ends⟩

theorem CutOff.of_lt {text before line cut : String} (off : CutOff text cut)
    (behind : LineBehind text before line) (shorter : cut.length < (before ++ line).length) :
    CutOff before cut := by
  obtain ⟨rest, rfl, between⟩ := off
  obtain ⟨after, same, -, unbroken, -⟩ := behind
  rw [String.length_append, ← String.length_toList, ← String.length_toList,
    ← String.length_toList] at shorter
  have chars := congrArg String.toList same
  rw [String.toList_append, String.toList_append, String.toList_append, List.append_assoc,
    List.append_eq_append_iff] at chars
  rcases chars with ⟨more, split, back⟩ | ⟨more, split, back⟩
  · refine ⟨String.ofList more, String.toList_inj.1 (by simpa using split), ?_⟩
    rw [String.toList_ofList]
    refine between.imp_left fun ended => ?_
    cases more with
    | nil => trivial
    | cons c more => rwa [back] at ended
  -- The cut would be within the line, where no line ends.
  obtain ⟨tail, same, rest_eq⟩ : ∃ tail, line.toList = more ++ tail ∧
      rest.toList = tail ++ after.toList := by
    rcases List.append_eq_append_iff.1 back with ⟨tail, longer, -⟩ | ⟨tail, inside, last⟩
    · have size := congrArg List.length split
      have size' := congrArg List.length longer
      rw [List.length_append] at size size'
      omega
    · exact ⟨tail, inside, last⟩
  cases tail with
  | nil =>
    rw [List.append_nil] at same
    rw [split, same, List.length_append] at shorter
    exact absurd shorter (Nat.lt_irrefl _)
  | cons c tail =>
    have ordinary : breaksLine c = false := unbroken c (by simp [same])
    rcases between with ended | ended
    · rw [rest_eq] at ended
      cases ordinary.symm.trans ended
    · cases last : more.getLast? with
      | none =>
        obtain rfl := List.getLast?_eq_none_iff.1 last
        obtain rfl : cut = before := String.toList_inj.1 (by simpa using split)
        exact ⟨"", by simp, .inl trivial⟩
      | some d =>
        have ordinary : breaksLine d = false :=
          unbroken d (by rw [same]; exact List.mem_append_left _ (List.mem_of_getLast? last))
        have breaks : breaksLine d = true :=
          ended d (by rw [split, List.getLast?_append, last]; rfl)
        cases ordinary.symm.trans breaks

theorem ByLine.exists_line {text : String} (raised : ByLine text e) : ∃ before line d,
    LineBehind text before line ∧
      e.line? = some (Position.first.advance before.toList).line ∧
      (described .first [] before.toList).foldlM Draft.read {} = .ok d ∧
      (described .first [] (before ++ line).toList).foldlM Draft.read {} = .error e := by
  obtain ⟨-, fails⟩ := byLine_iff.1 raised
  have cut : Cut .first text.toList (rows .first [] text.toList) := cut_iff.2 rfl
  obtain ⟨pieces, ⟨position, line⟩, others, d, split, reached, failed⟩ := exists_failing fails
  rw [split] at cut
  have member : (position, line) ∈ pieces ++ (position, line) :: others := by simp
  have unbroken : Unbroken line := cut.unbroken _ member
  have counted : position.Counted := cut.counted Position.counted_first _ member
  obtain ⟨before, after, whole, ended, atEnd, rfl, again⟩ := cut.exists_line
  have lines {line' : List Char} (unbroken' : Unbroken line') :
      described .first [] (before ++ line') =
        pieces.flatMap linesOfRow ++ linesOfRow (Position.first.advance before, line') := by
    rw [described, ← (again line' unbroken').eq_rows, List.flatMap_append, List.flatMap_singleton]
  refine ⟨String.ofList before, String.ofList line, d, ⟨String.ofList after, ?_, ?_, ?_, ?_⟩, ?_,
    ?_, ?_⟩
  · exact String.toList_inj.1 (by simpa using whole)
  · simpa using ended
  · simpa using unbroken
  · simpa using atEnd
  · obtain ⟨l, listed, blamed⟩ := exists_blamed_line failed
    rw [linesOfRow_eq unbroken counted] at listed
    obtain ⟨w, -, rfl⟩ := Option.map_eq_some_iff.1 (Option.mem_toList.1 listed)
    rwa [String.toList_ofList]
  · have none_behind := lines unbroken_nil
    rw [List.append_nil, linesOfRow_nil, List.append_nil] at none_behind
    rw [String.toList_ofList, none_behind, reached]
  · rw [String.toList_append, String.toList_ofList, String.toList_ofList, lines unbroken,
      List.foldlM_append, reached, ok_bind, failed]

/-- The first line that does not fit decides the error, whatever follows it. A text that describes a
machine can be cut after any of its lines without an error in a line. -/
theorem first_fault_decides (text : String) :
    (∀ e, ByLine text e →
      (∀ more, (text ++ "\n" ++ more).utf8ByteSize ≤ maxSize →
        Machine.ofText (text ++ "\n" ++ more) = .error e) ∧
      ∃ before line, LineBehind text before line ∧
        e.line? = some (Position.first.advance before.toList).line ∧
        Machine.ofText (before ++ line) = .error e ∧
        (∀ rest, AtLineEnd rest.toList → (before ++ line ++ rest).utf8ByteSize ≤ maxSize →
          Machine.ofText (before ++ line ++ rest) = .error e) ∧
        ∀ cut, CutOff text cut → cut.length < (before ++ line).length →
          Unblamed (Machine.ofText cut)) ∧
    ∀ m, Machine.ofText text = .ok m → ∀ cut, CutOff text cut → Unblamed (Machine.ofText cut) := by
  constructor
  · intro e raised
    have small := (byLine_iff.1 raised).1
    constructor
    · intro more small'
      rw [String.append_assoc] at small' ⊢
      have off : CutOff (text ++ ("\n" ++ more)) text := .append (by simp [AtLineEnd, breaksLine])
      exact raised.of_prefix off.described small'
    obtain ⟨before, line, d, behind, number, reached, fails⟩ := raised.exists_line
    have begins : CutOff text (before ++ line) := by
      obtain ⟨after, rfl, -, -, atEnd⟩ := behind
      exact .append atEnd
    have short : ByLine (before ++ line) e := byLine_iff.2 ⟨Nat.le_trans begins.size small, fails⟩
    refine ⟨before, line, behind, number, short.failed, fun rest atEnd small' => ?_,
      fun cut off shorter => ?_⟩
    · exact short.of_prefix (CutOff.append atEnd).described small'
    · obtain ⟨d', reached'⟩ := read_of_prefix (off.of_lt behind shorter).described reached
      exact unblamed_of_read (Nat.le_trans off.size small) reached'
  · intro m parsed cut off
    have small : text.utf8ByteSize ≤ maxSize := by
      by_contra large
      rw [Machine.ofText, if_pos (Nat.not_le.1 large)] at parsed
      cases parsed
    rcases read_lines (described .first [] text.toList) with
      ⟨-, d, reached, -⟩ | ⟨-, e, fails⟩
    · obtain ⟨d', reached'⟩ := read_of_prefix off.described reached
      exact unblamed_of_read (Nat.le_trans off.size small) reached'
    · rw [(byLine_iff.2 ⟨small, fails⟩).failed] at parsed
      cases parsed

theorem first_fault_decides_init : ByLine "A\ninit B" (.unknownInitial "B" 2) ∧
    Machine.ofText "A\ninit B\n\t1" = .error (.unknownInitial "B" 2) ∧
      Unblamed (Machine.ofText "A") := by
  have checked : ((Machine.ofText "A\ninit B").map fun _ => ()) =
      .error (.unknownInitial "B" 2) := by decide +kernel
  have failed := error_of_map checked
  have raised : ByLine "A\ninit B" (.unknownInitial "B" 2) :=
    ⟨failed, by simp, by simp, by simp⟩
  have checked' : (Machine.ofText "A\ninit A").toOption.any (fun _ => true) = true := by
    decide +kernel
  obtain ⟨m, parsed, -⟩ := ok_of_any checked'
  have off : CutOff "A\ninit A" "A" := ⟨"\ninit A", by decide, .inl rfl⟩
  exact ⟨raised, ((first_fault_decides "A\ninit B").1 _ raised).1 "\t1" (by decide),
    (first_fault_decides "A\ninit A").2 m parsed "A" off⟩

end OneTape.Description
