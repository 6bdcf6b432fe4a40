import OneTape.Description.Line
import OneTape.Proofs.Grammar.Locality

/-!
The grammar takes every text apart into rows, at line feeds, carriage returns with line feeds and
carriage returns alone, and reads each row on its own.
-/

namespace OneTape.Description

open Grammar Pattern Form

variable {position : Position} {line rest text : List Char}

/-! ## Line ends -/

theorem newline_nil : newline.match? ⟨position, []⟩ = none := rfl

theorem newline_of_unbroken {c : Char} (ordinary : breaksLine c = false) :
    newline.match? ⟨position, c :: rest⟩ = none := by
  simp only [breaksLine, Bool.or_eq_false_iff] at ordinary
  simp [newline, firstOf, match?, Cursor.literal?, Cursor.satisfy?, ordinary]

theorem newline_lineFeed :
    newline.match? ⟨position, '\n' :: rest⟩ = some ⟨⟨position.next '\n', rest⟩, []⟩ := rfl

theorem newline_both : newline.match? ⟨position, '\r' :: '\n' :: rest⟩ =
    some ⟨⟨(position.next '\r').next '\n', rest⟩, []⟩ := rfl

theorem newline_carriageReturn (alone : ∀ rest', rest ≠ '\n' :: rest') :
    newline.match? ⟨position, '\r' :: rest⟩ = some ⟨⟨position.next '\r', rest⟩, []⟩ := by
  cases rest with
  | nil => rfl
  | cons c rest =>
    have other : c ≠ '\n' := fun same => alone rest (by rw [same])
    simp [newline, firstOf, match?, Cursor.literal?, Cursor.satisfy?, other]

theorem isSome_newline {c : Char} (breaks : breaksLine c = true) (position : Position)
    (rest : List Char) : (newline.match? ⟨position, c :: rest⟩).isSome = true := by
  rcases breaksLine_iff.1 breaks with rfl | rfl
  · rfl
  · by_cases both : ∃ rest', rest = '\n' :: rest'
    · obtain ⟨rest', rfl⟩ := both
      rfl
    · rw [newline_carriageReturn fun rest' same => both ⟨rest', same⟩]
      rfl

theorem isSome_eol_iff (position : Position) (rest : List Char) :
    (eol.match? ⟨position, rest⟩).isSome = true ↔ AtLineEnd rest := by
  cases rest with
  | nil => simp [AtLineEnd, eol, match?, newline_nil, endOfText]
  | cons c rest =>
    cases breaks : breaksLine c with
    | true =>
      obtain ⟨m, matched⟩ := Option.isSome_iff_exists.1 (isSome_newline breaks position rest)
      simp [AtLineEnd, breaks, eol, match?, matched]
    | false => simp [AtLineEnd, breaks, eol, match?, newline_of_unbroken breaks, endOfText]

/-! ## The forms of lines are local -/

theorem local_ahead_eol : (ahead eol).Local := by
  intro position line rest unbroken ended
  cases line with
  | nil =>
    have behind := (isSome_eol_iff position rest).2 ended
    have alone := (isSome_eol_iff position []).2 trivial
    simp [match?, behind, alone, Match.followedBy]
  | cons c line =>
    have broken : ¬ AtLineEnd (c :: line) := by simp [AtLineEnd, unbroken.head]
    have broken' : ¬ AtLineEnd (c :: (line ++ rest)) := by simp [AtLineEnd, unbroken.head]
    rw [← isSome_eol_iff position] at broken broken'
    simp [match?, broken, broken']

/-- The pattern matches at line ends, and within a line as on the line alone. -/
structure Guards (p : Form) : Prop where
  breaks : ∀ position c rest, breaksLine c = true → (p.match? ⟨position, c :: rest⟩).isSome = true
  within : ∀ position c line rest, Unbroken (c :: line) → AtLineEnd rest →
    (p.match? ⟨position, c :: (line ++ rest)⟩).isSome = (p.match? ⟨position, c :: line⟩).isSome

theorem guards_newline : Guards newline where
  breaks position _ rest breaks := isSome_newline breaks position rest
  within _ _ _ _ unbroken _ := by simp only [newline_of_unbroken unbroken.head]

theorem Guards.choice {p q : Form} (excluded : q.Local) (guards : Guards p) :
    Guards (choice q p) where
  breaks position c rest breaks := by
    have later := guards.breaks position c rest breaks
    simp only [match?]
    cases q.match? ⟨position, c :: rest⟩ with
    | none => exact later
    | some m => rfl
  within position c line rest unbroken ended := by
    have first := excluded position (c :: line) rest unbroken ended
    have later := guards.within position c line rest unbroken ended
    simp only [List.cons_append] at first
    simp only [match?, first]
    cases q.match? ⟨position, c :: line⟩ with
    | none => exact later
    | some m => rfl

theorem Guards.seq_anyChar {p : Form} (guards : Guards p) : (seq (notAhead p) anyChar).Local := by
  intro position line rest unbroken ended
  cases line with
  | cons c line =>
    simp only [match?, List.cons_append, guards.within position c line rest unbroken ended]
    cases (p.match? ⟨position, c :: line⟩).isSome <;> rfl
  | nil =>
    have none_left : (seq (notAhead p) anyChar).match? ⟨position, []⟩ = none := by
      simp only [match?]
      cases (p.match? ⟨position, []⟩).isSome <;> rfl
    rw [none_left]
    cases rest with
    | nil => exact none_left
    | cons c rest => simp [match?, guards.breaks position c rest ended]

theorem local_space : space.Local := local_satisfy rfl rfl

theorem progressive_space : Progressive space.match? := progressive_satisfy _

theorem local_spaces : (many space).Local := local_space.many progressive_space

theorem local_blanks : (some1 space).Local := local_space.some1 progressive_space

theorem local_word {word : List Char} (unbroken : word.all (!breaksLine ·) = true) :
    (literal word : Form).Local :=
  local_literal fun c member => by simpa using List.all_eq_true.1 unbroken c member

theorem local_lineEnd : lineEnd.Local := local_spaces.seq local_ahead_eol

theorem local_lineChar : lineChar.Local := guards_newline.seq_anyChar

theorem progressive_lineChar : Progressive lineChar.match? :=
  progressive_seq_right (progressive_satisfy _)

theorem local_lineChars : (some1 lineChar).Local := local_lineChar.some1 progressive_lineChar

theorem local_sep : sep.Local :=
  (local_spaces.seq ((local_word rfl).seq local_spaces)).choice local_blanks

theorem local_identChar : identChar.Local := local_satisfy (by decide) (by decide)

theorem progressive_identChar : Progressive identChar.match? := progressive_satisfy _

theorem local_keyword : keyword.Local :=
  ((local_word rfl).choice (local_word rfl)).seq local_identChar.notAhead

theorem local_name : name.Local :=
  (local_keyword.notAhead.seq (local_identChar.some1 progressive_identChar)).leaf .name

theorem progressive_name : Progressive name.match? := by
  have progress : Progressive (some1 identChar).match? := progressive_seq_left progressive_identChar
  exact progressive_leaf Element.name (progressive_seq_right progress)

theorem local_names : names.Local :=
  local_name.seq ((local_sep.seq local_name).many (progressive_seq_right progressive_name))

theorem local_directive : directive.Local :=
  ((local_word rfl).seq (local_blanks.seq ((((local_word rfl).choice (local_word rfl)).node
    .debugFlag).seq local_lineEnd))).node .directive

theorem local_symbol : symbol.Local :=
  (((local_word rfl).seq (local_lineChar.seq (local_word rfl))).choice
    ((guards_newline.choice (local_word rfl)).choice local_space).seq_anyChar).leaf .symbol

theorem local_direction : direction.Local := by
  have marker : (satisfy fun c => ['>', '<', 'S', 'R', 'L'].contains c : Form).Local :=
    local_satisfy (by decide) (by decide)
  exact marker.node Element.direction

theorem local_ruleLine : ruleLine.Local :=
  (local_blanks.seq <| local_symbol.seq <| local_sep.seq <|
    ((local_word rfl).seq local_sep).optional.seq <| local_symbol.seq <| local_sep.seq <|
    local_direction.seq <| local_sep.seq <| local_name.seq local_lineEnd).node .ruleLine

theorem local_line : Form.line.Local :=
  local_directive.choice <| local_lineEnd.choice <| local_ruleLine.choice <|
    ((local_blanks.seq local_lineChars).node .malformedRule).choice <|
    (((local_word rfl).seq (local_sep.seq (local_name.seq local_lineEnd))).node .initLine).choice <|
    (((local_word rfl).seq ((local_sep.seq local_names).optional.seq local_lineEnd)).node
      .acceptLine).choice <|
    ((local_name.seq (local_spaces.seq ((local_word rfl).seq local_lineEnd))).node
      .blockHeader).choice <|
    ((local_names.seq local_lineEnd).node .headerLine).choice
    (local_lineChars.node .unknownLine)

/-! ## Lines take whole rows -/

def EndsLine (p : Form) : Prop := ∀ k m, p.match? k = some m → AtLineEnd m.cursor.rest

theorem EndsLine.seq {q : Form} (p : Form) (ends : EndsLine q) : EndsLine (seq p q) := by
  intro k n matched
  obtain ⟨m, m', -, second, rfl⟩ := match?_seq_eq_some_iff.1 matched
  exact ends m.cursor m' second

theorem EndsLine.choice {p q : Form} (ends : EndsLine p) (ends' : EndsLine q) :
    EndsLine (choice p q) := by
  intro k m matched
  rcases match?_choice_eq_some matched with matched | matched
  · exact ends k m matched
  · exact ends' k m matched

theorem EndsLine.node {p : Form} (kind : Element) (ends : EndsLine p) :
    EndsLine (node kind p) := by
  intro k m matched
  obtain ⟨n, body, rfl⟩ := Option.map_eq_some_iff.1 matched
  exact ends k n body

theorem endsLine_lineEnd : EndsLine lineEnd := by
  refine EndsLine.seq _ fun k m matched => ?_
  obtain ⟨found, rfl⟩ := eq_of_ahead matched
  exact (isSome_eol_iff _ _).1 found

theorem lineChar_of_unbroken {c : Char} (ordinary : breaksLine c = false) :
    lineChar.match? ⟨position, c :: rest⟩ = some ⟨⟨position.next c, rest⟩, []⟩ := by
  simp only [lineChar, match?, newline_of_unbroken ordinary]
  rfl

theorem endsLine_lineChars : EndsLine (some1 lineChar) := by
  refine EndsLine.seq _ fun k m matched => ?_
  have stopped := many_stops progressive_lineChar matched
  obtain ⟨⟨position, rest⟩, nodes⟩ := m
  cases rest with
  | nil => trivial
  | cons c rest =>
    cases breaks : breaksLine c with
    | true => exact breaks
    | false => simp [lineChar_of_unbroken breaks] at stopped

theorem endsLine_line : EndsLine Form.line :=
  ((endsLine_lineEnd.seq _).seq _ |>.seq _ |>.node .directive).choice <|
    endsLine_lineEnd.choice <|
    ((endsLine_lineEnd.seq _).seq _ |>.seq _ |>.seq _ |>.seq _ |>.seq _ |>.seq _ |>.seq _ |>.seq _
      |>.node .ruleLine).choice <|
    ((endsLine_lineChars.seq _).node .malformedRule).choice <|
    (((endsLine_lineEnd.seq _).seq _ |>.seq _).node .initLine).choice <|
    (((endsLine_lineEnd.seq _).seq _).node .acceptLine).choice <|
    (((endsLine_lineEnd.seq _).seq _ |>.seq _).node .blockHeader).choice <|
    ((endsLine_lineEnd.seq _).node .headerLine).choice <| endsLine_lineChars.node .unknownLine

theorem isSome_line (position : Position) (unbroken : Unbroken line) :
    (Form.line.match? ⟨position, line⟩).isSome = true := by
  have other {p q : Form} (later : (q.match? ⟨position, line⟩).isSome = true) :
      ((Pattern.choice p q).match? ⟨position, line⟩).isSome = true := by
    simp only [match?]
    cases p.match? ⟨position, line⟩ with
    | none => exact later
    | some m => rfl
  cases line with
  | nil => exact other rfl
  | cons c line =>
    refine other <| other <| other <| other <| other <| other <| other <| other ?_
    simp only [firstOf, unknownLine, some1, match?, lineChar_of_unbroken unbroken.head]
    rfl

theorem exists_line (position : Position) (unbroken : Unbroken line) :
    ∃ nodes, Form.line.match? ⟨position, line⟩ = some ⟨⟨position.advance line, []⟩, nodes⟩ := by
  obtain ⟨⟨⟨position', rest⟩, nodes⟩, matched⟩ :=
    Option.isSome_iff_exists.1 (isSome_line position unbroken)
  have nothing : rest = [] :=
    (unbroken_rest unbroken matched : Unbroken rest).eq_nil (endsLine_line _ _ matched)
  subst nothing
  obtain ⟨taken, took⟩ := took_match matched
  have all : line = taken ++ [] := took.rest
  rw [List.append_nil] at all
  subst all
  have place : position' = position.advance line := took.position
  exact ⟨nodes, by rw [matched, place]⟩

/-! ## Rows -/

/-- The rows of a text with the positions where they begin. The first row begins at `start` with
what is in `row` already. -/
def rows (start : Position) (row : List Char) : List Char → List (Position × List Char)
  | [] => [(start, row)]
  | '\r' :: '\n' :: text =>
    (start, row) :: rows (((start.advance row).next '\r').next '\n') [] text
  | c :: text =>
    if breaksLine c then (start, row) :: rows ((start.advance row).next c) [] text
    else rows start (row ++ [c]) text

variable {start : Position} {row : List Char}

theorem rows_cons {c : Char} (unpaired : ∀ text', c = '\r' → text ≠ '\n' :: text') :
    rows start row (c :: text) =
      if breaksLine c then (start, row) :: rows ((start.advance row).next c) [] text
      else rows start (row ++ [c]) text := by
  rw [rows]
  exact unpaired

theorem rows_cons_of_unbroken {c : Char} (ordinary : breaksLine c = false) :
    rows start row (c :: text) = rows start (row ++ [c]) text := by
  have unpaired (text' : List Char) (same : c = '\r') : text ≠ '\n' :: text' := by
    subst same
    cases ordinary
  rw [rows_cons unpaired, if_neg (by simp [ordinary])]

theorem rows_append (unbroken : Unbroken line) :
    rows start row (line ++ text) = rows start (row ++ line) text := by
  induction line generalizing row with
  | nil => simp
  | cons c line ih =>
    rw [List.cons_append, rows_cons_of_unbroken unbroken.head, ih unbroken.tail, List.append_assoc,
      List.singleton_append]

theorem rows_lineFeed : rows start row ('\n' :: text) =
    (start, row) :: rows ((start.advance row).next '\n') [] text :=
  (rows_cons fun _ same => absurd same (by decide)).trans (if_pos rfl)

theorem rows_both : rows start row ('\r' :: '\n' :: text) =
    (start, row) :: rows (((start.advance row).next '\r').next '\n') [] text := rfl

theorem rows_carriageReturn (alone : ∀ text', text ≠ '\n' :: text') :
    rows start row ('\r' :: text) =
      (start, row) :: rows ((start.advance row).next '\r') [] text :=
  (rows_cons fun text' _ => alone text').trans (if_pos rfl)

theorem exists_next_row {c : Char} (breaks : breaksLine c = true) (start : Position)
    (row rest : List Char) :
    ∃ next text, newline.match? ⟨start.advance row, c :: rest⟩ = some ⟨⟨next, text⟩, []⟩ ∧
      rows start row (c :: rest) = (start, row) :: rows next [] text ∧
      text.length ≤ rest.length := by
  rcases breaksLine_iff.1 breaks with rfl | rfl
  · exact ⟨_, rest, newline_lineFeed, rows_lineFeed, Nat.le_refl _⟩
  · by_cases both : ∃ text, rest = '\n' :: text
    · obtain ⟨text, rfl⟩ := both
      exact ⟨_, text, newline_both, rows_both, Nat.le_succ _⟩
    · have alone : ∀ text, rest ≠ '\n' :: text := fun text same => both ⟨text, same⟩
      exact ⟨_, rest, newline_carriageReturn alone, rows_carriageReturn alone, Nat.le_refl _⟩

def rowNodes (row : Position × List Char) : List (Node Element) :=
  ((Form.line.match? ⟨row.1, row.2⟩).map Match.nodes).getD []

theorem match?_line (position : Position) (unbroken : Unbroken line) (ended : AtLineEnd rest) :
    Form.line.match? ⟨position, line ++ rest⟩ =
      some ⟨⟨position.advance line, rest⟩, rowNodes (position, line)⟩ := by
  obtain ⟨nodes, matched⟩ := exists_line position unbroken
  rw [local_line position line rest unbroken ended, rowNodes, matched]
  rfl

theorem exists_unbroken_append (text : List Char) :
    ∃ line rest, text = line ++ rest ∧ Unbroken line ∧ AtLineEnd rest := by
  induction text with
  | nil => exact ⟨[], [], rfl, unbroken_nil, trivial⟩
  | cons c text ih =>
    cases breaks : breaksLine c with
    | true => exact ⟨[], c :: text, rfl, unbroken_nil, breaks⟩
    | false =>
      obtain ⟨line, rest, rfl, unbroken, ended⟩ := ih
      refine ⟨c :: line, rest, rfl, fun d member => ?_, ended⟩
      rcases List.mem_cons.1 member with rfl | member
      · exact breaks
      · exact unbroken d member

theorem progressive_newline_line : Progressive (seq newline Form.line).match? :=
  progressive_seq_left <| progressive_choice (progressive_literal _ _) <|
    progressive_choice (progressive_literal _ _) (progressive_literal _ _)

theorem match?_further_lines (start : Position) (row : List Char) (ended : AtLineEnd rest) :
    ∃ k nodes,
    (many (seq newline Form.line)).match? ⟨start.advance row, rest⟩ = some ⟨k, nodes⟩ ∧
      k.rest = [] ∧ rowNodes (start, row) ++ nodes = (rows start row rest).flatMap rowNodes := by
  induction size : rest.length using Nat.strongRecOn generalizing start row rest with
  | ind n ih =>
    rw [match?_many progressive_newline_line]
    cases rest with
    | nil => exact ⟨⟨start.advance row, []⟩, [], by simp [match?, newline_nil], rfl, by simp [rows]⟩
    | cons c rest =>
      obtain ⟨next, text, feed, further, shorter⟩ := exists_next_row ended start row rest
      obtain ⟨line, rest', rfl, unbroken, ended'⟩ := exists_unbroken_append text
      have round : (seq newline Form.line).match? ⟨start.advance row, c :: rest⟩ =
          some ⟨⟨next.advance line, rest'⟩, rowNodes (next, line)⟩ := by
        simp only [match?, feed, match?_line next unbroken ended']
        rfl
      rw [List.length_append] at shorter
      rw [List.length_cons] at size
      obtain ⟨k, nodes, rounds, whole, same⟩ :=
        ih rest'.length (by omega) next line ended' rfl
      refine ⟨k, rowNodes (next, line) ++ nodes, ?_, whole, ?_⟩
      · rw [round]
        simp [rounds]
      · rw [further, rows_append unbroken, List.nil_append, List.flatMap_cons, same]

theorem exists_program (text : List Char) : ∃ k, (Cursor.ofText text).Took k text ∧
    Element.program.nodes? text = some [.between .program (.ofText text) k
      ((rows .first [] text).flatMap rowNodes ++ [.between .endOfText k k []])] := by
  obtain ⟨line, rest, rfl, unbroken, ended⟩ := exists_unbroken_append text
  obtain ⟨k, nodes, further, whole, same⟩ := match?_further_lines .first line ended
  have closed : Form.endOfText.match? k = some ⟨k, [.between .endOfText k k []]⟩ := by
    simp [Form.endOfText, match?, whole]
  have body := match?_seq_eq_some_iff.2 ⟨_, _, match?_line .first unbroken ended,
    match?_seq_eq_some_iff.2 ⟨_, _, further, closed, rfl⟩, rfl⟩
  have took : (Cursor.ofText (line ++ rest)).Took k (line ++ rest) := by
    obtain ⟨taken, took⟩ := took_match body
    have all : line ++ rest = taken ++ k.rest := took.rest
    rw [whole, List.append_nil] at all
    exact all ▸ took
  refine ⟨k, took, ?_⟩
  rw [rows_append unbroken, List.nil_append, ← same, List.append_assoc, Element.nodes?,
    Element.form, Form.program, match?, Cursor.ofText, Pattern.all, Pattern.all, Pattern.all, body]
  rfl

def linesOfRow (row : Position × List Char) : List NumberedLine :=
  (rowNodes row).filterMap NumberedLine.ofNode?

theorem linesOf?_eq (text : List Char) :
    linesOf? text = some ((rows .first [] text).flatMap linesOfRow) := by
  obtain ⟨k, -, program⟩ := exists_program text
  have silent : NumberedLine.ofNode? (.between .endOfText k k []) = none := rfl
  have children (n : List (Node Element)) :
      (Node.between .program (.ofText text) k n).children = n := rfl
  rw [linesOf?, program, Option.map_some, List.flatMap_singleton, children, List.filterMap_append,
    List.filterMap_flatMap, List.filterMap_cons_none silent, List.filterMap_nil, List.append_nil]
  rfl

end OneTape.Description
