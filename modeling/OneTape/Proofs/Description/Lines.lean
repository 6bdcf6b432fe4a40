import OneTape.Proofs.Description.Errors
import OneTape.Proofs.Description.Gaps
import OneTape.Proofs.Description.Pieces
import OneTape.Proofs.Grammar.Translation

namespace OneTape.Description

open Grammar Pattern Form

def lineEnds : List (List Char) := [['\n'], ['\r', '\n'], ['\r']]

/-- The text, which begins at `start`, is cut at all its line ends into `pieces`. A carriage return
and the line feed behind it are one line end. -/
inductive Cut : Position → List Char → List (Position × List Char) → Prop where
  | last (start : Position) {line : List Char} (unbroken : Unbroken line) :
      Cut start line [(start, line)]
  | line (start : Position) {line ending text : List Char} {pieces : List (Position × List Char)}
      (unbroken : Unbroken line) (ends : ending ∈ lineEnds)
      (whole : ending = ['\r'] → text.head? ≠ some '\n')
      (further : Cut ((start.advance line).advance ending) text pieces) :
      Cut start (line ++ (ending ++ text)) ((start, line) :: pieces)

variable {start position : Position} {line row ending text : List Char}
variable {pieces : List (Position × List Char)}

theorem Cut.unbroken (cut : Cut start text pieces) : ∀ piece ∈ pieces, Unbroken piece.2 := by
  induction cut with
  | last _ unbroken => simpa using unbroken
  | line _ unbroken _ _ _ ih => exact List.forall_mem_cons.2 ⟨unbroken, ih⟩

theorem Cut.counted (cut : Cut start text pieces) (counted : start.Counted) :
    ∀ piece ∈ pieces, piece.1.Counted := by
  induction cut with
  | last => simpa using counted
  | line _ _ _ _ _ ih =>
    exact List.forall_mem_cons.2 ⟨counted, ih ((counted.advance _).advance _)⟩

theorem rows_ending (ends : ending ∈ lineEnds) (whole : ending = ['\r'] → text.head? ≠ some '\n') :
    rows start row (ending ++ text) =
      (start, row) :: rows ((start.advance row).advance ending) [] text := by
  simp only [lineEnds, List.mem_cons, List.not_mem_nil, or_false] at ends
  rcases ends with rfl | rfl | rfl
  · exact rows_lineFeed
  · exact rows_both
  · refine rows_carriageReturn ?_
    rintro _ rfl
    exact whole rfl rfl

theorem Cut.eq_rows (cut : Cut start text pieces) : pieces = rows start [] text := by
  induction cut with
  | @last start line unbroken =>
    rw [← List.append_nil line, rows_append unbroken, List.append_nil, List.nil_append, rows]
  | line start unbroken ends whole _ ih =>
    rw [rows_append unbroken, rows_ending ends whole, List.nil_append, ih]

theorem cut_rows (unbroken : Unbroken row) : Cut start (row ++ text) (rows start row text) := by
  fun_induction rows start row text with
  | case1 start row =>
    rw [List.append_nil]
    exact .last start unbroken
  | case2 start row text ih =>
    have ends : ['\r', '\n'] ∈ lineEnds := by simp [lineEnds]
    exact .line start unbroken ends (fun alone => by simp at alone) (ih unbroken_nil)
  | case3 start row c text apart breaks ih =>
    have ends : [c] ∈ lineEnds := by
      rcases breaksLine_iff.1 breaks with rfl | rfl <;> simp [lineEnds]
    -- A carriage return and the line feed behind it were the case before.
    refine .line start unbroken ends (fun alone feed => ?_) (ih unbroken_nil)
    obtain ⟨text', rfl⟩ := List.head?_eq_some_iff.1 feed
    exact apart text' (by simpa using alone) rfl
  | case4 start row c text _ ordinary ih =>
    have longer := ih (unbroken.concat (Bool.eq_false_iff.2 ordinary))
    rwa [List.append_assoc, List.singleton_append] at longer

theorem cut_iff : Cut start text pieces ↔ pieces = rows start [] text := by
  constructor
  · exact Cut.eq_rows
  · rintro rfl
    exact cut_rows unbroken_nil

def programNode (text : List Char) (own : List (Node Element)) : Node Element :=
  let stop := Position.first.advance text
  .mk .program .first stop text (own ++ [.mk .endOfText stop stop [] []])

theorem nodes?_program (text : List Char) : Element.program.nodes? text =
    some [programNode text ((rows .first [] text).flatMap rowNodes)] := by
  obtain ⟨k, took, program⟩ := exists_program text
  have stop : k.position = Position.first.advance text := took.position
  rw [program, Node.between_eq _ took, Node.between_eq _ (.refl k), stop]
  rfl

/-- The nodes of a text but for the one that marks its end. -/
def ownNodes (text : List Char) : List (Node Element) :=
  (((Element.program.nodes? text).getD []).flatMap Node.children).dropLast

theorem ownNodes_eq (text : List Char) : ownNodes text = (rows .first [] text).flatMap rowNodes := by
  rw [ownNodes, nodes?_program]
  simp [programNode, Node.children]

theorem ownNodes_line (unbroken : Unbroken line) : ownNodes line = rowNodes (.first, line) := by
  have single := (Cut.last .first unbroken).eq_rows
  rw [ownNodes_eq, ← single, List.flatMap_singleton]

theorem rowNodes_shift (unbroken : Unbroken line) (counted : start.Counted) :
    rowNodes (start, line) = (rowNodes (.first, line)).map (Node.shift start) := by
  obtain ⟨nodes, matched⟩ := exists_line .first unbroken
  have oneLine : OneLine (Cursor.ofText line).rest := unbroken.oneLine
  have moved := match?_shift Form.line start oneLine
  rw [Cursor.shift, Cursor.ofText, counted.shift_first, matched] at moved
  simp only [rowNodes, moved, matched]
  rfl

/-! ## Lines have one node or none -/

/-- Each match has one node, which spans what the match took. -/
def Spanning (p : Form) : Prop := ∀ k m, p.match? k = some m → ∃ kind taken children,
  k.Took m.cursor taken ∧ m.nodes = [.mk kind k.position m.cursor.position taken children]

theorem spanning_node (kind : Element) (p : Form) : Spanning (node kind p) := by
  intro k m matched
  obtain ⟨body, taken, -, -, took, single⟩ := single_node matched
  exact ⟨kind, taken, body.nodes, took, single⟩

theorem Spanning.choice {p q : Form} (first : Spanning p) (second : Spanning q) :
    Spanning (choice p q) := by
  intro k m matched
  rcases match?_choice_eq_some matched with matched | matched
  · exact first k m matched
  · exact second k m matched

def solidLine : Form :=
  firstOf ruleLine [malformedRule, initLine, acceptLine, blockHeader, headerLine, unknownLine]

theorem spanning_solidLine : Spanning solidLine := by
  have node {kind : Element} {p : Form} : Spanning (Pattern.node kind p) := spanning_node kind p
  exact node.choice <| node.choice <| node.choice <| node.choice <| node.choice <| node.choice node

theorem blank_of_blankLine {m : Match Element} (unbroken : Unbroken line)
    (matched : blankLine.match? ⟨position, line⟩ = some m) : ∀ c ∈ line, c = ' ' ∨ c = '\t' := by
  obtain ⟨bs, took, ended⟩ := took_lineEnd matched
  have left : m.cursor.rest = [] := (unbroken_rest unbroken matched).eq_nil ended
  have all : line = blanks bs ++ m.cursor.rest := took.rest
  rw [left, List.append_nil] at all
  subst all
  simpa using all_blanks bs

theorem rowNodes_solid (unbroken : Unbroken line) (solid : ∃ c ∈ line, c ≠ ' ' ∧ c ≠ '\t') :
    ∃ kind children,
      rowNodes (position, line) = [.mk kind position (position.advance line) line children] := by
  obtain ⟨nodes, matched⟩ := exists_line position unbroken
  -- Of the forms of a line only the blank line has no node, and this line is not blank.
  have spans : ∃ p, Spanning p ∧
      p.match? ⟨position, line⟩ = some ⟨⟨position.advance line, []⟩, nodes⟩ := by
    have chosen : (choice directive (choice blankLine solidLine)).match? _ = _ := matched
    rcases match?_choice_eq_some chosen with found | chosen
    · exact ⟨directive, spanning_node _ _, found⟩
    · rcases match?_choice_eq_some chosen with found | found
      · obtain ⟨c, member, other⟩ := solid
        rcases blank_of_blankLine unbroken found c member with rfl | rfl <;> simp at other
      · exact ⟨solidLine, spanning_solidLine, found⟩
  obtain ⟨p, spanning, found⟩ := spans
  obtain ⟨kind, taken, children, took, single⟩ := spanning _ _ found
  have all : line = taken ++ [] := took.rest
  rw [List.append_nil] at all
  subst all
  refine ⟨kind, children, ?_⟩
  rw [rowNodes, matched]
  exact single

theorem rowNodes_blank (blank : ∀ c ∈ line, c = ' ' ∨ c = '\t') :
    rowNodes (position, line) = [] := by
  obtain ⟨bs, rfl⟩ := exists_blanks blank
  exact rowNodes_blanks position bs

/-- A description matches whatever its text is. What each piece of it has, in the place of the
piece, is what the piece has as a text of its own. -/
theorem program_line_by_line (text : String) : ∃ pieces,
    (∀ others, Cut .first text.toList others ↔ others = pieces) ∧
      Element.program.nodes? text.toList = some [programNode text.toList
        (pieces.flatMap fun (start, line) => (ownNodes line).map (Node.shift start))] ∧
      (∀ line ∈ pieces.map Prod.snd,
        Element.program.nodes? line = some [programNode line (ownNodes line)] ∧
          ((∀ c ∈ line, c = ' ' ∨ c = '\t') → ownNodes line = []) ∧
          ((∃ c ∈ line, c ≠ ' ' ∧ c ≠ '\t') → ∃ kind children, ownNodes line =
            [.mk kind .first (Position.first.advance line) line children])) ∧
      Machine.ofText text ≠ .error .unmatched := by
  have cut : Cut .first text.toList (rows .first [] text.toList) := cut_iff.2 rfl
  refine ⟨rows .first [] text.toList, fun others => cut_iff, ?_, ?_, ofText_ne_unmatched text⟩
  · rw [nodes?_program]
    refine congrArg (fun own => some [programNode text.toList own]) ?_
    refine List.flatMap_congr fun (start, line) member => ?_
    have unbroken : Unbroken line := cut.unbroken _ member
    have counted : start.Counted := cut.counted Position.counted_first _ member
    dsimp only
    rw [ownNodes_line unbroken, rowNodes_shift unbroken counted]
  · intro line member
    obtain ⟨⟨start, line⟩, inText, rfl⟩ := List.mem_map.1 member
    have unbroken : Unbroken line := cut.unbroken _ inText
    refine ⟨by rw [nodes?_program, ownNodes_eq], fun blank => ?_, fun solid => ?_⟩
    · rw [ownNodes_line unbroken, rowNodes_blank blank]
    · rw [ownNodes_line unbroken]
      exact rowNodes_solid unbroken solid

end OneTape.Description
