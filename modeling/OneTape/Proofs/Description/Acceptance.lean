import OneTape.Proofs.Description.Nodes
import OneTape.Proofs.Machine.Consistent

namespace OneTape.Description

open Grammar Pattern Form

def MakesRule (n : Node Element) : Prop :=
  n.kind = .ruleLine → ∃ read write direction target column,
    ruleOf? n.children = some (.rule read write direction target column)

theorem makesRule_ruleLine : ruleLine.Yields MakesRule := by
  intro k m matched n member isRule
  obtain ⟨_, read, write, marker, target, c, d, single, -, children, -, -, text, marks⟩ :=
    fields_ruleLine matched
  rw [single] at member
  obtain rfl := List.mem_singleton.1 member
  rw [children, ruleOf?, text]
  simp only [Option.bind_eq_bind, marks]
  exact ⟨_, _, _, _, _, rfl⟩

theorem makesRule_node {kind : Element} {p : Form} (other : kind ≠ .ruleLine) :
    (node kind p).Yields MakesRule :=
  yields_node fun _ _ _ _ isRule => absurd isRule other

theorem makesRule_line : Form.line.Yields MakesRule := by
  have node {kind : Element} {p : Form} (other : kind ≠ .ruleLine) :
      (Pattern.node kind p).Yields MakesRule := makesRule_node other
  exact (node (by decide)).choice <| (yields_of_silent rfl).choice <| makesRule_ruleLine.choice <|
    (node (by decide)).choice <| (node (by decide)).choice <| (node (by decide)).choice <|
    (node (by decide)).choice <| (node (by decide)).choice (node (by decide))

theorem makesRule_rowNodes (row : Position × List Char) : ∀ n ∈ rowNodes row, MakesRule n :=
  yields_rowNodes makesRule_line row

theorem ofNode?_eq_malformed_iff {n : Node Element} (makes : MakesRule n) :
    Line.ofNode? n = some .malformed ↔ n.kind = .malformedRule := by
  unfold Line.ofNode?
  cases kind : n.kind <;> simp_all
  obtain ⟨read, write, direction, target, column, rule⟩ := makes kind
  simp [rule]

theorem exists_malformed_iff {nodes : List (Node Element)} (makes : ∀ n ∈ nodes, MakesRule n) :
    (∃ l ∈ nodes.filterMap NumberedLine.ofNode?, l.line = .malformed) ↔
      ∃ n ∈ nodes, n.kind = .malformedRule := by
  constructor
  · rintro ⟨l, member, malformed⟩
    obtain ⟨n, listed, read⟩ := List.mem_filterMap.1 member
    obtain ⟨line, meaning, rfl⟩ := Option.map_eq_some_iff.1 read
    subst malformed
    exact ⟨n, listed, (ofNode?_eq_malformed_iff (makes n listed)).1 meaning⟩
  · rintro ⟨n, listed, kind⟩
    have meaning := (ofNode?_eq_malformed_iff (makes n listed)).2 kind
    have read : NumberedLine.ofNode? n = some ⟨n.start.line, n.text, .malformed⟩ := by
      rw [NumberedLine.ofNode?, meaning, Option.map_some]
    exact ⟨_, List.mem_filterMap.2 ⟨n, listed, read⟩, rfl⟩

/-! ## Texts that describe machines -/

theorem ofText_eq_ok_iff {text : String} {lines : List NumberedLine}
    (classified : linesOf? text.toList = some lines) (o : Outline) :
    (∃ m, Machine.ofText text = .ok m ∧ m.outline = o) ↔
      text.utf8ByteSize ≤ maxSize ∧ WellFormed lines ∧ o = outlineOf lines := by
  rw [Machine.ofText, read, classified]
  by_cases large : text.utf8ByteSize > maxSize
  · simp [large, Nat.not_le.2 large]
  rw [if_neg large]
  rcases assemble_lines lines with ⟨formed, m, assembled, outline, -⟩ | ⟨unformed, e, failed⟩
  · simp [assembled, formed, outline, Nat.not_lt.1 large, eq_comm]
  · simp [failed, unformed]

/-- A text describes a machine exactly if it is not too large and its lines are well formed. -/
theorem ofText_iff_wellFormed (text : String) : ∃ program lines,
    Element.program.nodes? text.toList = some [program] ∧
      linesOf? text.toList = some lines ∧
      lines = program.children.filterMap NumberedLine.ofNode? ∧
      ((∃ l ∈ lines, l.line = .malformed) ↔ ∃ n ∈ program.children, n.kind = .malformedRule) ∧
      ∀ o, (∃ m, Machine.ofText text = .ok m ∧ m.outline = o) ↔
        text.utf8ByteSize ≤ maxSize ∧ WellFormed lines ∧ o = outlineOf lines := by
  obtain ⟨k, -, program⟩ := exists_program text.toList
  have makes : ∀ n ∈ (rows .first [] text.toList).flatMap rowNodes ++ [.between .endOfText k k []],
      MakesRule n := by
    intro n member
    rcases List.mem_append.1 member with inRow | last
    · obtain ⟨row, -, inRow⟩ := List.mem_flatMap.1 inRow
      exact makesRule_rowNodes row n inRow
    · obtain rfl := List.mem_singleton.1 last
      exact fun isRule => Element.noConfusion isRule
  have lines : linesOf? text.toList = some (((rows .first [] text.toList).flatMap rowNodes ++
      [Node.between Element.endOfText k k []]).filterMap NumberedLine.ofNode?) := by
    rw [linesOf?, program, Option.map_some, List.flatMap_singleton]
    rfl
  exact ⟨_, _, program, lines, rfl, exists_malformed_iff makes, ofText_eq_ok_iff lines⟩

end OneTape.Description
