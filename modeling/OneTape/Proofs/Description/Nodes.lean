import OneTape.Proofs.Description.RuleParts

namespace OneTape.Description

open Grammar Pattern Form

variable {k : Cursor} {m : Match Element}

theorem isName_name : Form.name.Yields fun n => IsName n.text := by
  intro k m matched n member
  obtain ⟨name, isName, -, single⟩ := took_name matched
  obtain rfl := List.mem_singleton.1 (single ▸ member)
  exact isName

theorem isName_names : names.Yields fun n => IsName n.text :=
  isName_name.seq ((yields_of_silent rfl).seq isName_name).many

theorem ofWritten_writable {c : Char} (ordinary : breaksLine c = false) :
    Symbol.ofWritten c ∉ unwritable := by
  simp only [breaksLine, Bool.or_eq_false_iff, beq_eq_false_iff_ne] at ordinary
  unfold Symbol.ofWritten
  split
  · decide
  · rename_i other
    simpa [unwritable, Symbol.placeholder] using ⟨other, ordinary⟩

theorem symbolOf_writable {word rest : List Char} (isSymbol : IsSymbol word rest)
    (unbroken : Unbroken word) : symbolOf word ∉ unwritable := by
  cases isSymbol with
  | quoted c => exact ofWritten_writable (unbroken c (by simp))
  | @bare c =>
    have same : symbolOf [c] = Symbol.ofWritten c := by
      rw [symbolOf]
      rintro _ _ more
      cases more
    rw [same]
    exact ofWritten_writable (unbroken c (by simp))

theorem exists_ofMarker? {c : Char} (known : c ∈ ['>', '<', 'S', 'R', 'L']) :
    ∃ d, Direction.ofMarker? c = some d := by
  simp only [List.mem_cons, List.not_mem_nil, or_false] at known
  rcases known with rfl | rfl | rfl | rfl | rfl <;> exact ⟨_, rfl⟩

/-- A rule has four fields, of which the first two are symbols and the third is a direction. -/
theorem fields_ruleLine (matched : ruleLine.match? k = some m) :
    ∃ n read write marker target c d, m.nodes = [n] ∧ n.kind = .ruleLine ∧
      n.children = [read, write, marker, target] ∧
      symbolOf read.text ∉ unwritable ∧ symbolOf write.text ∉ unwritable ∧
      marker.text = [c] ∧ Direction.ofMarker? c = some d := by
  obtain ⟨p, proper, read, write, -, -, single⟩ := took_ruleLine matched
  obtain ⟨d, marks⟩ := exists_ofMarker? proper.marker
  exact ⟨_, _, _, _, _, p.marker, d, single, rfl, rfl, symbolOf_writable proper.read read,
    symbolOf_writable proper.write write, rfl, marks⟩

/-! ## Lines -/

/-- The line declares nothing but names, at least one, and has no rule for another symbol than
those that can be written down. -/
def Line.Worded : Line → Prop
  | .header names => names ≠ [] ∧ ∀ name ∈ names, IsName name.toList
  | .rule read write _ _ _ => read ∉ unwritable ∧ write ∉ unwritable
  | _ => True

def NodeWorded (n : Node Element) : Prop := ∀ l, Line.ofNode? n = some l → l.Worded

theorem worded_node {kind : Element} {p : Form}
    (other : kind ≠ .headerLine ∧ kind ≠ .ruleLine) : (node kind p).Yields NodeWorded := by
  refine yields_node fun k body taken inside l means => ?_
  cases kind <;> simp_all [Line.ofNode?, Node.kind] <;> subst means <;> trivial

theorem worded_headerLine : headerLine.Yields NodeWorded := by
  refine yields_node fun k body taken inside l means => ?_
  obtain ⟨m₁, m₂, listed, ended, rfl⟩ := match?_seq_eq_some_iff.1 inside
  have areNames := isName_names k m₁ listed
  obtain ⟨m₃, m₄, first, -, rfl⟩ := match?_seq_eq_some_iff.1 listed
  obtain ⟨name, -, -, one⟩ := took_name first
  obtain rfl := Option.some.inj means
  refine ⟨?_, ?_⟩
  · simp [Node.children, one]
  · intro name named
    rw [Node.children, nodes_of_silent rfl ended, List.append_nil] at named
    obtain ⟨n, listed, rfl⟩ := List.mem_map.1 named
    simpa [nameOf] using areNames n listed

theorem worded_ruleLine : ruleLine.Yields NodeWorded := by
  intro k m matched n member l means
  obtain ⟨_, read, write, marker, target, c, d, single, kind, children, readable, writable, text,
    marks⟩ := fields_ruleLine matched
  rw [single] at member
  obtain rfl := List.mem_singleton.1 member
  have rule : ruleOf? n.children = some (.rule (symbolOf read.text) (symbolOf write.text) d
      (nameOf target) target.start.column) := by
    simp [children, ruleOf?, text, marks]
  rw [Line.ofNode?, kind, rule] at means
  obtain rfl := Option.some.inj means
  exact ⟨readable, writable⟩

theorem worded_line : Form.line.Yields NodeWorded := by
  have node {kind : Element} {p : Form} (other : kind ≠ .headerLine ∧ kind ≠ .ruleLine) :
      (Pattern.node kind p).Yields NodeWorded := worded_node other
  exact (node (by decide)).choice <| (yields_of_silent rfl).choice <| worded_ruleLine.choice <|
    (node (by decide)).choice <| (node (by decide)).choice <| (node (by decide)).choice <|
    (node (by decide)).choice <| worded_headerLine.choice (node (by decide))

theorem yields_rowNodes {P : Node Element → Prop} (holds : Form.line.Yields P)
    (row : Position × List Char) : ∀ n ∈ rowNodes row, P n := by
  intro n member
  unfold rowNodes at member
  cases matched : Form.line.match? ⟨row.1, row.2⟩ with
  | none => simp [matched] at member
  | some m =>
    rw [matched] at member
    exact holds _ m matched n member

theorem worded_of_linesOf? {text : List Char} {lines : List NumberedLine}
    (classified : linesOf? text = some lines) : ∀ l ∈ lines, l.line.Worded := by
  intro l member
  rw [linesOf?_eq] at classified
  obtain rfl := Option.some.inj classified
  obtain ⟨row, -, inRow⟩ := List.mem_flatMap.1 member
  obtain ⟨n, listed, read⟩ := List.mem_filterMap.1 inRow
  obtain ⟨line, means, rfl⟩ := Option.map_eq_some_iff.1 read
  exact yields_rowNodes worded_line row n listed line means

end OneTape.Description
