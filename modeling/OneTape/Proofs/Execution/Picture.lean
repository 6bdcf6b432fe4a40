import OneTape.Proofs.Description.Errors
import OneTape.Proofs.Execution.Scanning
import OneTape.Proofs.Execution.View
import OneTape.Proofs.Tape.Contents

namespace OneTape

namespace Configuration

variable {c : Configuration} {chars : List Char} {p : Nat} {o first last : Int}

/-- The line shows the cells of the tape from some cell on, with the head at `p`, and leaves out
neither the head nor a cell that is not blank. -/
structure Drawn (c : Configuration) (chars : List Char) (p : Nat) : Prop where
  head_inside : p < chars.length
  shown : ∀ j < chars.length, chars[j]? = some (c.tape.read (c.head - p + j)).shown
  covers : ∀ o, c.tape.read o ≠ Symbol.blank → ∃ j < chars.length, c.head - p + j = o

theorem Drawn.under_head (drawn : c.Drawn chars p) : chars[p]? = some c.symbol.shown := by
  have here : c.head - (p : Int) + p = c.head := by omega
  rw [drawn.shown p drawn.head_inside, here]
  rfl

theorem head_mem_window (c : Configuration) : c.window.1 ≤ c.head ∧ c.head ≤ c.window.2 := by
  unfold window
  split
  · exact ⟨Int.min_le_right _ _, Int.le_max_right _ _⟩
  · exact ⟨Int.le_refl _, Int.le_refl _⟩

theorem mem_window (solid : c.tape.read o ≠ Symbol.blank) :
    c.window.1 ≤ o ∧ o ≤ c.window.2 := by
  unfold window
  cases bounded : c.tape.bounds with
  | none => exact absurd (c.tape.bounds_eq_none bounded o) solid
  | some ends =>
    have inside := (c.tape.bounds_isExtent bounded).mem o solid
    dsimp only
    omega

theorem window_least (head : first ≤ c.head ∧ c.head ≤ last)
    (solid : ∀ o, c.tape.read o ≠ Symbol.blank → first ≤ o ∧ o ≤ last) :
    first ≤ c.window.1 ∧ c.window.2 ≤ last := by
  unfold window
  cases bounded : c.tape.bounds with
  | none => exact head
  | some ends =>
    have extent := c.tape.bounds_isExtent bounded
    have left := solid _ extent.first_ne
    have right := solid _ extent.last_ne
    dsimp only
    omega

theorem head_sub_indentation (c : Configuration) : c.head - c.indentation = c.window.1 := by
  have inside := c.head_mem_window
  unfold indentation
  omega

/-! ## The line -/

theorem length_row (c : Configuration) :
    (c.row.toList.length : Int) = c.window.2 + 1 - c.window.1 := by
  have inside := c.head_mem_window
  simp only [row, Tape.render, Symbol.text, Tape.slice, Tape.offsets, String.toList_ofList,
    List.length_map, List.length_range]
  omega

theorem drawn_row (c : Configuration) : c.Drawn c.row.toList c.indentation := by
  have inside := c.head_mem_window
  have start := c.head_sub_indentation
  have length := c.length_row
  refine ⟨by omega, fun j within => ?_, fun o solid => ?_⟩
  · rw [start, row, Tape.getElem?_render, if_pos (by omega)]
  · have between := mem_window solid
    exact ⟨(o - c.window.1).toNat, by omega, by omega⟩

theorem Drawn.length_row_le (drawn : c.Drawn chars p) : c.row.toList.length ≤ chars.length := by
  have inside := drawn.head_inside
  have covers (o : Int) (solid : c.tape.read o ≠ Symbol.blank) :
      c.head - p ≤ o ∧ o ≤ c.head - p + chars.length - 1 := by
    obtain ⟨j, within, rfl⟩ := drawn.covers o solid
    omega
  have least := window_least (by omega) covers
  have length := c.length_row
  omega

end Configuration

namespace Machine

variable {m : Machine} {row : List Symbol} {c : Configuration} {text : String}

theorem picture?_eq_none_iff :
    m.picture? c = none ↔ Configuration.maxIndentation < c.indentation := by
  rw [← Nat.not_le, picture?]
  split <;> simp [*]

/-- The line is the shortest that shows the head and all that is written. There is a picture unless
the head is further out than the widest indentation, which takes as many steps. -/
theorem picture_shows_tape (parsed : Machine.ofText text = .ok m) (visited : m.Visits row c) :
    ∃ q chars p, m.state? c.state = some q ∧ c.Drawn chars p ∧
      (∀ chars' p', c.Drawn chars' p' → chars.length ≤ chars'.length) ∧
      c.window.1 + p = c.head ∧ chars[p]? = some c.symbol.shown ∧
      (p ≤ Configuration.maxIndentation → m.picture? c =
        some (String.ofList (chars ++ '\n' :: (List.replicate p ' ' ++ ['^', ' '])) ++ q.name)) ∧
      (Configuration.maxIndentation < p → m.picture? c = none) ∧
      (c.steps ≤ Configuration.maxIndentation → p ≤ Configuration.maxIndentation) := by
  have drawn := c.drawn_row
  have start := c.head_sub_indentation
  obtain ⟨q, stored⟩ := visited.exists_state (valid_ofText parsed)
  refine ⟨q, c.row.toList, c.indentation, stored, drawn, fun chars' p' => ?_, by omega,
    drawn.under_head, fun within => ?_, picture?_eq_none_iff.2, fun few => ?_⟩
  · exact Configuration.Drawn.length_row_le
  · have name : m.nameOf c.state = q.name := by simp [nameOf, stored]
    rw [picture?, if_pos within, name]
    refine congrArg some (String.toList_injective ?_)
    simp only [String.toList_append, String.toList_ofList, List.append_assoc, List.cons_append]
    rfl
  · have seen := visited.picture?_isSome few
    rw [Option.isSome_iff_ne_none, ne_eq, picture?_eq_none_iff] at seen
    exact Nat.not_lt.1 seen

theorem picture_shows_tape_left_of_row : ∃ m c,
    Machine.ofText "A, B\ninit A\nA:\n\t1, 0, <, B\n" = .ok m ∧ m.Visits ['1'] c ∧
      m.picture? c = some "_0\n^ B" ∧ c.head = -1 ∧
      ∃ q chars p, m.state? c.state = some q ∧ c.Drawn chars p ∧ chars[p]? = some '_' ∧
        m.picture? c = some
          (String.ofList (chars ++ '\n' :: (List.replicate p ' ' ++ ['^', ' '])) ++ q.name) := by
  have checked : ((Machine.ofText "A, B\ninit A\nA:\n\t1, 0, <, B\n").toOption.any fun m =>
      let c := m.advance 1 (m.start ['1'])
      m.picture? c == some "_0\n^ B" && c.head == -1 && c.symbol.shown == '_' &&
        c.steps == 1) = true := by
    decide +kernel
  obtain ⟨m, parsed, answers⟩ := Description.ok_of_any checked
  simp only [Bool.and_eq_true, beq_iff_eq] at answers
  obtain ⟨⟨⟨picture, head⟩, blank⟩, steps⟩ := answers
  have visited : m.Visits ['1'] (m.advance 1 (m.start ['1'])) := .advance m ['1'] 1
  obtain ⟨q, chars, p, stored, drawn, -, -, under, composed, -, near⟩ :=
    picture_shows_tape parsed visited
  have few : p ≤ Configuration.maxIndentation := near (by rw [steps]; decide)
  exact ⟨m, _, parsed, visited, picture, head, q, chars, p, stored, drawn, blank ▸ under,
    composed few⟩

/-! ## Out of view -/

def wandering : String := "A\ninit A\nA:\n\t1 1 > A\n\t_ _ > A\n"

/-- The mark at the start stays on the tape, so that the line begins with it. -/
theorem no_picture_far_from_mark : ∃ m c, Machine.ofText wandering = .ok m ∧
    m.after? 65536 (m.start ['1']) = some c ∧ c.head = 65536 ∧ m.picture? c = none := by
  have checked : ((Machine.ofText wandering).toOption.any fun m =>
      m.initial == 0 && m.outline.pass? 0 '1' == some 0 &&
        m.outline.pass? 0 Symbol.blank == some 0) = true := by
    decide +kernel
  obtain ⟨m, parsed, answers⟩ := Description.ok_of_any checked
  simp only [Bool.and_eq_true, beq_iff_eq] at answers
  obtain ⟨⟨initial, one⟩, blank⟩ := answers
  have scanned : m.outline.scan? m.initial ('1' :: List.replicate 65535 Symbol.blank) =
      some 0 := by
    rw [initial, Description.Outline.scan?_cons, one, Option.bind_some,
      Description.Outline.scan?_replicate blank]
  have length : ('1' :: List.replicate 65535 Symbol.blank).length = 65536 := by
    rw [List.length_cons, List.length_replicate]
  have row : Textbook.start m ('1' :: List.replicate 65535 Symbol.blank ++ []) =
      Textbook.start m ['1'] := by
    rw [List.append_nil, Textbook.start, Textbook.start]
    exact congrArg _ (Textbook.contents_append_blanks ['1'] 65535)
  have arrives := Textbook.after?_start scanned []
  rw [row, length, ← Textbook.plain_start, ← Textbook.plain_after? (valid_ofText parsed),
    Option.map_eq_some_iff] at arrives
  obtain ⟨c, reached, plain⟩ := arrives
  have head : c.head = 65536 := congrArg Textbook.head plain
  have mark : c.tape.read 0 = '1' := congrFun (congrArg Textbook.cells plain) 0
  refine ⟨m, c, parsed, reached, head, ?_⟩
  rw [← Option.not_isSome_iff_eq_none, picture?_isSome_iff]
  intro inView
  have near := inView 0 (by rw [mark]; decide)
  rw [head] at near
  exact absurd near (by decide)

end Machine

end OneTape
