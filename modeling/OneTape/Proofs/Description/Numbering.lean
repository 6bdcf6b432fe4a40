import OneTape.Proofs.Description.Lines

namespace OneTape.Description

open Grammar Pattern Form

variable {line ending text : List Char} {start : Position}

/-- What a line says as a text of its own. A blank line says nothing. -/
def wording (line : List Char) : Option Line :=
  (linesOf? line).bind fun lines => lines.head?.map NumberedLine.line

def Line.move (columns : Nat) : Line → Line
  | rule read write direction target column =>
    rule read write direction target (columns + column)
  | line => line

@[simp]
theorem Line.move_zero (l : Line) : l.move 0 = l := by
  cases l <;> simp [move]

theorem text_shift (origin : Position) (n : Node Element) :
    (n.shift origin).text = n.text := by
  cases n
  rw [Node.shift_mk]
  rfl

theorem column_shift (origin : Position) (n : Node Element) :
    (n.shift origin).start.column = origin.column - 1 + n.start.column := by
  cases n
  rw [Node.shift_mk]
  rfl

theorem map_nameOf_shift (origin : Position) (nodes : List (Node Element)) :
    (nodes.map (Node.shift origin)).map nameOf = nodes.map nameOf := by
  rw [List.map_map]
  exact List.map_congr_left fun n _ => congrArg String.ofList (text_shift origin n)

theorem ruleOf?_shift (origin : Position) (nodes : List (Node Element)) :
    ruleOf? (nodes.map (Node.shift origin)) =
      (ruleOf? nodes).map (Line.move (origin.column - 1)) := by
  unfold ruleOf?
  split
  · rename_i same
    obtain ⟨read, _, rfl, rfl, same₁⟩ := List.map_eq_cons_iff.1 same
    obtain ⟨write, _, rfl, rfl, same₂⟩ := List.map_eq_cons_iff.1 same₁
    obtain ⟨direction, _, rfl, rfl, same₃⟩ := List.map_eq_cons_iff.1 same₂
    obtain ⟨target, _, rfl, rfl, same₄⟩ := List.map_eq_cons_iff.1 same₃
    obtain rfl := List.map_eq_nil_iff.1 same₄
    simp only [text_shift, column_shift, nameOf]
    split
    · cases Direction.ofMarker? _ <;> rfl
    · rfl
  · rename_i other
    split
    · rename_i read write direction target
      exact absurd rfl (other _ _ _ _)
    · rfl

theorem ofNode?_shift (origin : Position) (n : Node Element) :
    Line.ofNode? (n.shift origin) = (Line.ofNode? n).map (Line.move (origin.column - 1)) := by
  obtain ⟨kind, start, stop, text, children⟩ := n
  rw [Node.shift_mk]
  have head : (children.map (Node.shift origin)).head?.map nameOf = children.head?.map nameOf := by
    rw [← List.head?_map, ← List.head?_map, map_nameOf_shift]
  cases kind with
  | directive =>
    simp only [Line.ofNode?, Node.kind, Node.children, List.head?_map, Option.any_map,
      text_shift, Option.map_some]
    rfl
  | headerLine =>
    simp only [Line.ofNode?, Node.kind, Node.children, map_nameOf_shift]
    rfl
  | acceptLine =>
    simp only [Line.ofNode?, Node.kind, Node.children, map_nameOf_shift]
    rfl
  | initLine =>
    simp only [Line.ofNode?, Node.kind, Node.children, head]
    rfl
  | blockHeader =>
    simp only [Line.ofNode?, Node.kind, Node.children, head]
    rfl
  | ruleLine =>
    simp only [Line.ofNode?, Node.kind, Node.children, ruleOf?_shift]
    cases ruleOf? children <;> rfl
  | _ => rfl

theorem linesOf?_line (unbroken : Unbroken line) :
    linesOf? line = some (linesOfRow (.first, line)) := by
  have single := (Cut.last .first unbroken).eq_rows
  rw [linesOf?_eq, ← single, List.flatMap_singleton]

theorem linesOfRow_eq (unbroken : Unbroken line) (counted : start.Counted) :
    linesOfRow (start, line) =
      ((wording line).map fun l => ⟨start.line, line, l.move (start.column - 1)⟩).toList := by
  rw [wording, linesOf?_line unbroken, linesOfRow, linesOfRow, rowNodes_shift unbroken counted]
  by_cases solid : ∃ c ∈ line, c ≠ ' ' ∧ c ≠ '\t'
  · obtain ⟨kind, children, single⟩ := @rowNodes_solid .first line unbroken solid
    have number := congrArg Position.line counted.shift_first
    simp only [single, List.map_singleton, List.filterMap_cons, List.filterMap_nil,
      NumberedLine.ofNode?, ofNode?_shift]
    cases Line.ofNode? (.mk kind Position.first (Position.first.advance line) line children) with
    | none => rfl
    | some l => simp [Node.start, Node.text, counted.shift_first]
  · have blank : ∀ c ∈ line, c = ' ' ∨ c = '\t' := by
      intro c member
      by_contra other
      exact solid ⟨c, member, not_or.1 other⟩
    rw [rowNodes_blank blank]
    rfl

def Placed (p : Position × List Char) : Prop := Unbroken p.2 ∧ p.1.Counted

theorem linesOfRow_placed {p : Position × List Char} (placed : Placed p) : linesOfRow p =
    ((wording p.2).map fun l => ⟨p.1.line, p.2, l.move (p.1.column - 1)⟩).toList :=
  linesOfRow_eq placed.1 placed.2

theorem Cut.placed {text : List Char} {pieces : List (Position × List Char)}
    (cut : Cut .first text pieces) : ∀ p ∈ pieces, Placed p :=
  fun p member => ⟨cut.unbroken p member, cut.counted Position.counted_first p member⟩

/-! ## Physical lines -/

/-- Each carriage return is followed by a line feed. -/
def Paired (text : List Char) : Prop :=
  ∀ before after, text = before ++ '\r' :: after → after.head? = some '\n'

theorem paired_iff : Paired text ↔
    ∀ i < text.length, text[i]? = some '\r' → text[i + 1]? = some '\n' := by
  constructor
  · intro paired i bound here
    obtain ⟨_, rest⟩ := List.getElem?_eq_some_iff.1 here
    have split : text = text.take i ++ '\r' :: text.drop (i + 1) := by
      rw [← rest, List.getElem_cons_drop, List.take_append_drop]
    rw [← List.head?_drop]
    exact paired _ _ split
  · rintro each before after rfl
    have next := each before.length (by simp) (by simp)
    rw [List.getElem?_append_right (Nat.le_add_right _ 1), Nat.add_sub_cancel_left,
      List.getElem?_cons_succ] at next
    rwa [List.head?_eq_getElem?]

instance (text : List Char) : Decidable (Paired text) := decidable_of_iff _ paired_iff.symm

def dropReturn (line : List Char) : List Char :=
  if line.getLast? = some '\r' then line.dropLast else line

/-- The lines of a text as its line feeds tell them apart. -/
def physicalLines (text : List Char) : List (List Char) := (text.splitOn '\n').map dropReturn

theorem Paired.of_append {before after : List Char} (paired : Paired (before ++ after)) :
    Paired after := by
  rintro s t rfl
  exact paired (before ++ s) t (by simp)

theorem dropReturn_of_unbroken (unbroken : Unbroken line) : dropReturn line = line := by
  refine if_neg fun last => ?_
  cases unbroken '\r' (List.mem_of_getLast? last)

theorem physicalLines_unbroken (unbroken : Unbroken line) : physicalLines line = [line] := by
  have single : line.splitOn '\n' = [line] :=
    List.splitOn_eq_singleton fun feed => unbroken.oneLine '\n' feed rfl
  rw [physicalLines, single, List.map_singleton, dropReturn_of_unbroken unbroken]

theorem physicalLines_append (oneLine : OneLine line) :
    physicalLines (line ++ '\n' :: text) = dropReturn line :: physicalLines text := by
  have first : (line ++ '\n' :: text).splitOn '\n' = line :: text.splitOn '\n' :=
    List.splitOn_append_cons_self_of_not_mem (fun feed => oneLine '\n' feed rfl) text
  rw [physicalLines, first, List.map_cons, physicalLines]

theorem advance_unbroken (unbroken : Unbroken line) (start : Position) :
    (start.advance line).line = start.line ∧
      (start.advance line).column = start.column + line.length := by
  induction line generalizing start with
  | nil => exact ⟨rfl, rfl⟩
  | cons c line ih =>
    have ordinary : c ≠ '\n' := unbroken.oneLine c List.mem_cons_self
    obtain ⟨sameLine, column⟩ := ih unbroken.tail (start.next c)
    rw [Position.advance, List.foldl_cons, ← Position.advance, sameLine, column]
    simp only [Position.next, ordinary, if_false, List.length_cons]
    exact ⟨trivial, by omega⟩

theorem Cut.eq_physicalLines {pieces : List (Position × List Char)} (cut : Cut start text pieces)
    (paired : Paired text) (column : start.column = 1) :
    pieces.map Prod.snd = physicalLines text ∧
      ∀ i piece, pieces[i]? = some piece → piece.1.line = start.line + i ∧ piece.1.column = 1 := by
  induction cut with
  | last start unbroken =>
    refine ⟨(physicalLines_unbroken unbroken).symm, fun i piece here => ?_⟩
    obtain ⟨bound, rfl⟩ := List.getElem?_eq_some_iff.1 here
    obtain rfl : i = 0 := by simpa using bound
    exact ⟨rfl, column⟩
  | @line start line ending text pieces unbroken ends whole cut ih =>
    have behind : Paired text := (paired.of_append).of_append
    -- The line end is not a carriage return alone.
    have feeds : (∃ back, ending = back ++ ['\n'] ∧ OneLine (line ++ back) ∧
        dropReturn (line ++ back) = line) ∧
        ((start.advance line).advance ending).line = start.line + 1 ∧
        ((start.advance line).advance ending).column = 1 := by
      obtain ⟨sameLine, -⟩ := advance_unbroken unbroken start
      simp only [lineEnds, List.mem_cons, List.not_mem_nil, or_false] at ends
      rcases ends with rfl | rfl | rfl
      · refine ⟨⟨[], rfl, ?_, ?_⟩, ?_, rfl⟩
        · rw [List.append_nil]
          exact unbroken.oneLine
        · rw [List.append_nil, dropReturn_of_unbroken unbroken]
        · simp [Position.advance, Position.next] at sameLine ⊢
          exact sameLine
      · refine ⟨⟨['\r'], rfl, ?_, by simp [dropReturn]⟩, ?_, rfl⟩
        · intro c member
          rcases List.mem_append.1 member with member | member
          · exact unbroken.oneLine c member
          · rw [List.mem_singleton.1 member]
            decide
        · simp [Position.advance, Position.next] at sameLine ⊢
          exact sameLine
      · exact absurd (paired line text rfl) (whole rfl)
    obtain ⟨⟨back, rfl, oneLine, dropped⟩, number, first⟩ := feeds
    obtain ⟨same, places⟩ := ih behind first
    constructor
    · have split : line ++ (back ++ ['\n'] ++ text) = (line ++ back) ++ '\n' :: text := by simp
      rw [split, physicalLines_append oneLine, dropped, List.map_cons, same]
    · intro i piece here
      cases i with
      | zero =>
        obtain rfl := Option.some.inj here
        exact ⟨rfl, column⟩
      | succ i =>
        rw [List.getElem?_cons_succ] at here
        obtain ⟨line, column⟩ := places i piece here
        exact ⟨by omega, column⟩

def numbered (n : Nat) (line : List Char) : Option NumberedLine :=
  (wording line).map fun l => ⟨n, line, l⟩

theorem linesOf?_eq_numbered (paired : Paired text) :
    linesOf? text = some (((physicalLines text).zipIdx 1).filterMap fun p => numbered p.2 p.1) := by
  have cut : Cut .first text (rows .first [] text) := cut_iff.2 rfl
  obtain ⟨same, places⟩ := cut.eq_physicalLines paired rfl
  rw [linesOf?_eq, ← same, List.zipIdx_map, List.filterMap_map]
  have each : ∀ p ∈ (rows .first [] text).zipIdx 1,
      linesOfRow p.1 = (numbered p.2 p.1.2).toList := by
    rintro ⟨⟨start, line⟩, n⟩ member
    obtain ⟨i, rfl, here⟩ : ∃ i, n = 1 + i ∧ (rows .first [] text)[i]? = some (start, line) := by
      obtain ⟨le, here⟩ := List.mem_zipIdx_iff_le_and_getElem?_sub.1 member
      exact ⟨n - 1, by omega, here⟩
    obtain ⟨number, column⟩ := places i _ here
    have inText := List.mem_of_getElem? here
    have unbroken : Unbroken line := cut.unbroken _ inText
    have counted : start.Counted := cut.counted Position.counted_first _ inText
    have number : start.line = 1 + i := number
    have column : start.column = 1 := column
    simp [linesOfRow_eq unbroken counted, numbered, number, column]
  have rows_eq : (rows .first [] text).flatMap linesOfRow =
      ((rows .first [] text).zipIdx 1).flatMap fun p => linesOfRow p.1 := by
    conv_lhs => rw [← List.zipIdx_map_fst 1 (rows .first [] text), List.flatMap_map]
  rw [rows_eq, List.flatMap_congr each, List.filterMap_eq_flatMap_toList]
  rfl

end OneTape.Description
