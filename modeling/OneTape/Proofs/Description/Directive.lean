import OneTape.Proofs.Description.Acceptance
import OneTape.Proofs.Description.Numbering

namespace OneTape.Description

open Grammar

variable {line : List Char} {text : String} {pieces : List (Position × List Char)} {m : Machine}

def directiveOf? (line : List Char) : Option Bool := (wording line).bind Line.directive?

theorem directive?_move (columns : Nat) (l : Line) :
    (l.move columns).directive? = l.directive? := by
  cases l <;> rfl

theorem select_linesOfRow {p : Position × List Char} (placed : Placed p) :
    select Line.directive? (linesOfRow p) = (directiveOf? p.2).toList := by
  rw [linesOfRow_placed placed, directiveOf?]
  cases wording p.2 with
  | none => rfl
  | some l =>
    rw [Option.map_some, Option.toList_some, select, List.filterMap_cons, directive?_move]
    cases found : l.directive? <;> simp [found]

theorem select_directives (placed : ∀ p ∈ pieces, Placed p) :
    select Line.directive? (pieces.flatMap linesOfRow) =
      pieces.filterMap fun p => directiveOf? p.2 := by
  rw [select, List.filterMap_flatMap, List.filterMap_eq_flatMap_toList]
  exact List.flatMap_congr fun p member => select_linesOfRow (placed p member)

theorem select_lines (cut : Cut .first text.toList pieces) {lines : List NumberedLine}
    (classified : linesOf? text.toList = some lines) :
    select Line.directive? lines = pieces.filterMap fun p => directiveOf? p.2 := by
  rw [linesOf?_eq, ← cut.eq_rows, Option.some.injEq] at classified
  rw [← classified, select_directives cut.placed]

theorem exists_directive_line (cut : Cut .first text.toList pieces) {lines : List NumberedLine}
    (classified : linesOf? text.toList = some lines) {p : Position × List Char} (member : p ∈ pieces)
    (directive : (directiveOf? p.2).isSome) :
    ∃ l ∈ lines, l.line.directive?.isSome ∧ l.number = p.1.line := by
  rw [linesOf?_eq, ← cut.eq_rows, Option.some.injEq] at classified
  obtain ⟨b, found⟩ := Option.isSome_iff_exists.1 directive
  obtain ⟨l, read, isDirective⟩ := Option.bind_eq_some_iff.1 found
  have row := linesOfRow_placed (cut.placed p member)
  rw [read] at row
  refine ⟨⟨p.1.line, p.2, l.move (p.1.column - 1)⟩, ?_, ?_, rfl⟩
  · rw [← classified]
    exact List.mem_flatMap.2 ⟨p, member, by simp [row]⟩
  · simp [directive?_move, isDirective]

theorem directive_line_eq_one (parsed : Machine.ofText text = .ok m)
    (cut : Cut .first text.toList pieces) :
    (∀ p ∈ pieces, (directiveOf? p.2).isSome → p.1.line = 1) ∧
      m.debug = (pieces.filterMap fun p => directiveOf? p.2).getLastD false := by
  obtain ⟨lines, classified, -, formed, outline, -⟩ := Machine.exists_lines parsed
  constructor
  · intro p member directive
    obtain ⟨l, listed, isDirective, number⟩ := exists_directive_line cut classified member directive
    rw [← number]
    exact formed.directive_first l listed isDirective
  · have flag : m.debug = (outlineOf lines).debug := congrArg Outline.debug outline
    rw [flag, outlineOf, select_lines cut classified]

/-- A directive is accepted on lines with the number 1 only, and the last one sets the flag. -/
theorem directive_on_line_one (text : String) :
    (∀ pieces, Cut .first text.toList pieces →
      ((∃ p ∈ pieces, (directiveOf? p.2).isSome ∧ p.1.line ≠ 1) →
        ∃ e, Machine.ofText text = .error e) ∧
      ∀ m, Machine.ofText text = .ok m →
        (∀ p ∈ pieces, (directiveOf? p.2).isSome → p.1.line = 1) ∧
        m.debug = (pieces.filterMap fun p => directiveOf? p.2).getLastD false) ∧
    (Paired text.toList →
      (∀ i line, (physicalLines text.toList)[i]? = some line → (directiveOf? line).isSome → 0 < i →
        ∃ e, Machine.ofText text = .error e) ∧
      ∀ m, Machine.ofText text = .ok m →
        (∀ i line, (physicalLines text.toList)[i]? = some line → (directiveOf? line).isSome →
          i = 0) ∧
        (m.debug = true ↔ ∃ line, (physicalLines text.toList)[0]? = some line ∧
          directiveOf? line = some true)) := by
  have only {pieces : List (Position × List Char)} (cut : Cut .first text.toList pieces)
      (late : ∃ p ∈ pieces, (directiveOf? p.2).isSome ∧ p.1.line ≠ 1) :
      ∃ e, Machine.ofText text = .error e := by
    obtain ⟨p, member, directive, number⟩ := late
    cases parsed : Machine.ofText text with
    | error e => exact ⟨e, rfl⟩
    | ok m => exact absurd ((directive_line_eq_one parsed cut).1 p member directive) number
  refine ⟨fun pieces cut => ⟨only cut, fun m parsed => directive_line_eq_one parsed cut⟩,
    fun paired => ?_⟩
  have cut : Cut .first text.toList (rows .first [] text.toList) := cut_iff.2 rfl
  obtain ⟨same, places⟩ := cut.eq_physicalLines paired rfl
  -- The line with the index `i` is the row with the number `1 + i`.
  have row {i : Nat} {line : List Char} (here : (physicalLines text.toList)[i]? = some line) :
      ∃ start : Position, (rows .first [] text.toList)[i]? = some (start, line) ∧
        start.line = 1 + i := by
    rw [← same, List.getElem?_map] at here
    obtain ⟨⟨start, line⟩, at_i, rfl⟩ := Option.map_eq_some_iff.1 here
    exact ⟨start, at_i, (places i _ at_i).1⟩
  constructor
  · intro i line here directive later
    obtain ⟨start, at_i, number⟩ := row here
    exact only cut ⟨(start, line), List.mem_of_getElem? at_i, directive,
      by show start.line ≠ 1; omega⟩
  intro m parsed
  obtain ⟨early, flag⟩ := directive_line_eq_one parsed cut
  have first : ∀ i line, (physicalLines text.toList)[i]? = some line →
      (directiveOf? line).isSome → i = 0 := by
    intro i line here directive
    obtain ⟨start, at_i, number⟩ := row here
    have one : start.line = 1 := early _ (List.mem_of_getElem? at_i) directive
    omega
  refine ⟨first, ?_⟩
  have lines : ((rows .first [] text.toList).filterMap fun p => directiveOf? p.2) =
      (physicalLines text.toList).filterMap directiveOf? := by
    rw [← same, List.filterMap_map]
    rfl
  rw [flag, lines]
  cases all : physicalLines text.toList with
  | nil => simp
  | cons line others =>
    have silent : others.filterMap directiveOf? = [] := by
      refine List.filterMap_eq_nil_iff.2 fun other member => ?_
      obtain ⟨i, here⟩ := List.mem_iff_getElem?.1 member
      by_contra another
      have directive := Option.isSome_iff_ne_none.2 another
      have zero := first (i + 1) other (by rw [all, List.getElem?_cons_succ, here]) directive
      omega
    rw [List.filterMap_cons]
    cases found : directiveOf? line <;> simp [silent, found]

theorem directive_on_line_one_line_ends : ∃ m e,
    Machine.ofText "DEBUG 1\r\nA\ninit A\r\n" = .ok m ∧ m.debug = true ∧
      Machine.ofText "A\r\nDEBUG 1\ninit A" = .error e := by
  have paired : Paired "DEBUG 1\r\nA\ninit A\r\n".toList := by decide +kernel
  have paired' : Paired "A\r\nDEBUG 1\ninit A".toList := by decide +kernel
  obtain ⟨e, failed⟩ := ((directive_on_line_one "A\r\nDEBUG 1\ninit A").2 paired').1 1
    "DEBUG 1".toList (by decide +kernel) (by decide +kernel) Nat.one_pos
  have checked : (Machine.ofText "DEBUG 1\r\nA\ninit A\r\n").toOption.any (fun _ => true) = true := by
    decide +kernel
  obtain ⟨m, parsed, -⟩ := ok_of_any checked
  have flag := (((directive_on_line_one "DEBUG 1\r\nA\ninit A\r\n").2 paired).2 m parsed).2
  exact ⟨m, e, parsed, flag.2 ⟨"DEBUG 1".toList, by decide +kernel, by decide +kernel⟩, failed⟩

/-- Carriage returns alone end lines but do not count them, so that this text has a directive on its
second line, and it is the one that holds. -/
theorem directive_behind_carriage_return : ∃ m pieces,
    Machine.ofText "DEBUG 0\rDEBUG 1\rA\rinit A" = .ok m ∧
      Cut .first "DEBUG 0\rDEBUG 1\rA\rinit A".toList pieces ∧
      pieces.map (fun p => directiveOf? p.2) = [some false, some true, none, none] ∧
      m.debug = true := by
  have checked : (Machine.ofText "DEBUG 0\rDEBUG 1\rA\rinit A").toOption.any (·.debug) = true := by
    decide +kernel
  obtain ⟨m, parsed, debug⟩ := ok_of_any checked
  exact ⟨m, _, parsed, cut_iff.2 rfl, by decide +kernel, debug⟩

end OneTape.Description
