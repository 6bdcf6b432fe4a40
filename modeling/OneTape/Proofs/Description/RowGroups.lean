import OneTape.Proofs.Description.Directive
import OneTape.Proofs.Description.Groups
import OneTape.Proofs.Description.Wording

namespace OneTape.Description

open Grammar

abbrev RowGroup := Group (List Char) (List Char)

def rowsOf (text : List Char) : List (List Char) := (rows .first [] text).map Prod.snd

def isBlank (row : List Char) : Bool := row.all fun c => c == ' ' || c == '\t'

def solid (rows : List (List Char)) : List (List Char) := rows.filter (!isBlank ·)

def Group.rows (g : RowGroup) : List (List Char) := g.head :: g.rules

structure Group.Sound (g : RowGroup) : Prop where
  head : ∃ w, wording g.head = some w ∧ w.isSection = true ∧ w.header? = none
  rules : ∀ r ∈ g.rules, ∃ w, wording r = some w ∧ w.clause?.isSome

theorem Group.sound_iff (g : RowGroup) : g.Sound ↔
    ((wording g.head).any fun w => w.isSection && w.header?.isNone) = true ∧
      ∀ r ∈ g.rules, ((wording r).any fun w => w.clause?.isSome) = true := by
  simp only [Option.any_eq_true, Bool.and_eq_true, Option.isNone_iff_eq_none]
  exact ⟨fun sound => ⟨sound.head, sound.rules⟩, fun ⟨head, rules⟩ => ⟨head, rules⟩⟩

instance (g : RowGroup) : Decidable g.Sound := decidable_of_iff _ g.sound_iff.symm

variable {pieces : List (Position × List Char)} {header p : Position × List Char}
variable {names : List String} {groups : List RowGroup} {w : Line}

/-! ## Rows and groups of lines -/

def Group.meaning (g : RowGroup) : LineGroup where
  head := (wording g.head).getD .unknown
  rules := g.rules.filterMap fun r => (wording r).bind Line.clause?

theorem Group.alike_meaning (g g' : RowGroup) (alike : g.Alike g') : g.meaning.Alike g'.meaning :=
  ⟨by rw [meaning, meaning, alike.1], alike.2.filterMap _⟩

theorem Group.Sound.of_alike {g g' : RowGroup} (sound : g.Sound) (alike : g.Alike g') :
    g'.Sound where
  head := alike.1 ▸ sound.head
  rules r listed := sound.rules r (alike.2.mem_iff.1 listed)

theorem linesOfRow_of_isBlank (blank : isBlank p.2 = true) : linesOfRow p = [] := by
  obtain ⟨bs, same⟩ : ∃ bs, p.2 = blanks bs :=
    exists_blanks fun c member => by simpa using List.all_eq_true.1 blank c member
  obtain ⟨start, row⟩ := p
  obtain rfl : row = blanks bs := same
  exact linesOfRow_blanks start bs

theorem flatMap_linesOfRow_filter (pieces : List (Position × List Char)) :
    (pieces.filter fun p => !isBlank p.2).flatMap linesOfRow = pieces.flatMap linesOfRow := by
  induction pieces with
  | nil => rfl
  | cons p pieces ih =>
    cases blank : isBlank p.2 with
    | true => simp [blank, ih, linesOfRow_of_isBlank blank]
    | false => simp [blank, ih]

theorem clause?_move (columns : Nat) (w : Line) : (w.move columns).clause? = w.clause? := by
  cases w <;> rfl

theorem move_of_isSection (columns : Nat) (isSection : w.isSection = true) :
    w.move columns = w := by
  cases w <;> first | rfl | cases isSection

theorem areRules_rows (placed : ∀ p ∈ pieces, Placed p)
    (rules : ∀ r ∈ pieces.map Prod.snd, ∃ w, wording r = some w ∧ w.clause?.isSome) :
    AreRules (pieces.flatMap linesOfRow)
      ((pieces.map Prod.snd).filterMap fun r => (wording r).bind Line.clause?) := by
  induction pieces with
  | nil => rfl
  | cons p pieces ih =>
    obtain ⟨here, others⟩ := List.forall_mem_cons.1 placed
    obtain ⟨⟨w, worded, isRule⟩, rules⟩ := List.forall_mem_cons.1 rules
    obtain ⟨c, clause⟩ := Option.isSome_iff_exists.1 isRule
    have later := ih others rules
    unfold AreRules at later ⊢
    simp [linesOfRow_placed here, worded, clause?_move, clause, later]

theorem grouped_solid_rows (placed : ∀ p ∈ pieces, Placed p) (sound : ∀ g ∈ groups, g.Sound)
    (same : pieces.map Prod.snd = groups.flatMap Group.rows) :
    Grouped (pieces.flatMap linesOfRow) (groups.map Group.meaning) := by
  induction groups generalizing pieces with
  | nil =>
    obtain rfl := List.map_eq_nil_iff.1 same
    exact .nothing
  | cons g groups ih =>
    obtain ⟨isSound, others⟩ := List.forall_mem_cons.1 sound
    rw [List.flatMap_cons, Group.rows, List.cons_append] at same
    obtain ⟨p, behind, rfl, head, rest⟩ := List.map_eq_cons_iff.1 same
    obtain ⟨rules, later, rfl, below, further⟩ := List.map_eq_append_iff.1 rest
    obtain ⟨here, placed⟩ := List.forall_mem_cons.1 placed
    obtain ⟨placed, placed'⟩ := List.forall_mem_append.1 placed
    obtain ⟨w, worded, begins, noHeader⟩ := isSound.head
    have areRules := areRules_rows placed (below ▸ isSound.rules)
    have line : linesOfRow p = [⟨p.1.line, p.2, w⟩] := by
      simp [linesOfRow_placed here, head, worded, move_of_isSection _ begins]
    have meaning : g.meaning = ⟨w, g.rules.filterMap fun r => (wording r).bind Line.clause?⟩ := by
      rw [Group.meaning, worded]
      rfl
    rw [List.flatMap_cons, List.flatMap_append, line, List.map_cons, meaning, ← below,
      List.singleton_append]
    exact .group begins noHeader areRules (ih placed' others further)

theorem grouped_rows (placed : ∀ p ∈ pieces, Placed p) (sound : ∀ g ∈ groups, g.Sound)
    (same : solid (pieces.map Prod.snd) = groups.flatMap Group.rows) :
    Grouped (pieces.flatMap linesOfRow) (groups.map Group.meaning) := by
  rw [← flatMap_linesOfRow_filter]
  refine grouped_solid_rows (fun p member => placed p (List.mem_of_mem_filter member)) sound ?_
  rw [← same, solid, List.filter_map]
  rfl

theorem headed_rows (placed : ∀ p ∈ pieces, Placed p) (placed' : Placed header)
    (leading : ∀ p ∈ pieces, ∀ w, wording p.2 = some w → w.directive?.isSome ∧ p.1.line = 1)
    (isHeader : wording header.2 = some (.header names)) :
    Headed names (pieces.flatMap linesOfRow ++ linesOfRow header) := by
  refine ⟨pieces.flatMap linesOfRow, ⟨header.1.line, header.2, .header names⟩, ?_, rfl,
    fun d member => ?_⟩
  · simp [linesOfRow_placed placed', isHeader, Line.move]
  · obtain ⟨p, inside, row⟩ := List.mem_flatMap.1 member
    rw [linesOfRow_placed (placed p inside), Option.mem_toList] at row
    obtain ⟨w, worded, rfl⟩ := Option.map_eq_some_iff.1 row
    obtain ⟨isDirective, number⟩ := leading p inside w worded
    exact ⟨by rwa [directive?_move], number⟩

theorem leading_rows {behind : List (Position × List Char)}
    (placed : ∀ p ∈ pieces ++ header :: behind, Placed p)
    (isHeader : wording header.2 = some (.header names))
    (formed : WellFormed ((pieces ++ header :: behind).flatMap linesOfRow)) :
    ∀ p ∈ pieces, ∀ w, wording p.2 = some w → w.directive?.isSome ∧ p.1.line = 1 := by
  rw [List.flatMap_append, List.flatMap_cons] at formed
  have headerless : select Line.header? (pieces.flatMap linesOfRow) = [] := by
    have one := formed.one_header
    have single : select Line.header? (linesOfRow header) = [names] := by
      simp [linesOfRow_placed (placed header (by simp)), isHeader, Line.move, select, Line.header?]
    rw [select_append, select_append, single, List.length_append, List.length_append,
      List.length_singleton] at one
    exact List.length_eq_zero_iff.1 (by omega)
  intro p inside w worded
  have row := linesOfRow_placed (placed p (List.mem_append_left _ inside))
  rw [worded, Option.map_some, Option.toList_some] at row
  have listed : _ ∈ pieces.flatMap linesOfRow :=
    List.mem_flatMap.2 ⟨p, inside, row ▸ List.mem_cons_self⟩
  have noHeader := select_eq_nil_iff.1 headerless _ listed
  have isDirective : (w.move (p.1.column - 1)).directive?.isSome := by
    rw [Option.isSome_iff_ne_none]
    intro noDirective
    obtain ⟨before, after, split⟩ := List.append_of_mem listed
    refine formed.header_first before _ (after ++ (linesOfRow header ++ behind.flatMap linesOfRow))
      (by rw [split]; simp) noDirective noHeader ?_
    rw [split, select_append] at headerless
    exact (List.append_eq_nil_iff.1 headerless).1
  refine ⟨by rwa [directive?_move] at isDirective, ?_⟩
  exact formed.directive_first _ (List.mem_append_left _ listed) isDirective

/-! ## Groups of a text -/

theorem exists_groups_of_rows {rows : List (List Char)} (kinds : ∀ row ∈ rows, ∃ w,
    wording row = some w ∧ (w.isSection = true ∧ w.header? = none ∨ w.clause?.isSome)) :
    ∃ (rules : List (List Char)) (groups : List RowGroup),
      rows = rules ++ groups.flatMap Group.rows ∧
      (∀ r ∈ rules, ∃ w, wording r = some w ∧ w.clause?.isSome) ∧ ∀ g ∈ groups, g.Sound := by
  induction rows with
  | nil => exact ⟨[], [], rfl, by simp, by simp⟩
  | cons row rows ih =>
    obtain ⟨⟨w, worded, kind⟩, kinds⟩ := List.forall_mem_cons.1 kinds
    obtain ⟨rules, groups, rfl, areRules, sound⟩ := ih kinds
    rcases kind with begins | isRule
    · exact ⟨[], ⟨row, rules⟩ :: groups, by simp [Group.rows], by simp,
        List.forall_mem_cons.2 ⟨⟨⟨w, worded, begins⟩, areRules⟩, sound⟩⟩
    · exact ⟨row :: rules, groups, rfl,
        List.forall_mem_cons.2 ⟨⟨w, worded, isRule⟩, areRules⟩, sound⟩

section

variable {front : List NumberedLine} (placed : ∀ p ∈ pieces, Placed p)
  (headed : Headed names front) (formed : WellFormed (front ++ pieces.flatMap linesOfRow))
include placed headed formed

theorem kind_behind (number : p.1.line ≠ 1) (inside : p ∈ pieces)
    (some_char : isBlank p.2 = false) : ∃ w, wording p.2 = some w ∧
      (w.isSection = true ∧ w.header? = none ∨ w.clause?.isSome) := by
  obtain ⟨w, worded⟩ := exists_wording (placed p inside).1
    (by simpa [isBlank, List.all_eq_false] using some_char)
  have row := linesOfRow_placed (placed p inside)
  rw [worded, Option.map_some, Option.toList_some] at row
  have behind : _ ∈ pieces.flatMap linesOfRow :=
    List.mem_flatMap.2 ⟨p, inside, row ▸ List.mem_cons_self⟩
  have listed := List.mem_append_right front behind
  refine ⟨w, worded, ?_⟩
  cases w with
  | directive b => exact absurd (formed.directive_first _ listed rfl) number
  | header others =>
    have one := formed.one_header
    rw [select_append, headed.selects.1, List.length_append, List.length_singleton] at one
    have nothing : select Line.header? (pieces.flatMap linesOfRow) = [] :=
      List.length_eq_zero_iff.1 (by omega)
    cases select_eq_nil_iff.1 nothing _ behind
  | malformed => exact absurd rfl (formed.regular _ listed).1
  | unknown => exact absurd rfl (formed.regular _ listed).2
  | rule => exact .inr rfl
  | init | accept | block => exact .inl ⟨rfl, rfl⟩

/-- The first row behind the header that is not blank is no rule, for it would be in no block. -/
theorem not_rule_behind {r : List Char} {rest : List (List Char)}
    (same : solid (pieces.map Prod.snd) = r :: rest) (worded : wording r = some w) :
    w.clause? = none := by
  obtain ⟨early, late, split, blank, -, -⟩ := List.filter_eq_cons_iff.1 same
  obtain ⟨before, behind, rfl, rfl, further⟩ := List.map_eq_append_iff.1 split
  obtain ⟨p, after, rfl, rfl, -⟩ := List.map_eq_cons_iff.1 further
  have nothing : before.flatMap linesOfRow = [] := by
    refine List.flatMap_eq_nil_iff.2 fun q member => linesOfRow_of_isBlank ?_
    simpa using blank q.2 (List.mem_map_of_mem member)
  have row := linesOfRow_placed (placed p (by simp))
  rw [worded, Option.map_some, Option.toList_some] at row
  rw [List.flatMap_append, nothing, List.nil_append, List.flatMap_cons, row,
    List.singleton_append] at formed
  by_contra isRule
  have opened := formed.in_block front _ _ rfl
    (by rwa [clause?_move, Option.isSome_iff_ne_none])
  rw [headed.openBlock] at opened
  cases opened

end

/-- Every text that describes a machine has groups behind its header. -/
theorem exists_groups {text : String} {m : Machine} (paired : Paired text.toList)
    (parsed : Machine.ofText text = .ok m) :
    ∃ (lead body : List (List Char)) (header : List Char) (names : List String)
      (groups : List RowGroup), rowsOf text.toList = lead ++ header :: body ∧
        wording header = some (.header names) ∧ (∀ g ∈ groups, g.Sound) ∧
        solid body = groups.flatMap Group.rows := by
  obtain ⟨lines, classified, -, formed, -⟩ := Machine.exists_lines parsed
  rw [linesOf?_eq] at classified
  obtain rfl := Option.some.inj classified
  have cut : Cut .first text.toList (rows .first [] text.toList) := cut_iff.2 rfl
  obtain ⟨l, member, names, isHeader, -⟩ := exists_header formed
  obtain ⟨h, inside, row⟩ := List.mem_flatMap.1 member
  obtain ⟨leading, behind, split⟩ := List.append_of_mem inside
  rw [split] at cut formed
  have worded : wording h.2 = some (.header names) := by
    rw [linesOfRow_placed (cut.placed h (by simp)), Option.mem_toList] at row
    obtain ⟨w, worded, rfl⟩ := Option.map_eq_some_iff.1 row
    cases w <;> simp_all [Line.move]
  have headed := headed_rows (fun p member => cut.placed p (List.mem_append_left _ member))
    (cut.placed h (by simp)) (leading_rows cut.placed worded formed) worded
  have numbers := (cut.eq_physicalLines paired rfl).2
  rw [List.flatMap_append, List.flatMap_cons, ← List.append_assoc] at formed
  have placed : ∀ p ∈ behind, Placed p :=
    fun p member => cut.placed p (List.mem_append_right leading (List.mem_cons_of_mem h member))
  have kinds : ∀ row ∈ solid (behind.map Prod.snd), ∃ w, wording row = some w ∧
      (w.isSection = true ∧ w.header? = none ∨ w.clause?.isSome) := by
    intro row member
    obtain ⟨listed, some_char⟩ := List.mem_filter.1 member
    obtain ⟨p, inside, rfl⟩ := List.mem_map.1 listed
    -- The header is in front of the row, so this is not the first line.
    obtain ⟨j, here⟩ := List.mem_iff_getElem?.1 inside
    have place : (leading ++ h :: behind)[leading.length + (j + 1)]? = some p := by
      rw [List.getElem?_append_right (Nat.le_add_right _ _), Nat.add_sub_cancel_left,
        List.getElem?_cons_succ, here]
    have number := (numbers _ p place).1
    have first : Position.first.line = 1 := rfl
    exact kind_behind placed headed formed (by omega) inside (by simpa using some_char)
  obtain ⟨rules, groups, same, areRules, sound⟩ := exists_groups_of_rows kinds
  refine ⟨leading.map Prod.snd, behind.map Prod.snd, h.2, names, groups, ?_, worded, sound, ?_⟩
  · rw [rowsOf, split, List.map_append, List.map_cons]
  cases rules with
  | nil => exact same
  | cons r rules =>
    obtain ⟨w, ruled, isRule⟩ := areRules r List.mem_cons_self
    rw [not_rule_behind placed headed formed same ruled] at isRule
    cases isRule

end OneTape.Description
