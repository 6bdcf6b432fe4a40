import Mathlib.Data.List.Induction
import OneTape.Proofs.Description.Forms

namespace OneTape.Description

open Grammar Pattern

variable {g rest text : List Char} {start : Position} {row : List Char}

def described (start : Position) (row text : List Char) : List NumberedLine :=
  (rows start row text).flatMap linesOfRow

theorem unbroken_blanks (bs : List Blank) : Unbroken (blanks bs) := by
  intro c member
  obtain ⟨b, -, rfl⟩ := List.mem_map.1 member
  cases b <;> rfl

theorem rowNodes_blanks (position : Position) (bs : List Blank) :
    rowNodes (position, blanks bs) = [] := by
  have noDirective : Form.directive.Refuses (blanks bs) := by
    apply refuses_directive
    cases bs with
    | nil => simp [blanks]
    | cons b bs => cases b <;> simp [blanks, Blank.char]
  have read : Form.blankLine.Reads (blanks bs) [] [] := reads_lineEnd bs
  obtain ⟨m, matched, -, nodes⟩ := read position
  have chosen : Form.line.match? ⟨position, blanks bs⟩ = some m :=
    (noDirective.choice_eq position).trans ((read.choice_eq position).trans matched)
  rw [rowNodes, chosen, Option.map_some, Option.getD_some, List.map_eq_nil_iff.1 nodes]

theorem linesOfRow_blanks (position : Position) (bs : List Blank) :
    linesOfRow (position, blanks bs) = [] := by
  rw [linesOfRow, rowNodes_blanks, List.filterMap_nil]

theorem breaksLine_of_isGap {c : Char} (isGap : Layout.IsGap (c :: g)) :
    breaksLine c = true ∨ ∃ b : Blank, c = b.char := by
  have member := isGap c List.mem_cons_self
  simp only [List.mem_cons, List.not_mem_nil, or_false] at member
  rcases member with rfl | rfl | rfl | rfl
  · exact .inr ⟨.space, rfl⟩
  · exact .inr ⟨.tab, rfl⟩
  · exact .inl rfl
  · exact .inl rfl

theorem Layout.IsGap.tail {c : Char} (isGap : Layout.IsGap (c :: g)) : Layout.IsGap g :=
  fun d member => isGap d (List.mem_cons_of_mem c member)

theorem Layout.Ended.tail {c : Char} (ended : Layout.Ended (c :: g)) : Layout.Ended g := by
  cases g with
  | nil => intro d member; cases member
  | cons d g => simpa [Layout.Ended] using ended

theorem exists_row_of_gap (isGap : Layout.IsGap g) (ended : Layout.Ended g) (something : g ≠ [])
    (noFeed : rest.head? ≠ some '\n') (start : Position) (row : List Char) :
    ∃ bs next g',
      rows start row (g ++ rest) = (start, row ++ blanks bs) :: rows next [] (g' ++ rest) ∧
      Layout.IsGap g' ∧ Layout.Ended g' ∧ g'.length < g.length := by
  induction g generalizing row with
  | nil => exact absurd rfl something
  | cons c g ih =>
    rcases breaksLine_of_isGap isGap with breaks | ⟨b, rfl⟩
    · have whole : row ++ blanks [] = row := List.append_nil row
      rcases breaksLine_iff.1 breaks with rfl | rfl
      · have split : rows start row ('\n' :: (g ++ rest)) = _ := rows_lineFeed
        exact ⟨[], _, g, by rw [whole]; exact split, isGap.tail, ended.tail, Nat.lt_succ_self _⟩
      · by_cases both : ∃ g', g = '\n' :: g'
        · obtain ⟨g', rfl⟩ := both
          have split : rows start row ('\r' :: '\n' :: (g' ++ rest)) = _ := rows_both
          exact ⟨[], _, g', by rw [whole]; exact split, isGap.tail.tail, ended.tail.tail,
            Nat.lt_succ_of_lt (Nat.lt_succ_self _)⟩
        · have alone : ∀ text, g ++ rest ≠ '\n' :: text := by
            intro text same
            cases g with
            | nil => exact noFeed (by simp_all)
            | cons d g => exact both ⟨g, by simp_all⟩
          have split : rows start row ('\r' :: (g ++ rest)) = _ := rows_carriageReturn alone
          exact ⟨[], _, g, by rw [whole]; exact split, isGap.tail, ended.tail, Nat.lt_succ_self _⟩
    · have further : g ≠ [] := by
        rintro rfl
        cases b <;> simp [Layout.Ended, Blank.char] at ended
      have ordinary : breaksLine b.char = false := by cases b <;> rfl
      obtain ⟨bs, next, g', split, isGap', ended', shorter⟩ :=
        ih isGap.tail ended.tail further (row ++ [b.char])
      refine ⟨b :: bs, next, g', ?_, isGap', ended', Nat.lt_succ_of_lt shorter⟩
      rw [List.cons_append, rows_cons_of_unbroken ordinary, split, List.append_assoc]
      rfl

theorem described_gap (isGap : Layout.IsGap g) (ended : Layout.Ended g)
    (noFeed : rest.head? ≠ some '\n') (start : Position) :
    ∃ next, described start [] (g ++ rest) = described next [] rest := by
  induction size : g.length using Nat.strongRecOn generalizing g start with
  | ind n ih =>
    by_cases something : g = []
    · exact ⟨start, by rw [something, List.nil_append]⟩
    obtain ⟨bs, next, g', split, isGap', ended', shorter⟩ :=
      exists_row_of_gap isGap ended something noFeed start []
    obtain ⟨next', same⟩ := ih g'.length (by omega) isGap' ended' next rfl
    refine ⟨next', ?_⟩
    rw [described, split, List.flatMap_cons, List.nil_append, linesOfRow_blanks, List.nil_append]
    exact same

/-- The row can be written into a text: it is a line wherever it stands and whatever blanks are
behind it. -/
structure Row.Readable (r : Row) : Prop where
  unbroken : Unbroken r.text
  nonempty : r.text ≠ []
  reads : ∀ bs, ReadsAs (r.text ++ blanks bs) r.line

theorem Row.Readable.head_ne {r : Row} (readable : r.Readable) (rest : List Char) :
    (r.text ++ rest).head? ≠ some '\n' := by
  cases text : r.text with
  | nil => exact absurd text readable.nonempty
  | cons c more =>
    have ordinary : breaksLine c = false := readable.unbroken c (by simp [text])
    rintro ⟨⟩
    cases ordinary

theorem described_row {r : Row} (readable : r.Readable) (isGap : Layout.IsGap g)
    (ended : Layout.Ended g) (something : g ≠ []) (noFeed : rest.head? ≠ some '\n')
    (start : Position) :
    ∃ l next, described start [] (r.text ++ (g ++ rest)) = l :: described next [] rest ∧
      l.number = start.line ∧ l.line.unplaced = r.line := by
  obtain ⟨bs, next, g', split, isGap', ended', -⟩ :=
    exists_row_of_gap isGap ended something noFeed start r.text
  obtain ⟨l, read, number, unplaced⟩ := readable.reads bs start
  obtain ⟨next', same⟩ := described_gap isGap' ended' noFeed next
  refine ⟨l, next', ?_, number, unplaced⟩
  rw [described, rows_append readable.unbroken, List.nil_append, split, List.flatMap_cons, read,
    List.singleton_append]
  exact congrArg (l :: ·) same

theorem exists_ended_append (isGap : Layout.IsGap g) :
    ∃ g' bs, g = g' ++ blanks bs ∧ Layout.IsGap g' ∧ Layout.Ended g' := by
  induction g using List.reverseRecOn with
  | nil => exact ⟨[], [], rfl, isGap, fun c member => by cases member⟩
  | append_singleton g c ih =>
    have isGap' : Layout.IsGap g := fun d member => isGap d (List.mem_append_left _ member)
    have last : Layout.IsGap [c] := fun d member => isGap d (List.mem_append_right _ member)
    rcases breaksLine_of_isGap last with breaks | ⟨b, rfl⟩
    · refine ⟨g ++ [c], [], by simp [blanks], isGap, fun d member => ?_⟩
      obtain rfl : c = d := by simpa using member
      simpa [breaksLine] using breaks
    · obtain ⟨g', bs, rfl, isGap'', ended⟩ := ih isGap'
      exact ⟨g', bs ++ [b], by simp [blanks], isGap'', ended⟩

theorem described_last_row {r : Row} (readable : r.Readable) (isGap : Layout.IsGap g)
    (start : Position) :
    ∃ l, described start [] (r.text ++ g) = [l] ∧ l.number = start.line ∧
      l.line.unplaced = r.line := by
  obtain ⟨g', bs, rfl, isGap', ended⟩ := exists_ended_append isGap
  have single (next : Position) (row : List Char) :
      rows next row (blanks bs) = [(next, row ++ blanks bs)] := by
    rw [← List.append_nil (blanks bs), rows_append (unbroken_blanks bs), List.append_nil, rows]
  by_cases something : g' = []
  · obtain ⟨l, read, number, unplaced⟩ := readable.reads bs start
    refine ⟨l, ?_, number, unplaced⟩
    rw [something, List.nil_append, described, rows_append readable.unbroken, List.nil_append,
      single, List.flatMap_singleton, read]
  · have noFeed : (blanks bs).head? ≠ some '\n' := by
      cases bs with
      | nil => simp [blanks]
      | cons b bs => cases b <;> simp [blanks, Blank.char]
    obtain ⟨l, next, read, number, unplaced⟩ :=
      described_row readable isGap' ended something noFeed start
    refine ⟨l, ?_, number, unplaced⟩
    rw [read, described, single, List.flatMap_singleton, List.nil_append, linesOfRow_blanks]

theorem described_rows {gap : Nat → List Char} (isGap : ∀ i, Layout.IsGap (gap i))
    {rs : List Row} (readable : ∀ r ∈ rs, r.Readable) (k : Nat)
    (ended : ∀ i, i + 1 < k + rs.length → gap i ≠ [] ∧ Layout.Ended (gap i)) (start : Position) :
    ∃ lines, described start [] ((rs.zipIdx k).flatMap fun (r, i) => r.text ++ gap i) = lines ∧
      lines.map (·.line.unplaced) = rs.map Row.line ∧
      ∀ l ∈ lines.head?, l.number = start.line := by
  refine ⟨_, rfl, ?_⟩
  induction rs generalizing k start with
  | nil =>
    have nothing : linesOfRow (start, []) = [] := linesOfRow_blanks start []
    simp [described, rows, nothing]
  | cons r rs ih =>
    have first := readable r List.mem_cons_self
    cases rs with
    | nil =>
      obtain ⟨l, read, number, unplaced⟩ := described_last_row first (isGap k) start
      simp [read, number, unplaced]
    | cons r' rs =>
      have closed := ended k (by simp)
      have noFeed := (readable r' (by simp)).head_ne
        (gap (k + 1) ++ (rs.zipIdx (k + 2)).flatMap fun (r, i) => r.text ++ gap i)
      obtain ⟨l, next, read, number, unplaced⟩ :=
        described_row first (isGap k) closed.2 closed.1 noFeed start
      have later := ih (fun r member => readable r (List.mem_cons_of_mem _ member)) (k + 1)
        (fun i bound => ended i (by simp_all; omega)) next
      simp only [List.zipIdx_cons, List.flatMap_cons, List.append_assoc] at later read ⊢
      rw [read]
      exact ⟨by simp [unplaced, later.1], by simp [number]⟩

end OneTape.Description
