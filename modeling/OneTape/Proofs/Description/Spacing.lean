import OneTape.Proofs.Description.Culprit
import OneTape.Proofs.Description.Directive
import OneTape.Proofs.Description.LineNumbers

namespace OneTape.Description

open Grammar

variable {text row line : List Char} {ls : List (List Char)} {i : Nat} {chosen : Nat → Bool}

/-! ## Carriage returns -/

/-- The text with carriage returns in front of the chosen line feeds, which are counted from `i`. -/
def withReturns (chosen : Nat → Bool) (i : Nat) : List Char → List Char
  | [] => []
  | '\n' :: text =>
    if chosen i then '\r' :: '\n' :: withReturns chosen (i + 1) text
    else '\n' :: withReturns chosen (i + 1) text
  | c :: text => c :: withReturns chosen i text

theorem paired_of_not_mem (noReturn : '\r' ∉ text) : Paired text := by
  rintro before after rfl
  exact absurd (List.mem_append_right before List.mem_cons_self) noReturn

theorem dropReturn_of_not_mem (noReturn : '\r' ∉ line) : dropReturn line = line :=
  if_neg fun last => noReturn (List.mem_of_getLast? last)

theorem Paired.cons {c : Char} (paired : Paired text)
    (ordinary : c = '\r' → text.head? = some '\n') : Paired (c :: text) := by
  intro before after split
  cases before with
  | nil =>
    obtain ⟨rfl, rfl⟩ := List.cons.inj split
    exact ordinary rfl
  | cons d before => exact paired before after (List.cons.inj split).2

theorem paired_withReturns (noReturn : '\r' ∉ text) : Paired (withReturns chosen i text) := by
  fun_induction withReturns chosen i text with
  | case1 => exact paired_of_not_mem noReturn
  | case2 i text _ ih =>
    have behind := ih fun member => noReturn (List.mem_cons_of_mem _ member)
    exact (behind.cons fun isReturn => by cases isReturn).cons fun _ => rfl
  | case3 i text _ ih =>
    have behind := ih fun member => noReturn (List.mem_cons_of_mem _ member)
    exact behind.cons fun isReturn => by cases isReturn
  | case4 i c text _ ih =>
    rw [List.mem_cons, not_or] at noReturn
    exact (ih noReturn.2).cons fun isReturn => absurd isReturn.symm noReturn.1

theorem physicalLines_withReturns (noReturn : '\r' ∉ text) (unbroken : Unbroken row) :
    physicalLines (row ++ withReturns chosen i text) = physicalLines (row ++ text) := by
  fun_induction withReturns chosen i text generalizing row with
  | case1 => rfl
  | case2 i text _ ih =>
    have oneLine : OneLine (row ++ ['\r']) := by
      intro c member
      rcases List.mem_append.1 member with member | member
      · exact unbroken.oneLine c member
      · rw [List.mem_singleton.1 member]
        decide
    have dropped : dropReturn (row ++ ['\r']) = row := by simp [dropReturn]
    have split : row ++ '\r' :: '\n' :: withReturns chosen (i + 1) text =
        (row ++ ['\r']) ++ '\n' :: withReturns chosen (i + 1) text := by simp
    have behind := fun member => noReturn (List.mem_cons_of_mem _ member)
    rw [split, physicalLines_append oneLine, physicalLines_append unbroken.oneLine, dropped,
      dropReturn_of_unbroken unbroken]
    exact congrArg _ (@ih [] behind unbroken_nil)
  | case3 i text _ ih =>
    have behind := fun member => noReturn (List.mem_cons_of_mem _ member)
    rw [physicalLines_append unbroken.oneLine, physicalLines_append unbroken.oneLine]
    exact congrArg _ (@ih [] behind unbroken_nil)
  | case4 i c text other ih =>
    rw [List.mem_cons, not_or] at noReturn
    have ordinary : breaksLine c = false := by
      rw [← Bool.not_eq_true, breaksLine_iff, not_or]
      exact ⟨other, fun isReturn => noReturn.1 isReturn.symm⟩
    have longer := ih noReturn.2 (unbroken.concat ordinary)
    simpa using longer

theorem ofText_eq_of_paired {text : String} (paired : Paired text.toList)
    (small : text.utf8ByteSize ≤ maxSize) :
    Machine.ofText text = assemble (numberedLines (physicalLines text.toList)) := by
  rw [Machine.ofText, if_neg (Nat.not_lt.2 small), read, linesOf?_eq_numberedLines paired]

theorem mem_intercalate_of_mem {c d : Char} (member : line ∈ ls) (inLine : c ∈ line) :
    c ∈ [d].intercalate ls := by
  induction ls with
  | nil => cases member
  | cons first ls ih =>
    cases ls with
    | nil => simpa [List.mem_singleton.1 member] using inLine
    | cons next ls =>
      rw [List.intercalate_cons_cons]
      rcases List.mem_cons.1 member with rfl | member
      · simp [inLine]
      · exact List.mem_append_right _ (ih member)

theorem exists_of_mem_intercalate {c d : Char} (member : c ∈ [d].intercalate ls) :
    c = d ∨ ∃ line ∈ ls, c ∈ line := by
  induction ls with
  | nil => simp at member
  | cons first ls ih =>
    cases ls with
    | nil => exact .inr ⟨first, List.mem_cons_self, by simpa using member⟩
    | cons next ls =>
      rw [List.intercalate_cons_cons, List.mem_append, List.mem_append,
        List.mem_singleton] at member
      rcases member with (here | rfl) | later
      · exact .inr ⟨first, List.mem_cons_self, here⟩
      · exact .inl rfl
      · exact (ih later).imp_right fun ⟨line, listed, inLine⟩ =>
          ⟨line, List.mem_cons_of_mem _ listed, inLine⟩

theorem physicalLines_eq_splitOn (noReturn : '\r' ∉ text) :
    physicalLines text = text.splitOn '\n' := by
  have each : ∀ line ∈ text.splitOn '\n', dropReturn line = line := by
    intro line member
    refine dropReturn_of_not_mem fun inLine => noReturn ?_
    have joined : ['\n'].intercalate (text.splitOn '\n') = text := List.intercalate_splitOn '\n'
    exact joined ▸ mem_intercalate_of_mem member inLine
  exact (List.map_congr_left each).trans (List.map_id _)

theorem unbroken_of_mem_splitOn (noReturn : '\r' ∉ text) (member : line ∈ text.splitOn '\n') :
    Unbroken line := by
  rw [← physicalLines_eq_splitOn noReturn] at member
  exact physicalLines_all_unbroken (paired_of_not_mem noReturn) line member

/-! ## Blank lines -/

/-- The number of a line when a line is put in behind the first `i` lines. -/
def shift (i n : Nat) : Nat := if n ≤ i then n else n + 1

theorem insertIdx_append {α : Type} (before after : List α) (x : α) :
    (before ++ after).insertIdx before.length x = before ++ x :: after := by
  induction before with
  | nil => rfl
  | cons b before ih => exact congrArg (b :: ·) ih

theorem wording_blanks (bs : List Blank) : wording (blanks bs) = none := by
  have nothing : linesOf? (blanks bs) = some [] := by
    rw [linesOf?_line (unbroken_blanks bs), linesOfRow_blanks]
  rw [wording, nothing]
  rfl

theorem numberedLines_insertIdx (bound : i ≤ ls.length) (bs : List Blank) :
    numberedLines (ls.insertIdx i (blanks bs)) =
      (numberedLines ls).map (NumberedLine.renumber (shift i)) := by
  obtain ⟨before, after, rfl, rfl⟩ : ∃ before after, ls = before ++ after ∧ i = before.length :=
    ⟨ls.take i, ls.drop i, (List.take_append_drop i ls).symm, by simp [bound]⟩
  -- The lines in front keep their numbers, and those behind are counted one higher.
  have front : (before.zipIdx 1).filterMap (fun p => numbered p.2 p.1) =
      ((before.zipIdx 1).filterMap fun p => numbered p.2 p.1).map
        (NumberedLine.renumber (shift before.length)) := by
    rw [List.map_filterMap]
    refine List.filterMap_congr ?_
    rintro ⟨line, n⟩ member
    have early : n ≤ before.length := by
      have place := List.snd_lt_of_mem_zipIdx member
      omega
    cases found : wording line <;> simp [numbered, found, NumberedLine.renumber, shift, early]
  have back : (after.zipIdx (1 + before.length + 1)).filterMap (fun p => numbered p.2 p.1) =
      ((after.zipIdx (1 + before.length)).filterMap fun p => numbered p.2 p.1).map
        (NumberedLine.renumber (shift before.length)) := by
    rw [List.zipIdx_succ, List.filterMap_map, List.map_filterMap]
    refine List.filterMap_congr ?_
    rintro ⟨line, n⟩ member
    have late : ¬ n ≤ before.length := by
      have place := List.le_snd_of_mem_zipIdx member
      omega
    cases found : wording line <;> simp [numbered, found, NumberedLine.renumber, shift, late]
  rw [insertIdx_append, numberedLines, numberedLines, List.zipIdx_append, List.zipIdx_append,
    List.filterMap_append, List.filterMap_append, List.map_append, List.zipIdx_cons,
    List.filterMap_cons, numbered, wording_blanks, ← front, ← back]
  rfl

def withLine (text : String) (i : Nat) (line : List Char) : String :=
  String.ofList (['\n'].intercalate ((text.toList.splitOn '\n').insertIdx i line))

def OnlyDirectives (text : List Char) : Prop :=
  ∀ line ∈ text.splitOn '\n', (∀ c ∈ line, c = ' ' ∨ c = '\t') ∨ (directiveOf? line).isSome

section

variable {text : String} {bs : List Blank}

theorem ofText_eq_of_not_mem (noReturn : '\r' ∉ text.toList) (small : text.utf8ByteSize ≤ maxSize) :
    Machine.ofText text = assemble (numberedLines (text.toList.splitOn '\n')) := by
  rw [ofText_eq_of_paired (paired_of_not_mem noReturn) small, physicalLines_eq_splitOn noReturn]

theorem ofText_withLine (noReturn : '\r' ∉ text.toList)
    (bound : i ≤ (text.toList.splitOn '\n').length)
    (small : (withLine text i (blanks bs)).utf8ByteSize ≤ maxSize) :
    Machine.ofText (withLine text i (blanks bs)) =
      assemble ((numberedLines (text.toList.splitOn '\n')).map
        (NumberedLine.renumber (shift i))) := by
  have unbroken : ∀ line ∈ (text.toList.splitOn '\n').insertIdx i (blanks bs), Unbroken line := by
    intro line member
    rcases (List.mem_insertIdx bound).1 member with rfl | listed
    · exact unbroken_blanks bs
    · exact unbroken_of_mem_splitOn noReturn listed
  have lines : (withLine text i (blanks bs)).toList.splitOn '\n' =
      (text.toList.splitOn '\n').insertIdx i (blanks bs) := by
    rw [withLine, String.toList_ofList]
    refine List.splitOn_intercalate '\n' (fun line member feed => ?_) (List.ne_nil_of_mem
      ((List.mem_insertIdx bound).2 (.inl rfl)))
    exact (unbroken line member).oneLine '\n' feed rfl
  have noReturn' : '\r' ∉ (withLine text i (blanks bs)).toList := by
    rw [withLine, String.toList_ofList]
    intro member
    rcases exists_of_mem_intercalate member with same | ⟨line, listed, inLine⟩
    · cases same
    · cases unbroken line listed '\r' inLine
  rw [ofText_eq_of_not_mem noReturn' small, lines, numberedLines_insertIdx bound]

theorem directives_shift (place : ¬ (i = 0 ∧ ∃ line ∈ ls.head?, (directiveOf? line).isSome)) :
    ∀ l ∈ numberedLines ls, l.line.directive?.isSome → (shift i l.number = 1 ↔ l.number = 1) := by
  intro l member directive
  obtain ⟨front, back, split⟩ := List.append_of_mem member
  obtain ⟨front, line, back, w, rfl, -, worded, rfl⟩ := numberedLines_split split
  dsimp only at directive ⊢
  unfold shift
  by_cases front_nil : i = 0 ∧ front = []
  · obtain ⟨rfl, rfl⟩ := front_nil
    exact absurd ⟨rfl, line, rfl, by rw [directiveOf?, worded]; exact directive⟩ place
  · have later : i = 0 → 0 < front.length := fun zero =>
      List.length_pos_iff.2 fun nil => front_nil ⟨zero, nil⟩
    split <;> omega

theorem onlyDirectives_iff (noReturn : '\r' ∉ text.toList) : OnlyDirectives text.toList ↔
    ∀ l ∈ numberedLines (text.toList.splitOn '\n'), l.line.directive?.isSome := by
  constructor
  · intro only l member
    obtain ⟨before, after, split⟩ := List.append_of_mem member
    obtain ⟨front, line, back, w, whole, -, worded, rfl⟩ := numberedLines_split split
    rcases only line (by simp [whole]) with blank | directive
    · obtain ⟨bs, rfl⟩ := exists_blanks blank
      rw [wording_blanks] at worded
      cases worded
    · rwa [directiveOf?, worded] at directive
  · intro only line member
    by_cases solid : ∃ c ∈ line, c ≠ ' ' ∧ c ≠ '\t'
    · obtain ⟨w, worded⟩ := exists_wording (unbroken_of_mem_splitOn noReturn member) solid
      obtain ⟨n, here⟩ := List.mem_iff_getElem?.1 member
      have directive := only _ (mem_numberedLines here worded)
      exact .inr (by rwa [directiveOf?, worded])
    · refine .inl fun c inLine => ?_
      by_contra other
      exact solid ⟨c, inLine, not_or.1 other⟩

end

/-- Carriage returns in front of line feeds have no meaning, and a blank line only counts the lines
behind it one higher, but for one in front of a directive on the first line. -/
theorem spacing_without_meaning (text : String) (noReturn : '\r' ∉ text.toList)
    (small : text.utf8ByteSize ≤ maxSize) :
    (∀ chosen, (String.ofList (withReturns chosen 0 text.toList)).utf8ByteSize ≤ maxSize →
      Machine.ofText (String.ofList (withReturns chosen 0 text.toList)) = Machine.ofText text) ∧
    ∀ i line, i ≤ (text.toList.splitOn '\n').length → (∀ c ∈ line, c = ' ' ∨ c = '\t') →
      ¬ (i = 0 ∧ ∃ first ∈ (text.toList.splitOn '\n').head?, (directiveOf? first).isSome) →
      (withLine text i line).utf8ByteSize ≤ maxSize →
      (∀ m, Machine.ofText text = .ok m → Machine.ofText (withLine text i line) = .ok m) ∧
      (∀ e, Machine.ofText text = .error e →
        ¬ ((∃ n, e = .missingHeader n) ∧ OnlyDirectives text.toList) →
        Machine.ofText (withLine text i line) = .error (e.renumber (shift i))) ∧
      ∀ n, Machine.ofText text = .error (.missingHeader n) → OnlyDirectives text.toList →
        Machine.ofText (withLine text i line) = .error (.missingHeader n) := by
  constructor
  · intro chosen small'
    have paired : Paired (String.ofList (withReturns chosen 0 text.toList)).toList := by
      rw [String.toList_ofList]
      exact paired_withReturns noReturn
    have lines : physicalLines (withReturns chosen 0 text.toList) = physicalLines text.toList :=
      physicalLines_withReturns noReturn unbroken_nil
    rw [ofText_eq_of_paired paired small', String.toList_ofList, lines,
      ofText_eq_of_paired (paired_of_not_mem noReturn) small]
  intro i line bound blank place small'
  obtain ⟨bs, rfl⟩ := exists_blanks blank
  have directives := directives_shift place
  rw [ofText_withLine noReturn bound small', ofText_eq_of_not_mem noReturn small,
    onlyDirectives_iff noReturn]
  refine ⟨fun m => assemble_renumber_ok directives, fun e failed other => ?_,
    fun n => assemble_renumber_missingHeader directives⟩
  refine assemble_renumber_error directives failed fun n missing => ?_
  by_contra all
  simp only [not_exists, not_and, ← ne_eq, ← Option.isSome_iff_ne_none] at all
  exact other ⟨⟨n, missing⟩, all⟩

/-- A blank line does not close a block: the second rule is still one too many. -/
theorem spacing_without_meaning_rules :
    Machine.ofText "A\nA:\n 1 0 > A\n 1 0 S A" = .error (.duplicateRule "A" '1' 4 3) ∧
      Machine.ofText "A\r\nA:\n 1 0 > A\r\n 1 0 S A" = .error (.duplicateRule "A" '1' 4 3) ∧
      Machine.ofText "A\nA:\n 1 0 > A\n\t \n 1 0 S A" = .error (.duplicateRule "A" '1' 5 3) := by
  have checked : ((Machine.ofText "A\nA:\n 1 0 > A\n 1 0 S A").map fun _ => ()) =
      .error (.duplicateRule "A" '1' 4 3) := by decide +kernel
  have failed := error_of_map checked
  obtain ⟨returns, blankLine⟩ := spacing_without_meaning "A\nA:\n 1 0 > A\n 1 0 S A"
    (by decide +kernel) (by decide +kernel)
  obtain ⟨-, renumbered, -⟩ := blankLine 3 ['\t', ' '] (by decide +kernel) (by simp) (by simp)
    (by decide +kernel)
  have same := returns (· ≠ 1) (by decide +kernel)
  have later := renumbered _ failed (by simp)
  rw [failed] at same
  have text : String.ofList (withReturns (· ≠ 1) 0 "A\nA:\n 1 0 > A\n 1 0 S A".toList) =
      "A\r\nA:\n 1 0 > A\r\n 1 0 S A" := by decide +kernel
  have text' : withLine "A\nA:\n 1 0 > A\n 1 0 S A" 3 ['\t', ' '] =
      "A\nA:\n 1 0 > A\n\t \n 1 0 S A" := by decide +kernel
  exact ⟨failed, text ▸ same, text' ▸ later⟩

end OneTape.Description
