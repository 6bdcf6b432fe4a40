import OneTape.Proofs.Description.Faults
import OneTape.Proofs.Description.Wording

namespace OneTape.Description

open Grammar

variable {text : List Char} {ls : List (List Char)} {n : Nat} {line : List Char} {w : Line}
variable {before after : List NumberedLine} {l : NumberedLine} {d : Draft} {e : Error}

def lineAt? (text : List Char) : Nat → Option (List Char)
  | 0 => none
  | i + 1 => (physicalLines text)[i]?

def HasLine (text : List Char) (n : Nat) (line : List Char) (w : Line) : Prop :=
  lineAt? text n = some line ∧ wording line = some w

def numberedLines (ls : List (List Char)) : List NumberedLine :=
  (ls.zipIdx 1).filterMap fun p => numbered p.2 p.1

def linesBefore (text : List Char) (n : Nat) : List (List Char) := (physicalLines text).take (n - 1)

def headerNames (text : List Char) : List String :=
  ((physicalLines text).filterMap fun line => (wording line).bind Line.header?).headD []

def blockAt? (text : List Char) (n : Nat) : Option String :=
  openBlock (numberedLines (linesBefore text n))

/-- The line with the number `n` is a rule in the block of the state `name` and reads `s`. -/
def RuleAt (text : List Char) (n : Nat) (name : String) (s : Symbol) : Prop :=
  blockAt? text n = some name ∧ ∃ line write direction target column,
    HasLine text n line (.rule s write direction target column)

def Section.covers : Section → Line → Bool
  | header, w => w.header?.isSome
  | init, w => w.init?.isSome
  | accept, w => w.accept?.isSome

/-- What the error names is to be found on the line with its number. -/
def Culprit (text : List Char) : Error → Prop
  | .unmatched | .missingInit | .tooLarge _ => True
  | .missingHeader n =>
    ((∃ line w, HasLine text n line w ∧ w.directive? = none ∧ w.header? = none) ∧
      ∀ k < n, ∀ line w, HasLine text k line w → k = 1 ∧ w.directive?.isSome) ∨
    (∀ k line w, HasLine text k line w → k = 1 ∧ w.directive?.isSome) ∧
      (n = 1 ∨ n = 2) ∧ (n = 2 ↔ ∃ line w, HasLine text 1 line w)
  | .unknownInitial name n => name ∉ headerNames text ∧
      ∃ line, HasLine text n line (.init name) ∧ name.toList <:+: line
  | .unknownAccepting name n => name ∉ headerNames text ∧
      ∃ line names, HasLine text n line (.accept names) ∧ name ∈ names ∧ name.toList <:+: line
  | .unknownBlock name n => name ∉ headerNames text ∧
      ∃ line, HasLine text n line (.block name) ∧ name.toList <:+: line
  | .unknownTarget name n column => name ∉ headerNames text ∧
      ∃ read write direction front bs, column = front.length + 1 ∧
        HasLine text n (front ++ (name.toList ++ blanks bs))
          (.rule read write direction name column)
  | .duplicateName name n => ∃ line names, HasLine text n line (.header names) ∧
      2 ≤ names.count name ∧ Holds line [name.toList, name.toList]
  | .duplicateBlock name n => ∃ k < n, ∃ line earlier,
      HasLine text n line (.block name) ∧ HasLine text k earlier (.block name) ∧
        name.toList <:+: line ∧ name.toList <:+: earlier
  | .duplicateSection which n => ∃ line w, HasLine text n line w ∧ which.covers w = true ∧
      (linesBefore text n).countP (fun line => (wording line).any which.covers) = 1
  | .malformedRule n shown => ∃ line, HasLine text n line .malformed ∧ IsTrimmed line shown.toList
  | .unexpectedLine n shown => ∃ line w, HasLine text n line w ∧ IsTrimmed line shown.toList ∧
      (w = .unknown ∨ w.directive?.isSome ∧ n ≠ 1)
  | .ruleOutsideBlock n => blockAt? text n = none ∧ ∃ line read write direction target column,
      HasLine text n line (.rule read write direction target column)
  | .duplicateRule name s n first => first < n ∧ RuleAt text n name s ∧ RuleAt text first name s

/-! ## Lines with numbers -/

theorem linesOf?_eq_numberedLines (paired : Paired text) :
    linesOf? text = some (numberedLines (physicalLines text)) := linesOf?_eq_numbered paired

theorem physicalLines_all_unbroken (paired : Paired text) :
    ∀ line ∈ physicalLines text, Unbroken line := by
  have cut : Cut .first text (rows .first [] text) := cut_iff.2 rfl
  rw [← (cut.eq_physicalLines paired rfl).1]
  intro line member
  obtain ⟨piece, inText, rfl⟩ := List.mem_map.1 member
  exact cut.unbroken piece inText

theorem numberedLines_split (split : numberedLines ls = before ++ l :: after) :
    ∃ front line back w, ls = front ++ line :: back ∧ before = numberedLines front ∧
      wording line = some w ∧ l = ⟨front.length + 1, line, w⟩ := by
  obtain ⟨p₁, rest, whole, rfl, tail⟩ := List.filterMap_eq_append_iff.1 split
  obtain ⟨p₂, p, p₃, rfl, silent, found, -⟩ := List.filterMap_eq_cons_iff.1 tail
  rw [← List.append_assoc] at whole
  obtain ⟨front, rest, rfl, same, whole'⟩ := List.zipIdx_eq_append_iff.1 whole
  obtain ⟨line, back, rfl, rfl, -⟩ := List.zipIdx_eq_cons_iff.1 whole'.symm
  obtain ⟨w, worded, rfl⟩ := Option.map_eq_some_iff.1 found
  refine ⟨front, line, back, w, rfl, ?_, worded, by rw [Nat.add_comm]⟩
  rw [numberedLines, ← same, List.filterMap_append, List.filterMap_eq_nil_iff.2 silent,
    List.append_nil]

theorem mem_numberedLines (here : ls[n]? = some line) (worded : wording line = some w) :
    ⟨n + 1, line, w⟩ ∈ numberedLines ls := by
  refine List.mem_filterMap.2 ⟨(line, n + 1), ?_, by simp [numbered, worded]⟩
  exact List.mem_zipIdx_iff_le_and_getElem?_sub.2 ⟨Nat.le_add_left 1 n, by simpa using here⟩

theorem select_numberedLines {α : Type} (kind : Line → Option α) (ls : List (List Char)) :
    select kind (numberedLines ls) = ls.filterMap fun line => (wording line).bind kind := by
  have step (p : List Char × Nat) : ((numbered p.2 p.1).bind fun l => kind l.line) =
      (wording p.1).bind kind := by
    cases found : wording p.1 <;> simp [numbered, found]
  rw [select, numberedLines, List.filterMap_filterMap]
  simp only [step]
  conv_rhs => rw [← List.zipIdx_map_fst 1 ls, List.filterMap_map]
  rfl

/-- The line `line` of the text and what is in front of it. -/
structure Stands (text : List Char) (front : List (List Char)) (line : List Char) (w : Line) :
    Prop where
  lines : ∃ back, physicalLines text = front ++ line :: back
  worded : wording line = some w

namespace Stands

variable {front : List (List Char)}

theorem hasLine (stands : Stands text front line w) : HasLine text (front.length + 1) line w := by
  obtain ⟨back, split⟩ := stands.lines
  exact ⟨by simp [lineAt?, split], stands.worded⟩

theorem linesBefore (stands : Stands text front line w) :
    linesBefore text (front.length + 1) = front := by
  obtain ⟨back, split⟩ := stands.lines
  simp [Description.linesBefore, split]

theorem blockAt? (stands : Stands text front line w) :
    blockAt? text (front.length + 1) = openBlock (numberedLines front) := by
  rw [Description.blockAt?, stands.linesBefore]

theorem headerNames (stands : Stands text front line w)
    (admissible : Admissible (numberedLines front))
    (headed : select Line.header? (numberedLines front) ≠ []) :
    headerNames text = declared (numberedLines front) := by
  obtain ⟨back, split⟩ := stands.lines
  have some_header := List.length_pos_iff.2 headed
  have one := admissible.header_length
  obtain ⟨names, single⟩ := List.length_eq_one_iff.1 (Nat.le_antisymm one some_header)
  rw [Description.headerNames, split, List.filterMap_append, ← select_numberedLines, declared,
    single]
  simp

theorem earlier (stands : Stands text front line w)
    (split : numberedLines front = before ++ l :: after) : ∃ front' : List (List Char),
      l.number = front'.length + 1 ∧ front'.length < front.length ∧
        before = numberedLines front' ∧ Stands text front' l.text l.line := by
  obtain ⟨back, whole⟩ := stands.lines
  obtain ⟨front', line', back', w', rfl, rfl, worded, rfl⟩ := numberedLines_split split
  exact ⟨front', rfl, by simp, rfl, ⟨_, by rw [whole, List.append_assoc, List.cons_append]⟩, worded⟩

theorem holds (stands : Stands text front line w) (paired : Paired text) :
    Holds line (w.names.map String.toList) := by
  obtain ⟨back, split⟩ := stands.lines
  exact holds_wording (physicalLines_all_unbroken paired line (by simp [split])) stands.worded

theorem infix_of_mem (stands : Stands text front line w) (paired : Paired text) {name : String}
    (member : name ∈ w.names) : name.toList <:+: line :=
  (stands.holds paired).isInfix (List.mem_map_of_mem member)

theorem second (stands : Stands text front line w) {α : Type} (kind : Line → Option α)
    {which : Section} (same : ∀ w, which.covers w = (kind w).isSome)
    (covered : which.covers w = true) (one : (select kind (numberedLines front)).length ≤ 1)
    (again : select kind (numberedLines front) ≠ []) :
    Culprit text (.duplicateSection which (front.length + 1)) := by
  refine ⟨line, w, stands.hasLine, covered, ?_⟩
  rw [stands.linesBefore]
  have count : front.countP (fun line => (wording line).any which.covers) =
      (select kind (numberedLines front)).length := by
    rw [select_numberedLines, List.length_filterMap_eq_countP]
    refine List.countP_congr fun line _ => ?_
    cases wording line <;> simp [same]
  have positive := List.length_pos_iff.2 again
  omega

theorem ruleAt (stands : Stands text front l.text l.line) {name : String} {s : Symbol}
    (isRule : IsRule (numberedLines front) l name s) : RuleAt text (front.length + 1) name s := by
  obtain ⟨opened, c, clause, rfl⟩ := isRule
  obtain ⟨column, line⟩ := clause?_eq_some clause
  exact ⟨stands.blockAt?.trans opened, l.text, _, _, _, _, line ▸ stands.hasLine⟩

end Stands

/-! ## The culprit -/

theorem culprit_of_fault (paired : Paired text) {front : List (List Char)}
    (stands : Stands text front line w) (admissible : Admissible (numberedLines front))
    (fault : Fault (numberedLines front) ⟨front.length + 1, line, w⟩ e) : Culprit text e := by
  have unknown {name : String} (headed : select Line.header? (numberedLines front) ≠ [])
      (unknown : name ∉ declared (numberedLines front)) : name ∉ headerNames text := by
    rwa [stands.headerNames admissible headed]
  have trimmed := isTrimmed_trimmed ⟨front.length + 1, line, w⟩
  cases fault with
  | missingHeader missing other =>
    refine .inl ⟨⟨line, w, stands.hasLine, other⟩, fun k earlier line' w' here => ?_⟩
    obtain ⟨back, split⟩ := stands.lines
    cases k with
    | zero => cases here.1
    | succ i =>
      have here' : front[i]? = some line' := by
        have inFront : i < front.length := Nat.lt_of_succ_lt_succ earlier
        rw [← here.1, lineAt?, split, List.getElem?_append_left inFront]
      have listed := mem_numberedLines here' here.2
      obtain ⟨b, directive⟩ := admissible.headless missing _ listed
      have directive : w' = .directive b := directive
      have number := admissible.directive_first _ listed (by simp [directive, Line.directive?])
      exact ⟨number, by simp [directive, Line.directive?]⟩
  | unknownInitial same headed undeclared =>
    subst same
    exact ⟨unknown headed undeclared, line, stands.hasLine,
      stands.infix_of_mem paired (by simp [Line.names])⟩
  | unknownAccepting same headed listed undeclared =>
    subst same
    exact ⟨unknown headed undeclared, line, _, stands.hasLine, listed,
      stands.infix_of_mem paired listed⟩
  | unknownBlock same headed undeclared =>
    subst same
    exact ⟨unknown headed undeclared, line, stands.hasLine,
      stands.infix_of_mem paired (by simp [Line.names])⟩
  | unknownTarget same headed undeclared =>
    subst same
    obtain ⟨back, split⟩ := stands.lines
    have unbroken := physicalLines_all_unbroken paired line (by simp [split])
    obtain ⟨ahead, bs, rfl, column⟩ := rule_target unbroken stands.worded
    exact ⟨unknown headed undeclared, _, _, _, ahead, bs, column, stands.hasLine⟩
  | @duplicateName names name same twice =>
    subst same
    refine ⟨line, names, stands.hasLine, ?_, ?_⟩
    · exact List.replicate_sublist_iff.1 twice
    · exact (stands.holds paired).sublist (twice.map String.toList)
  | @duplicateBlock name same again =>
    subst same
    obtain ⟨k, listed, isBlock⟩ := mem_select.1 again
    obtain ⟨pre, post, split⟩ := List.append_of_mem listed
    obtain ⟨front', -, shorter, -, stands'⟩ := stands.earlier split
    have kind : k.line = .block name := by
      cases other : k.line <;> simp_all [Line.block?]
    rw [kind] at stands'
    exact ⟨front'.length + 1, Nat.succ_lt_succ shorter, line, k.text, stands.hasLine,
      stands'.hasLine, stands.infix_of_mem paired (by simp [Line.names]),
      stands'.infix_of_mem paired (by simp [Line.names])⟩
  | secondHeader same again =>
    subst same
    exact stands.second Line.header? (fun _ => rfl) rfl admissible.header_length again
  | secondInit same again =>
    subst same
    exact stands.second Line.init? (fun _ => rfl) rfl admissible.init_length again
  | secondAccept same again =>
    subst same
    exact stands.second Line.accept? (fun _ => rfl) rfl admissible.accept_length again
  | malformedRule same =>
    subst same
    exact ⟨line, stands.hasLine, trimmed⟩
  | unknownLine same =>
    exact ⟨line, w, stands.hasLine, trimmed, .inl same⟩
  | lateDirective same late =>
    subst same
    exact ⟨line, _, stands.hasLine, trimmed, .inr ⟨rfl, late⟩⟩
  | ruleOutsideBlock isRule closed =>
    obtain ⟨c, clause⟩ := Option.isSome_iff_exists.1 isRule
    obtain ⟨column, same⟩ := clause?_eq_some clause
    have same : w = _ := same
    subst same
    exact ⟨stands.blockAt?.trans closed, line, _, _, _, _, _, stands.hasLine⟩
  | @duplicateRule name s pre post k isRule split earlier =>
    obtain ⟨front', number, shorter, rfl, stands'⟩ := stands.earlier split
    rw [number]
    exact ⟨Nat.succ_lt_succ shorter, stands.ruleAt (l := ⟨_, line, w⟩) isRule,
      stands'.ruleAt earlier⟩

theorem hasDirective_of_read {lines : List NumberedLine} {d' : Draft}
    (directives : ∀ l ∈ lines, l.line.directive?.isSome)
    (reached : lines.foldlM Draft.read d = .ok d') :
    d'.hasDirective = true ↔ d.hasDirective = true ∨ lines ≠ [] := by
  induction lines generalizing d with
  | nil =>
    cases reached
    simp
  | cons l lines ih =>
    obtain ⟨first, others⟩ := List.forall_mem_cons.1 directives
    rw [List.foldlM_cons] at reached
    cases kind : l.line <;> rw [kind] at first <;> cases first
    by_cases number : l.number = 1
    · simp only [Draft.read, kind, number, if_true, ok_bind] at reached
      simp [ih others reached]
    · simp only [Draft.read, kind, number, if_false, error_bind] at reached
      cases reached

theorem culprit_of_finish
    (reached : (numberedLines (physicalLines text)).foldlM Draft.read {} = .ok d)
    (failed : d.finish = .error e) : Culprit text e := by
  obtain ⟨admissible, -⟩ := read_lines_ok reached
  unfold Draft.finish at failed
  split at failed
  · split at failed <;> cases failed
    trivial
  rename_i headless
  cases failed
  have directives := directives_of_headless reached (Bool.eq_false_iff.2 headless)
  have all : ∀ k line w, HasLine text k line w → k = 1 ∧ w.directive?.isSome := by
    intro k line w here
    cases k with
    | zero => cases here.1
    | succ i =>
      have listed := mem_numberedLines here.1 here.2
      have directive := directives _ listed
      exact ⟨admissible.directive_first _ listed directive, directive⟩
  have flag := hasDirective_of_read directives reached
  refine .inr ⟨all, by split <;> simp, ?_⟩
  have some_line : (∃ line w, HasLine text 1 line w) ↔ numberedLines (physicalLines text) ≠ [] := by
    constructor
    · rintro ⟨line, w, here⟩
      exact List.ne_nil_of_mem (mem_numberedLines here.1 here.2)
    · intro lines
      obtain ⟨l, others, split⟩ := List.exists_cons_of_ne_nil lines
      obtain ⟨front, line, back, w, whole, -, worded, -⟩ :=
        numberedLines_split (show _ = [] ++ l :: others from split)
      have stands : Stands text front line w := ⟨⟨back, whole⟩, worded⟩
      obtain ⟨one, -⟩ := all _ _ _ stands.hasLine
      exact ⟨line, w, one ▸ stands.hasLine⟩
  rw [some_line]
  by_cases one : d.hasDirective = true
  · simpa [one] using flag.1 one
  · simpa [one] using mt flag.2 one

theorem error_at_culprit (text : String) (e : Error) (paired : Paired text.toList)
    (failed : Machine.ofText text = .error e) : Culprit text.toList e := by
  unfold Machine.ofText Description.read at failed
  rw [linesOf?_eq_numberedLines paired] at failed
  split at failed
  · cases failed
    trivial
  dsimp only at failed
  rw [assemble] at failed
  cases reached : (numberedLines (physicalLines text.toList)).foldlM Draft.read {} with
  | ok d =>
    rw [reached, ok_bind] at failed
    exact culprit_of_finish reached failed
  | error e' =>
    rw [reached, error_bind, Except.error.injEq] at failed
    subst failed
    obtain ⟨before, l, after, d, split, early, fails⟩ := exists_failing_element reached
    obtain ⟨front, line, back, w, whole, rfl, worded, rfl⟩ := numberedLines_split split
    obtain ⟨admissible, fault⟩ := fault_of_read early fails
    exact culprit_of_fault paired ⟨⟨back, whole⟩, worded⟩ admissible fault

theorem error_at_culprit_target :
    Machine.ofText "A\r\ninit A\r\nA:\r\n\tä y > B" = .error (.unknownTarget "B" 4 8) ∧
      Culprit "A\r\ninit A\r\nA:\r\n\tä y > B".toList (.unknownTarget "B" 4 8) := by
  have checked : ((Machine.ofText "A\r\ninit A\r\nA:\r\n\tä y > B").map fun _ => ()) =
      .error (.unknownTarget "B" 4 8) := by decide +kernel
  have failed := error_of_map checked
  exact ⟨failed, error_at_culprit _ _ (by decide +kernel) failed⟩

end OneTape.Description
