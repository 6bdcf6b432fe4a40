import OneTape.Proofs.Description.Nodes
import OneTape.Proofs.Description.Numbering
import OneTape.Proofs.Grammar.Words

namespace OneTape.Description

open Grammar Pattern Form

variable {line : List Char} {w : Line} {k : Cursor} {m : Match Element}

theorem exists_node_of_wording (unbroken : Unbroken line) (worded : wording line = some w) :
    ∃ n ∈ rowNodes (.first, line), n.start = .first ∧ n.text = line ∧ Line.ofNode? n = some w := by
  obtain ⟨lines, classified, found⟩ := Option.bind_eq_some_iff.1 worded
  obtain rfl := Option.some.inj ((linesOf?_line unbroken).symm.trans classified)
  obtain ⟨l, head, rfl⟩ := Option.map_eq_some_iff.1 found
  obtain ⟨n, member, read⟩ := List.mem_filterMap.1 (List.mem_of_head? head)
  obtain ⟨w, means, rfl⟩ := Option.map_eq_some_iff.1 read
  refine ⟨n, member, ?_, ?_, means⟩ <;>
  · by_cases solid : ∃ c ∈ line, c ≠ ' ' ∧ c ≠ '\t'
    · obtain ⟨kind, children, single⟩ := @rowNodes_solid .first line unbroken solid
      obtain rfl := List.mem_singleton.1 (single ▸ member)
      rfl
    · have blank : ∀ c ∈ line, c = ' ' ∨ c = '\t' := by
        intro c member
        by_contra other
        exact solid ⟨c, member, not_or.1 other⟩
      rw [rowNodes_blank blank] at member
      cases member

theorem means_line : Form.line.Yields fun n => (Line.ofNode? n).isSome := by
  have node {kind : Element} {p : Form} (means : ∀ start stop text children,
      (Line.ofNode? (.mk kind start stop text children)).isSome) :
      (Pattern.node kind p).Yields fun n => (Line.ofNode? n).isSome :=
    yields_node fun _ _ _ _ => means _ _ _ _
  exact (node fun _ _ _ _ => rfl).choice <| (yields_of_silent rfl).choice <|
    (node fun _ _ _ _ => rfl).choice <| (node fun _ _ _ _ => rfl).choice <|
    (node fun _ _ _ _ => rfl).choice <| (node fun _ _ _ _ => rfl).choice <|
    (node fun _ _ _ _ => rfl).choice <| (node fun _ _ _ _ => rfl).choice
      (node fun _ _ _ _ => rfl)

theorem exists_wording (unbroken : Unbroken line) (solid : ∃ c ∈ line, c ≠ ' ' ∧ c ≠ '\t') :
    ∃ w, wording line = some w := by
  obtain ⟨kind, children, single⟩ := @rowNodes_solid .first line unbroken solid
  have means := yields_rowNodes means_line (.first, line) _ (single ▸ List.mem_cons_self)
  obtain ⟨w, means⟩ := Option.isSome_iff_exists.1 means
  refine ⟨w, ?_⟩
  rw [wording, linesOf?_line unbroken, linesOfRow, single, List.filterMap_cons,
    NumberedLine.ofNode?, means]
  rfl

/-- The names that a line mentions but for the target of a rule. -/
def Line.names : Line → List String
  | header names | accept names => names
  | init name | block name => [name]
  | directive _ | rule .. | malformed | unknown => []

theorem holds_names {n : Node Element} (filled : Filled n) (means : Line.ofNode? n = some w) :
    Holds n.text (w.names.map String.toList) := by
  have texts : n.children.map Node.text = (n.children.map nameOf).map String.toList := by
    simp [nameOf, Function.comp_def]
  have all : Holds n.text ((n.children.map nameOf).map String.toList) := texts ▸ filled
  have first : Holds n.text ([(n.children.head?.map nameOf).getD ""].map String.toList) := by
    cases children : n.children with
    | nil => simpa using Holds.word [] [] (.nothing n.text)
    | cons child others =>
      rw [children] at all
      exact all.sublist ((List.nil_sublist _).cons_cons _)
  unfold Line.ofNode? at means
  split at means <;> cases means
  · exact .nothing n.text
  · exact all
  · exact first
  · exact all
  · exact first
  · cases rule : ruleOf? n.children with
    | none => exact .nothing n.text
    | some l =>
      unfold ruleOf? at rule
      split at rule
      · split at rule
        · cases marked : Direction.ofMarker? _ <;> rw [marked] at rule <;> cases rule
          exact .nothing n.text
        · cases rule
      · cases rule
  · exact .nothing n.text
  · exact .nothing n.text

theorem holds_wording (unbroken : Unbroken line) (worded : wording line = some w) :
    Holds line (w.names.map String.toList) := by
  obtain ⟨n, member, -, text, means⟩ := exists_node_of_wording unbroken worded
  have filled := yields_rowNodes (yields_filled Form.line) (.first, line) n member
  exact text ▸ holds_names filled means

/-! ## The target of a rule -/

/-- The last child of a rule is a name that stands in front of the blanks at the end. -/
def Targets (n : Node Element) : Prop :=
  n.kind = .ruleLine → ∃ fields target front bs, n.children = fields ++ [target] ∧
    n.text = front ++ (target.text ++ blanks bs) ∧ target.start = n.start.advance front

theorem targets_ruleLine : ruleLine.Yields Targets := by
  intro k m matched n member isRule
  obtain ⟨p, -, -, -, -, -, single⟩ := took_ruleLine matched
  obtain rfl := List.mem_singleton.1 (single ▸ member)
  refine ⟨[_, _, _], _, blanks (p.indent :: p.moreIndent) ++ (p.read ++ (p.first.text ++
    (RuleParts.arrowText p.arrow ++ (p.write ++ (p.second.text ++ ([p.marker] ++
      p.third.text)))))), p.trailing, rfl, ?_, ?_⟩
  · simp [Node.text, RuleParts.text, RuleParts.behindRead, RuleParts.behindWrite]
  · simp only [Node.start, Position.advance, List.foldl_append]

theorem targets_line : Form.line.Yields Targets := by
  have node {kind : Element} {p : Form} (other : kind ≠ .ruleLine) :
      (Pattern.node kind p).Yields Targets :=
    yields_node fun _ _ _ _ isRule => absurd isRule other
  exact (node (by decide)).choice <| (yields_of_silent rfl).choice <| targets_ruleLine.choice <|
    (node (by decide)).choice <| (node (by decide)).choice <| (node (by decide)).choice <|
    (node (by decide)).choice <| (node (by decide)).choice (node (by decide))

/-- Behind the column that a rule gives for its target, the line is the target and blanks. -/
theorem rule_target (unbroken : Unbroken line) {read write : Symbol} {direction : Direction}
    {target : String} {column : Nat}
    (worded : wording line = some (.rule read write direction target column)) :
    ∃ front bs, line = front ++ (target.toList ++ blanks bs) ∧ column = front.length + 1 := by
  obtain ⟨n, member, start, text, means⟩ := exists_node_of_wording unbroken worded
  have targets := yields_rowNodes targets_line (.first, line) n member
  unfold Line.ofNode? at means
  split at means <;> try cases means
  obtain ⟨fields, last, front, bs, children, whole, place⟩ := targets ‹_›
  rw [Option.some.injEq] at means
  cases rule : ruleOf? n.children with
  | none =>
    rw [rule] at means
    cases means
  | some l =>
    rw [rule, Option.getD_some] at means
    subst means
    unfold ruleOf? at rule
    split at rule
    · rename_i a b c d four
      split at rule
      · cases marked : Direction.ofMarker? _ <;> rw [marked] at rule <;> cases rule
        have same : [a, b, c] ++ [d] = fields ++ [last] := four.symm.trans children
        obtain ⟨-, rfl⟩ := List.append_singleton_inj.1 same
        rw [text] at whole
        have within : Unbroken front := fun c member =>
          unbroken c (by rw [whole]; exact List.mem_append_left _ member)
        refine ⟨front, bs, ?_, ?_⟩
        · simpa [nameOf] using whole
        · rw [place, start, (advance_unbroken within _).2]
          exact Nat.add_comm 1 _
      · cases rule
    · cases rule

/-! ## Trimmed lines -/

def IsTrimmed (text trimmed : List Char) : Prop :=
  ∃ front back, text = front ++ (trimmed ++ back) ∧
    (∀ c ∈ front ++ back, Text.isWhiteSpace c = true) ∧
    (∀ c ∈ trimmed.head?, Text.isWhiteSpace c = false) ∧
    ∀ c ∈ trimmed.getLast?, Text.isWhiteSpace c = false

theorem head?_dropWhile_false {test : Char → Bool} {text : List Char} :
    ∀ c ∈ (text.dropWhile test).head?, test c = false := by
  intro c first
  have other := List.head?_dropWhile_not test text
  rw [Option.mem_def.1 first] at other
  simpa using other

theorem isTrimmed_trim (text : List Char) : IsTrimmed text (Text.trim text) := by
  let later := text.dropWhile Text.isWhiteSpace
  have split : text = text.takeWhile Text.isWhiteSpace ++ later :=
    List.takeWhile_append_dropWhile.symm
  have split' : later = Text.trim text ++ (later.reverse.takeWhile Text.isWhiteSpace).reverse := by
    rw [Text.trim, ← List.reverse_append, List.takeWhile_append_dropWhile, List.reverse_reverse]
  refine ⟨_, _, split.trans (congrArg _ split'), ?_, ?_, ?_⟩
  · intro c member
    rcases List.mem_append.1 member with member | member
    · exact List.all_eq_true.1 List.all_takeWhile c member
    · exact List.all_eq_true.1 List.all_takeWhile c (List.mem_reverse.1 member)
  · intro c first
    refine @head?_dropWhile_false Text.isWhiteSpace text c ?_
    show later.head? = some c
    rw [split']
    cases trimmed : Text.trim text with
    | nil => simp [trimmed] at first
    | cons d rest => simpa [trimmed] using first
  · intro c last
    rw [Text.trim, List.getLast?_reverse] at last
    exact head?_dropWhile_false c last

theorem isTrimmed_trimmed (l : NumberedLine) : IsTrimmed l.text l.trimmed.toList := by
  rw [NumberedLine.trimmed, String.toList_ofList]
  exact isTrimmed_trim l.text

end OneTape.Description
