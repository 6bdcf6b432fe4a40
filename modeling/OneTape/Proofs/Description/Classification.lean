import OneTape.Proofs.Description.Forms
import OneTape.Proofs.Description.Lines

/-!
Greedy repetition and options that are not revised lose nothing: each line that can be written in
a form is read in this form, unless an earlier form has it.
-/

namespace OneTape.Description

open Grammar Pattern Form

variable {line taken : List Char} {position : Position} {k : Cursor} {m : Match Element}

def IsBlankLine (line : List Char) : Prop := ∃ bs, line = blanks bs

def IsIndented (line : List Char) : Prop := ∃ (b : Blank) (rest : List Char), line = b.char :: rest

def IsDirective (line : List Char) : Prop := ∃ b bs flag trailing, (flag = '0' ∨ flag = '1') ∧
  line = ['D', 'E', 'B', 'U', 'G'] ++ (blanks (b :: bs) ++ ([flag] ++ blanks trailing))

def IsRuleLine (line : List Char) : Prop := ∃ p : RuleParts, p.Proper ∧ line = p.text

def IsInit (line : List Char) : Prop := ∃ (s : Separator) (name : List Char) (bs : List Blank),
  IsName name ∧ line = ['i', 'n', 'i', 't'] ++ (s.text ++ (name ++ blanks bs))

def IsAccept (line : List Char) : Prop := ∃ fields trailing, (∀ f ∈ fields, IsName f.2) ∧
  line = ['a', 'c', 'c', 'e', 'p', 't'] ++ (separated fields ++ blanks trailing)

def IsBlock (line : List Char) : Prop := ∃ name bs trailing, IsName name ∧
  line = name ++ (blanks bs ++ ([':'] ++ blanks trailing))

def IsHeader (line : List Char) : Prop := ∃ name fields trailing, IsName name ∧
  (∀ f ∈ fields, IsName f.2) ∧ line = name ++ (separated fields ++ blanks trailing)

open Classical in
/-- The form of a line, none for a blank line. A name is as long as it can be in all these forms,
since it is followed by the end of the line or by a character that no name has. -/
noncomputable def describedForm (line : List Char) : Option Element :=
  if IsBlankLine line then none
  else if IsDirective line then some .directive
  else if IsIndented line then if IsRuleLine line then some .ruleLine else some .malformedRule
  else if IsInit line then some .initLine
  else if IsAccept line then some .acceptLine
  else if IsBlock line then some .blockHeader
  else if IsHeader line then some .headerLine
  else some .unknownLine

/-! ## Each form reads its lines and no others -/

/-- Of the lines the form matches those with the property, and it makes a node of the kind of them,
or none. -/
structure Describes (p : Form) (kind : Option Element) (P : List Char → Prop) : Prop where
  takes : ∀ k m, p.match? k = some m → AtLineEnd m.cursor.rest ∧
    ∃ taken, k.Took m.cursor taken ∧ P taken
  reads : ∀ line, P line → Unbroken line → ∃ texts, p.Reads line [] texts
  kind : ∀ k m, p.match? k = some m → m.nodes.map Node.kind = kind.toList

theorem describes_node {kind : Element} {p : Form} {P : List Char → Prop}
    (takes : ∀ k m, p.match? k = some m → AtLineEnd m.cursor.rest ∧
      ∃ taken, k.Took m.cursor taken ∧ P taken)
    (reads : ∀ line, P line → Unbroken line → ∃ texts, p.Reads line [] texts) :
    Describes (node kind p) (some kind) P where
  takes k m matched := by
    obtain ⟨body, inside, rfl⟩ := Option.map_eq_some_iff.1 matched
    exact takes k body inside
  reads line holds unbroken := by
    obtain ⟨texts, read⟩ := reads line holds unbroken
    exact ⟨_, read.node_nil kind⟩
  kind k m matched := by
    obtain ⟨body, taken, -, -, -, single⟩ := single_node matched
    rw [single]
    rfl

theorem describes_blankLine : Describes blankLine none IsBlankLine where
  takes k m matched := by
    obtain ⟨bs, took, ended⟩ := took_lineEnd matched
    exact ⟨ended, blanks bs, took, bs, rfl⟩
  reads := by
    rintro _ ⟨bs, rfl⟩ -
    exact ⟨[], reads_lineEnd bs⟩
  kind k m matched := by
    rw [nodes_of_silent rfl matched]
    rfl

theorem took_debugFlag (matched : debugFlag.match? k = some m) :
    ∃ c, (c = '0' ∨ c = '1') ∧ k.Took m.cursor [c] := by
  obtain ⟨body, inside, rfl⟩ := Option.map_eq_some_iff.1 matched
  rcases match?_choice_eq_some inside with zero | one
  · obtain ⟨_, found, rfl⟩ := Option.map_eq_some_iff.1 zero
    exact ⟨'0', .inl rfl, Cursor.took_literal found⟩
  · obtain ⟨_, found, rfl⟩ := Option.map_eq_some_iff.1 one
    exact ⟨'1', .inr rfl, Cursor.took_literal found⟩

theorem describes_directive : Describes directive (some .directive) IsDirective := by
  refine describes_node (fun k m matched => ?_) ?_
  · obtain ⟨m₁, _, word, fields₁, rfl⟩ := match?_seq_eq_some_iff.1 matched
    obtain ⟨m₂, _, spaces, fields₂, rfl⟩ := match?_seq_eq_some_iff.1 fields₁
    obtain ⟨m₃, m₄, flag, ended, rfl⟩ := match?_seq_eq_some_iff.1 fields₂
    obtain ⟨_, found, rfl⟩ := Option.map_eq_some_iff.1 word
    obtain ⟨b, bs, took₂, -⟩ := took_indent spaces
    obtain ⟨c, isFlag, took₃⟩ := took_debugFlag flag
    obtain ⟨cs, took₄, atEnd⟩ := took_lineEnd ended
    exact ⟨atEnd, _, (Cursor.took_literal found).trans (took₂.trans (took₃.trans took₄)),
      b, bs, c, cs, isFlag, rfl⟩
  · rintro _ ⟨b, bs, c, trailing, flag, rfl⟩ -
    exact ⟨_, reads_directive b bs flag trailing⟩

theorem describes_ruleLine : Describes ruleLine (some .ruleLine) IsRuleLine where
  takes k m matched := by
    obtain ⟨p, proper, -, -, took, ended, -⟩ := took_ruleLine matched
    exact ⟨ended, p.text, took, p, proper, rfl⟩
  kind k m matched := by
    obtain ⟨p, -, -, -, -, -, single⟩ := took_ruleLine matched
    rw [single]
    rfl
  reads := by
    rintro _ ⟨p, proper, rfl⟩ unbroken
    have body := (proper.readable_of_unbroken unbroken).reads_fields
    exact ⟨_, body.node_nil Element.ruleLine⟩

theorem describes_initLine : Describes initLine (some .initLine) IsInit := by
  refine describes_node (fun k m matched => ?_) ?_
  · obtain ⟨m₁, _, word, fields₁, rfl⟩ := match?_seq_eq_some_iff.1 matched
    obtain ⟨m₂, _, separator, fields₂, rfl⟩ := match?_seq_eq_some_iff.1 fields₁
    obtain ⟨m₃, m₄, named, ended, rfl⟩ := match?_seq_eq_some_iff.1 fields₂
    obtain ⟨_, found, rfl⟩ := Option.map_eq_some_iff.1 word
    obtain ⟨s, took₂⟩ := took_sep separator
    obtain ⟨name, isName, took₃, -⟩ := took_name named
    obtain ⟨bs, took₄, atEnd⟩ := took_lineEnd ended
    exact ⟨atEnd, _, (Cursor.took_literal found).trans (took₂.trans (took₃.trans took₄)),
      s, name, bs, isName, rfl⟩
  · rintro _ ⟨s, name, trailing, isName, rfl⟩ -
    exact ⟨_, reads_init s isName trailing⟩

theorem took_names (matched : Form.names.match? k = some m) : ∃ name fields, IsName name ∧
    (∀ f ∈ fields, IsName f.2) ∧ k.Took m.cursor (name ++ separated fields) := by
  obtain ⟨m₁, m₂, named, further, rfl⟩ := match?_seq_eq_some_iff.1 matched
  obtain ⟨name, isName, took, -⟩ := took_name named
  obtain ⟨fields, areNames, took'⟩ := took_fields further
  exact ⟨name, fields, isName, areNames, took.trans took'⟩

theorem took_accepted (matched : (optional (seq sep Form.names)).match? k = some m) :
    ∃ fields, (∀ f ∈ fields, IsName f.2) ∧ k.Took m.cursor (separated fields) := by
  simp only [match?] at matched
  split at matched <;> cases matched
  · exact ⟨[], by simp, .refl k⟩
  · obtain ⟨m₁, m₂, separator, listed, rfl⟩ := match?_seq_eq_some_iff.1 ‹_›
    obtain ⟨s, took₁⟩ := took_sep separator
    obtain ⟨name, fields, isName, areNames, took₂⟩ := took_names listed
    refine ⟨(s, name) :: fields, List.forall_mem_cons.2 ⟨isName, areNames⟩, ?_⟩
    simpa [separated] using took₁.trans took₂

theorem describes_acceptLine : Describes acceptLine (some .acceptLine) IsAccept := by
  refine describes_node (fun k m matched => ?_) ?_
  · obtain ⟨m₁, _, word, fields₁, rfl⟩ := match?_seq_eq_some_iff.1 matched
    obtain ⟨m₂, m₃, listed, ended, rfl⟩ := match?_seq_eq_some_iff.1 fields₁
    obtain ⟨_, found, rfl⟩ := Option.map_eq_some_iff.1 word
    obtain ⟨bs, took₃, atEnd⟩ := took_lineEnd ended
    obtain ⟨fields, areNames, took₂⟩ := took_accepted listed
    exact ⟨atEnd, _, (Cursor.took_literal found).trans (took₂.trans took₃),
      fields, bs, areNames, rfl⟩
  · rintro _ ⟨fields, trailing, areNames, rfl⟩ -
    exact ⟨_, reads_accept areNames trailing⟩

theorem describes_blockHeader : Describes blockHeader (some .blockHeader) IsBlock := by
  refine describes_node (fun k m matched => ?_) ?_
  · obtain ⟨m₁, _, named, fields₁, rfl⟩ := match?_seq_eq_some_iff.1 matched
    obtain ⟨m₂, _, spaces, fields₂, rfl⟩ := match?_seq_eq_some_iff.1 fields₁
    obtain ⟨m₃, m₄, colon, ended, rfl⟩ := match?_seq_eq_some_iff.1 fields₂
    obtain ⟨name, isName, took₁, -⟩ := took_name named
    obtain ⟨bs, took₂, -⟩ := took_blanks spaces
    obtain ⟨_, found, rfl⟩ := Option.map_eq_some_iff.1 colon
    obtain ⟨cs, took₄, atEnd⟩ := took_lineEnd ended
    exact ⟨atEnd, _, took₁.trans (took₂.trans ((Cursor.took_literal found).trans took₄)),
      name, bs, cs, isName, rfl⟩
  · rintro _ ⟨name, bs, trailing, isName, rfl⟩ -
    exact ⟨_, reads_block isName bs trailing⟩

theorem describes_headerLine : Describes headerLine (some .headerLine) IsHeader := by
  refine describes_node (fun k m matched => ?_) ?_
  · obtain ⟨m₁, m₂, listed, ended, rfl⟩ := match?_seq_eq_some_iff.1 matched
    obtain ⟨name, fields, isName, areNames, took₁⟩ := took_names listed
    obtain ⟨bs, took₂, atEnd⟩ := took_lineEnd ended
    exact ⟨atEnd, _, took₁.trans took₂, name, fields, bs, isName, areNames, by simp⟩
  · rintro _ ⟨name, fields, trailing, isName, areNames, rfl⟩ -
    exact ⟨_, reads_header isName areNames trailing⟩

/-! ## Lines of any other form -/

theorem reads_lineChars (unbroken : Unbroken line) (something : line ≠ []) :
    (some1 lineChar).Reads line [] [] := by
  have many (line : List Char) (unbroken : Unbroken line) :
      (many lineChar).Reads line [] [] := by
    induction line with
    | nil => exact Refuses.many progressive_lineChar fun _ => rfl
    | cons c line ih =>
      exact (reads_lineChar unbroken.head).many progressive_lineChar (ih unbroken.tail)
  cases line with
  | nil => exact absurd rfl something
  | cons c line => exact (reads_lineChar unbroken.head).seq (many line unbroken.tail)

theorem took_lineChars (matched : (some1 lineChar).match? k = some m) :
    AtLineEnd m.cursor.rest ∧ ∃ c taken, k.Took m.cursor (c :: taken) := by
  obtain ⟨m₁, m₂, first, further, same⟩ := match?_seq_eq_some_iff.1 matched
  obtain ⟨c, -, took⟩ := guards_newline.took_anyChar first
  obtain ⟨taken, took'⟩ := took_match further
  exact ⟨endsLine_lineChars k m matched, c, taken, by rw [same]; exact took.trans took'⟩

theorem exists_indent (indented : IsIndented line) :
    ∃ b bs rest, line = blanks (b :: bs) ++ rest ∧ NoBlank rest := by
  obtain ⟨b, text, rfl⟩ := indented
  obtain ⟨taken, rest, rfl, blank, stop⟩ :=
    exists_taken_while (fun c => c == ' ' || c == '\t') text
  obtain ⟨bs, rfl⟩ : ∃ bs, taken = blanks bs := exists_blanks (by simpa using blank)
  exact ⟨b, bs, rest, rfl, stop⟩

theorem isBlankLine_append_iff {bs : List Blank} {rest : List Char} (stop : NoBlank rest) :
    IsBlankLine (blanks bs ++ rest) ↔ rest = [] := by
  constructor
  · rintro ⟨cs, same⟩
    have ended : NoBlank [] := rfl
    rw [← List.append_nil (blanks cs)] at same
    exact ((reads_blanks bs stop).taken_unique (reads_blanks cs ended) same).2
  · rintro rfl
    exact ⟨bs, List.append_nil _⟩

theorem describes_malformedRule :
    Describes malformedRule (some .malformedRule) fun line =>
      IsIndented line ∧ ¬ IsBlankLine line := by
  refine describes_node (fun k m matched => ?_) ?_
  · obtain ⟨m₁, m₂, indented, chars, rfl⟩ := match?_seq_eq_some_iff.1 matched
    obtain ⟨b, bs, took, stop⟩ := took_indent indented
    obtain ⟨ended, c, taken, took'⟩ := took_lineChars chars
    have solid : NoBlank (c :: taken) := by
      rw [took'.rest] at stop
      exact stop
    refine ⟨ended, _, took.trans took', ⟨b, _, rfl⟩, ?_⟩
    rw [isBlankLine_append_iff solid]
    exact List.cons_ne_nil c taken
  · rintro line ⟨indented, solid⟩ unbroken
    obtain ⟨b, bs, rest, rfl, stop⟩ := exists_indent indented
    rw [isBlankLine_append_iff stop] at solid
    exact ⟨_, (reads_indent b bs stop).seq (reads_lineChars unbroken.right solid)⟩

theorem describes_unknownLine :
    Describes unknownLine (some .unknownLine) fun line => line ≠ [] := by
  refine describes_node (fun k m matched => ?_) ?_
  · obtain ⟨ended, c, taken, took⟩ := took_lineChars matched
    exact ⟨ended, c :: taken, took, List.cons_ne_nil c taken⟩
  · intro line something unbroken
    exact ⟨_, reads_lineChars unbroken something⟩

/-! ## The first form that a line has -/

theorem Describes.isSome_iff {p : Form} {kind : Option Element} {P : List Char → Prop}
    (describes : Describes p kind P) (unbroken : Unbroken line) (position : Position) :
    (p.match? ⟨position, line⟩).isSome = true ↔ P line := by
  rw [Option.isSome_iff_exists]
  constructor
  · rintro ⟨m, matched⟩
    obtain ⟨ended, taken, took, holds⟩ := describes.takes _ m matched
    have all : line = taken ++ m.cursor.rest := took.rest
    rw [(unbroken_rest unbroken matched).eq_nil ended, List.append_nil] at all
    exact all ▸ holds
  · intro holds
    obtain ⟨texts, read⟩ := describes.reads line holds unbroken
    obtain ⟨m, matched, -⟩ := read position
    exact ⟨m, matched⟩

def kindsOf (p : Form) (line : List Char) : List Element :=
  ((p.match? ⟨.first, line⟩).map fun m => m.nodes.map Node.kind).getD []

theorem Describes.kindsOf_eq {p : Form} {kind : Option Element} {P : List Char → Prop}
    (describes : Describes p kind P) (unbroken : Unbroken line) (holds : P line) :
    kindsOf p line = kind.toList := by
  obtain ⟨m, found⟩ := Option.isSome_iff_exists.1 ((describes.isSome_iff unbroken .first).2 holds)
  rw [kindsOf, found, Option.map_some, Option.getD_some, describes.kind _ m found]

open Classical in
theorem Describes.kindsOf_choice {p : Form} {kind : Option Element} {P : List Char → Prop}
    (describes : Describes p kind P) (unbroken : Unbroken line) (q : Form) :
    kindsOf (choice p q) line = if P line then kind.toList else kindsOf q line := by
  split
  · rename_i holds
    have matched := (describes.isSome_iff unbroken .first).2 holds
    obtain ⟨m, found⟩ := Option.isSome_iff_exists.1 matched
    rw [← describes.kindsOf_eq unbroken holds, kindsOf, kindsOf, match?, found]
  · rename_i other
    have refused := mt (describes.isSome_iff unbroken .first).1 other
    rw [kindsOf, kindsOf, match?, Option.not_isSome_iff_eq_none.1 refused]

theorem IsDirective.not_isBlankLine (directive : IsDirective line) : ¬ IsBlankLine line := by
  obtain ⟨b, bs, flag, trailing, -, rfl⟩ := directive
  rintro ⟨bs, same⟩
  cases bs with
  | nil => cases same
  | cons b bs => cases b <;> cases (List.cons.inj same).1

theorem IsDirective.not_isIndented (directive : IsDirective line) : ¬ IsIndented line := by
  obtain ⟨b, bs, flag, trailing, -, rfl⟩ := directive
  rintro ⟨b, rest, same⟩
  cases b <;> cases (List.cons.inj same).1

theorem IsRuleLine.isIndented (rule : IsRuleLine line) : IsIndented line := by
  obtain ⟨p, -, rfl⟩ := rule
  exact ⟨p.indent, _, rfl⟩

theorem IsRuleLine.not_isBlankLine (rule : IsRuleLine line) : ¬ IsBlankLine line := by
  obtain ⟨p, proper, rfl⟩ := rule
  rw [RuleParts.text, isBlankLine_append_iff (proper.read.noSeparator _).1]
  intro nothing
  have isSymbol := proper.read
  rw [(List.append_eq_nil_iff.1 nothing).1] at isSymbol
  cases isSymbol

theorem kindsOf_line (unbroken : Unbroken line) :
    kindsOf Form.line line = (describedForm line).toList := by
  have forms : Form.line = choice directive (choice blankLine (choice ruleLine
    (choice malformedRule (choice initLine (choice acceptLine (choice blockHeader
      (choice headerLine unknownLine))))))) := rfl
  rw [forms, describes_directive.kindsOf_choice unbroken,
    describes_blankLine.kindsOf_choice unbroken, describes_ruleLine.kindsOf_choice unbroken,
    describes_malformedRule.kindsOf_choice unbroken, describes_initLine.kindsOf_choice unbroken,
    describes_acceptLine.kindsOf_choice unbroken, describes_blockHeader.kindsOf_choice unbroken,
    describes_headerLine.kindsOf_choice unbroken, describedForm]
  -- The grammar has a case for directives in front of blank lines and none for indented lines.
  by_cases blank : IsBlankLine line
  · have noDirective : ¬ IsDirective line := fun directive => directive.not_isBlankLine blank
    rw [if_neg noDirective, if_pos blank, if_pos blank]
  have something : line ≠ [] := by
    rintro rfl
    exact blank ⟨[], rfl⟩
  rw [if_neg blank, if_neg blank, describes_unknownLine.kindsOf_eq unbroken something]
  by_cases indented : IsIndented line
  · have both : IsIndented line ∧ ¬ IsBlankLine line := ⟨indented, blank⟩
    rw [if_pos indented, if_pos both]
    split_ifs <;> rfl
  · have neither : ¬ (IsIndented line ∧ ¬ IsBlankLine line) := fun both => indented both.1
    have noRule : ¬ IsRuleLine line := fun rule => indented rule.isIndented
    rw [if_neg indented, if_neg noRule, if_neg neither]
    split_ifs <;> rfl

theorem isRuleLine_of_describedForm (form : describedForm line = some .ruleLine) :
    IsRuleLine line := by
  by_contra other
  unfold describedForm at form
  rw [if_neg other] at form
  split_ifs at form <;> cases form

theorem match?_line_of_isRuleLine (rule : IsRuleLine line) (unbroken : Unbroken line) :
    Form.line.match? ⟨.first, line⟩ = ruleLine.match? ⟨.first, line⟩ := by
  have noDirective := mt (describes_directive.isSome_iff unbroken .first).1
    fun directive => directive.not_isIndented rule.isIndented
  have noBlank := mt (describes_blankLine.isSome_iff unbroken .first).1 rule.not_isBlankLine
  obtain ⟨m, found⟩ :=
    Option.isSome_iff_exists.1 ((describes_ruleLine.isSome_iff unbroken .first).2 rule)
  rw [show Form.line = choice directive (choice blankLine (choice ruleLine _)) from rfl, match?,
    Option.not_isSome_iff_eq_none.1 noDirective, match?, Option.not_isSome_iff_eq_none.1 noBlank,
    match?, found]

theorem line_form_described (unbroken : Unbroken line) : ∃ nodes,
    Form.line.match? (.ofText line) = some ⟨⟨Position.first.advance line, []⟩, nodes⟩ ∧
      nodes.map Node.kind = (describedForm line).toList ∧
      (describedForm line = some .ruleLine → ∃ p : RuleParts, p.Proper ∧ p.text = line ∧
        nodes = [.mk .ruleLine .first (Position.first.advance line) line (p.nodes .first)] ∧
        ∀ q : RuleParts, q.Proper → q.text = line → q = p) := by
  obtain ⟨nodes, matched⟩ := exists_line .first unbroken
  refine ⟨nodes, matched, ?_, fun form => ?_⟩
  · have kinds := kindsOf_line unbroken
    rwa [kindsOf, matched] at kinds
  · have rule := isRuleLine_of_describedForm form
    rw [match?_line_of_isRuleLine rule unbroken] at matched
    obtain ⟨p, proper, -, -, took, -, single⟩ := took_ruleLine matched
    have whole : line = p.text := by simpa using took.rest
    refine ⟨p, proper, whole.symm, whole ▸ single, fun q proper' same => ?_⟩
    exact (proper'.readable_of_unbroken (same ▸ unbroken)).unique
      (proper.readable_of_unbroken (whole ▸ unbroken)) (same.trans whole)

theorem line_form_described_rule : Unbroken "\t'a' -> b,> A ".toList ∧
    describedForm "\t'a' -> b,> A ".toList = some .ruleLine ∧
      ∀ q : RuleParts, q.Proper → q.text = "\t'a' -> b,> A ".toList →
        q = ⟨.tab, [], ['\'', 'a', '\''], .spaces .space [], some (.spaces .space []), ['b'],
          .comma [] [], '>', .spaces .space [], ['A'], [.space]⟩ := by
  have unbroken : Unbroken "\t'a' -> b,> A ".toList := unbroken_of_all (by decide +kernel)
  obtain ⟨nodes, matched, kinds, parts⟩ := line_form_described unbroken
  have read : kindsOf Form.line "\t'a' -> b,> A ".toList = [.ruleLine] := by decide +kernel
  have form : describedForm "\t'a' -> b,> A ".toList = some .ruleLine := by
    rw [kindsOf, show Form.line.match? ⟨.first, _⟩ = _ from matched, Option.map_some,
      Option.getD_some, kinds] at read
    exact Option.toList_eq_singleton_iff.1 read
  refine ⟨unbroken, form, fun q proper same => ?_⟩
  obtain ⟨p, -, -, -, unique⟩ := parts form
  rw [unique q proper same]
  refine (unique _ ⟨.quoted 'a' _, .bare (by decide) (by simp), by decide, by decide⟩ ?_).symm
  decide +kernel

end OneTape.Description
