import OneTape.Proofs.Description.RuleParts

/-! Each proof shows that the forms that the grammar tries first refuse the line. -/

namespace OneTape.Description

open Grammar Pattern Form

def Line.unplaced : Line → Line
  | rule read write direction target _ => rule read write direction target 0
  | line => line

/-- Wherever the row stands, it makes one line, which says `line`. -/
def ReadsAs (text : List Char) (line : Line) : Prop :=
  ∀ position : Position, ∃ l, linesOfRow (position, text) = [l] ∧ l.number = position.line ∧
    l.line.unplaced = line

variable {name word text rest : List Char} {p : Form} {texts : List (List Char)}

theorem readsAs_of_node (kind : Element) {line : Line} (body : p.Reads text [] texts)
    (chosen : ∀ position,
      Form.line.match? ⟨position, text⟩ = (node kind p).match? ⟨position, text⟩)
    (meaning : ∀ start stop children, children.map Node.text = texts →
      ∃ l, Line.ofNode? (.mk kind start stop text children) = some l ∧ l.unplaced = line) :
    ReadsAs text line := by
  intro position
  rw [← List.append_nil text] at body
  obtain ⟨m, matched, -, stop, children, single, same⟩ := body.within kind position
  obtain ⟨l, read, unplaced⟩ := meaning position stop children same
  rw [List.append_nil] at matched
  refine ⟨⟨position.line, text, l⟩, ?_, rfl, unplaced⟩
  rw [linesOfRow, rowNodes, chosen, matched, Option.map_some, Option.getD_some, single,
    List.filterMap_cons, NumberedLine.ofNode?, read]
  rfl

theorem map_nameOf (names : List String) {children : List (Node Element)}
    (same : children.map Node.text = names.map String.toList) : children.map nameOf = names := by
  have texts := congrArg (List.map String.ofList) same
  rw [List.map_map, List.map_map] at texts
  rw [show nameOf = String.ofList ∘ Node.text from rfl, texts]
  simp [Function.comp_def]

theorem head?_nameOf {name : String} {children : List (Node Element)}
    (same : children.map Node.text = [name.toList]) : children.head?.map nameOf = some name := by
  rw [← List.head?_map, map_nameOf [name] same]
  rfl

/-! ## Forms that refuse a line -/

def flush : Form := firstOf initLine [acceptLine, blockHeader, headerLine, unknownLine]

theorem line_eq_flush (noDirective : directive.Refuses text) (solid : NoBlank text)
    (something : ¬ AtLineEnd text) (position : Position) :
    Form.line.match? ⟨position, text⟩ = flush.match? ⟨position, text⟩ := by
  have noIndent : indent.Refuses text := refuses_some1_space solid
  have noBlank : blankLine.Refuses text := refuses_lineEnd [] solid something
  have noRule : ruleLine.Refuses text := noIndent.seq_left.node Element.ruleLine
  have noMalformed : malformedRule.Refuses text := noIndent.seq_left.node Element.malformedRule
  rw [show Form.line = choice directive (choice blankLine (choice ruleLine
    (choice malformedRule flush))) from rfl, noDirective.choice_eq, noBlank.choice_eq,
    noRule.choice_eq, noMalformed.choice_eq]

theorem refuses_directive (other : text.head? ≠ some 'D') : directive.Refuses text := by
  have noWord : debugWord.Refuses text := by
    apply refuses_literal
    rintro ⟨more, rfl⟩
    exact other rfl
  exact noWord.seq_left.node Element.directive

theorem refuses_initLine (isName : IsName name) (stop : NoName rest) :
    initLine.Refuses (name ++ rest) := by
  refine Refuses.node ?_ Element.initLine
  by_cases begins : ['i', 'n', 'i', 't'] <+: name ++ rest
  · obtain ⟨c, more, split, ident⟩ := exists_of_prefix isName stop rfl isName.ne_init begins
    rw [split]
    exact (reads_literal _).seq_refuses (refuses_sep (noSeparator_of_identChar ident)).seq_left
  · exact (refuses_literal begins).seq_left

theorem refuses_acceptLine (isName : IsName name) (stop : NoName rest) :
    acceptLine.Refuses (name ++ rest) := by
  refine Refuses.node ?_ Element.acceptLine
  by_cases begins : ['a', 'c', 'c', 'e', 'p', 't'] <+: name ++ rest
  · obtain ⟨c, more, split, ident⟩ := exists_of_prefix isName stop rfl isName.ne_accept begins
    have separator : NoSeparator (c :: more) := noSeparator_of_identChar ident
    have ended : lineEnd.Refuses (c :: more) :=
      refuses_lineEnd [] separator.1 (not_atLineEnd_of_identChar ident)
    rw [split]
    exact (reads_literal _).seq_refuses
      ((refuses_sep separator).seq_left.optional.seq_refuses ended)
  · exact (refuses_literal begins).seq_left

theorem refuses_directive_of_name (isName : IsName name) (stop : NoName rest)
    (behind : name = ['D', 'E', 'B', 'U', 'G'] →
      (all (some1 space) [debugFlag, lineEnd]).Refuses rest) :
    directive.Refuses (name ++ rest) := by
  refine Refuses.node ?_ Element.directive
  by_cases same : name = ['D', 'E', 'B', 'U', 'G']
  · rw [same]
    exact (reads_literal _).seq_refuses (behind same)
  by_cases begins : ['D', 'E', 'B', 'U', 'G'] <+: name ++ rest
  · obtain ⟨c, more, split, ident⟩ := exists_of_prefix isName stop rfl same begins
    have separator : NoSeparator (c :: more) := noSeparator_of_identChar ident
    rw [split]
    exact (reads_literal _).seq_refuses (refuses_some1_space separator.1).seq_left
  · exact (refuses_literal begins).seq_left

theorem readsAs_flush (kind : Element) {line : Line} (body : p.Reads text [] texts)
    (noDirective : directive.Refuses text) (solid : NoBlank text) (something : ¬ AtLineEnd text)
    (chosen : (node kind p).Reads text [] [text] → ∀ position,
      flush.match? ⟨position, text⟩ = (node kind p).match? ⟨position, text⟩)
    (meaning : ∀ start stop children, children.map Node.text = texts →
      ∃ l, Line.ofNode? (.mk kind start stop text children) = some l ∧ l.unplaced = line) :
    ReadsAs text line := by
  refine readsAs_of_node kind body (fun position => ?_) meaning
  rw [line_eq_flush noDirective solid something, chosen (body.node_nil kind)]

/-! ## The lines behind the header -/

theorem reads_init (s : Separator) (isName : IsName name) (bs : List Blank) :
    (all initWord [sep, Form.name, lineEnd]).Reads
      (['i', 'n', 'i', 't'] ++ (s.text ++ (name ++ blanks bs))) [] [name] :=
  (reads_literal _).seq ((reads_sep s (isName.noSeparator _)).seq
    ((reads_name isName (noName_blanks bs)).seq (reads_lineEnd bs)))

theorem readsAs_init (s : Separator) {name : String} (isName : IsName name.toList)
    (bs : List Blank) :
    ReadsAs ((['i', 'n', 'i', 't'] ++ (s.text ++ name.toList)) ++ blanks bs) (.init name) := by
  rw [List.append_assoc, List.append_assoc]
  refine readsAs_flush .initLine (reads_init s isName bs) (refuses_directive (by simp)) rfl
    (by simp [AtLineEnd, breaksLine]) (fun read position => read.choice_eq position) ?_
  intro start stop children same
  exact ⟨.init name, by simp [Line.ofNode?, Node.kind, Node.children, head?_nameOf same], rfl⟩

theorem refuses_name_nil : Form.name.Refuses [] := fun _ => rfl

theorem refuses_sep_seq (nothing : p.Refuses []) (bs : List Blank) :
    (seq sep p).Refuses (blanks bs) := by
  have stop : NoSeparator [] := ⟨rfl, by simp⟩
  cases bs with
  | nil => exact (refuses_sep stop).seq_left
  | cons b bs =>
    have read := reads_sep (.spaces b bs) stop
    rw [List.append_nil] at read
    exact read.seq_refuses nothing

theorem areNames_withSeparators {seps : Nat → Separator} {names : List String}
    (areNames : ∀ name ∈ names, IsName name.toList) :
    ∀ f ∈ withSeparators seps names, IsName f.2 := by
  intro f member
  obtain ⟨⟨name, i⟩, listed, rfl⟩ := List.mem_map.1 member
  exact areNames name (List.fst_mem_of_mem_zipIdx listed)

theorem map_snd_withSeparators (seps : Nat → Separator) (names : List String) :
    (withSeparators seps names).map Prod.snd = names.map String.toList := by
  have same := congrArg (List.map String.toList) (List.zipIdx_map_fst 0 names)
  rw [List.map_map] at same
  rw [withSeparators, List.map_map, ← same]
  rfl

theorem reads_names (isName : IsName name) {fields : List (Separator × List Char)}
    (areNames : ∀ f ∈ fields, IsName f.2) (bs : List Blank) :
    Form.names.Reads (name ++ (separated fields ++ blanks bs)) (blanks bs)
      (name :: fields.map Prod.snd) :=
  (reads_name isName (noName_separated fields (noName_blanks bs))).seq
    (reads_separated areNames (noName_blanks bs) (refuses_sep_seq refuses_name_nil bs))

theorem reads_accept {fields : List (Separator × List Char)} (areNames : ∀ f ∈ fields, IsName f.2)
    (bs : List Blank) : (all acceptWord [optional (seq sep Form.names), lineEnd]).Reads
      (['a', 'c', 'c', 'e', 'p', 't'] ++ (separated fields ++ blanks bs)) []
      (fields.map Prod.snd) := by
  have listed : (optional (seq sep Form.names)).Reads (separated fields ++ blanks bs) (blanks bs)
      (fields.map Prod.snd) := by
    cases fields with
    | nil =>
      exact (refuses_sep_seq refuses_name_nil.seq_left bs).optional
    | cons f fields =>
      have isName := areNames f List.mem_cons_self
      have more := reads_names isName
        (fun g member => areNames g (List.mem_cons_of_mem f member)) bs
      have read := ((reads_sep f.1 (isName.noSeparator _)).seq more).optional
      simpa [separated] using read
  rw [← List.append_nil (fields.map Prod.snd)]
  exact (reads_literal _).seq (listed.seq (reads_lineEnd bs))

theorem readsAs_accept {fields : List (Separator × List Char)} {names : List String}
    (areNames : ∀ f ∈ fields, IsName f.2) (same : fields.map Prod.snd = names.map String.toList)
    (bs : List Blank) :
    ReadsAs ((['a', 'c', 'c', 'e', 'p', 't'] ++ separated fields) ++ blanks bs)
      (.accept names) := by
  have body := reads_accept areNames bs
  rw [List.append_assoc]
  refine readsAs_flush .acceptLine body (refuses_directive (by simp)) rfl
    (by simp [AtLineEnd, breaksLine]) (fun read position => ?_) ?_
  · have noInit : initLine.Refuses
        (['a', 'c', 'c', 'e', 'p', 't'] ++ (separated fields ++ blanks bs)) :=
      (refuses_literal (by simp)).seq_left.node Element.initLine
    exact (noInit.choice_eq position).trans (read.choice_eq position)
  · intro start stop children texts
    rw [same] at texts
    refine ⟨.accept names, ?_, rfl⟩
    simp [Line.ofNode?, Node.kind, Node.children, map_nameOf names texts]

theorem noName_colon (cs bs : List Blank) : NoName (blanks cs ++ ([':'] ++ blanks bs)) := by
  cases cs with
  | nil => rfl
  | cons c cs => cases c <;> rfl

theorem reads_block (isName : IsName name) (cs bs : List Blank) :
    (all Form.name [many space, literal [':'], lineEnd]).Reads
      (name ++ (blanks cs ++ ([':'] ++ blanks bs))) [] [name] := by
  have colon : NoBlank ([':'] ++ blanks bs) := rfl
  exact (reads_name isName (noName_colon cs bs)).seq ((reads_blanks cs colon).seq
    ((reads_literal [':']).seq (reads_lineEnd bs)))

theorem readsAs_block {name : String} (isName : IsName name.toList) (cs bs : List Blank) :
    ReadsAs ((name.toList ++ (blanks cs ++ [':'])) ++ blanks bs) (.block name) := by
  have colon : NoBlank ([':'] ++ blanks bs) := rfl
  have stop := noName_colon cs bs
  have noDirective : directive.Refuses (name.toList ++ (blanks cs ++ ([':'] ++ blanks bs))) := by
    refine refuses_directive_of_name isName stop fun _ => ?_
    cases cs with
    | nil => exact (refuses_some1_space colon).seq_left
    | cons c cs =>
      have noFlag : debugFlag.Refuses ([':'] ++ blanks bs) :=
        ((refuses_char (by simp)).choice (refuses_char (by simp))).node Element.debugFlag
      exact (reads_indent c cs colon).seq_refuses noFlag.seq_left
  rw [List.append_assoc, List.append_assoc]
  refine readsAs_flush .blockHeader (reads_block isName cs bs) noDirective (isName.noSeparator _).1
    (isName.not_atLineEnd _) (fun read position => ?_) ?_
  · exact ((refuses_initLine isName stop).choice_eq position).trans <|
      ((refuses_acceptLine isName stop).choice_eq position).trans (read.choice_eq position)
  · intro start stop children same
    exact ⟨.block name, by simp [Line.ofNode?, Node.kind, Node.children, head?_nameOf same], rfl⟩

/-! ## The header -/

theorem exists_blanks_append {fields : List (Separator × List Char)}
    (areNames : ∀ f ∈ fields, IsName f.2) (something : fields ≠ []) (rest : List Char) :
    ∃ bs behind, separated fields ++ rest = blanks bs ++ behind ∧ NoBlank behind ∧
      ¬ AtLineEnd behind ∧ behind.head? ≠ some ':' := by
  cases fields with
  | nil => exact absurd rfl something
  | cons f fields =>
    obtain ⟨s, name⟩ := f
    have isName : IsName name := areNames _ List.mem_cons_self
    cases s with
    | comma before after =>
      refine ⟨before, ',' :: (blanks after ++ (name ++ (separated fields ++ rest))), ?_, rfl,
        by simp [AtLineEnd, breaksLine], by simp⟩
      simp [separated, Separator.text]
    | spaces first more =>
      refine ⟨first :: more, name ++ (separated fields ++ rest), ?_, (isName.noSeparator _).1,
        isName.not_atLineEnd _, ?_⟩
      · simp [separated, Separator.text]
      · obtain ⟨c, more, rfl, ident⟩ := isName.exists_cons
        simpa using ne_of_identChar ident rfl

theorem refuses_blockHeader (isName : IsName name) {fields : List (Separator × List Char)}
    (areNames : ∀ f ∈ fields, IsName f.2) (bs : List Blank) :
    blockHeader.Refuses (name ++ (separated fields ++ blanks bs)) := by
  have read := reads_name isName (noName_separated fields (noName_blanks bs))
  refine Refuses.node (read.seq_refuses ?_) Element.blockHeader
  by_cases something : fields = []
  · have stop : NoBlank [] := rfl
    have blanks := reads_blanks bs stop
    rw [List.append_nil] at blanks
    subst something
    exact blanks.seq_refuses (refuses_char (by simp)).seq_left
  · obtain ⟨bs', behind, split, stop, -, noColon⟩ :=
      exists_blanks_append areNames something (blanks bs)
    rw [split]
    exact (reads_blanks bs' stop).seq_refuses (refuses_char noColon).seq_left

theorem refuses_debugFlag (zero : rest.head? ≠ some '0') (one : rest.head? ≠ some '1') :
    debugFlag.Refuses rest :=
  ((refuses_char zero).choice (refuses_char one)).node Element.debugFlag

theorem reads_debugFlag {c : Char} (flag : c = '0' ∨ c = '1') :
    debugFlag.Reads ([c] ++ rest) rest [[c]] := by
  have read : (choice (literal ['0']) (literal ['1']) : Form).Reads ([c] ++ rest) rest [] := by
    rcases flag with rfl | rfl
    · exact (reads_literal ['0']).choice_left
    · exact (reads_literal ['1']).choice_right (refuses_char (by simp))
  exact read.node Element.debugFlag

theorem refuses_flag_behind_blanks (bs : List Blank) (rest : List Char) (stop : NoBlank rest)
    (zero : rest.head? ≠ some '0') (one : rest.head? ≠ some '1') :
    (all (some1 space) [debugFlag, lineEnd]).Refuses (blanks bs ++ rest) := by
  cases bs with
  | nil => exact (refuses_some1_space stop).seq_left
  | cons b bs => exact (reads_indent b bs stop).seq_refuses (refuses_debugFlag zero one).seq_left

/-- The header is a directive only if it consists of two names, apart by blanks alone. -/
theorem refuses_directive_of_header (isName : IsName name)
    {fields : List (Separator × List Char)} (areNames : ∀ f ∈ fields, IsName f.2)
    (other : ∀ first more flag, name = ['D', 'E', 'B', 'U', 'G'] →
      fields = [(.spaces first more, [flag])] → flag ≠ '0' ∧ flag ≠ '1') (bs : List Blank) :
    directive.Refuses (name ++ (separated fields ++ blanks bs)) := by
  refine refuses_directive_of_name isName (noName_separated fields (noName_blanks bs))
    fun same => ?_
  cases fields with
  | nil =>
    have refused := refuses_flag_behind_blanks bs [] rfl (by simp) (by simp)
    rwa [List.append_nil] at refused
  | cons f fields =>
    obtain ⟨s, second⟩ := f
    have isName' : IsName second := areNames _ List.mem_cons_self
    have areNames' : ∀ g ∈ fields, IsName g.2 :=
      fun g member => areNames g (List.mem_cons_of_mem _ member)
    cases s with
    | comma before after =>
      have refused := refuses_flag_behind_blanks before
        (',' :: (blanks after ++ (second ++ (separated fields ++ blanks bs)))) rfl (by simp)
        (by simp)
      simpa [separated, Separator.text] using refused
    | spaces first more =>
      have split : separated ((.spaces first more, second) :: fields) ++ blanks bs =
          blanks (first :: more) ++ (second ++ (separated fields ++ blanks bs)) := by
        simp [separated, Separator.text]
      rw [split]
      refine (reads_indent first more (isName'.noSeparator _).1).seq_refuses ?_
      obtain ⟨c, tail, rfl, ident⟩ := isName'.exists_cons
      by_cases flag : c = '0' ∨ c = '1'
      swap
      · rw [not_or] at flag
        exact (refuses_debugFlag (by simp [flag.1]) (by simp [flag.2])).seq_left
      refine (reads_debugFlag flag).seq_refuses ?_
      cases tail with
      | cons d tail =>
        have chars := isName'.chars
        rw [List.all_cons, List.all_cons, Bool.and_eq_true, Bool.and_eq_true] at chars
        exact refuses_lineEnd [] (noSeparator_of_identChar chars.2.1).1
          (not_atLineEnd_of_identChar chars.2.1)
      | nil =>
        by_cases last : fields = []
        · subst last
          have neither := other first more c same rfl
          exact absurd flag (not_or.2 neither)
        · obtain ⟨bs', behind, split, stop, something, -⟩ :=
            exists_blanks_append areNames' last (blanks bs)
          show lineEnd.Refuses (separated fields ++ blanks bs)
          rw [split]
          exact refuses_lineEnd bs' stop something

theorem reads_header (isName : IsName name) {fields : List (Separator × List Char)}
    (areNames : ∀ f ∈ fields, IsName f.2) (bs : List Blank) :
    (seq Form.names lineEnd).Reads (name ++ (separated fields ++ blanks bs)) []
      (name :: fields.map Prod.snd) := by
  simpa using (reads_names isName areNames bs).seq (reads_lineEnd bs)

theorem readsAs_header {first : String} {more : List String} {fields : List (Separator × List Char)}
    (isName : IsName first.toList) (areNames : ∀ f ∈ fields, IsName f.2)
    (same : fields.map Prod.snd = more.map String.toList)
    (other : ∀ b bs flag, first.toList = ['D', 'E', 'B', 'U', 'G'] →
      fields = [(.spaces b bs, [flag])] → flag ≠ '0' ∧ flag ≠ '1') (bs : List Blank) :
    ReadsAs ((first.toList ++ separated fields) ++ blanks bs) (.header (first :: more)) := by
  have stop : NoName (separated fields ++ blanks bs) := noName_separated fields (noName_blanks bs)
  rw [List.append_assoc]
  refine readsAs_flush .headerLine (reads_header isName areNames bs)
    (refuses_directive_of_header isName areNames other bs) (isName.noSeparator _).1
    (isName.not_atLineEnd _) (fun read position => ?_) ?_
  · exact ((refuses_initLine isName stop).choice_eq position).trans <|
      ((refuses_acceptLine isName stop).choice_eq position).trans <|
      ((refuses_blockHeader isName areNames bs).choice_eq position).trans (read.choice_eq position)
  · intro start stop children texts
    rw [same] at texts
    refine ⟨.header (first :: more), ?_, rfl⟩
    simp [Line.ofNode?, Node.kind, Node.children, map_nameOf (first :: more) texts]

/-! ## The directive and the rules -/

theorem reads_directive (b : Blank) (bs : List Blank) {c : Char} (flag : c = '0' ∨ c = '1')
    (trailing : List Blank) : (all debugWord [some1 space, debugFlag, lineEnd]).Reads
      (['D', 'E', 'B', 'U', 'G'] ++ (blanks (b :: bs) ++ ([c] ++ blanks trailing))) [] [[c]] := by
  have stop : NoBlank ([c] ++ blanks trailing) := by
    rcases flag with rfl | rfl <;> rfl
  exact (reads_literal _).seq ((reads_indent b bs stop).seq
    ((reads_debugFlag flag).seq (reads_lineEnd trailing)))

theorem readsAs_directive (b : Blank) (bs : List Blank) (debug : Bool) (trailing : List Blank) :
    ReadsAs ((['D', 'E', 'B', 'U', 'G'] ++ (blanks (b :: bs) ++ [if debug then '1' else '0'])) ++
      blanks trailing) (.directive debug) := by
  have flag : (if debug then '1' else '0') = '0' ∨ (if debug then '1' else '0') = '1' := by
    cases debug
    · exact .inl rfl
    · exact .inr rfl
  have body := reads_directive b bs flag trailing
  rw [List.append_assoc, List.append_assoc]
  refine readsAs_of_node .directive body
    (fun position => (body.node_nil Element.directive).choice_eq position) ?_
  intro start stop children same
  refine ⟨.directive debug, ?_, rfl⟩
  have first : children.head?.map Node.text = some [if debug then '1' else '0'] := by
    rw [← List.head?_map, same]
    rfl
  obtain ⟨n, head, text⟩ := Option.map_eq_some_iff.1 first
  simp only [Line.ofNode?, Node.kind, Node.children, head, Option.any_some, text]
  cases debug <;> rfl

variable {y : RuleStyle} {r : Rule}

theorem SymbolStyle.isSymbol {y : SymbolStyle} {s : Symbol} (fits : y.Fits s)
    (apart : y.quoted = false → s = '\'' → rest[1]? ≠ some '\'') : IsSymbol (y.text s) rest := by
  unfold SymbolStyle.text
  cases isQuoted : y.quoted with
  | true => exact .quoted _ rest
  | false =>
    refine .bare ?_ fun apostrophe d ⟨more, begins⟩ => ?_
    · rcases y.char_eq_or s with placed | placed <;> rw [placed]
      · decide
      · exact fits.resolve_left (by simp [isQuoted])
    · have same : s = '\'' := by
        rcases y.char_eq_or s with placed | placed
        · rw [apostrophe] at placed
          cases placed
        · rw [← placed, apostrophe]
      exact apart isQuoted same (by rw [← begins]; rfl)

namespace RuleStyle

def parts (y : RuleStyle) (r : Rule) (target : List Char) (trailing : List Blank) : RuleParts where
  indent := y.indent
  moreIndent := y.moreIndent
  read := y.read.text r.read
  first := y.first
  arrow := y.arrow
  write := y.write.text r.write
  second := y.second
  marker := y.marker r.direction
  third := y.third
  target := target
  trailing := trailing

theorem arrowText_eq (y : RuleStyle) : y.arrowText = RuleParts.arrowText y.arrow := by
  unfold arrowText
  cases y.arrow <;> rfl

theorem text_parts (y : RuleStyle) (r : Rule) (target : List Char) (trailing : List Blank) :
    (y.parts r target trailing).text = y.text r target ++ blanks trailing := by
  simp [RuleParts.text, RuleParts.behindRead, RuleParts.behindWrite, parts, text, arrowText_eq]

theorem Apart.read (apart : y.Apart r) (rest : List Char) (isBare : y.read.quoted = false)
    (apostrophe : r.read = '\'') :
    (y.first.text ++ (y.arrowText ++ (y.write.text r.write ++ rest)))[1]? ≠ some '\'' := by
  apply y.first.second_ne
  intro single
  replace apart := apart isBare apostrophe
  unfold RuleStyle.arrowText
  cases arrow : y.arrow with
  | none =>
    have other := apart arrow single
    unfold SymbolStyle.text at other ⊢
    cases isQuoted : y.write.quoted <;> simp_all
  | some s => simp

theorem marker_mem (y : RuleStyle) (d : Direction) : y.marker d ∈ ['>', '<', 'S', 'R', 'L'] := by
  cases d <;> simp only [marker] <;> cases y.letter <;> decide

theorem ofMarker?_marker (y : RuleStyle) (d : Direction) :
    Direction.ofMarker? (y.marker d) = some d := by
  cases d <;> simp only [marker] <;> cases y.letter <;> rfl

theorem proper_parts (fits : y.Fits r) (apart : y.Apart r) (isName : IsName name)
    (bs : List Blank) : (y.parts r name bs).Proper where
  read := SymbolStyle.isSymbol fits.read fun isBare apostrophe => by
    have other := apart.read (y.parts r name bs).behindWrite isBare apostrophe
    rwa [arrowText_eq] at other
  write := SymbolStyle.isSymbol fits.write fun _ _ => by
    refine y.second.second_ne fun _ same => ?_
    have marker : y.marker r.direction = '\'' := Option.some.inj same
    have known := y.marker_mem r.direction
    rw [marker] at known
    exact absurd known (by decide)
  marker := y.marker_mem r.direction
  target := isName

end RuleStyle

theorem readsAs_rule {target : String} (fits : y.Fits r) (apart : y.Apart r)
    (readable : r.read ∉ unwritable) (writable : r.write ∉ unwritable)
    (isName : IsName target.toList) (bs : List Blank) :
    ReadsAs (y.text r target.toList ++ blanks bs)
      (.rule r.read r.write r.direction target 0) := by
  have proper := RuleStyle.proper_parts fits apart isName bs
  have read := y.read.unbroken readable
  have body := (proper.readable read (y.write.unbroken writable)).reads_fields
  rw [← RuleStyle.text_parts]
  refine readsAs_of_node .ruleLine body (fun position => ?_) ?_
  · have noDirective : directive.Refuses (y.parts r target.toList bs).text := by
      apply refuses_directive
      cases indent : y.indent <;>
        simp [RuleParts.text, RuleStyle.parts, blanks, Blank.char, indent]
    have noBlank : blankLine.Refuses (y.parts r target.toList bs).text :=
      refuses_lineEnd (y.indent :: y.moreIndent) (proper.read.noSeparator _).1
        (proper.read.not_atLineEnd read _)
    exact (noDirective.choice_eq position).trans <| (noBlank.choice_eq position).trans <|
      (body.node_nil Element.ruleLine).choice_eq position
  · intro start stop children same
    rcases children with _ | ⟨a, _ | ⟨b, _ | ⟨c, _ | ⟨d, _ | ⟨e, more⟩⟩⟩⟩⟩ <;>
      simp only [List.map_cons, List.map_nil, List.cons.injEq, reduceCtorEq, and_false] at same
    obtain ⟨read, write, marker, name, -⟩ := same
    have rule : ruleOf? [a, b, c, d] =
        some (.rule r.read r.write r.direction target d.start.column) := by
      simp [ruleOf?, read, write, marker, nameOf, name, RuleStyle.parts, y.ofMarker?_marker,
        y.read.symbolOf_text readable, y.write.symbolOf_text writable]
    exact ⟨_, by rw [Line.ofNode?, Node.kind, Node.children, rule, Option.getD_some], rfl⟩

end OneTape.Description
