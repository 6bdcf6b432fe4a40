import OneTape.Proofs.Description.Pieces

namespace OneTape.Description

open Grammar Pattern Form

variable {k : Cursor} {m : Match Element} {word rest : List Char}

theorem blanks_injective : Function.Injective blanks :=
  List.map_injective_iff.2 fun b c same => by cases b <;> cases c <;> first | rfl | cases same

theorem comma_not_mem_blanks (bs : List Blank) : ',' ∉ blanks bs := by
  intro member
  obtain ⟨b, -, same⟩ := List.mem_map.1 member
  cases b <;> cases same

theorem Separator.text_injective : Function.Injective Separator.text := by
  intro s t same
  cases s with
  | comma before after =>
    cases t with
    | comma before' after' =>
      have comma (bs : List Blank) : NoBlank (',' :: blanks bs) := rfl
      obtain ⟨front, back⟩ := (reads_blanks before (comma after)).taken_unique
        (reads_blanks before' (comma after')) same
      rw [blanks_injective front, blanks_injective (List.cons.inj back).2]
    | spaces first more =>
      have member : ',' ∈ blanks (first :: more) := by
        rw [← show _ = blanks (first :: more) from same]
        simp [Separator.text]
      exact absurd member (comma_not_mem_blanks _)
  | spaces first more =>
    cases t with
    | comma before after =>
      have member : ',' ∈ blanks (first :: more) := by
        rw [show blanks (first :: more) = _ from same]
        simp [Separator.text]
      exact absurd member (comma_not_mem_blanks _)
    | spaces first' more' =>
      obtain ⟨rfl, rfl⟩ := List.cons.inj (blanks_injective same)
      rfl

structure RuleParts where
  indent : Blank
  moreIndent : List Blank
  read : List Char
  first : Separator
  arrow : Option Separator
  write : List Char
  second : Separator
  marker : Char
  third : Separator
  target : List Char
  trailing : List Blank

namespace RuleParts

def arrowText : Option Separator → List Char
  | none => []
  | some s => ['-', '>'] ++ s.text

def behindWrite (p : RuleParts) : List Char :=
  p.second.text ++ ([p.marker] ++ (p.third.text ++ (p.target ++ blanks p.trailing)))

def behindRead (p : RuleParts) : List Char :=
  p.first.text ++ (arrowText p.arrow ++ (p.write ++ p.behindWrite))

def text (p : RuleParts) : List Char :=
  blanks (p.indent :: p.moreIndent) ++ (p.read ++ p.behindRead)

structure Proper (p : RuleParts) : Prop where
  read : IsSymbol p.read p.behindRead
  write : IsSymbol p.write p.behindWrite
  marker : p.marker ∈ ['>', '<', 'S', 'R', 'L']
  target : IsName p.target

def nodes (p : RuleParts) (start : Position) : List (Node Element) :=
  let read := start.advance (blanks (p.indent :: p.moreIndent))
  let readEnd := read.advance p.read
  let write := (readEnd.advance p.first.text).advance (arrowText p.arrow)
  let writeEnd := write.advance p.write
  let marker := writeEnd.advance p.second.text
  let markerEnd := marker.advance [p.marker]
  let target := markerEnd.advance p.third.text
  [.mk .symbol read readEnd p.read [], .mk .symbol write writeEnd p.write [],
    .mk .direction marker markerEnd [p.marker] [],
    .mk .name target (target.advance p.target) p.target []]

end RuleParts

/-! ## Reading the parts -/

theorem IsSymbol.noSeparator (isSymbol : IsSymbol word rest) (further : List Char) :
    NoSeparator (word ++ further) := by
  cases isSymbol with
  | quoted c => exact ⟨rfl, by simp⟩
  | bare plain =>
    simp only [List.mem_cons, List.not_mem_nil, or_false, not_or] at plain
    exact ⟨noBlank_iff.2 (by simp [plain]), by simp [plain]⟩

theorem IsSymbol.not_atLineEnd (isSymbol : IsSymbol word rest) (unbroken : Unbroken word)
    (further : List Char) : ¬ AtLineEnd (word ++ further) := by
  intro ended
  cases isSymbol with
  | quoted c => cases ended
  | bare => simp [AtLineEnd, unbroken.head] at ended

/-- A symbol in front of a separator does not look like an arrow. -/
theorem IsSymbol.refuses_arrow (isSymbol : IsSymbol word rest) (s : Separator)
    (further : List Char) : (seq arrow sep).Refuses (word ++ (s.text ++ further)) := by
  refine Refuses.seq_left (refuses_literal ?_)
  rintro ⟨more, same⟩
  obtain ⟨d, tail, split⟩ := s.exists_cons
  cases isSymbol with
  | quoted c => simp at same
  | bare plain =>
    have inside : '>' ∈ s.text := by
      simp only [split, List.cons_append, List.nil_append, List.cons.injEq] at same
      simp [split, ← same.2.1]
    rcases Separator.mem_text inside with other | other | other <;> cases other

theorem noSeparator_marker {c : Char} (known : c ∈ ['>', '<', 'S', 'R', 'L']) (rest : List Char) :
    NoSeparator ([c] ++ rest) := by
  simp only [List.mem_cons, List.not_mem_nil, or_false] at known
  rcases known with rfl | rfl | rfl | rfl | rfl <;> exact ⟨rfl, by simp⟩

theorem reads_direction {c : Char} (known : c ∈ ['>', '<', 'S', 'R', 'L']) (rest : List Char) :
    direction.Reads ([c] ++ rest) rest [[c]] := by
  have read : (satisfy fun c => ['>', '<', 'S', 'R', 'L'].contains c : Form).Reads
      ([c] ++ rest) rest [] := reads_satisfy (List.contains_iff_mem.2 known)
  exact read.node Element.direction

namespace RuleParts

variable {p q : RuleParts}

structure Readable (p : RuleParts) : Prop where
  indent : Form.indent.Reads p.text (p.read ++ p.behindRead) []
  read : symbol.Reads (p.read ++ p.behindRead) p.behindRead [p.read]
  first : sep.Reads p.behindRead (arrowText p.arrow ++ (p.write ++ p.behindWrite)) []
  arrow : (optional (seq Form.arrow sep)).Reads (arrowText p.arrow ++ (p.write ++ p.behindWrite))
    (p.write ++ p.behindWrite) []
  write : symbol.Reads (p.write ++ p.behindWrite) p.behindWrite [p.write]
  second : sep.Reads p.behindWrite
    ([p.marker] ++ (p.third.text ++ (p.target ++ blanks p.trailing))) []
  marker : direction.Reads ([p.marker] ++ (p.third.text ++ (p.target ++ blanks p.trailing)))
    (p.third.text ++ (p.target ++ blanks p.trailing)) [[p.marker]]
  third : sep.Reads (p.third.text ++ (p.target ++ blanks p.trailing))
    (p.target ++ blanks p.trailing) []
  target : Form.name.Reads (p.target ++ blanks p.trailing) (blanks p.trailing) [p.target]

theorem noSeparator_arrow (proper : p.Proper) :
    NoSeparator (arrowText p.arrow ++ (p.write ++ p.behindWrite)) := by
  unfold arrowText
  cases p.arrow with
  | none => exact proper.write.noSeparator _
  | some s => exact ⟨rfl, by simp⟩

theorem reads_arrow (proper : p.Proper) :
    (optional (seq Form.arrow sep)).Reads (arrowText p.arrow ++ (p.write ++ p.behindWrite))
      (p.write ++ p.behindWrite) [] := by
  unfold arrowText
  cases p.arrow with
  | none => exact (proper.write.refuses_arrow p.second _).optional
  | some s =>
    have separator := reads_sep s (proper.write.noSeparator p.behindWrite)
    have read := ((reads_literal ['-', '>']).seq separator).optional
    rwa [← List.append_assoc] at read

theorem Proper.readable (proper : p.Proper) (read : Unbroken p.read) (write : Unbroken p.write) :
    p.Readable where
  indent := reads_indent _ _ (proper.read.noSeparator _).1
  read := reads_isSymbol proper.read read
  first := reads_sep _ (noSeparator_arrow proper)
  arrow := reads_arrow proper
  write := reads_isSymbol proper.write write
  second := reads_sep _ (noSeparator_marker proper.marker _)
  marker := reads_direction proper.marker _
  third := reads_sep _ (proper.target.noSeparator _)
  target := reads_name proper.target (noName_blanks _)

theorem Proper.readable_of_unbroken (proper : p.Proper) (unbroken : Unbroken p.text) :
    p.Readable := by
  have behind : Unbroken (p.read ++ p.behindRead) := unbroken.right
  have write : Unbroken (p.write ++ p.behindWrite) := behind.right.right.right
  exact proper.readable behind.left write.left

theorem Readable.reads_fields (readable : p.Readable) :
    (all Form.indent [symbol, sep, optional (seq Form.arrow sep), symbol, sep, direction, sep,
      Form.name, lineEnd]).Reads p.text [] [p.read, p.write, [p.marker], p.target] :=
  readable.indent.seq <| readable.read.seq <| readable.first.seq <| readable.arrow.seq <|
    readable.write.seq <| readable.second.seq <| readable.marker.seq <| readable.third.seq <|
    readable.target.seq (reads_lineEnd p.trailing)

theorem arrowText_injective (same : arrowText p.arrow = arrowText q.arrow) : p.arrow = q.arrow := by
  unfold arrowText at same
  cases left : p.arrow <;> cases right : q.arrow <;> simp [left, right] at same
  · rfl
  · rw [Separator.text_injective same]

/-- Texts are taken apart in one way. -/
theorem Readable.unique (readable : p.Readable) (readable' : q.Readable) (same : p.text = q.text) :
    p = q := by
  -- Both texts are the same for a form, so it stops at the same place in them, part by part.
  obtain ⟨indent, same⟩ := readable.indent.taken_unique readable'.indent same
  obtain ⟨read, same⟩ := readable.read.taken_unique readable'.read same
  obtain ⟨first, same⟩ := readable.first.taken_unique readable'.first same
  obtain ⟨arrow, same⟩ := readable.arrow.taken_unique readable'.arrow same
  obtain ⟨write, same⟩ := readable.write.taken_unique readable'.write same
  obtain ⟨second, same⟩ := readable.second.taken_unique readable'.second same
  obtain ⟨marker, same⟩ := readable.marker.taken_unique readable'.marker same
  obtain ⟨third, same⟩ := readable.third.taken_unique readable'.third same
  obtain ⟨target, trailing⟩ := readable.target.taken_unique readable'.target same
  obtain ⟨sameIndent, more⟩ := List.cons.inj (blanks_injective indent)
  have firsts := Separator.text_injective first
  have arrows := arrowText_injective arrow
  have seconds := Separator.text_injective second
  have thirds := Separator.text_injective third
  have back := blanks_injective trailing
  cases p
  cases q
  simp_all

end RuleParts

/-! ## Taking the parts -/

theorem took_arrow (matched : (optional (seq arrow sep)).match? k = some m) :
    ∃ a, k.Took m.cursor (RuleParts.arrowText a) := by
  simp only [match?] at matched
  split at matched <;> cases matched
  · exact ⟨none, .refl k⟩
  · obtain ⟨m₁, m₂, literal, separator, rfl⟩ := match?_seq_eq_some_iff.1 ‹_›
    obtain ⟨_, found, rfl⟩ := Option.map_eq_some_iff.1 literal
    obtain ⟨s, took⟩ := took_sep separator
    exact ⟨some s, (Cursor.took_literal found).trans took⟩

theorem not_atLineEnd_separator (s : Separator) (rest : List Char) :
    ¬ AtLineEnd (s.text ++ rest) := by
  obtain ⟨d, more, split⟩ := s.exists_cons
  rw [split]
  intro ended
  have member : d ∈ s.text := by simp [split]
  rcases Separator.mem_text member with rfl | rfl | rfl <;> cases ended

theorem took_ruleLine (matched : ruleLine.match? k = some m) : ∃ p : RuleParts, p.Proper ∧
    Unbroken p.read ∧ Unbroken p.write ∧ k.Took m.cursor p.text ∧ AtLineEnd m.cursor.rest ∧
      m.nodes = [.mk .ruleLine k.position m.cursor.position p.text (p.nodes k.position)] := by
  obtain ⟨_, taken, inside, ends, took, single⟩ := single_node matched
  obtain ⟨m₁, _, indented, fields₁, rfl⟩ := match?_seq_eq_some_iff.1 inside
  obtain ⟨m₂, _, read, fields₂, rfl⟩ := match?_seq_eq_some_iff.1 fields₁
  obtain ⟨m₃, _, first, fields₃, rfl⟩ := match?_seq_eq_some_iff.1 fields₂
  obtain ⟨m₄, _, arrow, fields₄, rfl⟩ := match?_seq_eq_some_iff.1 fields₃
  obtain ⟨m₅, _, write, fields₅, rfl⟩ := match?_seq_eq_some_iff.1 fields₄
  obtain ⟨m₆, _, second, fields₆, rfl⟩ := match?_seq_eq_some_iff.1 fields₅
  obtain ⟨m₇, _, marked, fields₇, rfl⟩ := match?_seq_eq_some_iff.1 fields₆
  obtain ⟨m₈, _, third, fields₈, rfl⟩ := match?_seq_eq_some_iff.1 fields₇
  obtain ⟨m₉, m₁₀, target, ended, rfl⟩ := match?_seq_eq_some_iff.1 fields₈
  obtain ⟨b, bs, took₁, -⟩ := took_indent indented
  obtain ⟨s, took₃⟩ := took_sep first
  obtain ⟨a, took₄⟩ := took_arrow arrow
  obtain ⟨s', took₆⟩ := took_sep second
  obtain ⟨c, known, took₇, marker⟩ := took_direction marked
  obtain ⟨s'', took₈⟩ := took_sep third
  obtain ⟨name, isName, took₉, named⟩ := took_name target
  obtain ⟨cs, took₁₀, atEnd⟩ := took_lineEnd ended
  have more₂ : ¬ AtLineEnd m₂.cursor.rest := took₃.rest ▸ not_atLineEnd_separator s _
  have more₅ : ¬ AtLineEnd m₅.cursor.rest := took₆.rest ▸ not_atLineEnd_separator s' _
  obtain ⟨x, isSymbol, unbroken, took₂, readNode⟩ := took_symbol read more₂
  obtain ⟨y, isSymbol', unbroken', took₅, writeNode⟩ := took_symbol write more₅
  let p : RuleParts := ⟨b, bs, x, s, a, y, s', c, s'', name, cs⟩
  have behindWrite := took₆.trans <| took₇.trans <| took₈.trans <| took₉.trans took₁₀
  have behindRead := took₃.trans <| took₄.trans <| took₅.trans behindWrite
  have whole : k.Took m₁₀.cursor p.text := took₁.trans (took₂.trans behindRead)
  -- What a symbol is followed by has been taken for the parts behind it.
  rw [behindRead.rest] at isSymbol
  rw [behindWrite.rest] at isSymbol'
  obtain rfl := took.unique (ends ▸ whole)
  refine ⟨p, ⟨isSymbol.of_append, isSymbol'.of_append, known, isName⟩, unbroken, unbroken', took,
    ends ▸ atEnd, ?_⟩
  have places : p.nodes k.position = m₂.nodes ++ (m₅.nodes ++ (m₇.nodes ++ m₉.nodes)) := by
    simp only [readNode, writeNode, marker, named, RuleParts.nodes, p, took₉.position,
      took₈.position, took₇.position, took₆.position, took₅.position, took₄.position,
      took₃.position, took₂.position, took₁.position, List.cons_append, List.nil_append]
  rw [single, places]
  simp only [nodes_of_silent rfl indented, nodes_of_silent rfl first, nodes_of_silent rfl arrow,
    nodes_of_silent rfl second, nodes_of_silent rfl third, nodes_of_silent rfl ended,
    List.nil_append, List.append_nil]

end OneTape.Description
