import OneTape.Proofs.Description.Fields
import OneTape.Proofs.Grammar.Taking

namespace OneTape.Description

open Grammar Pattern Form

variable {k : Cursor} {m : Match Element}

/-! ## Blanks and separators -/

theorem exists_blanks {line : List Char} (blank : ∀ c ∈ line, c = ' ' ∨ c = '\t') :
    ∃ bs, line = blanks bs := by
  induction line with
  | nil => exact ⟨[], rfl⟩
  | cons c line ih =>
    obtain ⟨first, further⟩ := List.forall_mem_cons.1 blank
    obtain ⟨bs, rfl⟩ := ih further
    rcases first with rfl | rfl
    · exact ⟨.space :: bs, rfl⟩
    · exact ⟨.tab :: bs, rfl⟩

theorem took_blanks (matched : (many space).match? k = some m) :
    ∃ bs, k.Took m.cursor (blanks bs) ∧ NoBlank m.cursor.rest := by
  obtain ⟨taken, took, blank, stop⟩ := took_many_satisfy matched
  obtain ⟨bs, rfl⟩ : ∃ bs, taken = blanks bs := exists_blanks (by simpa using blank)
  exact ⟨bs, took, stop⟩

theorem took_indent (matched : (some1 space).match? k = some m) :
    ∃ b bs, k.Took m.cursor (blanks (b :: bs)) ∧ NoBlank m.cursor.rest := by
  obtain ⟨taken, took, something, blank, stop⟩ := took_some1_satisfy matched
  obtain ⟨bs, rfl⟩ : ∃ bs, taken = blanks bs := exists_blanks (by simpa using blank)
  cases bs with
  | nil => exact absurd rfl something
  | cons b bs => exact ⟨b, bs, took, stop⟩

theorem took_sep (matched : sep.match? k = some m) : ∃ s : Separator, k.Took m.cursor s.text := by
  rcases match?_choice_eq_some matched with comma | spaces
  · obtain ⟨m₁, _, before, later, rfl⟩ := match?_seq_eq_some_iff.1 comma
    obtain ⟨m₂, m₃, char, after, rfl⟩ := match?_seq_eq_some_iff.1 later
    obtain ⟨bs, took₁, -⟩ := took_blanks before
    obtain ⟨_, found, rfl⟩ := Option.map_eq_some_iff.1 char
    obtain ⟨cs, took₃, -⟩ := took_blanks after
    exact ⟨.comma bs cs, took₁.trans ((Cursor.took_literal found).trans took₃)⟩
  · obtain ⟨b, bs, took, -⟩ := took_indent spaces
    exact ⟨.spaces b bs, took⟩

theorem took_lineEnd (matched : lineEnd.match? k = some m) :
    ∃ bs, k.Took m.cursor (blanks bs) ∧ AtLineEnd m.cursor.rest := by
  obtain ⟨m₁, _, spaces, ended, rfl⟩ := match?_seq_eq_some_iff.1 matched
  obtain ⟨found, rfl⟩ := eq_of_ahead ended
  obtain ⟨bs, took, -⟩ := took_blanks spaces
  exact ⟨bs, took, (isSome_eol_iff _ _).1 found⟩

/-! ## Names -/

def keywords : List (List Char) := [['i', 'n', 'i', 't'], ['a', 'c', 'c', 'e', 'p', 't']]

theorem keyword_reads {word rest : List Char} (reserved : word ∈ keywords) (stop : NoName rest) :
    keyword.Reads (word ++ rest) rest [] := by
  have behind : (notAhead identChar).Reads rest rest [] := (refuses_satisfy stop).notAhead
  simp only [keywords, List.mem_cons, List.not_mem_nil, or_false] at reserved
  rcases reserved with rfl | rfl
  · exact (reads_literal _).choice_left.seq behind
  · exact ((reads_literal _).choice_right (refuses_literal (by simp))).seq behind

theorem took_name (matched : Form.name.match? k = some m) : ∃ name, IsName name ∧
    k.Took m.cursor name ∧ m.nodes = [.mk .name k.position m.cursor.position name []] := by
  obtain ⟨body, taken, inside, ends, took, single⟩ := single_leaf matched
  obtain ⟨m₁, m₂, unreserved, chars, rfl⟩ := match?_seq_eq_some_iff.1 inside
  obtain ⟨refused, rfl⟩ := eq_of_notAhead unreserved
  obtain ⟨word, took', nonempty, identical, stop⟩ := took_some1_satisfy chars
  obtain rfl : word = taken := took'.unique (ends ▸ took)
  have unreserved : word ∉ keywords := by
    intro reserved
    obtain ⟨n, found, -⟩ := keyword_reads reserved stop k.position
    rw [← took'.rest, refused] at found
    cases found
  refine ⟨word, ⟨nonempty, identical, ?_, ?_⟩, took, single⟩ <;>
  · rintro rfl
    exact unreserved (by simp [keywords])

theorem took_fields (matched : (many (seq sep Form.name)).match? k = some m) :
    ∃ fields, (∀ f ∈ fields, IsName f.2) ∧ k.Took m.cursor (separated fields) := by
  have progress : Progressive (seq sep Form.name).match? := progressive_seq_right progressive_name
  induction size : k.rest.length using Nat.strongRecOn generalizing k m with
  | ind n ih =>
    rw [match?_many progress] at matched
    cases round : (seq sep Form.name).match? k with
    | none =>
      rw [round] at matched
      cases matched
      exact ⟨[], by simp, .refl k⟩
    | some first =>
      rw [round] at matched
      obtain ⟨later, rounds, rfl⟩ := Option.map_eq_some_iff.1 matched
      have shorter := progress k first round
      obtain ⟨fields, areNames, took⟩ := ih _ (by omega) rounds rfl
      obtain ⟨m₁, m₂, separator, named, rfl⟩ := match?_seq_eq_some_iff.1 round
      obtain ⟨s, took₁⟩ := took_sep separator
      obtain ⟨name, isName, took₂, -⟩ := took_name named
      refine ⟨(s, name) :: fields, List.forall_mem_cons.2 ⟨isName, areNames⟩, ?_⟩
      exact (took₁.trans took₂).trans took

/-! ## Symbols and directions -/

theorem Guards.took_anyChar {p : Form} (guards : Guards p)
    (matched : (seq (notAhead p) anyChar).match? k = some m) :
    ∃ c, breaksLine c = false ∧ k.Took m.cursor [c] := by
  obtain ⟨m₁, m₂, clear, any, rfl⟩ := match?_seq_eq_some_iff.1 matched
  obtain ⟨refused, rfl⟩ := eq_of_notAhead clear
  obtain ⟨l, found, rfl⟩ := Option.map_eq_some_iff.1 any
  obtain ⟨c, -, took⟩ := Cursor.took_satisfy found
  refine ⟨c, Bool.eq_false_iff.2 fun breaks => ?_, took⟩
  have present := guards.breaks k.position c l.rest breaks
  have text : k.rest = c :: l.rest := took.rest
  rw [← text, refused] at present
  cases present

theorem guards_bare : Guards (firstOf space [literal [','], newline]) :=
  (guards_newline.choice (local_word rfl)).choice local_space

theorem took_bare (matched : bare.match? k = some m) :
    ∃ c, breaksLine c = false ∧ c ∉ [' ', '\t', ','] ∧ k.Took m.cursor [c] := by
  obtain ⟨c, ordinary, took⟩ := guards_bare.took_anyChar matched
  obtain ⟨m₁, m₂, clear, -, rfl⟩ := match?_seq_eq_some_iff.1 matched
  obtain ⟨refused, rfl⟩ := eq_of_notAhead clear
  refine ⟨c, ordinary, fun separates => ?_, took⟩
  have text : k = ⟨k.position, c :: m₂.cursor.rest⟩ := congrArg (Cursor.mk k.position) took.rest
  simp only [List.mem_cons, List.not_mem_nil, or_false] at separates
  rw [text] at refused
  rcases separates with rfl | rfl | rfl <;>
    simp [firstOf, match?, space, Cursor.literal?, Cursor.satisfy?] at refused

theorem took_quoted (matched : quoted.match? k = some m) :
    ∃ c, breaksLine c = false ∧ k.Took m.cursor ['\'', c, '\''] := by
  obtain ⟨m₁, _, opened, later, rfl⟩ := match?_seq_eq_some_iff.1 matched
  obtain ⟨m₂, m₃, char, closed, rfl⟩ := match?_seq_eq_some_iff.1 later
  obtain ⟨_, opening, rfl⟩ := Option.map_eq_some_iff.1 opened
  obtain ⟨_, closing, rfl⟩ := Option.map_eq_some_iff.1 closed
  obtain ⟨c, ordinary, took⟩ := guards_newline.took_anyChar char
  exact ⟨c, ordinary,
    ((Cursor.took_literal opening).trans took).trans (Cursor.took_literal closing)⟩

/-- The word is a symbol in front of `rest`: a character between apostrophes, or else one that does
not separate. An apostrophe that begins a quoted symbol is not a symbol of its own. -/
inductive IsSymbol : List Char → List Char → Prop where
  | quoted (c : Char) (rest : List Char) : IsSymbol ['\'', c, '\''] rest
  | bare {c : Char} {rest : List Char} (plain : c ∉ [' ', '\t', ','])
      (apart : c = '\'' → ∀ d, ¬ [d, '\''] <+: rest) : IsSymbol [c] rest

theorem IsSymbol.of_append {word rest more : List Char} (isSymbol : IsSymbol word (rest ++ more)) :
    IsSymbol word rest := by
  cases isSymbol with
  | quoted c => exact .quoted c rest
  | bare plain apart =>
    exact .bare plain fun same d begins => apart same d (begins.trans (List.prefix_append _ _))

/-- What is behind a symbol matters only if it is an apostrophe, and only within the line. -/
theorem took_symbol (matched : symbol.match? k = some m) (further : ¬ AtLineEnd m.cursor.rest) :
    ∃ word, IsSymbol word m.cursor.rest ∧ Unbroken word ∧ k.Took m.cursor word ∧
      m.nodes = [.mk .symbol k.position m.cursor.position word []] := by
  obtain ⟨body, taken, inside, ends, took, single⟩ := single_leaf matched
  cases first : quoted.match? k with
  | some m' =>
    obtain rfl : m' = body := by simpa [match?, first] using inside
    obtain ⟨c, ordinary, took'⟩ := took_quoted first
    obtain rfl := took.unique (ends ▸ took')
    have apostrophe : breaksLine '\'' = false := rfl
    exact ⟨_, .quoted c _, by simp [Unbroken, ordinary, apostrophe], took, single⟩
  | none =>
    obtain ⟨c, ordinary, plain, took'⟩ := took_bare (by simpa [match?, first] using inside)
    obtain rfl := took.unique (ends ▸ took')
    refine ⟨_, .bare plain ?_, by simpa [Unbroken] using ordinary, took, single⟩
    rintro rfl d ⟨more, rest⟩
    have text : k.rest = '\'' :: m.cursor.rest := took.rest
    rw [← rest] at further text
    -- Then the quoted symbol would have been read.
    have read : quoted.Reads (['\'', d, '\''] ++ more) more [] :=
      reads_quoted (Bool.eq_false_iff.2 further)
    obtain ⟨m', found, -⟩ := read k.position
    have same : k = ⟨k.position, ['\'', d, '\''] ++ more⟩ := congrArg (Cursor.mk k.position) text
    rw [← same, first] at found
    cases found

theorem reads_isSymbol {word rest : List Char} (isSymbol : IsSymbol word rest)
    (unbroken : Unbroken word) : symbol.Reads (word ++ rest) rest [word] := by
  cases isSymbol with
  | quoted c =>
    have ordinary : breaksLine c = false := unbroken c (by simp)
    exact (reads_quoted ordinary).choice_left.leaf Element.symbol
  | @bare c _ plain apart =>
    have ordinary : breaksLine c = false := unbroken c (by simp)
    simp only [List.mem_cons, List.not_mem_nil, or_false, not_or] at plain
    have stop : NoSeparator (c :: rest) := ⟨noBlank_iff.2 (by simp [plain]), by simp [plain]⟩
    have unquoted : c = '\'' → rest[1]? ≠ some '\'' := by
      intro same closes
      rcases rest with _ | ⟨d, _ | ⟨e, rest⟩⟩ <;> try cases closes
      exact apart same d ⟨rest, rfl⟩
    have chosen : (choice quoted bare).Reads ([c] ++ rest) rest [] :=
      (reads_bare ordinary stop).choice_right (refuses_quoted unquoted)
    exact chosen.leaf Element.symbol

theorem took_direction (matched : direction.match? k = some m) :
    ∃ c, c ∈ ['>', '<', 'S', 'R', 'L'] ∧ k.Took m.cursor [c] ∧
      m.nodes = [.mk .direction k.position m.cursor.position [c] []] := by
  obtain ⟨body, taken, inside, ends, took, single⟩ := single_node matched
  obtain ⟨l, satisfied, rfl⟩ := Option.map_eq_some_iff.1 inside
  obtain ⟨c, known, took'⟩ := Cursor.took_satisfy satisfied
  obtain rfl : taken = [c] := took.unique (ends ▸ took')
  exact ⟨c, List.contains_iff_mem.1 known, took, single⟩

end OneTape.Description
