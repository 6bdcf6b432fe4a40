import OneTape.Proofs.Description.Layout
import OneTape.Proofs.Description.Rows
import OneTape.Proofs.Grammar.Reading

namespace OneTape.Description

open Grammar Pattern Form

variable {name word rest : List Char} {c : Char}

/-! ## Blanks and separators -/

def NoBlank (rest : List Char) : Prop := rest.head?.all (fun c => !(c == ' ' || c == '\t')) = true

def NoSeparator (rest : List Char) : Prop := NoBlank rest ∧ rest.head? ≠ some ','

def NoName (rest : List Char) : Prop :=
  rest.head?.all (fun c => !(c.isAlphanum || c == '_')) = true

theorem noBlank_iff : NoBlank rest ↔ rest.head? ≠ some ' ' ∧ rest.head? ≠ some '\t' := by
  cases rest <;> simp [NoBlank]

theorem all_blanks (bs : List Blank) :
    (blanks bs).all (fun c => c == ' ' || c == '\t') = true := by
  rw [blanks, List.all_map, List.all_eq_true]
  rintro (_ | _) - <;> rfl

theorem reads_blanks (bs : List Blank) (stop : NoBlank rest) :
    (many space).Reads (blanks bs ++ rest) rest [] :=
  reads_many_satisfy (all_blanks bs) stop

theorem reads_indent (b : Blank) (bs : List Blank) (stop : NoBlank rest) :
    (some1 space).Reads (blanks (b :: bs) ++ rest) rest [] :=
  reads_some1_satisfy (all_blanks (b :: bs)) (List.cons_ne_nil _ _) stop

theorem refuses_some1_space (stop : NoBlank rest) : (some1 space).Refuses rest :=
  (refuses_satisfy stop).seq_left

theorem refuses_char (differs : rest.head? ≠ some c) : (literal [c] : Form).Refuses rest := by
  apply refuses_literal
  rintro ⟨more, rfl⟩
  exact differs rfl

theorem reads_sep (s : Separator) (stop : NoSeparator rest) :
    sep.Reads (s.text ++ rest) rest [] := by
  cases s with
  | comma before after =>
    have comma : NoBlank ([','] ++ (blanks after ++ rest)) := rfl
    have behind := (reads_literal (κ := Element) [',']).seq (reads_blanks after stop.1)
    rw [Separator.text, List.append_assoc]
    exact ((reads_blanks before comma).seq behind).choice_left
  | spaces first more =>
    refine Reads.choice_right (reads_indent first more stop.1) ?_
    exact (reads_blanks (first :: more) stop.1).seq_refuses (refuses_char stop.2).seq_left

theorem refuses_sep (stop : NoSeparator rest) : sep.Refuses rest := by
  have nothing : (many space).Reads rest rest [] := reads_blanks [] stop.1
  exact Refuses.choice (nothing.seq_refuses (refuses_char stop.2).seq_left)
    (refuses_some1_space stop.1)

theorem reads_ahead_eol : (ahead eol).Reads [] [] [] := by
  intro position
  have ended := (isSome_eol_iff position []).2 trivial
  exact ⟨⟨⟨position, []⟩, []⟩, by simp [match?, ended], rfl, rfl⟩

theorem reads_lineEnd (bs : List Blank) : lineEnd.Reads (blanks bs) [] [] := by
  have stop : NoBlank [] := rfl
  have ended := (reads_blanks bs stop).seq reads_ahead_eol
  rwa [List.append_nil] at ended

theorem refuses_lineEnd (bs : List Blank) (stop : NoBlank rest) (ordinary : ¬ AtLineEnd rest) :
    lineEnd.Refuses (blanks bs ++ rest) := by
  refine (reads_blanks bs stop).seq_refuses fun position => ?_
  have unended := mt (isSome_eol_iff position rest).1 ordinary
  simp [match?, unended]

/-! ## Names -/

/-- A word that begins where a name stands is part of the name. -/
theorem exists_append_of_prefix (stop : NoName rest)
    (identical : word.all (fun c => c.isAlphanum || c == '_') = true)
    (begins : word <+: name ++ rest) : ∃ more, name = word ++ more := by
  obtain ⟨tail, same⟩ := begins
  rcases List.append_eq_append_iff.1 same with ⟨more, rfl, -⟩ | ⟨more, rfl, behind⟩
  · exact ⟨more, rfl⟩
  · cases more with
    | nil => exact ⟨[], by simp⟩
    | cons c more =>
      subst behind
      rw [List.all_append, List.all_cons, Bool.and_eq_true, Bool.and_eq_true] at identical
      have identChar := identical.2.1
      simp only [NoName, List.cons_append, List.head?_cons, Option.all_some, identChar] at stop
      cases stop

theorem exists_of_prefix (isName : IsName name) (stop : NoName rest)
    (identical : word.all (fun c => c.isAlphanum || c == '_') = true) (other : name ≠ word)
    (begins : word <+: name ++ rest) :
    ∃ c more, name ++ rest = word ++ c :: more ∧ (c.isAlphanum || c == '_') = true := by
  obtain ⟨more, longer⟩ := exists_append_of_prefix stop identical begins
  cases more with
  | nil => exact absurd (by simpa using longer) other
  | cons c more =>
    have chars := isName.chars
    rw [longer, List.all_append, List.all_cons, Bool.and_eq_true, Bool.and_eq_true] at chars
    exact ⟨c, more ++ rest, by rw [longer]; simp, chars.2.1⟩

theorem refuses_keyword (isName : IsName name) (stop : NoName rest) :
    keyword.Refuses (name ++ rest) := by
  by_cases init : ['i', 'n', 'i', 't'] <+: name ++ rest
  · obtain ⟨c, more, split, ident⟩ := exists_of_prefix isName stop rfl isName.ne_init init
    rw [split]
    exact (reads_literal _).choice_left.seq_refuses (reads_satisfy ident).notAhead
  · by_cases accept : ['a', 'c', 'c', 'e', 'p', 't'] <+: name ++ rest
    · obtain ⟨c, more, split, ident⟩ := exists_of_prefix isName stop rfl isName.ne_accept accept
      rw [split] at init ⊢
      exact ((reads_literal _).choice_right (refuses_literal init)).seq_refuses
        (reads_satisfy ident).notAhead
    · exact ((refuses_literal init).choice (refuses_literal accept)).seq_left

theorem reads_name (isName : IsName name) (stop : NoName rest) :
    Form.name.Reads (name ++ rest) rest [name] := by
  have chars := reads_some1_satisfy (κ := Element) isName.chars isName.nonempty stop
  exact ((refuses_keyword isName stop).notAhead.seq chars).leaf Element.name

theorem noName_of_noSeparator {s : Separator} : NoName (s.text ++ rest) := by
  cases s with
  | comma before after =>
    cases before with
    | nil => rfl
    | cons b before => cases b <;> rfl
  | spaces first more => cases first <;> rfl

theorem noName_separated (fields : List (Separator × List Char)) (stop : NoName rest) :
    NoName (separated fields ++ rest) := by
  cases fields with
  | nil => exact stop
  | cons f fields =>
    simp only [separated, List.flatMap_cons, List.append_assoc]
    exact noName_of_noSeparator

theorem noName_blanks (bs : List Blank) : NoName (blanks bs) := by
  cases bs with
  | nil => rfl
  | cons b bs => cases b <;> rfl

theorem ne_of_identChar {d : Char} (ident : (c.isAlphanum || c == '_') = true)
    (other : (d.isAlphanum || d == '_') = false) : c ≠ d := by
  rintro rfl
  rw [ident] at other
  cases other

theorem noSeparator_of_identChar (ident : (c.isAlphanum || c == '_') = true) :
    NoSeparator (c :: rest) := by
  have space : c ≠ ' ' := ne_of_identChar ident rfl
  have tab : c ≠ '\t' := ne_of_identChar ident rfl
  have comma : c ≠ ',' := ne_of_identChar ident rfl
  exact ⟨noBlank_iff.2 (by simp [space, tab]), by simp [comma]⟩

theorem not_atLineEnd_of_identChar (ident : (c.isAlphanum || c == '_') = true) :
    ¬ AtLineEnd (c :: rest) := by
  intro ended
  rcases breaksLine_iff.1 ended with rfl | rfl <;> cases ident

theorem IsName.exists_cons (isName : IsName name) :
    ∃ c more, name = c :: more ∧ (c.isAlphanum || c == '_') = true := by
  cases name with
  | nil => exact absurd rfl isName.nonempty
  | cons c more =>
    have chars := isName.chars
    rw [List.all_cons, Bool.and_eq_true] at chars
    exact ⟨c, more, rfl, chars.1⟩

theorem IsName.noSeparator (isName : IsName name) (rest : List Char) :
    NoSeparator (name ++ rest) := by
  obtain ⟨c, more, rfl, ident⟩ := isName.exists_cons
  exact noSeparator_of_identChar ident

theorem IsName.not_atLineEnd (isName : IsName name) (rest : List Char) :
    ¬ AtLineEnd (name ++ rest) := by
  obtain ⟨c, more, rfl, ident⟩ := isName.exists_cons
  exact not_atLineEnd_of_identChar ident

theorem reads_separated {fields : List (Separator × List Char)}
    (areNames : ∀ f ∈ fields, IsName f.2) (stop : NoName rest)
    (last : (seq sep Form.name).Refuses rest) :
    (many (seq sep Form.name)).Reads (separated fields ++ rest) rest (fields.map Prod.snd) := by
  have progress : Progressive (seq sep Form.name).match? := progressive_seq_right progressive_name
  induction fields with
  | nil => exact last.many progress
  | cons f fields ih =>
    obtain ⟨s, name⟩ := f
    have isName : IsName name := areNames _ List.mem_cons_self
    have field := (reads_sep s (isName.noSeparator _)).seq
      (reads_name isName (noName_separated fields stop))
    have later := ih fun g member => areNames g (List.mem_cons_of_mem _ member)
    have read := field.many progress later
    simpa [separated] using read

/-! ## Symbols -/

theorem reads_lineChar (ordinary : breaksLine c = false) :
    lineChar.Reads (c :: rest) rest [] :=
  fun _ => ⟨_, lineChar_of_unbroken ordinary, rfl, rfl⟩

theorem reads_quoted (ordinary : breaksLine c = false) :
    quoted.Reads (['\'', c, '\''] ++ rest) rest [] :=
  (reads_literal ['\'']).seq ((reads_lineChar ordinary).seq (reads_literal ['\'']))

theorem refuses_quoted (apart : c = '\'' → rest[1]? ≠ some '\'') : quoted.Refuses (c :: rest) := by
  by_cases apostrophe : c = '\''
  swap
  · exact (refuses_char (by simpa using apostrophe)).seq_left
  have second := apart apostrophe
  rw [apostrophe]
  refine (reads_literal ['\'']).seq_refuses ?_
  cases rest with
  | nil =>
    intro position
    rfl
  | cons d rest =>
    have closing : (literal ['\''] : Form).Refuses rest := by
      apply refuses_char
      simpa [List.head?_eq_getElem?] using second
    cases breaks : breaksLine d with
    | false =>
      exact (reads_lineChar breaks).seq_refuses closing
    | true =>
      have none_inside : lineChar.Refuses (d :: rest) := by
        intro position
        simp [lineChar, match?, isSome_newline breaks]
      exact none_inside.seq_left

theorem reads_bare (ordinary : breaksLine c = false) (stop : NoSeparator (c :: rest)) :
    bare.Reads (c :: rest) rest [] := by
  have newline : newline.Refuses (c :: rest) := fun _ => newline_of_unbroken ordinary
  have allowed := ((refuses_satisfy stop.1).choice ((refuses_char stop.2).choice newline)).notAhead
  have any : anyChar.Reads (c :: rest) rest [] := reads_satisfy rfl
  exact allowed.seq any

theorem SymbolStyle.ofWritten_char (y : SymbolStyle) {s : Symbol} (writable : s ∉ unwritable) :
    Symbol.ofWritten (y.char s) = s := by
  unfold SymbolStyle.char
  split
  · rename_i placed
    rw [placed.1]
    rfl
  · have other : s ≠ Symbol.placeholder :=
      fun same => writable (by simp [same, unwritable, Symbol.placeholder])
    rw [Symbol.ofWritten, if_neg other]

theorem SymbolStyle.symbolOf_text (y : SymbolStyle) {s : Symbol} (writable : s ∉ unwritable) :
    symbolOf (y.text s) = s := by
  unfold SymbolStyle.text
  split
  · exact y.ofWritten_char writable
  · rw [symbolOf]
    · exact y.ofWritten_char writable
    · intro _ _ more
      cases more

theorem SymbolStyle.char_eq_or (y : SymbolStyle) (s : Symbol) :
    y.char s = Symbol.placeholder ∨ y.char s = s := by
  unfold SymbolStyle.char
  split
  · exact .inl rfl
  · exact .inr rfl

theorem SymbolStyle.breaksLine_char (y : SymbolStyle) {s : Symbol} (writable : s ∉ unwritable) :
    breaksLine (y.char s) = false := by
  rcases y.char_eq_or s with placed | placed <;> rw [placed]
  · rfl
  · simp only [unwritable, List.mem_cons, not_or] at writable
    simp [breaksLine, writable]

theorem SymbolStyle.unbroken (y : SymbolStyle) {s : Symbol} (writable : s ∉ unwritable) :
    Unbroken (y.text s) := by
  have ordinary := y.breaksLine_char writable
  have apostrophe : breaksLine '\'' = false := rfl
  unfold SymbolStyle.text
  cases y.quoted <;> exact unbroken_of_all (by simp [ordinary, apostrophe])

theorem Separator.mem_text {s : Separator} (member : c ∈ s.text) :
    c = ' ' ∨ c = '\t' ∨ c = ',' := by
  have blank {bs : List Blank} (member : c ∈ blanks bs) : c = ' ' ∨ c = '\t' := by
    simpa using List.all_eq_true.1 (all_blanks bs) c member
  cases s with
  | comma before after =>
    rcases List.mem_append.1 member with inside | inside
    · exact (blank inside).imp_right .inl
    · rcases List.mem_cons.1 inside with rfl | inside
      · exact .inr (.inr rfl)
      · exact (blank inside).imp_right .inl
  | spaces first more => exact (blank member).imp_right .inl

theorem Separator.exists_cons (s : Separator) : ∃ d more, s.text = d :: more := by
  cases s with
  | comma before after => cases before <;> exact ⟨_, _, rfl⟩
  | spaces first more => exact ⟨_, _, rfl⟩

theorem Separator.second_ne (s : Separator)
    (single : s.text.length = 1 → rest.head? ≠ some '\'') : (s.text ++ rest)[1]? ≠ some '\'' := by
  obtain ⟨d, more, split⟩ := s.exists_cons
  cases more with
  | nil =>
    rw [split] at single ⊢
    simpa [List.head?_eq_getElem?] using single rfl
  | cons e more =>
    have inside : e ∈ s.text := by simp [split]
    rw [split]
    intro same
    obtain rfl : e = '\'' := by simpa using same
    rcases Separator.mem_text inside with other | other | other <;> cases other

end OneTape.Description
