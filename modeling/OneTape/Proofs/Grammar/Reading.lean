import OneTape.Proofs.Grammar.Locality

namespace OneTape.Grammar.Pattern

variable {κ : Type} {p q : Pattern κ} {text taken behind rest : List Char}
variable {texts others : List (List Char)}

/-- On `text` the pattern matches up to `rest` and yields nodes that hold `texts`. -/
def Reads (p : Pattern κ) (text rest : List Char) (texts : List (List Char)) : Prop :=
  ∀ position, ∃ m, p.match? ⟨position, text⟩ = some m ∧ m.cursor.rest = rest ∧
    m.nodes.map Node.text = texts

def Refuses (p : Pattern κ) (text : List Char) : Prop :=
  ∀ position, p.match? ⟨position, text⟩ = none

theorem Reads.taken_unique {taken' rest' : List Char} (read : p.Reads (taken ++ rest) rest texts)
    (read' : p.Reads (taken' ++ rest') rest' others) (same : taken ++ rest = taken' ++ rest') :
    taken = taken' ∧ rest = rest' := by
  obtain ⟨m, matched, rfl, -⟩ := read .first
  obtain ⟨m', matched', rfl, -⟩ := read' .first
  rw [← same, matched] at matched'
  obtain rfl := Option.some.inj matched'
  exact ⟨List.append_cancel_right same, rfl⟩

theorem reads_satisfy {test : Char → Bool} {c : Char} (satisfied : test c = true) :
    (satisfy test : Pattern κ).Reads (c :: rest) rest [] := by
  intro position
  exact ⟨⟨⟨position.next c, rest⟩, []⟩, by simp [match?, Cursor.satisfy?, satisfied], rfl, rfl⟩

theorem refuses_satisfy {test : Char → Bool} (other : rest.head?.all (!test ·) = true) :
    (satisfy test : Pattern κ).Refuses rest := by
  intro position
  cases rest with
  | nil => rfl
  | cons c rest => simp_all [match?, Cursor.satisfy?]

theorem literal?_append (position : Position) (word : List Char) :
    Cursor.literal? word ⟨position, word ++ rest⟩ = some ⟨position.advance word, rest⟩ := by
  induction word generalizing position with
  | nil => rfl
  | cons c word ih =>
    rw [List.cons_append, Cursor.literal?, Cursor.satisfy?]
    simpa [Position.advance] using ih (position.next c)

theorem reads_literal (word : List Char) :
    (literal word : Pattern κ).Reads (word ++ rest) rest [] := by
  intro position
  exact ⟨⟨⟨position.advance word, rest⟩, []⟩, by simp [match?, literal?_append], rfl, rfl⟩

theorem literal?_eq_none {word text : List Char} (differs : ¬ word <+: text) (position : Position) :
    Cursor.literal? word ⟨position, text⟩ = none := by
  cases found : Cursor.literal? word ⟨position, text⟩ with
  | none => rfl
  | some l =>
    have took : text = word ++ l.rest := (Cursor.took_literal found).rest
    exact absurd ⟨l.rest, took.symm⟩ differs

theorem refuses_literal {word text : List Char} (differs : ¬ word <+: text) :
    (literal word : Pattern κ).Refuses text := by
  intro position
  simp [match?, literal?_eq_none differs]

theorem Reads.seq (first : p.Reads text behind texts) (second : q.Reads behind rest others) :
    (seq p q).Reads text rest (texts ++ others) := by
  intro position
  obtain ⟨⟨⟨position', behind⟩, nodes⟩, matched, rfl, rfl⟩ := first position
  obtain ⟨m, matched', rfl, rfl⟩ := second position'
  exact ⟨_, match?_seq_eq_some_iff.2 ⟨_, m, matched, matched', rfl⟩, rfl, List.map_append⟩

theorem Refuses.seq_left (refused : p.Refuses text) : (seq p q).Refuses text := by
  intro position
  simp [match?, refused position]

theorem Reads.seq_refuses (first : p.Reads text behind texts) (refused : q.Refuses behind) :
    (Pattern.seq p q).Refuses text := by
  intro position
  obtain ⟨⟨⟨position', behind⟩, nodes⟩, matched, rfl, -⟩ := first position
  simp [match?, matched, refused position']

/-! ## Choices -/

theorem Reads.choice_left (first : p.Reads text rest texts) :
    (choice p q).Reads text rest texts := by
  intro position
  obtain ⟨m, matched, left⟩ := first position
  exact ⟨m, by simp [match?, matched], left⟩

theorem Reads.choice_right (second : q.Reads text rest texts) (refused : p.Refuses text) :
    (choice p q).Reads text rest texts := by
  intro position
  obtain ⟨m, matched, left⟩ := second position
  exact ⟨m, by simp [match?, refused position, matched], left⟩

theorem Refuses.choice (first : p.Refuses text) (second : q.Refuses text) :
    (choice p q).Refuses text := by
  intro position
  simp [match?, first position, second position]

theorem Refuses.choice_eq (refused : p.Refuses text) (position : Position) :
    (Pattern.choice p q).match? ⟨position, text⟩ = q.match? ⟨position, text⟩ := by
  rw [match?, refused position]

theorem Reads.choice_eq (read : p.Reads text rest texts) (position : Position) :
    (Pattern.choice p q).match? ⟨position, text⟩ = p.match? ⟨position, text⟩ := by
  obtain ⟨m, matched, -⟩ := read position
  rw [match?, matched]

theorem Reads.optional (body : p.Reads text rest texts) : (optional p).Reads text rest texts := by
  intro position
  obtain ⟨m, matched, left⟩ := body position
  exact ⟨m, by simp [match?, matched], left⟩

theorem Refuses.optional (refused : p.Refuses text) : (optional p).Reads text text [] := by
  intro position
  exact ⟨⟨⟨position, text⟩, []⟩, by simp [match?, refused position], rfl, rfl⟩

theorem Refuses.notAhead (refused : p.Refuses text) : (notAhead p).Reads text text [] := by
  intro position
  exact ⟨⟨⟨position, text⟩, []⟩, by simp [match?, refused position], rfl, rfl⟩

theorem Reads.notAhead (body : p.Reads text rest texts) : (notAhead p).Refuses text := by
  intro position
  obtain ⟨m, matched, -⟩ := body position
  simp [match?, matched]

/-! ## Repetitions -/

theorem Refuses.many (progress : Progressive p.match?) (refused : p.Refuses text) :
    (many p).Reads text text [] := by
  intro position
  refine ⟨⟨⟨position, text⟩, []⟩, ?_, rfl, rfl⟩
  rw [match?_many progress, refused position]

theorem Reads.many (progress : Progressive p.match?) (round : p.Reads text behind texts)
    (rounds : (many p).Reads behind rest others) :
    (many p).Reads text rest (texts ++ others) := by
  intro position
  obtain ⟨⟨⟨position', behind⟩, nodes⟩, matched, rfl, rfl⟩ := round position
  obtain ⟨m, matched', rfl, rfl⟩ := rounds position'
  refine ⟨⟨m.cursor, nodes ++ m.nodes⟩, ?_, rfl, List.map_append⟩
  rw [match?_many progress, matched]
  simp only [matched', Option.map_some]

theorem reads_many_satisfy {test : Char → Bool} (satisfied : taken.all test = true)
    (other : rest.head?.all (!test ·) = true) :
    (many (satisfy test) : Pattern κ).Reads (taken ++ rest) rest [] := by
  induction taken with
  | nil => exact (refuses_satisfy other).many (progressive_satisfy test)
  | cons c taken ih =>
    rw [List.all_cons, Bool.and_eq_true] at satisfied
    exact (reads_satisfy satisfied.1).many (progressive_satisfy test) (ih satisfied.2)

theorem reads_some1_satisfy {test : Char → Bool} (satisfied : taken.all test = true)
    (something : taken ≠ []) (other : rest.head?.all (!test ·) = true) :
    (some1 (satisfy test) : Pattern κ).Reads (taken ++ rest) rest [] := by
  cases taken with
  | nil => exact absurd rfl something
  | cons c taken =>
    rw [List.all_cons, Bool.and_eq_true] at satisfied
    exact (reads_satisfy satisfied.1).seq (reads_many_satisfy satisfied.2 other)

/-! ## Nodes -/

theorem took_of_rest {position : Position} {m : Match κ}
    (matched : p.match? ⟨position, taken ++ rest⟩ = some m) (left : m.cursor.rest = rest) :
    Cursor.Took ⟨position, taken ++ rest⟩ m.cursor taken := by
  obtain ⟨taken', took⟩ := took_match matched
  have same : taken ++ rest = taken' ++ m.cursor.rest := took.rest
  rw [left] at same
  obtain rfl := List.append_cancel_right same
  exact took

theorem Reads.leaf (body : p.Reads (taken ++ rest) rest texts) (kind : κ) :
    (leaf kind p).Reads (taken ++ rest) rest [taken] := by
  intro position
  obtain ⟨m, matched, left, -⟩ := body position
  refine ⟨⟨m.cursor, [_]⟩, by rw [match?, matched, Option.map_some], left, ?_⟩
  rw [Node.between_eq kind (took_of_rest matched left)]
  rfl

theorem Reads.within (body : p.Reads (taken ++ rest) rest texts) (kind : κ) (position : Position) :
    ∃ m, (node kind p).match? ⟨position, taken ++ rest⟩ = some m ∧ m.cursor.rest = rest ∧
      ∃ stop children, m.nodes = [.mk kind position stop taken children] ∧
        children.map Node.text = texts := by
  obtain ⟨m, matched, left, same⟩ := body position
  refine ⟨⟨m.cursor, [_]⟩, by rw [match?, matched, Option.map_some], left, m.cursor.position,
    m.nodes, ?_, same⟩
  rw [Node.between_eq kind (took_of_rest matched left)]

theorem Reads.node (body : p.Reads (taken ++ rest) rest texts) (kind : κ) :
    (node kind p).Reads (taken ++ rest) rest [taken] := by
  intro position
  obtain ⟨m, matched, left, stop, children, single, -⟩ := body.within kind position
  exact ⟨m, matched, left, by rw [single]; rfl⟩

theorem Reads.node_nil (body : p.Reads text [] texts) (kind : κ) :
    (Pattern.node kind p).Reads text [] [text] := by
  rw [← List.append_nil text] at body ⊢
  simpa using body.node kind

theorem Refuses.node (refused : p.Refuses text) (kind : κ) : (node kind p).Refuses text := by
  intro position
  rw [match?, refused position, Option.map_none]

def silent : Pattern κ → Bool
  | seq p q | choice p q => p.silent && q.silent
  | optional p | many p => p.silent
  | node _ _ | leaf _ _ => false
  | satisfy _ | literal _ | atEnd | ahead _ | notAhead _ => true

theorem nodes_repeatMatch {step : Cursor → Option (Match κ)}
    (silent : ∀ k m, step k = some m → m.nodes = []) (bound : List Char) (k : Cursor) :
    (repeatMatch step bound k []).nodes = [] := by
  induction bound generalizing k with
  | nil => rfl
  | cons c bound ih =>
    unfold repeatMatch
    cases matched : step k with
    | none => rfl
    | some m =>
      have empty := silent k m matched
      simpa [empty] using ih m.cursor

theorem nodes_of_silent {k : Cursor} {m : Match κ} (silent : p.silent = true)
    (matched : p.match? k = some m) : m.nodes = [] := by
  induction p generalizing k m with
  | satisfy test =>
    obtain ⟨l, -, rfl⟩ := Option.map_eq_some_iff.1 matched
    rfl
  | literal word =>
    obtain ⟨l, -, rfl⟩ := Option.map_eq_some_iff.1 matched
    rfl
  | atEnd =>
    simp only [match?] at matched
    split at matched <;> cases matched
    rfl
  | seq p q hp hq =>
    rw [Pattern.silent, Bool.and_eq_true] at silent
    obtain ⟨m, m', first, second, rfl⟩ := match?_seq_eq_some_iff.1 matched
    simp [hp silent.1 first, hq silent.2 second]
  | choice p q hp hq =>
    rw [Pattern.silent, Bool.and_eq_true] at silent
    simp only [match?] at matched
    split at matched
    · exact hq silent.2 matched
    · cases matched
      exact hp silent.1 ‹_›
  | optional p hp =>
    simp only [match?] at matched
    split at matched <;> cases matched
    · rfl
    · exact hp silent ‹_›
  | many p hp =>
    cases matched
    exact nodes_repeatMatch (fun k m round => hp silent round) k.rest k
  | ahead p =>
    simp only [match?] at matched
    split at matched <;> cases matched
    rfl
  | notAhead p =>
    simp only [match?] at matched
    split at matched <;> cases matched
    rfl
  | node kind p => cases silent
  | leaf kind p => cases silent

end OneTape.Grammar.Pattern
