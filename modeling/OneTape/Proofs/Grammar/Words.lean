import OneTape.Proofs.Grammar.Taking

namespace OneTape.Grammar

/-- The words stand in the text one behind the other. -/
inductive Holds : List Char → List (List Char) → Prop where
  | nothing (text : List Char) : Holds text []
  | word (gap word : List Char) {rest : List Char} {words : List (List Char)}
      (further : Holds rest words) : Holds (gap ++ (word ++ rest)) (word :: words)

namespace Holds

variable {text rest front : List Char} {words others : List (List Char)}

theorem single (word : List Char) : Holds word [word] := by
  simpa using Holds.word [] word (nothing [])

theorem behind (holds : Holds text words) (front : List Char) : Holds (front ++ text) words := by
  cases holds with
  | nothing => exact nothing _
  | word gap word further =>
    rw [← List.append_assoc]
    exact .word (front ++ gap) word further

theorem append (holds : Holds text words) (further : Holds rest others) :
    Holds (text ++ rest) (words ++ others) := by
  induction holds with
  | nothing text => exact further.behind text
  | word gap word _ ih =>
    rw [List.append_assoc, List.append_assoc, List.cons_append]
    exact .word gap word ih

theorem sublist (holds : Holds text words) (fewer : List.Sublist others words) :
    Holds text others := by
  induction holds generalizing others with
  | nothing text =>
    rw [List.sublist_nil.1 fewer]
    exact nothing text
  | word gap word _ ih =>
    cases fewer with
    | cons _ fewer =>
      rw [← List.append_assoc]
      exact (ih fewer).behind (gap ++ word)
    | cons_cons _ fewer => exact .word gap word (ih fewer)

theorem isInfix {word : List Char} (holds : Holds text words) (member : word ∈ words) :
    word <:+: text := by
  induction holds with
  | nothing => cases member
  | @word gap first rest words further ih =>
    rcases List.mem_cons.1 member with rfl | member
    · exact ⟨gap, rest, by simp⟩
    · exact (ih member).trans (((List.suffix_append first rest).trans
        (List.suffix_append gap (first ++ rest))).isInfix)

end Holds

namespace Pattern

variable {κ : Type} {p : Pattern κ} {k : Cursor} {m : Match κ} {taken : List Char}

theorem holds_repeatMatch {step : Cursor → Option (Match κ)}
    (each : ∀ k m, step k = some m → ∃ taken, k.Took m.cursor taken ∧
      Holds taken (m.nodes.map Node.text))
    (bound : List Char) (k : Cursor) :
    ∃ taken, k.Took (repeatMatch step bound k []).cursor taken ∧
      Holds taken ((repeatMatch step bound k []).nodes.map Node.text) := by
  induction bound generalizing k with
  | nil => exact ⟨[], .refl k, .nothing []⟩
  | cons c bound ih =>
    unfold repeatMatch
    cases round : step k with
    | none => exact ⟨[], .refl k, .nothing []⟩
    | some m =>
      obtain ⟨taken, took, holds⟩ := each k m round
      obtain ⟨later, took', holds'⟩ := ih m.cursor
      refine ⟨taken ++ later, ?_, ?_⟩
      · dsimp only
        rw [repeatMatch_nodes]
        exact took.trans took'
      · dsimp only
        rw [repeatMatch_nodes, List.append_nil, List.reverse_reverse, List.map_append]
        exact holds.append holds'

theorem exists_holds_of_silent (silent : p.silent = true) (matched : p.match? k = some m) :
    ∃ taken, k.Took m.cursor taken ∧ Holds taken (m.nodes.map Node.text) := by
  obtain ⟨taken, took⟩ := took_match matched
  rw [nodes_of_silent silent matched]
  exact ⟨taken, took, .nothing taken⟩

theorem exists_holds (matched : p.match? k = some m) :
    ∃ taken, k.Took m.cursor taken ∧ Holds taken (m.nodes.map Node.text) := by
  induction p generalizing k m with
  | satisfy | literal | atEnd | ahead | notAhead => exact exists_holds_of_silent rfl matched
  | seq p q hp hq =>
    obtain ⟨m₁, m₂, first, second, rfl⟩ := match?_seq_eq_some_iff.1 matched
    obtain ⟨taken, took, holds⟩ := hp first
    obtain ⟨later, took', holds'⟩ := hq second
    refine ⟨taken ++ later, took.trans took', ?_⟩
    rw [List.map_append]
    exact holds.append holds'
  | choice p q hp hq =>
    rcases match?_choice_eq_some matched with matched | matched
    · exact hp matched
    · exact hq matched
  | optional p hp =>
    simp only [match?] at matched
    split at matched <;> cases matched
    · exact ⟨[], .refl k, .nothing []⟩
    · exact hp ‹_›
  | many p hp =>
    cases matched
    exact holds_repeatMatch (fun k m round => hp round) k.rest k
  | node kind p =>
    obtain ⟨body, taken, -, -, took, single⟩ := single_node matched
    exact ⟨taken, took, single ▸ .single taken⟩
  | leaf kind p =>
    obtain ⟨body, taken, -, -, took, single⟩ := single_leaf matched
    exact ⟨taken, took, single ▸ .single taken⟩

def Filled (n : Node κ) : Prop := Holds n.text (n.children.map Node.text)

theorem Yields.optional {P : Node κ → Prop} (body : p.Yields P) : (optional p).Yields P := by
  intro k m matched n member
  simp only [match?] at matched
  split at matched <;> cases matched
  · cases member
  · exact body k m ‹_› n member

theorem yields_filled (p : Pattern κ) : p.Yields Filled := by
  induction p with
  | satisfy | literal | atEnd | ahead | notAhead => exact yields_of_silent rfl
  | seq p q hp hq => exact hp.seq hq
  | choice p q hp hq => exact hp.choice hq
  | optional p hp => exact hp.optional
  | many p hp => exact hp.many
  | node kind p =>
    intro k m matched n member
    obtain ⟨body, taken, inside, ends, took, single⟩ := single_node matched
    obtain rfl := List.mem_singleton.1 (single ▸ member)
    obtain ⟨taken', took', holds⟩ := exists_holds inside
    obtain rfl : taken' = taken := took'.unique (ends ▸ took)
    exact holds
  | leaf kind p =>
    intro k m matched n member
    obtain ⟨body, taken, -, -, -, single⟩ := single_leaf matched
    obtain rfl := List.mem_singleton.1 (single ▸ member)
    exact .nothing taken

end Pattern

end OneTape.Grammar
