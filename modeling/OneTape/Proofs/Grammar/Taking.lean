import OneTape.Proofs.Grammar.Reading

namespace OneTape.Grammar

theorem Cursor.Took.unique {k l : Cursor} {s t : List Char} (took : k.Took l s)
    (other : k.Took l t) : s = t :=
  List.append_cancel_right (took.rest.symm.trans other.rest)

namespace Pattern

variable {κ : Type} {p q : Pattern κ} {k : Cursor} {m : Match κ}

theorem exists_taken_while (test : Char → Bool) (text : List Char) : ∃ taken rest,
    text = taken ++ rest ∧ taken.all test = true ∧ rest.head?.all (!test ·) = true := by
  refine ⟨text.takeWhile test, text.dropWhile test, List.takeWhile_append_dropWhile.symm,
    List.all_takeWhile, ?_⟩
  have first := List.head?_dropWhile_not test text
  cases head : (text.dropWhile test).head? with
  | none => rfl
  | some c => simpa [head] using first

theorem took_many_satisfy {test : Char → Bool} (matched : (many (satisfy test)).match? k = some m) :
    ∃ taken, k.Took m.cursor taken ∧ taken.all test = true ∧
      m.cursor.rest.head?.all (!test ·) = true := by
  obtain ⟨position, text⟩ := k
  obtain ⟨taken, rest, rfl, satisfied, stopped⟩ := exists_taken_while test text
  obtain ⟨n, matched', left, -⟩ := reads_many_satisfy (κ := κ) satisfied stopped position
  obtain rfl := Option.some.inj (matched.symm.trans matched')
  exact ⟨taken, took_of_rest matched left, satisfied, left ▸ stopped⟩

theorem took_some1_satisfy {test : Char → Bool}
    (matched : (some1 (satisfy test)).match? k = some m) :
    ∃ taken, k.Took m.cursor taken ∧ taken ≠ [] ∧ taken.all test = true ∧
      m.cursor.rest.head?.all (!test ·) = true := by
  obtain ⟨m₁, m₂, first, more, rfl⟩ := match?_seq_eq_some_iff.1 matched
  obtain ⟨l, found, rfl⟩ := Option.map_eq_some_iff.1 first
  obtain ⟨c, satisfied, took⟩ := Cursor.took_satisfy found
  obtain ⟨taken, took', all, stopped⟩ := took_many_satisfy more
  exact ⟨_, took.trans took', List.cons_ne_nil _ _, by simp [satisfied, all], stopped⟩

theorem single_node {kind : κ} (matched : (node kind p).match? k = some m) :
    ∃ body taken, p.match? k = some body ∧ m.cursor = body.cursor ∧ k.Took m.cursor taken ∧
      m.nodes = [.mk kind k.position m.cursor.position taken body.nodes] := by
  obtain ⟨body, inside, rfl⟩ := Option.map_eq_some_iff.1 matched
  obtain ⟨taken, took⟩ := took_match inside
  exact ⟨body, taken, inside, rfl, took, congrArg (fun n => [n]) (Node.between_eq kind took _)⟩

theorem single_leaf {kind : κ} (matched : (leaf kind p).match? k = some m) :
    ∃ body taken, p.match? k = some body ∧ m.cursor = body.cursor ∧ k.Took m.cursor taken ∧
      m.nodes = [.mk kind k.position m.cursor.position taken []] := by
  obtain ⟨body, inside, rfl⟩ := Option.map_eq_some_iff.1 matched
  obtain ⟨taken, took⟩ := took_match inside
  exact ⟨body, taken, inside, rfl, took, congrArg (fun n => [n]) (Node.between_eq kind took _)⟩

/-- Every node that the pattern yields has the property. -/
def Yields (p : Pattern κ) (P : Node κ → Prop) : Prop :=
  ∀ k m, p.match? k = some m → ∀ n ∈ m.nodes, P n

variable {P : Node κ → Prop}

theorem yields_node {kind : κ} (holds : ∀ k body taken, p.match? k = some body →
    P (.mk kind k.position body.cursor.position taken body.nodes)) : (node kind p).Yields P := by
  intro k m matched n member
  obtain ⟨body, taken, inside, ends, -, single⟩ := single_node matched
  rw [single, ends] at member
  obtain rfl := List.mem_singleton.1 member
  exact holds k body taken inside

theorem yields_of_silent (silent : p.silent = true) : p.Yields P := by
  intro k m matched
  simp [nodes_of_silent silent matched]

theorem Yields.seq (first : p.Yields P) (second : q.Yields P) : (seq p q).Yields P := by
  intro k m matched n member
  obtain ⟨m₁, m₂, matched₁, matched₂, rfl⟩ := match?_seq_eq_some_iff.1 matched
  rcases List.mem_append.1 member with member | member
  · exact first k m₁ matched₁ n member
  · exact second m₁.cursor m₂ matched₂ n member

theorem Yields.choice (first : p.Yields P) (second : q.Yields P) : (choice p q).Yields P := by
  intro k m matched
  rcases match?_choice_eq_some matched with matched | matched
  · exact first k m matched
  · exact second k m matched

theorem Yields.many (body : p.Yields P) : (many p).Yields P := by
  intro k m matched
  cases matched
  have rounds (bound : List Char) (k : Cursor) :
      ∀ n ∈ (repeatMatch p.match? bound k []).nodes, P n := by
    induction bound generalizing k with
    | nil => simp [repeatMatch]
    | cons c bound ih =>
      unfold repeatMatch
      cases round : p.match? k with
      | none => simp
      | some m =>
        intro n member
        dsimp only at member
        rw [repeatMatch_nodes] at member
        rcases List.mem_append.1 member with member | member
        · exact body k m round n (by simpa using member)
        · exact ih m.cursor n member
  exact rounds k.rest k

end Pattern

end OneTape.Grammar
