import OneTape.Proofs.Execution.Arrival

/-!
While only rules apply that write back what they read and move to the right, a machine is a finite
automaton on the symbols of its row.
-/

namespace OneTape

namespace Description.Outline

variable {o : Outline} {i j : Nat} {word : List Symbol} {s : Symbol}

def rule? (o : Outline) (i : Nat) (s : Symbol) : Option Rule :=
  o.states[i]?.bind fun q => q.2.find? (·.read = s)

def pass? (o : Outline) (i : Nat) (s : Symbol) : Option Nat :=
  ((o.rule? i s).filter fun r => r.write = s ∧ r.direction = .right).map Rule.next

def scan? (o : Outline) (i : Nat) (word : List Symbol) : Option Nat := word.foldlM o.pass? i

@[simp] theorem scan?_nil : o.scan? i [] = some i := rfl

theorem scan?_cons : o.scan? i (s :: word) = (o.pass? i s).bind (o.scan? · word) := by
  rw [scan?, List.foldlM_cons]
  rfl

theorem scan?_append {rest : List Symbol} :
    o.scan? i (word ++ rest) = (o.scan? i word).bind (o.scan? · rest) := by
  rw [scan?, List.foldlM_append]
  rfl

theorem scan?_replicate (stays : o.pass? i s = some i) (n : Nat) :
    o.scan? i (List.replicate n s) = some i := by
  induction n with
  | zero => rfl
  | succ n ih => rw [List.replicate_succ, scan?_cons, stays, Option.bind_some, ih]

theorem pass?_eq_some_iff : o.pass? i s = some j ↔
    ∃ r, o.rule? i s = some r ∧ r.write = s ∧ r.direction = .right ∧ r.next = j := by
  simp [pass?, Option.map_eq_some_iff, Option.filter_eq_some_iff, and_assoc]

theorem mem_of_rule? {r : Rule} (found : o.rule? i s = some r) :
    (∃ q, o.states[i]? = some q ∧ r ∈ q.2) ∧ r.read = s := by
  obtain ⟨q, stored, found⟩ := Option.bind_eq_some_iff.1 found
  exact ⟨⟨q, stored, List.mem_of_find?_eq_some found⟩, by simpa using List.find?_some found⟩

theorem pass?_eq_none_iff : o.pass? i s = none ↔
    ∀ r, o.rule? i s = some r → ¬ (r.write = r.read ∧ r.direction = .right) := by
  constructor
  · intro stuck r found passing
    obtain ⟨-, rfl⟩ := mem_of_rule? found
    have passed := pass?_eq_some_iff.2 ⟨r, found, passing.1, passing.2, rfl⟩
    rw [stuck] at passed
    cases passed
  · intro standing
    cases passed : o.pass? i s with
    | none => rfl
    | some j =>
      obtain ⟨r, found, write, right, -⟩ := pass?_eq_some_iff.1 passed
      exact absurd ⟨write.trans (mem_of_rule? found).2.symm, right⟩ (standing r found)

/-- On a symbol that is not passed over no rule applies, or one of the others. -/
theorem rule?_of_pass?_eq_none {P : Rule → Prop} (stuck : o.pass? i s = none)
    (others : ∀ q, o.states[i]? = some q →
      ∀ r ∈ q.2, (r.write = r.read ∧ r.direction = .right) ∨ P r) :
    o.rule? i s = none ∨ ∃ r, o.rule? i s = some r ∧ P r := by
  cases found : o.rule? i s with
  | none => exact .inl rfl
  | some r =>
    obtain ⟨⟨q, stored, listed⟩, -⟩ := mem_of_rule? found
    exact .inr ⟨r, rfl, (others q stored r listed).resolve_left (pass?_eq_none_iff.1 stuck r found)⟩

theorem pass?_blank_eq_none (standing : ∀ q ∈ o.states, ∀ r ∈ q.2,
    r.read = .blank → ¬ (r.write = r.read ∧ r.direction = .right)) (i : Nat) :
    o.pass? i .blank = none := by
  refine pass?_eq_none_iff.2 fun r found => ?_
  obtain ⟨⟨q, stored, listed⟩, read⟩ := mem_of_rule? found
  exact standing q (List.mem_of_getElem? stored) r listed read

theorem exists_scanned (o : Outline) (i : Nat) (word : List Symbol) : ∃ passed rest j,
    word = passed ++ rest ∧ o.scan? i passed = some j ∧ ∀ s ∈ rest.head?, o.pass? j s = none := by
  induction word generalizing i with
  | nil => exact ⟨[], [], i, rfl, rfl, by simp⟩
  | cons s word ih =>
    cases passed : o.pass? i s with
    | none => exact ⟨[], s :: word, i, rfl, rfl, by simpa using passed⟩
    | some k =>
      obtain ⟨before, rest, j, rfl, scanned, stuck⟩ := ih k
      exact ⟨s :: before, rest, j, rfl, by rw [scan?_cons, passed, Option.bind_some, scanned],
        stuck⟩

theorem scan?_induction {P : Nat → Prop}
    (kept : ∀ q ∈ o.states, ∀ r ∈ q.2, r.direction = .right → P r.next) (start : P i)
    (scanned : o.scan? i word = some j) : P j := by
  induction word generalizing i with
  | nil => exact Option.some.inj scanned ▸ start
  | cons s word ih =>
    obtain ⟨k, passed, scanned⟩ := Option.bind_eq_some_iff.1 (scan?_cons ▸ scanned)
    obtain ⟨r, found, -, right, rfl⟩ := pass?_eq_some_iff.1 passed
    obtain ⟨q, stored, found⟩ := Option.bind_eq_some_iff.1 found
    exact ih (kept q (List.mem_of_getElem? stored) r (List.mem_of_find?_eq_some found) right)
      scanned

end Description.Outline

namespace Machine

theorem nameOf_eq (m : Machine) (i : Nat) : m.nameOf i = (m.outline.names[i]?).getD "" := by
  rw [nameOf, Description.Outline.names, outline, List.map_map, List.getElem?_map,
    Array.getElem?_toList, state?]
  rfl

end Machine

namespace Textbook

open Description

variable {m : Machine} {word rest : List Symbol} {i j : Nat} {h : Int} {cells : Int → Symbol}
variable {s : Symbol}

theorem rule?_eq (shown : cells h = s) : rule? m ⟨i, h, cells⟩ = m.outline.rule? i s := by
  rw [rule?, Outline.rule?, Machine.outline, List.getElem?_map, Array.getElem?_toList,
    Machine.state?, ← shown]
  cases m.states[i]? <;> rfl

theorem after?_step {r : Rule} (shown : cells h = s) (found : m.outline.rule? i s = some r) :
    after? m 1 ⟨i, h, cells⟩ =
      some ⟨r.next, h + r.direction.delta, Function.update cells h r.write⟩ :=
  after?_one ((rule?_eq shown).trans found)

theorem after?_pass (shown : cells h = s) (passed : m.outline.pass? i s = some j) :
    after? m 1 ⟨i, h, cells⟩ = some ⟨j, h + 1, cells⟩ := by
  obtain ⟨r, found, write, right, rfl⟩ := Outline.pass?_eq_some_iff.1 passed
  rw [after?_step shown found, right, write, ← shown, Function.update_eq_self]
  rfl

theorem after?_scan (shown : ∀ k (inside : k < word.length), cells (h + k) = word[k])
    (scanned : m.outline.scan? i word = some j) :
    after? m word.length ⟨i, h, cells⟩ = some ⟨j, h + word.length, cells⟩ := by
  induction word generalizing i h with
  | nil =>
    obtain rfl := Option.some.inj scanned
    simp [after?]
  | cons s word ih =>
    obtain ⟨k, passed, scanned⟩ := Option.bind_eq_some_iff.1 (Outline.scan?_cons ▸ scanned)
    have here : cells h = s := by
      have first := shown 0 (Nat.zero_lt_succ _)
      rwa [Int.natCast_zero, Int.add_zero] at first
    have later (k : Nat) (inside : k < word.length) : cells (h + 1 + k) = word[k] := by
      have next := shown (k + 1) (by simpa using inside)
      rw [List.getElem_cons_succ] at next
      rw [← next]
      congr 1
      omega
    rw [List.length_cons, Nat.add_comm, after?_add, after?_pass here passed, Option.bind_some,
      ih later scanned]
    congr 2
    omega

theorem after?_start (scanned : m.outline.scan? m.initial word = some j) (rest : List Symbol) :
    after? m word.length (start m (word ++ rest)) =
      some ⟨j, word.length, contents (word ++ rest)⟩ := by
  have shown (k : Nat) (inside : k < word.length) :
      contents (word ++ rest) (0 + k) = word[k] := by
    rw [Int.zero_add, contents_natCast, List.getElem?_append_left inside,
      List.getElem?_eq_getElem inside, Option.getD_some]
  rw [start, after?_scan shown scanned, Int.zero_add]

/-- A block of one symbol is rewritten from its last symbol to its first. -/
theorem after?_rewrite {t : Symbol} (found : m.outline.rule? i s = some ⟨s, t, .left, i⟩)
    (before : List Symbol) (n : Nat) (behind : List Symbol) :
    after? m n ⟨i, before.length + n - 1, contents (before ++ List.replicate n s ++ behind)⟩ =
      some ⟨i, before.length - 1, contents (before ++ List.replicate n t ++ behind)⟩ := by
  -- The symbol that has been rewritten is then part of what is behind the block.
  induction n generalizing behind with
  | zero => simp [after?]
  | succ n ih =>
    have last : (before.length : Int) + (n + 1 : Nat) - 1 =
        ((before ++ List.replicate n s).length : Nat) := by
      rw [List.length_append, List.length_replicate]
      omega
    have block (u : Symbol) : before ++ List.replicate (n + 1) u ++ behind =
        before ++ List.replicate n u ++ u :: behind := by
      simp [List.replicate_succ']
    rw [block s, last, Nat.add_comm n 1, after?_add,
      after?_step (contents_append_length _ s behind) found, Option.bind_some, update_contents,
      ← last]
    convert ih (t :: behind) using 2
    · simp [Direction.delta]
      omega
    · rw [Nat.add_comm 1 n, block t]

end Textbook

end OneTape
