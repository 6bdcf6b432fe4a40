import OneTape.Proofs.Execution.Scanning

namespace OneTape

namespace Textbook

open Description

variable {m : Machine} {c d : Textbook} {row : List Symbol} {cells : Int → Symbol}
variable {s : Symbol} {i k n : Nat} {h : Int}

def HaltsWithin (m : Machine) (n : Nat) (c : Textbook) : Prop :=
  ∃ k ≤ n, ∃ d, after? m k c = some d ∧ d.rule? m = none

namespace HaltsWithin

theorem mono (halts : HaltsWithin m k c) (le : k ≤ n) : HaltsWithin m n c := by
  obtain ⟨j, bound, d, reached, halted⟩ := halts
  exact ⟨j, Nat.le_trans bound le, d, reached, halted⟩

theorem behind (halts : HaltsWithin m n d) (reached : after? m k c = some d) :
    HaltsWithin m (k + n) c := by
  obtain ⟨j, bound, final, arrives, halted⟩ := halts
  refine ⟨k + j, Nat.add_le_add_left bound k, final, ?_, halted⟩
  rw [after?_add, reached, Option.bind_some, arrives]

theorem stuck (shown : cells h = s) (none_applies : m.outline.rule? i s = none) (n : Nat) :
    HaltsWithin m n ⟨i, h, cells⟩ :=
  ⟨0, Nat.zero_le n, _, rfl, (rule?_eq shown).trans none_applies⟩

theorem step {r : Rule} (shown : cells h = s) (found : m.outline.rule? i s = some r)
    (halts : HaltsWithin m n ⟨r.next, h + r.direction.delta, Function.update cells h r.write⟩) :
    HaltsWithin m (1 + n) ⟨i, h, cells⟩ :=
  halts.behind (after?_step shown found)

/-- A rule that leads to a state without rules is the last. -/
theorem last {r : Rule} (shown : cells h = s) (found : m.outline.rule? i s = some r)
    (final : ∀ t, m.outline.rule? r.next t = none) (n : Nat) :
    HaltsWithin m (1 + n) ⟨i, h, cells⟩ :=
  step shown found (stuck rfl (final _) n)

theorem each {q : String × List Rule} (stored : m.outline.states[i]? = some q)
    (rules : ∀ r ∈ q.2, cells h = r.read →
      HaltsWithin m n ⟨r.next, h + r.direction.delta, Function.update cells h r.write⟩) :
    HaltsWithin m (1 + n) ⟨i, h, cells⟩ := by
  cases found : m.outline.rule? i (cells h) with
  | none => exact stuck rfl found _
  | some r =>
    obtain ⟨⟨q', stored', listed⟩, read⟩ := Outline.mem_of_rule? found
    obtain rfl := Option.some.inj (stored.symm.trans stored')
    exact step rfl found (rules r listed read.symm)

end HaltsWithin

theorem update_beside {d : Direction} (moves : d ≠ .stay) (cells : Int → Symbol) (h : Int)
    (s : Symbol) : Function.update cells h s (h + d.delta) = cells (h + d.delta) := by
  refine Function.update_of_ne ?_ _ _
  cases d with
  | left | right => simp only [Direction.delta]; omega
  | stay => exact absurd rfl moves

/-- A machine that passes over no blank comes to a symbol of its row that it does not pass over, or
to the blank behind it. -/
theorem exists_unpassed (standing : ∀ q ∈ m.outline.states, ∀ r ∈ q.2,
    r.read = .blank → ¬ (r.write = r.read ∧ r.direction = .right)) (row : List Symbol) :
    ∃ k ≤ row.length, ∃ j, m.outline.scan? m.initial (row.take k) = some j ∧
      after? m k (start m row) = some ⟨j, k, contents row⟩ ∧
      m.outline.pass? j (contents row k) = none := by
  obtain ⟨passed, rest, j, rfl, scanned, stuck⟩ := m.outline.exists_scanned m.initial row
  refine ⟨passed.length, by simp, j, by rwa [List.take_left], after?_start scanned rest, ?_⟩
  cases rest with
  | nil =>
    rw [List.append_nil, contents_of_length_le (Int.le_refl _)]
    exact Description.Outline.pass?_blank_eq_none standing j
  | cons s rest =>
    rw [contents_append_length]
    exact stuck s rfl

end Textbook

namespace Machine

variable {m : Machine} {row : List Symbol} {n : Nat}

theorem exists_haltsAfter_le (valid : m.Valid)
    (halts : Textbook.HaltsWithin m n (.start m row)) : ∃ k ≤ n, ∃ c, m.HaltsAfter row k c := by
  obtain ⟨k, bound, d, arrives, halted⟩ := halts
  obtain ⟨c, halts, -⟩ := exists_haltsAfter valid arrives halted
  exact ⟨k, bound, c, halts⟩

end Machine

end OneTape
