import OneTape.Proofs.Execution.Trajectory
import OneTape.Proofs.Tape.Extent

namespace OneTape

namespace Configuration

variable {c : Configuration} {k : Nat}

theorem indentation_le_iff :
    c.indentation ≤ k ↔ ∀ o, c.tape.read o ≠ Symbol.blank → c.head - o ≤ k := by
  unfold indentation window
  cases bounded : c.tape.bounds with
  | none =>
    have blank := Tape.bounds_eq_none c.tape bounded
    simp [blank]
  | some bounds =>
    obtain ⟨first, last⟩ := bounds
    have extent := Tape.bounds_isExtent c.tape bounded
    dsimp only
    constructor
    · intro le o written
      have inside := (extent.mem o written).1
      omega
    · intro each
      have first_le := each first extent.first_ne
      omega

end Configuration

namespace Machine

variable {m : Machine} {row : List Symbol} {c : Configuration}

theorem picture?_isSome_iff : (m.picture? c).isSome = true ↔
    ∀ o, c.tape.read o ≠ Symbol.blank → c.head - o ≤ Configuration.maxIndentation := by
  rw [← Configuration.indentation_le_iff, picture?]
  split <;> simp [*]

theorem Visits.head_sub_le (visited : m.Visits row c) :
    ∀ o, c.tape.read o ≠ Symbol.blank → c.head - o ≤ c.steps := by
  refine visited.induction (P := fun c => ∀ o, c.tape.read o ≠ Symbol.blank → c.head - o ≤ c.steps)
    (fun o written => ?start) (fun c r _ kept o written => ?step)
  case start =>
    by_contra beyond
    have negative : o < 0 := by
      have : (m.start row).head = 0 := rfl
      have : (m.start row).steps = 0 := rfl
      omega
    exact written (Tape.read_ofRow_of_neg row negative)
  case step =>
    have moved := head_apply_le c r
    rw [apply_steps]
    by_cases here : o = c.head
    · omega
    · have same : (c.apply r).tape.read o = c.tape.read o := by
        show (c.tape.write c.head r.write).read o = _
        rw [Tape.read_write, if_neg here]
      have := kept o (same ▸ written)
      omega

theorem Visits.picture?_isSome (visited : m.Visits row c)
    (few : c.steps ≤ Configuration.maxIndentation) : (m.picture? c).isSome = true := by
  refine picture?_isSome_iff.2 fun o written => ?_
  have := visited.head_sub_le o written
  omega

end Machine

end OneTape
