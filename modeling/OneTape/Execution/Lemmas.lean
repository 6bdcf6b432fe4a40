import OneTape.Execution

namespace OneTape

namespace Machine

variable {α : Type} {m : Machine} {limit : Option Nat} {visit : α → Configuration → Rule → α}

theorem drive_add {fuel : Nat} {c d : Configuration} {record final : α} {stop : Stop}
    (ended : m.drive limit visit fuel c record = (stop, d, final)) (h : stop ≠ .fuel)
    (extra : Nat) :
    m.drive limit visit (fuel + extra) c record = (stop, d, final) := by
  induction fuel generalizing c record with
  | zero =>
    unfold drive at ended ⊢
    split at ended
    · rw [if_pos ‹_›]; exact ended
    · rw [if_neg ‹_›]
      split at ended
      · exact ended
      · simp only [Prod.mk.injEq] at ended
        exact absurd ended.1.symm h
  | succ fuel ih =>
    rw [Nat.succ_add]
    unfold drive at ended ⊢
    split at ended
    · rw [if_pos ‹_›]; exact ended
    · rw [if_neg ‹_›]
      split at ended
      · exact ended
      · exact ih ended

end Machine

end OneTape
