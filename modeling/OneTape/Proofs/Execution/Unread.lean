import Mathlib.Data.Char
import OneTape.Proofs.Execution.Trajectory
import OneTape.Proofs.Machine.Reachability
import OneTape.Proofs.Tape.Extent

namespace OneTape

namespace Machine

variable {m : Machine} {row : List Symbol} {c : Configuration} {s : Symbol} {i : Nat}

theorem mem_unhandledSymbols_iff :
    s ∈ m.unhandledSymbols row ↔ s ∈ row ∧ s ≠ Symbol.blank ∧ ¬ m.Reads s := by
  have handled : m.readSymbols.contains s = true ↔ m.Reads s := by
    rw [← Std.TreeSet.mem_iff_contains, mem_readSymbols_iff]
  rw [unhandledSymbols, Std.TreeSet.mem_toList, Std.TreeSet.mem_ofList, List.contains_iff_mem,
    List.mem_filter, Bool.and_eq_true, decide_eq_true_eq, Bool.not_eq_true', ← Bool.not_eq_true,
    handled]

theorem pairwise_unhandledSymbols (m : Machine) (row : List Symbol) :
    (m.unhandledSymbols row).Pairwise (·.toNat < ·.toNat) := by
  refine List.Pairwise.imp ?_ Std.TreeSet.ordered_toList
  intro a b before
  have less : a < b := compare_lt_iff_lt.1 before
  exact UInt32.lt_iff_toNat_lt.1 less

theorem checkInput_eq_none_iff :
    m.checkInput row = none ↔ ∀ s ∈ row, s ≠ Symbol.blank → m.Reads s := by
  have handled : m.checkInput row = none ↔ m.unhandledSymbols row = [] := by
    unfold checkInput
    cases m.unhandledSymbols row <;> simp
  rw [handled, List.eq_nil_iff_forall_not_mem]
  simp only [mem_unhandledSymbols_iff, not_and, not_not]

theorem checkInput_eq_some (unhandled : m.checkInput row ≠ none) :
    m.checkInput row = some (.unhandledSymbols (m.unhandledSymbols row)) := by
  unfold checkInput at unhandled ⊢
  dsimp only at unhandled ⊢
  split
  · rw [if_pos ‹_›] at unhandled
    exact absurd rfl unhandled
  · rfl

/-! ## What stops the head -/

theorem Valid.reads_symbol (valid : m.Valid) {r : Rule} (applies : m.rule? c = some r) :
    m.Reads c.symbol := by
  obtain ⟨q, member, listed⟩ := mem_rules_of_rule? applies
  exact ⟨q, member, r, listed, valid.read_eq_symbol applies⟩

theorem Valid.keeps_unread (valid : m.Valid) (unread : ¬ m.Reads s) {r : Rule} {o : Int}
    (applies : m.rule? c = some r) (before : c.tape.read o = s ∧ c.head ≤ o) :
    (c.apply r).tape.read o = s ∧ (c.apply r).head ≤ o := by
  obtain ⟨held, le⟩ := before
  have apart : o ≠ c.head := by
    rintro rfl
    exact unread (held ▸ valid.reads_symbol applies)
  have moved := head_apply_le c r
  constructor
  · calc
      (c.tape.write c.head r.write).read o = c.tape.read o := by
        rw [Tape.read_write, if_neg apart]
      _ = s := held
  · omega

theorem Valid.unread_wall (valid : m.Valid) (unread : ¬ m.Reads s) (held : row[i]? = some s)
    (visited : m.Visits row c) : c.tape.read i = s ∧ c.head ≤ i := by
  refine visited.induction (P := fun c => c.tape.read i = s ∧ c.head ≤ i) ⟨?_, ?_⟩
    fun c r applies before => valid.keeps_unread unread applies before
  · calc
      (Tape.ofRow row).read i = row[i]?.getD Symbol.blank := Tape.read_ofRow_natCast row i
      _ = s := by rw [held, Option.getD_some]
  · exact Int.natCast_nonneg i

theorem unread_symbols_stop_head {text : String} (parsed : Machine.ofText text = .ok m)
    (row : List Symbol) :
    (m.checkInput row = none ↔ ∀ s ∈ row, s ≠ Symbol.blank → m.Reads s) ∧
    (m.checkInput row ≠ none → ∃ symbols, m.checkInput row = some (.unhandledSymbols symbols) ∧
      (∀ s, s ∈ symbols ↔ s ∈ row ∧ s ≠ Symbol.blank ∧ ¬ m.Reads s) ∧
      symbols.Pairwise (·.toNat < ·.toNat)) ∧
    ∀ (i : Nat) s, row[i]? = some s → s ≠ Symbol.blank → ¬ m.Reads s → ∀ c, m.Visits row c →
      c.tape.read i = s ∧ (c.head = i → m.isHalted c = true) ∧ c.head ≤ i := by
  have valid := valid_ofText parsed
  refine ⟨checkInput_eq_none_iff, fun unhandled => ?_, fun i s held _ unread c visited => ?_⟩
  · exact ⟨_, checkInput_eq_some unhandled, fun _ => mem_unhandledSymbols_iff,
      pairwise_unhandledSymbols m row⟩
  · obtain ⟨kept, before⟩ := valid.unread_wall unread held visited
    refine ⟨kept, fun here => ?_, before⟩
    rw [isHalted_iff, Option.eq_none_iff_forall_ne_some]
    intro r applies
    rw [← here] at kept
    exact unread (kept ▸ valid.reads_symbol applies)

theorem unread_symbols_stop_head_two : ∃ m,
    Machine.ofText "A, B\ninit A\nA:\n\t1, 0, >, A\n" = .ok m ∧
      m.checkInput ['1', 'y', '1', 'x', 'y'] = some (.unhandledSymbols ['x', 'y']) ∧
      ∀ c, m.Visits ['1', 'y', '1', 'x', 'y'] c →
        c.tape.read 1 = 'y' ∧ (c.head = 1 → m.isHalted c = true) ∧ c.head ≤ 1 := by
  have checked : ((Machine.ofText "A, B\ninit A\nA:\n\t1, 0, >, A\n").toOption.any fun m =>
      m.checkInput ['1', 'y', '1', 'x', 'y'] == some (.unhandledSymbols ['x', 'y'])) = true := by
    decide +kernel
  cases parsed : Machine.ofText "A, B\ninit A\nA:\n\t1, 0, >, A\n" with
  | error e => simp [parsed, Except.toOption] at checked
  | ok m =>
    simp only [parsed, Except.toOption, Option.any_some, beq_iff_eq] at checked
    obtain ⟨-, listed, wall⟩ := unread_symbols_stop_head parsed ['1', 'y', '1', 'x', 'y']
    obtain ⟨symbols, warning, exactly, -⟩ := listed (by simp [checked])
    obtain rfl : symbols = ['x', 'y'] := by simpa [checked, eq_comm] using warning
    obtain ⟨-, solid, unread⟩ := (exactly 'y').1 (by decide)
    exact ⟨m, rfl, checked, wall 1 'y' rfl solid unread⟩

end Machine

end OneTape
