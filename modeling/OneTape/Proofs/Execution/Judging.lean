import OneTape.Proofs.Execution.Findings
import OneTape.Proofs.Tape.Contents

namespace OneTape

/-- The symbol at an offset of the reported tape, a blank on either side of it. -/
def Report.symbolAt (r : Report) (o : Int) : Symbol :=
  if r.tapeOrigin ≤ o then r.tape[(o - r.tapeOrigin).toNat]?.getD Symbol.blank else Symbol.blank

theorem Verdict.ofBool_eq_accepted_iff {b : Bool} : ofBool b = accepted ↔ b = true := by
  cases b <;> simp [ofBool]

namespace Machine

variable {m : Machine} {row : List Symbol} {c : Configuration} {k i : Nat} {q : State}

theorem symbolAt_report (c : Configuration) (trace : List TraceEntry) (o : Int) :
    (m.report c trace).symbolAt o = c.tape.read o := by
  calc
    (m.report c trace).symbolAt o =
        (Tape.ofRow c.tape.written.2).read (o - c.tape.written.1) := by
      rw [Tape.read_ofRow]
      exact if_congr Int.sub_nonneg.symm rfl rfl
    _ = c.tape.read o := c.tape.read_written o

theorem HaltsAfter.visits (halts : m.HaltsAfter row k c) : m.Visits row c := ⟨k, halts.1⟩

namespace Consistent

theorem name_mem_acceptingStates_iff (consistent : m.Consistent) (stored : m.state? i = some q) :
    q.name ∈ m.acceptingStates.map State.name ↔ i ∈ m.accepting := by
  simp only [acceptingStates, List.mem_map, List.mem_filterMap]
  constructor
  · rintro ⟨p, ⟨j, listed, stored'⟩, same⟩
    obtain rfl := consistent.eq_of_name stored' stored same
    exact listed
  · intro listed
    exact ⟨q, ⟨i, listed, stored⟩, rfl⟩

theorem isAccepting_name (consistent : m.Consistent) (stored : m.state? i = some q) :
    m.isAccepting q.name = true ↔ i ∈ m.accepting := by
  rw [isAccepting, consistent.idOf?_name stored, Option.any_some, consistent.isAcceptingId_iff]

end Consistent

/-- All ways of judging a run that halts come to the same. -/
theorem judgements_agree {text : String} (parsed : Machine.ofText text = .ok m)
    (halts : m.HaltsAfter row k c) :
    ∃ r v, (∀ fuel, k ≤ fuel → m.run row fuel = some r ∧ m.judge row fuel = some (r, v)) ∧
      (v = .accepted ↔ r.finalStateId ∈ m.accepting) ∧
      (v = .accepted ↔ m.isAccepting r.finalState = true) ∧
      (v = .accepted ↔ r.finalState ∈ m.acceptingStates.map State.name) ∧
      m.idOf? r.finalState = some r.finalStateId ∧
      ∃ q, m.state? r.finalStateId = some q ∧ q.name = r.finalState ∧
        q.rule? (r.symbolAt r.head) = none ∧ ∀ p ∈ q.rules.toList, p.read ≠ r.symbolAt r.head := by
  have consistent := consistent_ofText parsed
  obtain ⟨q, stored⟩ := halts.visits.exists_state consistent.valid
  have name : m.nameOf c.state = q.name := by simp [nameOf, stored]
  have accepted : Verdict.ofBool (m.isAcceptingId c.state) = .accepted ↔ c.state ∈ m.accepting := by
    rw [Verdict.ofBool_eq_accepted_iff, consistent.isAcceptingId_iff]
  have stuck : q.rule? c.symbol = none := by
    have halted := isHalted_iff.1 halts.2
    rwa [rule?, stored, Option.bind_some] at halted
  have under_head : (m.report c []).symbolAt (m.report c []).head = c.symbol :=
    symbolAt_report c [] c.head
  refine ⟨m.report c [], .ofBool (m.isAcceptingId c.state), fun fuel enough => ⟨?run, ?judge⟩,
    accepted, ?name, ?names, ?id, q, stored, name.symm, ?stuck, ?rules⟩
  case run => exact halts.run enough
  case judge => rw [halts.judge_eq, if_pos enough]
  case name =>
    change _ ↔ m.isAccepting (m.nameOf c.state) = true
    rw [accepted, name, consistent.isAccepting_name stored]
  case names =>
    change _ ↔ m.nameOf c.state ∈ _
    rw [accepted, name, consistent.name_mem_acceptingStates_iff stored]
  case id =>
    change m.idOf? (m.nameOf c.state) = some c.state
    rw [name, consistent.idOf?_name stored]
  case stuck => rw [under_head, stuck]
  case rules =>
    intro p listed read
    rw [under_head] at read
    have applies : q.rule? c.symbol = some p :=
      (consistent.rule?_eq_some_iff stored).2 ⟨listed, read⟩
    rw [stuck] at applies
    cases applies

theorem judgements_agree_left_of_input : ∃ m r,
    Machine.ofText "A, B\ninit A\naccept B\nA:\n\t1, 0, <, B\n" = .ok m ∧
      m.judge ['1'] 1 = some (r, .accepted) ∧ r.finalState = "B" ∧ m.isAccepting "B" = true ∧
      m.idOf? "B" = some r.finalStateId ∧ r.head = -1 ∧ r.symbolAt (-1) = Symbol.blank ∧
      ∃ q, m.state? r.finalStateId = some q ∧ q.rule? (r.symbolAt r.head) = none := by
  have checked : ((Machine.ofText
      "A, B\ninit A\naccept B\nA:\n\t1, 0, <, B\n").toOption.any fun m =>
        (m.path 1 (m.start ['1'])).length == 1 && m.isHalted (m.advance 1 (m.start ['1'])) &&
          m.judge ['1'] 1 ==
            some (⟨"B", 1, .noMatchingRule, 1, -1, 0, ['0'], []⟩, .accepted)) = true := by
    decide +kernel
  cases parsed : Machine.ofText "A, B\ninit A\naccept B\nA:\n\t1, 0, <, B\n" with
  | error e => simp [parsed, Except.toOption] at checked
  | ok m =>
    simp only [parsed, Except.toOption, Option.any_some, Bool.and_eq_true, beq_iff_eq] at checked
    obtain ⟨⟨taken, halted⟩, judged⟩ := checked
    have halts : m.HaltsAfter ['1'] 1 (m.advance 1 (m.start ['1'])) :=
      haltsAfter_iff.2 ⟨taken, rfl, halted⟩
    obtain ⟨r, v, returned, -, name, -, id, q, stored, -, stuck, -⟩ := judgements_agree parsed halts
    obtain ⟨rfl, rfl⟩ : r = _ ∧ v = _ := by
      have same := (returned 1 (Nat.le_refl 1)).2.symm.trans judged
      exact Prod.mk.inj (Option.some.inj same)
    exact ⟨m, _, rfl, judged, rfl, name.1 rfl, id, rfl, by decide, q, stored, stuck⟩

end Machine

end OneTape
