import OneTape.Proofs.Execution.StepLimit
import OneTape.Proofs.Tape.Extent

open OneTape.Symbol

namespace OneTape

theorem Symbol.ofWritten_ne (c : Char) : ofWritten c ≠ placeholder := by
  unfold ofWritten
  split
  · decide
  · assumption

theorem Symbol.ofWritten_shown {s : Symbol} (legible : s ≠ placeholder) :
    ofWritten (shown s) = s := by
  unfold shown
  split
  · simp [ofWritten, *]
  · rw [ofWritten, if_neg legible]

theorem Symbol.ofWord_text {row : List Symbol} (legible : ∀ s ∈ row, s ≠ placeholder) :
    ofWord (text row) = row := by
  rw [ofWord, text, String.toList_ofList, List.map_map]
  calc
    row.map (ofWritten ∘ shown) = row.map id :=
      List.map_congr_left fun s member => ofWritten_shown (legible s member)
    _ = row := List.map_id row

namespace Tape

def Legible (t : Tape) : Prop := ∀ o, t.read o ≠ placeholder

variable {t : Tape}

theorem legible_ofWord (word : String) : (ofRow (ofWord word)).Legible := by
  intro o
  by_cases negative : o < 0
  · rw [read_ofRow_of_neg _ negative]
    decide
  obtain ⟨i, rfl⟩ := Int.eq_ofNat_of_zero_le (Int.not_lt.1 negative)
  rw [read_ofRow_natCast, ofWord, List.getElem?_map]
  cases word.toList[i]? with
  | none => decide
  | some c => exact ofWritten_ne c

theorem Legible.write (legible : t.Legible) {s : Symbol} (ne : s ≠ placeholder) (o : Int) :
    (t.write o s).Legible := by
  intro p
  rw [read_write]
  split
  · exact ne
  · exact legible p

theorem Legible.ofWord_render (legible : t.Legible) (first last : Int) :
    ofWord (t.render first last) = t.slice first last := by
  apply Symbol.ofWord_text
  intro s member
  obtain ⟨o, -, rfl⟩ := List.mem_map.1 member
  exact legible o

theorem Legible.ofWord_text (legible : t.Legible) : ofWord t.text = t.written.2 := by
  unfold Tape.text written
  split
  · exact legible.ofWord_render _ _
  · rfl

end Tape

namespace Machine

variable {m : Machine} {source word : String} {c : Configuration} {n : Nat}

/-! ## Runs -/

theorem write_ne_placeholder (parsed : Machine.ofText source = .ok m) {r : Rule}
    (applies : m.rule? c = some r) : r.write ≠ placeholder := by
  obtain ⟨q, member, listed⟩ := mem_rules_of_rule? applies
  obtain ⟨-, writable⟩ := (outline_valid parsed).writable _ (mem_outline member) r listed
  intro written
  exact writable (by simp [written, Description.unwritable, placeholder])

theorem legible_apply (parsed : Machine.ofText source = .ok m) {r : Rule}
    (applies : m.rule? c = some r) (legible : c.tape.Legible) : (c.apply r).tape.Legible :=
  legible.write (write_ne_placeholder parsed applies) c.head

theorem legible_after? (parsed : Machine.ofText source = .ok m)
    (reached : m.after? n (m.start (ofWord word)) = some c) : c.tape.Legible := by
  obtain ⟨-, rfl⟩ := after?_eq_some_iff.1 reached
  apply advance_induction (P := fun c => c.tape.Legible) (Tape.legible_ofWord word)
  intro c r applies legible
  exact legible_apply parsed applies legible

/-- The report is what a run on the word, with options or without, comes back with. -/
def Returns (m : Machine) (word : String) (r : Report) : Prop :=
  ∃ fuel, m.run (ofWord word) fuel = some r ∨
    ∃ options, m.runWith options (ofWord word) fuel = .halted r

theorem Returns.exists_haltsAfter {r : Report} (returned : m.Returns word r) :
    ∃ k c, m.HaltsAfter (ofWord word) k c ∧ (r.tapeOrigin, r.tape) = c.tape.written := by
  obtain ⟨fuel, returned | ⟨⟨limit, recordTrace⟩, returned⟩⟩ := returned
  · obtain ⟨k, c, halts, -, rfl⟩ := run_eq_some_iff.1 returned
    exact ⟨k, c, halts, rfl⟩
  · obtain ⟨k, c, halts, -, -, rfl⟩ := runWith_eq_halted_iff.1 returned
    exact ⟨k, c, halts, rfl⟩

theorem placeholder_not_on_tape (parsed : Machine.ofText source = .ok m) (word : String) :
    (∀ n c, m.after? n (m.start (ofWord word)) = some c →
      (∀ o, c.tape.read o ≠ '_') ∧
        ∀ first last, ofWord (c.tape.render first last) = c.tape.slice first last) ∧
    (∀ r, m.Returns word r → ofWord r.tapeText = r.tape ∧
      ∃ k c, m.HaltsAfter (ofWord word) k c ∧ (r.tapeOrigin, r.tape) = c.tape.written ∧
        (r.tapeOrigin = 0 →
          ∀ o, (m.start (ofWord r.tapeText)).tape.read o = c.tape.read o)) := by
  constructor
  · intro n c reached
    have legible := legible_after? parsed reached
    exact ⟨legible, legible.ofWord_render⟩
  · intro r returned
    obtain ⟨k, c, halts, written⟩ := returned.exists_haltsAfter
    have origin : r.tapeOrigin = c.tape.written.1 := congrArg Prod.fst written
    have tape : r.tape = c.tape.written.2 := congrArg Prod.snd written
    have readBack : ofWord r.tapeText = r.tape := by
      rw [Report.tapeText, tape]
      exact (legible_after? parsed halts.1).ofWord_text
    refine ⟨readBack, k, c, halts, written, fun placed o => ?_⟩
    rw [origin] at placed
    rw [readBack, tape]
    exact c.tape.read_ofRow_written placed o

theorem placeholder_not_on_tape_blank_between : ∃ m r k c,
    Machine.ofText "A, B\ninit A\nA:\n\t1, 0, >, A\n\t_, '_', >, B\n" = .ok m ∧
      m.run (ofWord "1_1") 5 = some r ∧ r.tapeText = "0_1" ∧ ofWord "0_1" = r.tape ∧
      m.HaltsAfter (ofWord "1_1") k c ∧ (∀ o, c.tape.read o ≠ '_') ∧
      ∀ o, (m.start (ofWord "0_1")).tape.read o = c.tape.read o := by
  have checked : ((Machine.ofText
      "A, B\ninit A\nA:\n\t1, 0, >, A\n\t_, '_', >, B\n").toOption.any fun m =>
        m.run (ofWord "1_1") 5 ==
          some ⟨"B", 1, .noMatchingRule, 2, 2, 0, ['0', blank, '1'], []⟩) = true := by
    decide +kernel
  cases parsed : Machine.ofText "A, B\ninit A\nA:\n\t1, 0, >, A\n\t_, '_', >, B\n" with
  | error e => simp [parsed, Except.toOption] at checked
  | ok m =>
    simp only [parsed, Except.toOption, Option.any_some, beq_iff_eq] at checked
    obtain ⟨cells, reports⟩ := placeholder_not_on_tape parsed "1_1"
    obtain ⟨readBack, k, c, halts, -, afresh⟩ := reports _ ⟨5, .inl checked⟩
    have shown : text ['0', blank, '1'] = "0_1" := by decide
    rw [Report.tapeText, shown] at readBack afresh
    exact ⟨m, _, k, c, rfl, checked, shown, readBack, halts, (cells k c halts.1).1, afresh rfl⟩

end Machine

end OneTape
