import OneTape.Proofs.Catalog.Entries
import OneTape.Proofs.Execution.Halting

namespace OneTape

namespace Catalog

open Textbook Description

variable {m : Machine} {cells : Int → Symbol} {h : Int} {n : Nat}

theorem halts_evenOnes (table : m.outline = evenOnesTable) (row : List Symbol) :
    HaltsWithin m row.length (.start m row) := by
  have passing : ∀ q ∈ evenOnesTable.states, ∀ r ∈ q.2,
      (r.write = r.read ∧ r.direction = .right) ∨ False := by decide
  obtain ⟨k, bound, j, -, reached, stuck⟩ := exists_unpassed (by rw [table]; decide) row
  rcases Outline.rule?_of_pass?_eq_none stuck
    (table ▸ fun q stored => passing q (List.mem_of_getElem? stored)) with none_applies | ⟨-, -, no⟩
  · exact ((HaltsWithin.stuck rfl none_applies 0).behind reached).mono bound
  · cases no

theorem halts_onesZerosOne (table : m.outline = onesZerosOneTable) (row : List Symbol) :
    HaltsWithin m (row.length + 1) (.start m row) := by
  have others : ∀ q ∈ onesZerosOneTable.states, ∀ r ∈ q.2,
      (r.write = r.read ∧ r.direction = .right) ∨ r.next = 5 := by decide
  have last (s : Symbol) : m.outline.rule? 5 s = none := by rw [table]; rfl
  obtain ⟨k, bound, j, -, reached, stuck⟩ := exists_unpassed (by rw [table]; decide) row
  refine (HaltsWithin.behind ?_ reached).mono (Nat.add_le_add_right bound 1)
  rcases Outline.rule?_of_pass?_eq_none stuck
    (table ▸ fun q stored => others q (List.mem_of_getElem? stored)) with
    none_applies | ⟨r, found, next⟩
  · exact .stuck rfl none_applies 1
  · exact .last rfl found (fun s => next ▸ last s) 0

section Increment

variable (table : m.outline = binaryIncrementTable)

include table

/-- The carry stops on the blank before the row at the latest. -/
theorem halts_carry (n : Nat) (before : ∀ o < 0, cells o = .blank) :
    HaltsWithin m (1 + n) ⟨1, n - 1, cells⟩ := by
  have stored : m.outline.states[1]? = some ("carry",
      [⟨'1', '0', .left, 1⟩, ⟨'0', '1', .stay, 2⟩, ⟨.blank, '1', .stay, 2⟩]) := by rw [table]; rfl
  have done (s : Symbol) : m.outline.rule? 2 s = none := by rw [table]; rfl
  induction n generalizing cells with
  | zero =>
    have stop : m.outline.rule? 1 .blank = some ⟨.blank, '1', .stay, 2⟩ := by rw [table]; rfl
    exact .last (before _ (by decide)) stop done 0
  | succ n ih =>
    refine .each stored fun r listed _ => ?_
    simp only [List.mem_cons, List.not_mem_nil, or_false] at listed
    rcases listed with rfl | rfl | rfl
    · have left : ((n + 1 : Nat) : Int) - 1 + Direction.left.delta = n - 1 := by
        simp only [Direction.delta]
        omega
      rw [left, Nat.add_comm n 1]
      refine ih fun o negative => ?_
      rw [Function.update_of_ne (by omega), before o negative]
    · exact .stuck rfl (done _) _
    · exact .stuck rfl (done _) _

theorem halts_binaryIncrement (row : List Symbol) :
    HaltsWithin m (2 * row.length + 2) (.start m row) := by
  have initial : m.initial = 0 := congrArg Outline.initial table
  have others : ∀ q, binaryIncrementTable.states[0]? = some q → ∀ r ∈ q.2,
      (r.write = r.read ∧ r.direction = .right) ∨ r = ⟨.blank, .blank, .left, 1⟩ := by
    rintro q ⟨⟩
    decide
  obtain ⟨k, bound, j, scanned, reached, stuck⟩ := exists_unpassed (by rw [table]; decide) row
  obtain rfl : j = 0 := by
    rw [table, initial] at scanned
    exact Outline.scan?_induction (P := (· = 0)) (by decide) rfl scanned
  refine (HaltsWithin.behind (n := 1 + (1 + k)) ?_ reached).mono (by omega)
  rcases Outline.rule?_of_pass?_eq_none stuck (table ▸ others) with none_applies | ⟨r, found, rfl⟩
  · exact .stuck rfl none_applies _
  · refine .step rfl found (halts_carry table k fun o negative => ?_)
    rw [Function.update_of_ne (by omega), contents_of_neg negative]

end Increment

/-! ## The busy beaver -/

section Beaver

variable (table : m.outline = busyBeaver2Table)

include table

theorem halts_second_on_one (one : cells h = '1') : HaltsWithin m 1 ⟨1, h, cells⟩ := by
  have rule : m.outline.rule? 1 '1' = some ⟨'1', '1', .right, 2⟩ := by rw [table]; rfl
  exact .last one rule (fun s => by rw [table]; rfl) 0

theorem halts_first_before_one (blank : cells h = .blank) (one : cells (h + 1) = '1') :
    HaltsWithin m 2 ⟨0, h, cells⟩ := by
  have rule : m.outline.rule? 0 .blank = some ⟨.blank, '1', .right, 1⟩ := by rw [table]; rfl
  refine .step blank rule (halts_second_on_one table ?_)
  exact (update_beside (by decide) ..).trans one

theorem halts_second_on_blanks (blank : cells h = .blank) (before : cells (h - 1) = .blank) :
    HaltsWithin m 3 ⟨1, h, cells⟩ := by
  have rule : m.outline.rule? 1 .blank = some ⟨.blank, '1', .left, 0⟩ := by rw [table]; rfl
  refine .step blank rule (halts_first_before_one table ?_ ?_)
  · exact (update_beside (by decide) ..).trans before
  · have back : h + Direction.left.delta + 1 = h := by simp only [Direction.delta]; omega
    rw [back, Function.update_self]

theorem halts_first_on_one (one : cells h = '1') (before : cells (h - 1) = .blank)
    (further : cells (h - 2) = .blank) : HaltsWithin m 4 ⟨0, h, cells⟩ := by
  have rule : m.outline.rule? 0 '1' = some ⟨'1', '1', .left, 1⟩ := by rw [table]; rfl
  refine .step one rule (halts_second_on_blanks table ?_ ?_)
  · exact (update_beside (by decide) ..).trans before
  · have left : h + Direction.left.delta - 1 = h - 2 := by simp only [Direction.delta]; omega
    rw [left, Function.update_of_ne (by omega), further]

/-- The head comes back to a one where it started, or meets a one beside it. -/
theorem halts_busyBeaver2 (row : List Symbol) : HaltsWithin m 6 (.start m row) := by
  have initial : m.initial = 0 := congrArg Outline.initial table
  have first : m.outline.states[0]? =
      some ("A", [⟨.blank, '1', .right, 1⟩, ⟨'1', '1', .left, 1⟩]) := by rw [table]; rfl
  have second : m.outline.states[1]? =
      some ("B", [⟨.blank, '1', .left, 0⟩, ⟨'1', '1', .right, 2⟩]) := by rw [table]; rfl
  have third (s : Symbol) : m.outline.rule? 2 s = none := by rw [table]; rfl
  have before (o : Int) (negative : o < 0) : contents row o = .blank := contents_of_neg negative
  rw [start, initial]
  refine .each (n := 5) first fun r listed read => ?_
  simp only [List.mem_cons, List.not_mem_nil, or_false] at listed
  rcases listed with rfl | rfl
  · -- The first one is written where the head starts, and the head comes back to it, unless it
    -- meets another.
    have origin : Function.update (Function.update (contents row) 0 '1') 1 '1' 0 = '1' := by
      rw [Function.update_of_ne (by decide), Function.update_self]
    have blank (o : Int) (negative : o < 0) :
        Function.update (Function.update (contents row) 0 '1') 1 '1' o = .blank := by
      rw [Function.update_of_ne (by omega), Function.update_of_ne (by omega), before o negative]
    refine .each (n := 4) second fun r listed read => ?_
    simp only [List.mem_cons, List.not_mem_nil, or_false] at listed
    rcases listed with rfl | rfl
    · exact halts_first_on_one table origin (blank _ (by decide)) (blank _ (by decide))
    · exact .stuck rfl (third _) 4
  · refine (halts_second_on_blanks table ?_ ?_).mono (by decide)
    · exact (update_beside (by decide) ..).trans (before _ (by decide))
    · exact (Function.update_of_ne (by decide) ..).trans (before _ (by decide))

end Beaver

/-! ## All of them -/

theorem exists_entry {name : String} (found : Machine.builtin name = .ok m) :
    ∃ text, (name, text) ∈ descriptions ∧ Machine.ofText text = .ok m := by
  rw [builtin_eq] at found
  dsimp only at found
  cases listed : machine? name with
  | none =>
    rw [listed] at found
    cases found
  | some m' =>
    rw [listed] at found
    obtain rfl := Except.ok.inj found
    obtain ⟨text, entry, parsed⟩ := Option.bind_eq_some_iff.1 ((machine?_eq name).symm.trans listed)
    refine ⟨text, ?_, ?_⟩
    · obtain ⟨before, behind, split, -⟩ := List.lookup_eq_some_iff.1 entry
      exact split ▸ List.mem_append_right before List.mem_cons_self
    · cases read : Machine.ofText text with
      | error e => simp [read, Except.toOption] at parsed
      | ok m => simpa [read, Except.toOption] using parsed

theorem names_eq : names = descriptions.map Prod.fst := by
  obtain ⟨m₁, first, -⟩ := Option.map_eq_some_iff.1 outline_onesZerosOne
  obtain ⟨m₂, second, -⟩ := Option.map_eq_some_iff.1 outline_evenOnes
  obtain ⟨m₃, third, -⟩ := Option.map_eq_some_iff.1 outline_binaryIncrement
  obtain ⟨m₄, fourth, -⟩ := Option.map_eq_some_iff.1 outline_busyBeaver2
  simp [names, machines, descriptions, first, second, third, fourth]

theorem halts_of_entry {name text : String} (entry : (name, text) ∈ descriptions)
    (parsed : Machine.ofText text = .ok m) (row : List Symbol) :
    HaltsWithin m (2 * row.length + 6) (.start m row) := by
  have outline {o : Outline} (read : (Machine.ofText text).toOption.map Machine.outline = some o) :
      m.outline = o := by simpa [parsed, Except.toOption] using read
  simp only [descriptions, List.mem_cons, Prod.mk.injEq, List.not_mem_nil, or_false] at entry
  rcases entry with ⟨-, rfl⟩ | ⟨-, rfl⟩ | ⟨-, rfl⟩ | ⟨-, rfl⟩
  · exact (halts_onesZerosOne (outline outline_onesZerosOne) row).mono (by omega)
  · exact (halts_evenOnes (outline outline_evenOnes) row).mono (by omega)
  · exact (halts_binaryIncrement (outline outline_binaryIncrement) row).mono (by omega)
  · exact (halts_busyBeaver2 (outline outline_busyBeaver2) row).mono (by omega)

/-- Every built-in machine halts on every row within twice its length and six steps more. -/
theorem builtins_halt :
    names = ["ones-zeros-one", "even-ones", "binary-increment", "busy-beaver-2"] ∧
    ∀ name m, Machine.builtin name = .ok m → ∀ row recordTrace, ∃ limited report v,
      ∀ fuel, 2 * row.length + 6 ≤ fuel →
        m.runWith ⟨some (2 * row.length + 6), recordTrace⟩ row fuel = .halted limited ∧
        m.run row fuel = some report ∧ m.judge row fuel = some (report, v) := by
  refine ⟨names_eq, fun name m found row recordTrace => ?_⟩
  obtain ⟨text, entry, parsed⟩ := exists_entry found
  obtain ⟨k, bound, c, halts⟩ :=
    Machine.exists_haltsAfter_le (Machine.valid_ofText parsed) (halts_of_entry entry parsed row)
  have allowed : ∀ l ∈ some (2 * row.length + 6), k ≤ l := by
    rintro l ⟨⟩
    exact bound
  refine ⟨m.closing row recordTrace k c, m.report c [], .ofBool (m.isAcceptingId c.state),
    fun fuel fits => ?_⟩
  have enough := Nat.le_trans bound fits
  have judged := (halts.judge_eq fuel).trans (if_pos enough)
  exact ⟨halts.runWith allowed enough, halts.run enough, judged⟩

theorem builtins_halt_beaver : ∃ m r report, Machine.builtin "busy-beaver-2" = .ok m ∧
    m.runWith ⟨some 6, true⟩ [] 6 = .halted r ∧ m.run [] 100 = some report := by
  obtain ⟨m, found, -⟩ : ∃ m, Machine.builtin "busy-beaver-2" = .ok m ∧
      Machine.ofText busyBeaver2 = .ok m ∧ m.outline = busyBeaver2Table :=
    exists_builtin rfl outline_busyBeaver2
  obtain ⟨r, report, v, halts⟩ := builtins_halt.2 _ m found [] true
  exact ⟨m, r, report, found, (halts 6 (by decide)).1, (halts 100 (by decide)).2.1⟩

end Catalog

end OneTape
