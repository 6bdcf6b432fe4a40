import OneTape.Proofs.Execution.Refinement
import OneTape.Proofs.Execution.StepLimit

namespace OneTape

namespace Textbook

variable {m : Machine} {row before behind : List Symbol} {c d : Textbook} {k : Nat}

/-- The configuration that `n` steps lead to, none if the machine halts before. -/
def after? (m : Machine) : Nat → Textbook → Option Textbook
  | 0, c => some c
  | n + 1, c => (c.rule? m).bind fun r => after? m n (c.apply r)

def placed (first : Int) (row : List Symbol) (o : Int) : Symbol := contents row (o - first)

theorem after?_add (j k : Nat) (c : Textbook) :
    after? m (j + k) c = (after? m j c).bind (after? m k) := by
  induction j generalizing c with
  | zero => rw [Nat.zero_add, after?, Option.bind_some]
  | succ j ih =>
    rw [Nat.succ_add, after?, after?, Option.bind_assoc]
    exact congrArg _ (funext fun r => ih (c.apply r))

theorem after?_one {r : Rule} (applies : c.rule? m = some r) : after? m 1 c = some (c.apply r) := by
  rw [after?, applies]
  rfl

theorem plain_after? (valid : m.Valid) (n : Nat) (c : Configuration) :
    (m.after? n c).map Configuration.plain = after? m n c.plain := by
  induction n generalizing c with
  | zero => rfl
  | succ n ih =>
    rw [Machine.after?, Machine.step?, after?, plain_rule? valid]
    cases m.rule? c with
    | none => rfl
    | some r =>
      rw [Option.map_some, Option.bind_some, Option.bind_some, ih, plain_apply]

/-! ## Rows on the tape -/

theorem contents_natCast (row : List Symbol) (i : Nat) :
    contents row i = row[i]?.getD Symbol.blank := rfl

theorem contents_of_neg {o : Int} (negative : o < 0) : contents row o = Symbol.blank := by
  obtain ⟨i, rfl⟩ := Int.eq_negSucc_of_lt_zero negative
  rfl

theorem contents_of_length_le {o : Int} (beyond : row.length ≤ o) :
    contents row o = Symbol.blank := by
  obtain ⟨i, rfl⟩ := Int.eq_ofNat_of_zero_le (by omega : 0 ≤ o)
  rw [contents_natCast, List.getElem?_eq_none (by omega), Option.getD_none]

@[simp] theorem contents_append_length (before : List Symbol) (s : Symbol)
    (behind : List Symbol) : contents (before ++ s :: behind) before.length = s := by
  simp [contents_natCast]

theorem update_contents (before : List Symbol) (s t : Symbol) (behind : List Symbol) :
    Function.update (contents (before ++ s :: behind)) before.length t =
      contents (before ++ t :: behind) := by
  funext o
  rw [Function.update_apply]
  cases o with
  | negSucc i => rw [if_neg (by omega)]; rfl
  | ofNat i =>
    by_cases here : i = before.length
    · subst here
      simp
    · have elsewhere : (Int.ofNat i) ≠ before.length := fun same => here (Int.ofNat.inj same)
      rw [if_neg elsewhere]
      simp only [contents, List.getElem?_append, List.getElem?_cons]
      split
      · rfl
      · rw [if_neg (by omega), if_neg (by omega)]

theorem update_contents_self {o : Int} {s : Symbol} (shown : contents row o = s) :
    Function.update (contents row) o s = contents row := by
  rw [← shown, Function.update_eq_self]

theorem placed_zero (row : List Symbol) : placed 0 row = contents row := by
  funext o
  rw [placed, Int.sub_zero]

theorem update_contents_before (s : Symbol) (row : List Symbol) :
    Function.update (contents row) (-1) s = placed (-1) (s :: row) := by
  funext o
  rw [Function.update_apply, placed]
  by_cases here : o = -1
  · subst here
    rfl
  · rw [if_neg here]
    by_cases negative : o < 0
    · rw [contents_of_neg negative, contents_of_neg (by omega)]
    · obtain ⟨i, rfl⟩ := Int.eq_ofNat_of_zero_le (Int.not_lt.1 negative)
      have next : (i : Int) - -1 = ((i + 1 : Nat) : Int) := by omega
      rw [next, contents_natCast, contents_natCast, List.getElem?_cons_succ]

theorem extent_eq {cells : Int → Symbol} {first last : Int}
    (extended : Tape.IsExtent cells first last) : extent cells = some (first, last) := by
  have found : ∃ ends : Int × Int, Tape.IsExtent cells ends.1 ends.2 := ⟨(first, last), extended⟩
  rw [extent, dif_pos found]
  exact congrArg some (found.choose_spec.unique extended)

theorem placed_add (first : Int) (row : List Symbol) (i : Nat) :
    placed first row (first + i) = row[i]?.getD Symbol.blank := by
  have offset : first + (i : Int) - first = i := by omega
  rw [placed, offset, contents_natCast]

theorem isExtent_placed {first : Int} (nonempty : row ≠ [])
    (starts : ∀ s ∈ row.head?, s ≠ Symbol.blank) (ends : ∀ s ∈ row.getLast?, s ≠ Symbol.blank) :
    Tape.IsExtent (placed first row) first (first + row.length - 1) := by
  have positive : 0 < row.length := List.length_pos_iff.2 nonempty
  constructor
  · have here := placed_add first row 0
    rw [Int.natCast_zero, Int.add_zero, ← List.head?_eq_getElem?,
      List.head?_eq_some_head nonempty] at here
    rw [here]
    exact starts _ (List.head?_eq_some_head nonempty)
  · have last : first + row.length - 1 = first + ((row.length - 1 : Nat) : Int) := by omega
    rw [last, placed_add, ← List.getLast?_eq_getElem?, List.getLast?_eq_some_getLast nonempty]
    exact ends _ (List.getLast?_eq_some_getLast nonempty)
  · intro o written
    constructor
    · by_contra before
      exact written (contents_of_neg (by omega))
    · by_contra beyond
      exact written (contents_of_length_le (by omega))

theorem map_offsets_placed (first : Int) (row : List Symbol) :
    (Tape.offsets first (first + row.length - 1)).map (placed first row) = row := by
  have count : (first + row.length - 1 + 1 - first).toNat = row.length := by omega
  rw [Tape.offsets, count, List.map_map]
  refine List.ext_getElem (by simp) fun i _ inside => ?_
  rw [List.getElem_map, List.getElem_range, Function.comp_apply, placed_add,
    List.getElem?_eq_getElem inside, Option.getD_some]

theorem written_placed {first : Int} (starts : ∀ s ∈ row.head?, s ≠ Symbol.blank)
    (ends : ∀ s ∈ row.getLast?, s ≠ Symbol.blank) (fixed : row = [] → first = 0) :
    written (placed first row) = (first, row) := by
  by_cases empty : row = []
  · subst empty
    have blank (o : Int) : placed first [] o = Symbol.blank := by
      by_cases negative : o - first < 0
      · exact contents_of_neg negative
      · exact contents_of_length_le (by simpa using negative)
    have nowhere : ¬ ∃ ends : Int × Int, Tape.IsExtent (placed first []) ends.1 ends.2 :=
      fun ⟨_, extended⟩ => extended.first_ne (blank _)
    rw [written, extent, dif_neg nowhere, fixed rfl]
  · rw [written, extent_eq (isExtent_placed empty starts ends)]
    exact Prod.ext rfl (map_offsets_placed first row)

end Textbook

namespace Machine

variable {m : Machine} {row : List Symbol} {k : Nat} {d : Textbook}

/-! ## Verdicts -/

theorem exists_haltsAfter (valid : m.Valid) (arrives : Textbook.after? m k (.start m row) = some d)
    (halted : d.rule? m = none) : ∃ c, m.HaltsAfter row k c ∧ c.plain = d := by
  rw [← Textbook.plain_start, ← Textbook.plain_after? valid, Option.map_eq_some_iff] at arrives
  obtain ⟨c, reached, rfl⟩ := arrives
  rw [Textbook.plain_rule? valid] at halted
  exact ⟨c, ⟨reached, isHalted_iff.2 halted⟩, rfl⟩

theorem judge_of_arrival (valid : m.Valid)
    (arrives : Textbook.after? m k (.start m row) = some d) (halted : d.rule? m = none)
    (fuel : Nat) :
    m.judge row fuel = if k ≤ fuel then
      some (Textbook.report m k d [], .ofBool (m.isAcceptingId d.state)) else none := by
  obtain ⟨c, halts, rfl⟩ := exists_haltsAfter valid arrives halted
  have taken : c.steps = k := by
    obtain ⟨length, rfl⟩ := after?_eq_some_iff.1 halts.1
    rw [steps_advance, length, start, Nat.zero_add]
  rw [halts.judge_eq, Textbook.report_eq, taken, Configuration.plain]

end Machine

end OneTape
