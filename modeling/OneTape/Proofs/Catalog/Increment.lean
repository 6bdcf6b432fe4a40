import Mathlib.Data.List.DropRight
import Mathlib.Data.Nat.Digits.Defs
import OneTape.Proofs.Catalog.Entries

namespace OneTape

namespace Catalog

variable {word front : List Symbol} {t : Nat}

def digit (s : Symbol) : Nat := if s = '1' then 1 else 0

@[simp] theorem digit_zero : digit '0' = 0 := rfl

@[simp] theorem digit_one : digit '1' = 1 := rfl

/-- The number that a word stands for, its first digit being the most significant. -/
def value (word : List Symbol) : Nat := Nat.ofDigits 2 (word.map digit).reverse

def trailingOnes (word : List Symbol) : Nat := (word.rtakeWhile (· = '1')).length

theorem value_concat (word : List Symbol) (s : Symbol) :
    value (word ++ [s]) = digit s + 2 * value word := by
  rw [value, List.map_append, List.reverse_append]
  rfl

theorem value_cons_zero (word : List Symbol) : value ('0' :: word) = value word := by
  rw [value, List.map_cons, List.reverse_cons]
  exact Nat.ofDigits_append_zero _

/-- Carrying through ones adds one. -/
theorem value_carry (front : List Symbol) (t : Nat) :
    value (front ++ '1' :: List.replicate t '0') =
      value (front ++ '0' :: List.replicate t '1') + 1 := by
  induction t with
  | zero =>
    rw [List.replicate_zero, List.replicate_zero, value_concat, value_concat, digit_zero,
      digit_one]
    omega
  | succ t ih =>
    have longer (s u : Symbol) : front ++ s :: List.replicate (t + 1) u =
        front ++ s :: List.replicate t u ++ [u] := by
      simp [List.replicate_succ']
    rw [longer, longer, value_concat, value_concat, ih, digit_zero, digit_one]
    omega

theorem exists_front (word : List Symbol) : ∃ front,
    word = front ++ List.replicate (trailingOnes word) '1' ∧ ∀ s ∈ front.getLast?, s ≠ '1' := by
  refine ⟨word.rdropWhile (· = '1'), ?_, fun s ends => ?_⟩
  · have ones : word.rtakeWhile (· = '1') = List.replicate (trailingOnes word) '1' :=
      List.eq_replicate_iff.2 ⟨rfl, fun s member => by simpa using List.mem_rtakeWhile_imp member⟩
    rw [← ones, List.rdropWhile_append_rtakeWhile]
  · obtain ⟨nonempty, rfl⟩ := List.mem_getLast?_eq_getLast ends
    simpa using List.rdropWhile_last_not (· = '1') word nonempty

theorem IsBinary.eq_ones_or (binary : IsBinary word) :
    word = List.replicate (trailingOnes word) '1' ∨
      ∃ front, word = front ++ '0' :: List.replicate (trailingOnes word) '1' := by
  obtain ⟨front, eq, ends⟩ := exists_front word
  obtain rfl | ⟨init, last, rfl⟩ := List.eq_nil_or_concat' front
  · exact .inl eq
  · have zero : last = '0' :=
      (binary last (by rw [eq]; simp)).resolve_right (ends last (by simp))
    refine .inr ⟨init, ?_⟩
    rw [zero, List.append_assoc] at eq
    exact eq

/-! ## Runs -/

section Runs

variable {m : Machine} (table : m.outline = binaryIncrementTable)

include table

theorem scan?_increment (binary : IsBinary word) : m.outline.scan? m.initial word = some 0 := by
  have initial : m.initial = 0 := congrArg Description.Outline.initial table
  rw [table, initial]
  induction word with
  | nil => rfl
  | cons s word ih =>
    obtain ⟨first, rest⟩ := isBinary_cons.1 binary
    have passed : binaryIncrementTable.pass? 0 s = some 0 := by
      rcases first with rfl | rfl <;> rfl
    rw [Description.Outline.scan?_cons, passed, Option.bind_some, ih rest]

/-- Up to where the carry stops. -/
theorem after?_carry (front : List Symbol) (t : Nat)
    (binary : IsBinary (front ++ List.replicate t '1')) :
    Textbook.after? m ((front ++ List.replicate t '1').length + 1 + t)
      (.start m (front ++ List.replicate t '1')) =
        some ⟨1, front.length - 1, Textbook.contents (front ++ List.replicate t '0')⟩ := by
  have turn : m.outline.rule? 0 .blank = some ⟨.blank, .blank, .left, 1⟩ := by rw [table]; rfl
  have carry : m.outline.rule? 1 '1' = some ⟨'1', '0', .left, 1⟩ := by rw [table]; rfl
  generalize scanned : front ++ List.replicate t '1' = word at binary ⊢
  have arrived := Textbook.after?_start (scan?_increment table binary) []
  have beyond : Textbook.contents word word.length = .blank :=
    Textbook.contents_of_length_le (Int.le_refl _)
  rw [List.append_nil] at arrived
  rw [Textbook.after?_add, Textbook.after?_add, arrived, Option.bind_some,
    Textbook.after?_step beyond turn, Option.bind_some, Textbook.update_contents_self beyond]
  have back := Textbook.after?_rewrite carry front t []
  rw [List.append_nil, List.append_nil] at back
  rw [← back, ← scanned]
  congr 3
  simp [Direction.delta]
  omega

theorem after?_zero (binary : IsBinary word) (ends : word = front ++ '0' :: List.replicate t '1') :
    Textbook.after? m (word.length + t + 2) (.start m word) =
      some ⟨2, front.length, Textbook.contents (front ++ '1' :: List.replicate t '0')⟩ := by
  have stop : m.outline.rule? 1 '0' = some ⟨'0', '1', .stay, 2⟩ := by rw [table]; rfl
  have split (u : Symbol) : front ++ '0' :: List.replicate t u =
      (front ++ ['0']) ++ List.replicate t u := by simp
  rw [split] at ends
  subst ends
  have carried := after?_carry table _ t binary
  have head : ((front ++ ['0']).length : Int) - 1 = front.length := by simp
  rw [head, ← split '0'] at carried
  have steps (n : Nat) : n + t + 2 = n + 1 + t + 1 := by omega
  rw [steps, Textbook.after?_add, carried, Option.bind_some,
    Textbook.after?_step (Textbook.contents_append_length ..) stop, Textbook.update_contents]
  simp [Direction.delta]

theorem after?_ones (ones : word = List.replicate t '1') :
    Textbook.after? m (word.length + t + 2) (.start m word) =
      some ⟨2, -1, Textbook.placed (-1) ('1' :: List.replicate t '0')⟩ := by
  have stop : m.outline.rule? 1 .blank = some ⟨.blank, '1', .stay, 2⟩ := by rw [table]; rfl
  have carried := after?_carry table [] t (isBinary_ones t)
  have before : Textbook.contents (List.replicate t '0') (-1) = .blank :=
    Textbook.contents_of_neg (by decide)
  rw [List.nil_append, List.nil_append, ← ones] at carried
  have steps : word.length + t + 2 = word.length + 1 + t + 1 := by omega
  rw [steps, Textbook.after?_add, carried, Option.bind_some]
  exact (Textbook.after?_step before stop).trans
    (by rw [Textbook.update_contents_before]; rfl)

end Runs

theorem increment_adds_one : ∃ m, Machine.builtin "binary-increment" = .ok m ∧
    ∀ word, IsBinary word → ∃ r : Report,
      (∀ fuel, m.judge word fuel =
        if word.length + trailingOnes word + 2 ≤ fuel then some (r, .accepted) else none) ∧
      r.steps = word.length + trailingOnes word + 2 ∧ r.finalState = "done" ∧
      r.head = word.length - 1 - trailingOnes word ∧
      IsBinary r.tape ∧ value r.tape = value word + 1 ∧
      ('0' ∈ word → r.tapeOrigin = 0 ∧ r.tape.length = word.length ∧
        r.tape.take (word.length - 1 - trailingOnes word) =
          word.take (word.length - 1 - trailingOnes word)) ∧
      ('0' ∉ word → r.tapeOrigin = -1 ∧ r.tape = '1' :: List.replicate word.length '0') := by
  have entry : source? "binary-increment" = some binaryIncrement := rfl
  obtain ⟨m, found, parsed, table⟩ := exists_builtin entry outline_binaryIncrement
  have done (s : Symbol) : m.outline.rule? 2 s = none := by rw [table]; rfl
  refine ⟨m, found, fun word binary => ?_⟩
  generalize count : trailingOnes word = t
  -- The carry stops on the blank before a word of ones, and on the last zero of any other word.
  rcases count ▸ binary.eq_ones_or with ones | ⟨front, ends⟩
  · have result : IsBinary ('1' :: List.replicate t '0') := by simp
    have length : word.length = t := by rw [ones, List.length_replicate]
    have zeroless : '0' ∉ word := by simp [ones, List.mem_replicate]
    refine ⟨⟨"done", 2, .noMatchingRule, _, -1, -1, _, []⟩, ?judged, rfl, rfl, ?head, result, ?sum,
      fun zero => absurd zero zeroless, fun _ => ⟨rfl, by rw [length]⟩⟩
    case judged =>
      intro fuel
      rw [result.judge_eq parsed (by simp) (after?_ones table ones) (done _), table]
      rfl
    case head => simp [length]
    case sum =>
      have sum := value_carry [] t
      rwa [List.nil_append, List.nil_append, value_cons_zero, ← ones] at sum
  · have result : IsBinary (front ++ '1' :: List.replicate t '0') := by simpa [ends] using binary
    have length : word.length = front.length + t + 1 := by simp [ends, Nat.add_assoc]
    have zero : '0' ∈ word := by simp [ends]
    have kept : word.length - 1 - t = front.length := by omega
    refine ⟨⟨"done", 2, .noMatchingRule, _, front.length, 0, _, []⟩, ?judged, rfl, rfl, ?head,
      result, ?sum, fun _ => ⟨rfl, ?length, ?front⟩, absurd zero⟩
    case judged =>
      intro fuel
      have arrives := after?_zero table binary ends
      rw [← Textbook.placed_zero] at arrives
      rw [result.judge_eq parsed (fun _ => rfl) arrives (done _), table]
      rfl
    case head =>
      dsimp only
      omega
    case sum => rw [value_carry, ← ends]
    case length => simp [length, Nat.add_assoc]
    case front => rw [kept, ends, List.take_left, List.take_left]

theorem increment_adds_one_eleven : IsBinary ['1', '0', '1', '1'] ∧ ∃ m r,
    Machine.builtin "binary-increment" = .ok m ∧
      m.judge ['1', '0', '1', '1'] 8 = some (r, .accepted) ∧
      m.judge ['1', '0', '1', '1'] 7 = none ∧ r.finalState = "done" ∧ r.head = 1 ∧
      value r.tape = 12 ∧ r.tapeOrigin = 0 ∧ r.tape.length = 4 := by
  have binary : IsBinary ['1', '0', '1', '1'] := by simp [IsBinary]
  obtain ⟨m, found, adds⟩ := increment_adds_one
  obtain ⟨r, judged, -, state, head, -, sum, kept, -⟩ := adds _ binary
  obtain ⟨origin, length, -⟩ := kept (by decide)
  exact ⟨binary, m, r, found, judged 8, judged 7, state, head, sum, origin, length⟩

end Catalog

end OneTape
