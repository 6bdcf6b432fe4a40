import Mathlib.Data.List.TakeWhile
import OneTape.Loading
import OneTape.Proofs.Execution.Scanning
import OneTape.Proofs.Machine.Consistent

namespace OneTape

open Description

namespace Catalog

theorem lookup_filterMap {α β γ : Type} [BEq α] [LawfulBEq α] (f : β → Option γ)
    (entries : List (α × β)) (distinct : (entries.map Prod.fst).Nodup) (key : α) :
    (entries.filterMap fun e => (f e.2).map (e.1, ·)).lookup key =
      (entries.lookup key).bind f := by
  induction entries with
  | nil => rfl
  | cons e entries ih =>
    obtain ⟨name, b⟩ := e
    rw [List.map_cons, List.nodup_cons] at distinct
    have rest := ih distinct.2
    by_cases same : key = name
    · subst same
      -- Behind the entry that is found the key does not occur again.
      have nowhere : entries.lookup key = none :=
        List.lookup_eq_none_iff.2 fun p member => by
          have other : p.1 ≠ key := fun found => distinct.1 (List.mem_map.2 ⟨p, member, found⟩)
          simpa [beq_eq_false_iff_ne] using other.symm
      rw [nowhere, Option.bind_none] at rest
      cases found : f b with
      | none => simp [found, rest]
      | some c => simp [found]
    · have differ : (key == name) = false := beq_eq_false_iff_ne.2 same
      rw [List.lookup_cons, differ]
      cases found : f b with
      | none => simpa [found] using rest
      | some c => simpa [found, List.lookup_cons, differ] using rest

theorem machine?_eq (name : String) :
    machine? name = (source? name).bind fun text => (Machine.ofText text).toOption :=
  lookup_filterMap (fun text => (Machine.ofText text).toOption) descriptions (by decide) name

/-- This is stated of the function as a whole: of one of its values the kernel would evaluate the
catalog. -/
theorem builtin_eq : Machine.builtin = fun name =>
    (machine? name).elim (.error (.unknownMachine name)) .ok := by
  delta Machine.builtin
  funext name
  generalize machine? name = answer
  cases answer <;> rfl

theorem exists_builtin {name text : String} {o : Outline} (entry : source? name = some text)
    (read : (Machine.ofText text).toOption.map Machine.outline = some o) :
    ∃ m, Machine.builtin name = .ok m ∧ Machine.ofText text = .ok m ∧ m.outline = o := by
  cases parsed : Machine.ofText text with
  | error e => simp [parsed, Except.toOption] at read
  | ok m =>
    have found : machine? name = some m := by
      rw [machine?_eq, entry, Option.bind_some, parsed]
      rfl
    refine ⟨m, ?_, rfl, ?_⟩
    · rw [builtin_eq]
      dsimp only
      rw [found, Option.elim_some]
    · simpa [parsed, Except.toOption] using read

/-! ## Binary words -/

def IsBinary (word : List Symbol) : Prop := ∀ s ∈ word, s = '0' ∨ s = '1'

variable {word : List Symbol}

@[simp] theorem isBinary_cons {s : Symbol} :
    IsBinary (s :: word) ↔ (s = '0' ∨ s = '1') ∧ IsBinary word := List.forall_mem_cons

@[simp] theorem isBinary_append {behind : List Symbol} :
    IsBinary (word ++ behind) ↔ IsBinary word ∧ IsBinary behind := List.forall_mem_append

@[simp] theorem isBinary_zeros (n : Nat) : IsBinary (List.replicate n '0') :=
  fun _ member => .inl (List.eq_of_mem_replicate member)

@[simp] theorem isBinary_ones (n : Nat) : IsBinary (List.replicate n '1') :=
  fun _ member => .inr (List.eq_of_mem_replicate member)

theorem IsBinary.written_placed {first : Int} (binary : IsBinary word)
    (fixed : word = [] → first = 0) :
    Textbook.written (Textbook.placed first word) = (first, word) := by
  have written (s : Symbol) (member : s ∈ word) : s ≠ Symbol.blank := by
    rintro rfl
    exact absurd (binary _ member) (by decide)
  exact Textbook.written_placed (fun s starts => written s (List.mem_of_mem_head? starts))
    (fun s ends => written s (List.mem_of_mem_getLast? ends)) fixed

theorem IsBinary.judge_eq {m : Machine} {text : String} (parsed : Machine.ofText text = .ok m)
    {row : List Symbol} (binary : IsBinary word) {first : Int} (fixed : word = [] → first = 0)
    {k i : Nat} {h : Int}
    (arrives : Textbook.after? m k (.start m row) = some ⟨i, h, Textbook.placed first word⟩)
    (stuck : m.outline.rule? i (Textbook.placed first word h) = none) (fuel : Nat) :
    m.judge row fuel = if k ≤ fuel then
      some (⟨(m.outline.names[i]?).getD "", i, .noMatchingRule, k, h, first, word, []⟩,
        .ofBool (i ∈ m.outline.accepting)) else none := by
  have halted := (Textbook.rule?_eq rfl).trans stuck
  have accepting : m.isAcceptingId i = decide (i ∈ m.outline.accepting) :=
    Bool.eq_iff_iff.2
      (((Machine.consistent_ofText parsed).isAcceptingId_iff i).trans decide_eq_true_iff.symm)
  rw [Machine.judge_of_arrival (Machine.valid_ofText parsed) arrives halted, Textbook.report,
    binary.written_placed fixed, Machine.nameOf_eq, accepting]

def leadingDigits (row : List Symbol) : List Symbol := row.takeWhile fun s => s = '0' ∨ s = '1'

theorem isBinary_leadingDigits (row : List Symbol) : IsBinary (leadingDigits row) :=
  fun _ member => by simpa using List.mem_takeWhile_imp member

theorem leadingDigits_of_isBinary (binary : IsBinary word) : leadingDigits word = word :=
  List.takeWhile_eq_self_iff.2 fun s member => by simpa using binary s member

theorem exists_leadingDigits (row : List Symbol) : ∃ rest, row = leadingDigits row ++ rest ∧
    ∀ s ∈ rest.head?, ¬ (s = '0' ∨ s = '1') := by
  refine ⟨row.dropWhile fun s => s = '0' ∨ s = '1', List.takeWhile_append_dropWhile.symm,
    fun s first => ?_⟩
  have other := List.head?_dropWhile_not (fun s => decide (s = '0' ∨ s = '1')) row
  rw [Option.mem_def.1 first] at other
  simpa using other

/-! ## Tables -/

def binaryIncrementTable : Outline where
  states := [
    ("right", [⟨'0', '0', .right, 0⟩, ⟨'1', '1', .right, 0⟩, ⟨.blank, .blank, .left, 1⟩]),
    ("carry", [⟨'1', '0', .left, 1⟩, ⟨'0', '1', .stay, 2⟩, ⟨.blank, '1', .stay, 2⟩]),
    ("done", [])]
  initial := 0
  accepting := [2]
  debug := false

def onesZerosOneTable : Outline where
  states := [
    ("A", [⟨'1', '1', .right, 1⟩]),
    ("B", [⟨'1', '1', .right, 2⟩, ⟨'0', '0', .right, 3⟩]),
    ("C", [⟨'0', '0', .right, 3⟩, ⟨'1', '1', .right, 6⟩]),
    ("D", [⟨'0', '0', .right, 3⟩, ⟨'1', '1', .right, 4⟩]),
    ("E", [⟨.blank, .blank, .stay, 5⟩]),
    ("F", []),
    ("G", [⟨'0', '0', .right, 3⟩, ⟨'1', '1', .right, 6⟩, ⟨.blank, .blank, .stay, 5⟩])]
  initial := 0
  accepting := [2, 5]
  debug := false

def evenOnesTable : Outline where
  states := [
    ("even", [⟨'0', '0', .right, 0⟩, ⟨'1', '1', .right, 1⟩]),
    ("odd", [⟨'0', '0', .right, 1⟩, ⟨'1', '1', .right, 0⟩])]
  initial := 0
  accepting := [0]
  debug := false

def busyBeaver2Table : Outline where
  states := [
    ("A", [⟨.blank, '1', .right, 1⟩, ⟨'1', '1', .left, 1⟩]),
    ("B", [⟨.blank, '1', .left, 0⟩, ⟨'1', '1', .right, 2⟩]),
    ("H", [])]
  initial := 0
  accepting := [2]
  debug := false

/-- A description is checked line by line: the characters of a long text are slow to compute. -/
theorem outline_of_characters {description : String} {o : Outline}
    (small : ¬ description.utf8ByteSize > maxSize)
    (read : ∀ text, description.toList = text →
      (Description.read text).toOption.map Machine.outline = some o) :
    (Machine.ofText description).toOption.map Machine.outline = some o := by
  rw [Machine.ofText, if_neg small]
  exact read _ rfl

theorem outlines :
    (Machine.ofText binaryIncrement).toOption.map Machine.outline = some binaryIncrementTable ∧
    (Machine.ofText onesZerosOne).toOption.map Machine.outline = some onesZerosOneTable ∧
    (Machine.ofText evenOnes).toOption.map Machine.outline = some evenOnesTable ∧
    (Machine.ofText busyBeaver2).toOption.map Machine.outline = some busyBeaver2Table := by
  refine ⟨?_, ?_, ?_, ?_⟩ <;>
    refine outline_of_characters (by decide +kernel) fun text characters => ?_
  · unfold binaryIncrement at characters
    simp only [String.toList_append] at characters
    subst characters
    decide +kernel
  · unfold onesZerosOne at characters
    simp only [String.toList_append] at characters
    subst characters
    decide +kernel
  · unfold evenOnes at characters
    simp only [String.toList_append] at characters
    subst characters
    decide +kernel
  · unfold busyBeaver2 at characters
    simp only [String.toList_append] at characters
    subst characters
    decide +kernel

theorem outline_binaryIncrement :
    (Machine.ofText binaryIncrement).toOption.map Machine.outline = some binaryIncrementTable :=
  outlines.1

theorem outline_onesZerosOne :
    (Machine.ofText onesZerosOne).toOption.map Machine.outline = some onesZerosOneTable :=
  outlines.2.1

theorem outline_evenOnes :
    (Machine.ofText evenOnes).toOption.map Machine.outline = some evenOnesTable :=
  outlines.2.2.1

theorem outline_busyBeaver2 :
    (Machine.ofText busyBeaver2).toOption.map Machine.outline = some busyBeaver2Table :=
  outlines.2.2.2

end Catalog

end OneTape
