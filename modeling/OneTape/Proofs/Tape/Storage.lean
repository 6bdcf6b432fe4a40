import OneTape.Proofs.Tape.Contents

namespace OneTape.Tape

def Stores (t : Tape) (o : Int) : Prop := t.origin ≤ o ∧ o < t.origin + t.cells.length

instance (t : Tape) (o : Int) : Decidable (t.Stores o) := inferInstanceAs (Decidable (_ ∧ _))

/-- The offset is in the smallest interval that covers all offsets with the property. -/
def Spanned (P : Int → Prop) (o : Int) : Prop :=
  ∃ first last, P first ∧ P last ∧ first ≤ o ∧ o ≤ last

/-- The row reaches there, or a symbol other than the blank is written there. -/
def Needed (row : List Symbol) (ws : List Write) (o : Int) : Prop :=
  (0 ≤ o ∧ o < row.length) ∨ ∃ w ∈ ws, w.1 = o ∧ w.2 ≠ Symbol.blank

variable {t u : Tape} {P Q : Int → Prop} {o p : Int} {s : Symbol}

theorem Spanned.mono (spanned : Spanned P o) (within : ∀ p, P p → Q p) : Spanned Q o := by
  obtain ⟨first, last, hasFirst, hasLast, le, ge⟩ := spanned
  exact ⟨first, last, within first hasFirst, within last hasLast, le, ge⟩

theorem Spanned.of_mem (member : P o) : Spanned P o :=
  ⟨o, o, member, member, Int.le_refl o, Int.le_refl o⟩

theorem Spanned.idem (spanned : Spanned (Spanned P) o) : Spanned P o := by
  obtain ⟨_, _, ⟨first, -, hasFirst, -, le, -⟩, ⟨-, last, -, hasLast, -, ge⟩, le', ge'⟩ := spanned
  exact ⟨first, last, hasFirst, hasLast, by omega, by omega⟩

theorem spanned_congr (same : ∀ p, P p ↔ Q p) : Spanned P o ↔ Spanned Q o :=
  ⟨fun spanned => spanned.mono fun p => (same p).1, fun spanned => spanned.mono fun p => (same p).2⟩

theorem spanned_spanned_or :
    Spanned (fun p => Spanned P p ∨ Q p) o ↔ Spanned (fun p => P p ∨ Q p) o := by
  constructor
  · refine fun spanned => Spanned.idem (spanned.mono fun p member => ?_)
    rcases member with inner | new
    · exact inner.mono fun p => .inl
    · exact .of_mem (.inr new)
  · exact fun spanned => spanned.mono fun p => Or.imp_left Spanned.of_mem

theorem spanned_stores : Spanned t.Stores o ↔ t.Stores o := by
  constructor
  · rintro ⟨first, last, hasFirst, hasLast, le, ge⟩
    exact ⟨Int.le_trans hasFirst.1 le, Int.lt_of_le_of_lt ge hasLast.2⟩
  · exact Spanned.of_mem

theorem spanned_interval_or {first stop : Int} (nonempty : first < stop) :
    Spanned (fun q => (first ≤ q ∧ q < stop) ∨ q = o) p ↔
      min first o ≤ p ∧ p < max stop (o + 1) := by
  constructor
  · rintro ⟨low, high, hasLow, hasHigh, le, ge⟩
    omega
  · rintro ⟨le, ge⟩
    exact ⟨min first o, max (stop - 1) o, by omega, by omega, le, by omega⟩

/-! ## One write -/

theorem stores_iff : t.Stores o ↔ t.pivot - t.left.size ≤ o ∧ o < t.pivot + t.right.size := by
  rw [Stores, length_cells, size, origin]
  omega

theorem size_writeHalf (half : Array Symbol) (i : Nat) (s : Symbol) :
    (writeHalf half i s).size =
      if s = Symbol.blank then half.size else max half.size (i + 1) := by
  unfold writeHalf
  split
  · rw [Array.size_set]
    split <;> omega
  · split
    · rfl
    · simp only [Array.size_push, Array.size_append, Array.size_replicate]
      omega

theorem write_mk_empty (pivot o : Int) (s : Symbol) : (Tape.mk #[] #[] pivot).write o s =
    if s = Symbol.blank then ⟨#[], #[], pivot⟩ else ⟨#[], #[s], o⟩ := rfl

theorem stores_write_blank (t : Tape) (o p : Int) :
    (t.write o Symbol.blank).Stores p ↔ t.Stores p := by
  obtain ⟨left, right, pivot⟩ := t
  rw [stores_iff, stores_iff]
  by_cases empty : left.isEmpty && right.isEmpty
  · simp [write, empty]
  · simp only [write, empty, Bool.false_eq_true, if_false]
    cases o - pivot <;> simp [size_writeHalf]

theorem stores_write_of_ne (t : Tape) (o p : Int) (solid : s ≠ Symbol.blank) :
    (t.write o s).Stores p ↔ Spanned (fun q => t.Stores q ∨ q = o) p := by
  obtain ⟨left, right, pivot⟩ := t
  have interval : Spanned (fun q => (Tape.mk left right pivot).Stores q ∨ q = o) p ↔
      Spanned (fun q => (pivot - left.size ≤ q ∧ q < pivot + right.size) ∨ q = o) p :=
    spanned_congr fun q => by rw [stores_iff]
  rw [stores_iff, interval]
  by_cases empty : left.isEmpty && right.isEmpty
  · -- The one cell that is stored is the one that is written.
    obtain ⟨rfl, rfl⟩ : left = #[] ∧ right = #[] := by simpa using empty
    have single : Spanned (fun q => q = o) p ↔ o ≤ p ∧ p < o + 1 := by
      constructor
      · rintro ⟨_, _, rfl, rfl, le, ge⟩
        omega
      · exact fun within => .of_mem (by omega)
    have alone (q : Int) : (pivot - (#[] : Array Symbol).size ≤ q ∧
        q < pivot + (#[] : Array Symbol).size) ∨ q = o ↔ q = o := by
      rw [Array.size_empty]
      omega
    rw [spanned_congr alone, single, write_mk_empty, if_neg solid]
    simp
  · have nonempty : pivot - left.size < pivot + right.size := by
      simp only [Bool.and_eq_true, Array.isEmpty_iff_size_eq_zero, not_and] at empty
      omega
    rw [spanned_interval_or nonempty]
    simp only [write, empty, Bool.false_eq_true, if_false]
    cases place : o - pivot with
    | ofNat i =>
      simp only [size_writeHalf, solid, if_false]
      simp only [Int.ofNat_eq_natCast] at place
      omega
    | negSucc i =>
      simp only [size_writeHalf, solid, if_false]
      omega

theorem stores_write (t : Tape) (o p : Int) (s : Symbol) : (t.write o s).Stores p ↔
    Spanned (fun q => t.Stores q ∨ (q = o ∧ s ≠ Symbol.blank)) p := by
  by_cases blank : s = Symbol.blank
  · subst blank
    rw [stores_write_blank, ← spanned_stores]
    exact spanned_congr fun q => by simp
  · rw [stores_write_of_ne t o p blank]
    exact spanned_congr fun q => by simp [blank]

theorem Stores.write (stored : t.Stores p) (o : Int) (s : Symbol) : (t.write o s).Stores p :=
  (stores_write t o p s).2 (.of_mem (.inl stored))

theorem cells_eq_nil_iff : t.cells = [] ↔ ∀ o, ¬ t.Stores o := by
  rw [List.eq_nil_iff_length_eq_zero]
  constructor
  · intro empty o stored
    have := stored.1
    have := stored.2
    omega
  · intro none
    have first := none t.origin
    simp only [Stores, Int.le_refl, true_and] at first
    omega

theorem write_eq_of_cells_eq_nil (empty : (t.write o s).cells = []) : t.write o s = t := by
  have none := cells_eq_nil_iff.1 empty
  have blank : s = Symbol.blank := by
    by_contra solid
    exact none o ((stores_write t o o s).2 (.of_mem (.inr ⟨rfl, solid⟩)))
  obtain ⟨left, right, pivot⟩ := t
  have nothing : (Tape.mk left right pivot).cells = [] :=
    cells_eq_nil_iff.2 fun q stored => none q (stored.write o s)
  obtain ⟨rfl, rfl⟩ : left = #[] ∧ right = #[] := by simpa [cells] using nothing
  rw [write_mk_empty, if_pos blank]

/-! ## Any writes -/

variable (row : List Symbol) (ws : List Write)

theorem stores_ofRow : (ofRow row).Stores o ↔ 0 ≤ o ∧ o < row.length := by
  simp [stores_iff, ofRow]

theorem stores_made (o : Int) : (made row ws).Stores o ↔ Spanned (Needed row ws) o := by
  induction ws using List.reverseRecOn generalizing o with
  | nil =>
    rw [← spanned_stores]
    exact spanned_congr fun p => by simp [made, stores_ofRow, Needed]
  | append_singleton ws w ih =>
    have needed (p : Int) : Needed row (ws ++ [w]) p ↔
        Needed row ws p ∨ (p = w.1 ∧ w.2 ≠ Symbol.blank) := by
      simp only [Needed, List.mem_append, List.mem_singleton, or_and_right, exists_or,
        exists_eq_left, or_assoc, @eq_comm _ p]
    rw [spanned_congr needed, ← spanned_spanned_or, made, writes_concat, stores_write]
    exact spanned_congr fun p => by rw [← ih, made]

theorem origin_made (empty : (made row ws).cells = []) : (made row ws).origin = 0 := by
  induction ws using List.reverseRecOn with
  | nil => rfl
  | append_singleton ws w ih =>
    -- Cells are never given up, so there were none before the last write either.
    rw [made, writes_concat] at empty ⊢
    have same := write_eq_of_cells_eq_nil empty
    rw [same] at empty ⊢
    exact ih empty

/-! ## Equal tapes -/

theorem beq_iff : (t == u) = true ↔ t.origin = u.origin ∧ t.cells = u.cells := by
  show (t.origin == u.origin && t.cells == u.cells) = true ↔ _
  rw [Bool.and_eq_true, beq_iff_eq, beq_iff_eq]

theorem read_of_beq (equal : (t == u) = true) (o : Int) : t.read o = u.read o := by
  obtain ⟨origins, cells⟩ := beq_iff.1 equal
  by_cases before : o < t.origin
  · rw [read_of_lt_origin t before, read_of_lt_origin u (origins ▸ before)]
  · obtain ⟨i, place⟩ := Int.eq_ofNat_of_zero_le (Int.sub_nonneg_of_le (Int.not_lt.1 before))
    obtain rfl : o = t.origin + i := by omega
    rw [read_origin_add, origins, read_origin_add, cells]

theorem eq_of_same_interval {first stop first' stop' : Int} (nonempty : first < stop)
    (same : ∀ o, first ≤ o ∧ o < stop ↔ first' ≤ o ∧ o < stop') :
    first = first' ∧ stop = stop' := by
  have atFirst := same first
  have atLast := same (stop - 1)
  have atFirst' := same first'
  have atLast' := same (stop' - 1)
  omega

theorem beq_of_stores (home : t.cells = [] → t.origin = u.origin)
    (stores : ∀ o, t.Stores o ↔ u.Stores o) (reads : ∀ o, t.read o = u.read o) :
    (t == u) = true := by
  have same : t.origin = u.origin ∧ t.cells.length = u.cells.length := by
    by_cases empty : t.cells = []
    · have empty' : u.cells = [] :=
        cells_eq_nil_iff.2 fun o stored => cells_eq_nil_iff.1 empty o ((stores o).2 stored)
      exact ⟨home empty, by rw [empty, empty']⟩
    · have positive := List.length_pos_iff.2 empty
      obtain ⟨origins, stops⟩ := eq_of_same_interval (by omega) stores
      exact ⟨origins, by omega⟩
  refine beq_iff.2 ⟨same.1, List.ext_getElem same.2 fun i inside inside' => ?_⟩
  have read := reads (t.origin + i)
  rw [read_origin_add, same.1, read_origin_add] at read
  simpa [inside, inside'] using read

theorem read_of_not_stores (outside : ¬ t.Stores o) : t.read o = Symbol.blank := by
  by_contra solid
  obtain ⟨i, s, rfl, stored, -⟩ := t.exists_cell solid
  obtain ⟨inside, -⟩ := List.getElem?_eq_some_iff.1 stored
  exact outside ⟨by omega, by omega⟩

theorem write_comm (t : Tape) {a b : Int} (apart : a ≠ b) (x y : Symbol) :
    ((t.write a x).write b y == (t.write b y).write a x) = true := by
  have stores (o : Int) :
      ((t.write a x).write b y).Stores o ↔ ((t.write b y).write a x).Stores o := by
    rw [stores_write, stores_write, spanned_congr fun p => or_congr_left (stores_write t a p x),
      spanned_congr fun p => or_congr_left (stores_write t b p y), spanned_spanned_or,
      spanned_spanned_or]
    exact spanned_congr fun p => or_right_comm
  refine beq_of_stores (fun empty => ?_) stores fun o => ?_
  · -- Nothing is written but blanks beyond the cells, and there are none.
    have empty' : ((t.write b y).write a x).cells = [] :=
      cells_eq_nil_iff.2 fun o stored => cells_eq_nil_iff.1 empty o ((stores o).2 stored)
    have second := write_eq_of_cells_eq_nil empty
    have first := write_eq_of_cells_eq_nil (second ▸ empty)
    have second' := write_eq_of_cells_eq_nil empty'
    have first' := write_eq_of_cells_eq_nil (second' ▸ empty')
    rw [second, first, second', first']
  · simp only [read_write]
    split <;> split <;> simp_all

theorem made_beq_ofRow_iff (other : List Symbol) : (made row ws == ofRow other) = true ↔
    (∀ o, (made row ws).Stores o ↔ 0 ≤ o ∧ o < other.length) ∧
      ∀ i s, other[i]? = some s → (made row ws).read (i : Nat) = s := by
  have reads {i : Nat} {s : Symbol} (here : other[i]? = some s) : (ofRow other).read i = s := by
    rw [read_ofRow_natCast, here, Option.getD_some]
  constructor
  · intro equal
    obtain ⟨origins, cells⟩ := beq_iff.1 equal
    refine ⟨fun o => ?_, fun i s here => ?_⟩
    · rw [← stores_ofRow, Stores, Stores, origins, cells]
    · rw [read_of_beq equal, reads here]
  · rintro ⟨stores, contents⟩
    refine beq_of_stores (fun empty => (origin_made row ws empty).trans rfl)
      (fun o => (stores o).trans (stores_ofRow other).symm) fun o => ?_
    by_cases stored : 0 ≤ o ∧ o < other.length
    · obtain ⟨i, rfl⟩ := Int.eq_ofNat_of_zero_le stored.1
      have here : other[i]? = some other[i] := List.getElem?_eq_getElem _
      rw [contents i _ here, reads here]
    · rw [read_of_not_stores (mt (stores o).1 stored),
        read_of_not_stores (mt (stores_ofRow other).1 stored)]

/-- The cells stored are exactly those of the smallest interval that covers the row and every offset
at which another symbol than the blank was written. -/
theorem made_stores_needed :
    (∀ o, (made row ws).Stores o ↔ Spanned (Needed row ws) o) ∧
      ((∀ o, ¬ Needed row ws o) → (made row ws).cells = [] ∧ (made row ws).origin = 0) ∧
      (∀ o p, ((made row ws).write o Symbol.blank).Stores p ↔ (made row ws).Stores p) ∧
      (∀ o s p, (made row ws).Stores p → ((made row ws).write o s).Stores p) ∧
      (∀ a b x y, a ≠ b → (((made row ws).write a x).write b y ==
        ((made row ws).write b y).write a x) = true) ∧
      ∀ other : List Symbol, (made row ws == ofRow other) = true ↔
        (∀ o, (made row ws).Stores o ↔ 0 ≤ o ∧ o < other.length) ∧
          ∀ i s, other[i]? = some s → (made row ws).read (i : Nat) = s := by
  refine ⟨stores_made row ws, fun none => ?_, stores_write_blank _,
    fun o s p stored => stored.write o s, fun a b x y apart => write_comm _ apart x y,
    made_beq_ofRow_iff row ws⟩
  have empty : (made row ws).cells = [] := by
    refine cells_eq_nil_iff.2 fun o stored => ?_
    obtain ⟨first, -, needed, -⟩ := (stores_made row ws o).1 stored
    exact none first needed
  exact ⟨empty, origin_made row ws empty⟩

theorem made_stores_needed_gap :
    ((∀ o, ¬ Needed [] [(5, Symbol.blank)] o) ∧ (made [] [(5, Symbol.blank)]).cells = [] ∧
      (made [] [(5, Symbol.blank)]).origin = 0) ∧
    ((made ['a'] [(-3, 'b')]).Stores (-2) ∧
      ((made ['a'] [(-3, 'b')]).write 9 Symbol.blank).Stores (-2)) ∧
    (-5 : Int) ≠ 4 ∧ (((made ['a'] [(-3, 'b')]).write (-5) Symbol.blank).write 4 'c' ==
      ((made ['a'] [(-3, 'b')]).write 4 'c').write (-5) Symbol.blank) = true := by
  have none (o : Int) : ¬ Needed [] [(5, Symbol.blank)] o := by
    simp only [Needed, List.length_nil, List.mem_singleton]
    rintro (inside | ⟨_, rfl, -, solid⟩)
    · omega
    · exact solid rfl
  have stored : (made ['a'] [(-3, 'b')]).Stores (-2) := by decide
  have apart : (-5 : Int) ≠ 4 := by decide
  obtain ⟨-, -, -, keeps, commutes, -⟩ := made_stores_needed ['a'] [(-3, 'b')]
  exact ⟨⟨none, (made_stores_needed [] [(5, Symbol.blank)]).2.1 none⟩,
    ⟨stored, keeps 9 Symbol.blank (-2) stored⟩, apart,
    commutes (-5) 4 Symbol.blank 'c' apart⟩

end OneTape.Tape
