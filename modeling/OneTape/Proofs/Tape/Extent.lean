import Mathlib.Data.List.Basic
import OneTape.Tape.Lemmas

namespace OneTape.Tape

/-- `first` and `last` are the outermost offsets at which `content` is not blank. -/
structure IsExtent (content : Int → Symbol) (first last : Int) : Prop where
  first_ne : content first ≠ Symbol.blank
  last_ne : content last ≠ Symbol.blank
  mem : ∀ o, content o ≠ Symbol.blank → first ≤ o ∧ o ≤ last

theorem IsExtent.unique {content : Int → Symbol} {i j i' j' : Int}
    (extent : IsExtent content i j) (other : IsExtent content i' j') : (i, j) = (i', j') := by
  have outer := extent.mem i' other.first_ne
  have outer' := extent.mem j' other.last_ne
  have inner := other.mem i extent.first_ne
  have inner' := other.mem j extent.last_ne
  rw [Prod.mk.injEq]
  omega

variable (t : Tape)

theorem length_cells : t.cells.length = t.size := by
  simp [cells, size]

theorem read_origin_add (i : Nat) :
    t.read (t.origin + i) = t.cells[i]?.getD Symbol.blank := by
  unfold read
  split
  · rename_i j offset
    have index : i = t.left.size + j := by
      simp only [origin, Int.ofNat_eq_natCast] at offset
      omega
    have beyond : ¬ t.left.size + j < t.left.size := by omega
    simp [cells, index, List.getElem?_append, beyond]
  · rename_i j offset
    have index : i + j + 1 = t.left.size := by
      simp only [origin] at offset
      omega
    have within : i < t.left.size := by omega
    have mirrored : t.left.size - 1 - i = j := by omega
    have stored : j < t.left.size := by omega
    simp [cells, List.getElem?_append, within, mirrored, stored]

theorem read_of_lt_origin {o : Int} (before : o < t.origin) : t.read o = Symbol.blank := by
  unfold read
  simp only [origin] at before
  split
  · rename_i j offset
    simp only [Int.ofNat_eq_natCast] at offset
    omega
  · rename_i j offset
    have beyond : t.left.size ≤ j := by omega
    simp [beyond]

theorem exists_cell {o : Int} (written : t.read o ≠ Symbol.blank) :
    ∃ i s, o = t.origin + (i : Nat) ∧ t.cells[i]? = some s ∧ s ≠ Symbol.blank := by
  have inside : t.origin ≤ o := by
    by_contra before
    exact written (t.read_of_lt_origin (by omega))
  obtain ⟨i, rfl⟩ : ∃ i : Nat, o = t.origin + i := ⟨(o - t.origin).toNat, by omega⟩
  rw [read_origin_add] at written
  cases stored : t.cells[i]? with
  | none => simp [stored] at written
  | some s => exact ⟨i, s, rfl, stored, by simpa [stored] using written⟩

theorem bounds_eq_none (blank : t.bounds = none) (o : Int) : t.read o = Symbol.blank := by
  by_contra written
  obtain ⟨i, s, -, stored, ne⟩ := t.exists_cell written
  have member : s ∈ t.cells := List.mem_of_getElem? stored
  unfold bounds at blank
  cases front : t.cells.findIdx? (· ≠ Symbol.blank) with
  | none =>
    rw [List.findIdx?_eq_none_iff] at front
    simpa [ne] using front s member
  | some first =>
    cases back : t.cells.reverse.findIdx? (· ≠ Symbol.blank) with
    | none =>
      rw [List.findIdx?_eq_none_iff] at back
      simpa [ne] using back s (by simpa using member)
    | some last =>
      rw [front, back] at blank
      cases blank

theorem bounds_isExtent {first last : Int} (bounded : t.bounds = some (first, last)) :
    IsExtent t.read first last := by
  unfold bounds at bounded
  obtain ⟨i, front, bounded⟩ := Option.bind_eq_some_iff.1 bounded
  obtain ⟨j, back, bounded⟩ := Option.bind_eq_some_iff.1 bounded
  obtain ⟨rfl, rfl⟩ := Prod.mk.inj (Option.some.inj bounded)
  obtain ⟨bound, differs, before⟩ := List.findIdx?_eq_some_iff_getElem.1 front
  obtain ⟨bound', differs', after⟩ := List.findIdx?_eq_some_iff_getElem.1 back
  rw [List.length_reverse] at bound'
  have mirrored : t.origin + t.size - 1 - j = t.origin + ((t.size - 1 - j : Nat) : Int) := by
    rw [← length_cells]
    omega
  refine ⟨?first, ?last, fun o written => ?mem⟩
  case first =>
    rw [read_origin_add]
    simpa [bound] using differs
  case last =>
    rw [List.getElem_reverse] at differs'
    rw [mirrored, read_origin_add, ← length_cells, List.getElem?_eq_getElem (by omega)]
    simpa using differs'
  case mem =>
    obtain ⟨k, s, rfl, stored, ne⟩ := t.exists_cell written
    obtain ⟨inside, rfl⟩ := List.getElem?_eq_some_iff.1 stored
    have not_before : i ≤ k := by
      by_contra earlier
      exact before k (by omega) (by simpa using ne)
    have not_after : j ≤ t.cells.length - 1 - k := by
      by_contra later
      have mirror : t.cells.length - 1 - (t.cells.length - 1 - k) = k := by omega
      have blank := after (t.cells.length - 1 - k) (by omega)
      simp only [List.getElem_reverse, mirror] at blank
      exact blank (by simpa using ne)
    rw [← length_cells]
    omega

theorem bounds_eq_none_iff : t.bounds = none ↔ ∀ o, t.read o = Symbol.blank := by
  refine ⟨t.bounds_eq_none, fun blank => ?_⟩
  cases bounded : t.bounds with
  | none => rfl
  | some ends => exact absurd (blank _) (t.bounds_isExtent bounded).first_ne

theorem bounds_eq_some_iff {first last : Int} :
    t.bounds = some (first, last) ↔ IsExtent t.read first last := by
  refine ⟨t.bounds_isExtent, fun extent => ?_⟩
  cases bounded : t.bounds with
  | none => exact absurd (t.bounds_eq_none bounded first) extent.first_ne
  | some ends => exact congrArg some ((t.bounds_isExtent bounded).unique extent)

theorem getElem?_offsets (first last : Int) (i : Nat) :
    (offsets first last)[i]? = if first + i ≤ last then some (first + i) else none := by
  rw [offsets, List.getElem?_map]
  by_cases inside : first + i ≤ last
  · have within : i < (last + 1 - first).toNat := by omega
    rw [List.getElem?_range within, if_pos inside, Option.map_some]
  · have beyond : (last + 1 - first).toNat ≤ i := by omega
    rw [List.getElem?_eq_none (by simpa using beyond), if_neg inside, Option.map_none]

theorem getElem?_slice (first last : Int) (i : Nat) : (t.slice first last)[i]? =
    if first + i ≤ last then some (t.read (first + i)) else none := by
  rw [slice, List.getElem?_map, getElem?_offsets]
  split <;> rfl

theorem read_ofRow_natCast (row : List Symbol) (i : Nat) :
    (ofRow row).read i = row[i]?.getD Symbol.blank := by
  have stored := (ofRow row).read_origin_add i
  simpa [ofRow, origin, cells] using stored

theorem read_ofRow_of_neg (row : List Symbol) {o : Int} (negative : o < 0) :
    (ofRow row).read o = Symbol.blank :=
  (ofRow row).read_of_lt_origin (by simpa [ofRow, origin] using negative)

theorem read_ofRow_slice (first last o : Int) : (ofRow (t.slice first last)).read (o - first) =
    if first ≤ o ∧ o ≤ last then t.read o else Symbol.blank := by
  by_cases before : o < first
  · have outside : ¬ (first ≤ o ∧ o ≤ last) := by omega
    rw [read_ofRow_of_neg _ (by omega), if_neg outside]
  obtain ⟨i, place⟩ := Int.eq_ofNat_of_zero_le (by omega : 0 ≤ o - first)
  obtain rfl : o = first + i := by omega
  rw [place, read_ofRow_natCast, getElem?_slice]
  have after : first ≤ first + i := by omega
  by_cases inside : first + i ≤ last <;> simp [inside, after]

theorem read_written (o : Int) : (ofRow t.written.2).read (o - t.written.1) = t.read o := by
  unfold written
  cases bounded : t.bounds with
  | none =>
    rw [t.bounds_eq_none bounded o]
    apply read_mk_empty
  | some ends =>
    obtain ⟨first, last⟩ := ends
    have extent := t.bounds_isExtent bounded
    dsimp only
    rw [read_ofRow_slice]
    split
    · rfl
    · rename_i outside
      by_contra written
      exact outside (extent.mem o fun blank => written blank.symm)

theorem read_ofRow_written (placed : t.written.1 = 0) (o : Int) :
    (ofRow t.written.2).read o = t.read o := by
  have read := t.read_written o
  rwa [placed, Int.sub_zero] at read

end OneTape.Tape
