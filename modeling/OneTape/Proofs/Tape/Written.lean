import OneTape.Proofs.Tape.Contents

namespace OneTape.Tape

variable {t u : Tape} {first last : Int}

theorem isExtent_iff {content : Int → Symbol} : IsExtent content first last ↔
    first ≤ last ∧ content first ≠ Symbol.blank ∧ content last ≠ Symbol.blank ∧
      ∀ o, o < first ∨ last < o → content o = Symbol.blank := by
  constructor
  · intro extent
    refine ⟨(extent.mem first extent.first_ne).2, extent.first_ne, extent.last_ne,
      fun o outside => ?_⟩
    by_contra solid
    have inside := extent.mem o solid
    omega
  · rintro ⟨-, first_ne, last_ne, outside⟩
    refine ⟨first_ne, last_ne, fun o solid => ?_⟩
    by_contra beyond
    exact solid (outside o (by omega))

theorem bounds_congr (same : ∀ o, t.read o = u.read o) : t.bounds = u.bounds := by
  have reads : t.read = u.read := funext same
  refine Option.ext fun ends => ?_
  obtain ⟨first, last⟩ := ends
  rw [bounds_eq_some_iff, bounds_eq_some_iff, reads]

theorem written_eq_iff : t.written = u.written ↔ ∀ o, t.read o = u.read o := by
  constructor
  · intro same o
    rw [← read_written, same, read_written]
  · intro same
    have reads : t.read = u.read := funext same
    simp only [written, slice, bounds_congr same, reads]

/-- The written part is the same for two tapes exactly if they read the same everywhere. -/
theorem written_canonical (t : Tape) :
    (t.bounds = none ↔ ∀ o, t.read o = Symbol.blank) ∧
    (∀ first last, t.bounds = some (first, last) ↔
      first ≤ last ∧ t.read first ≠ Symbol.blank ∧ t.read last ≠ Symbol.blank ∧
        ∀ o, o < first ∨ last < o → t.read o = Symbol.blank) ∧
    (t.bounds = none → t.written = (0, [])) ∧
    (∀ first last, t.bounds = some (first, last) → t.written.1 = first ∧
      ∀ i : Nat, t.written.2[i]? =
        if first + i ≤ last then some (t.read (first + i)) else none) ∧
    t.text.toList = t.written.2.map Symbol.shown ∧
    ∀ u : Tape, t.written = u.written ↔ ∀ o, t.read o = u.read o := by
  refine ⟨t.bounds_eq_none_iff, fun first last => ?_, fun blank => ?_, fun first last bounded => ?_,
    ?_, fun u => written_eq_iff⟩
  · rw [bounds_eq_some_iff, isExtent_iff]
  · rw [written, blank]
  · rw [written, bounded]
    exact ⟨rfl, t.getElem?_slice first last⟩
  · rw [text, Symbol.text, String.toList_ofList]

theorem written_canonical_spare_blanks :
    ((made [Symbol.blank, 'a'] [(3, 'b')]).bounds = some (1, 3) ∧
      (∀ o, o < 1 ∨ 3 < o → (made [Symbol.blank, 'a'] [(3, 'b')]).read o = Symbol.blank)) ∧
    ((made ['x'] [(0, Symbol.blank)]).bounds = none ∧
      (made ['x'] [(0, Symbol.blank)]).written = (0, [])) ∧
    ((made [Symbol.blank, 'a'] [(3, 'b')] == made [] [(3, 'b'), (1, 'a')]) = false ∧
      ∀ o, (made [Symbol.blank, 'a'] [(3, 'b')]).read o = (made [] [(3, 'b'), (1, 'a')]).read o) := by
  obtain ⟨-, bounded, -, -, -, same⟩ := written_canonical (made [Symbol.blank, 'a'] [(3, 'b')])
  obtain ⟨-, -, blank, -⟩ := written_canonical (made ['x'] [(0, Symbol.blank)])
  have ends : (made [Symbol.blank, 'a'] [(3, 'b')]).bounds = some (1, 3) := by decide
  have erased : (made ['x'] [(0, Symbol.blank)]).bounds = none := by decide
  exact ⟨⟨ends, ((bounded 1 3).1 ends).2.2.2⟩, ⟨erased, blank erased⟩, by decide,
    (same _).1 (by decide)⟩

end OneTape.Tape
