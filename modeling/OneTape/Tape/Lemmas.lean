import OneTape.Tape

namespace OneTape

namespace Tape

theorem getD_writeHalf (half : Array Symbol) (i j : Nat) (s : Symbol) :
    (writeHalf half i s)[j]?.getD Symbol.blank =
      if j = i then s else half[j]?.getD Symbol.blank := by
  unfold writeHalf
  split
  · grind
  · split
    · grind
    · simp only [Array.getElem?_push, Array.getElem?_append, Array.size_append,
        Array.size_replicate, Array.getElem?_replicate]
      grind

@[simp] theorem read_mk_empty (pivot o : Int) : (Tape.mk #[] #[] pivot).read o = Symbol.blank := by
  unfold read
  split <;> rfl

theorem read_single (o p : Int) (s : Symbol) :
    (Tape.mk #[] #[s] o).read p = if p = o then s else Symbol.blank := by
  unfold read
  cases h : p - o with
  | ofNat i =>
    cases i with
    | zero => rw [if_pos (by grind)]; rfl
    | succ i => rw [if_neg (by grind)]; simp
  | negSucc i => rw [if_neg (by grind)]; simp

theorem read_write (t : Tape) (o p : Int) (s : Symbol) :
    (t.write o s).read p = if p = o then s else t.read p := by
  obtain ⟨left, right, pivot⟩ := t
  by_cases h : left.isEmpty && right.isEmpty
  · simp only [write, h, if_true]
    simp only [Bool.and_eq_true, Array.isEmpty_iff] at h
    obtain ⟨rfl, rfl⟩ := h
    split
    · subst s; simp
    · simpa using read_single o p s
  · simp only [write, h]
    cases ho : o - pivot <;> cases hp : p - pivot <;>
      simp [read, hp, getD_writeHalf] <;> grind

end Tape

end OneTape
