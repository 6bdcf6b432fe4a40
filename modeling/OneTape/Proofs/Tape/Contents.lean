import Mathlib.Data.List.Induction
import OneTape.Proofs.Tape.Extent

namespace OneTape.Tape

abbrev Write := Int × Symbol

def writes (t : Tape) (ws : List Write) : Tape := ws.foldl (fun t w => t.write w.1 w.2) t

def made (row : List Symbol) (ws : List Write) : Tape := (ofRow row).writes ws

def lastWritten? (ws : List Write) (o : Int) : Option Symbol := ws.reverse.lookup o

/-- What the tape made from the row by the writes is to hold at the offset. -/
def content (row : List Symbol) (ws : List Write) (o : Int) : Symbol :=
  match lastWritten? ws o with
  | some s => s
  | none => if 0 ≤ o then row[o.toNat]?.getD Symbol.blank else Symbol.blank

variable (t : Tape) (ws : List Write) (row : List Symbol)

@[simp]
theorem writes_nil : t.writes [] = t := rfl

@[simp]
theorem writes_concat (w : Write) : t.writes (ws ++ [w]) = (t.writes ws).write w.1 w.2 := by
  simp [writes, List.foldl_append]

theorem lastWritten?_concat (w : Write) (o : Int) :
    lastWritten? (ws ++ [w]) o = if o = w.1 then some w.2 else lastWritten? ws o := by
  obtain ⟨p, s⟩ := w
  rw [lastWritten?, List.reverse_concat, List.lookup_cons]
  by_cases same : o = p
  · simp [same]
  · have other : (o == p) = false := beq_eq_false_iff_ne.2 same
    simp [other, same, lastWritten?]

theorem read_writes (o : Int) : (t.writes ws).read o = (lastWritten? ws o).getD (t.read o) := by
  induction ws using List.reverseRecOn with
  | nil => rfl
  | append_singleton ws w ih =>
    rw [writes_concat, read_write, lastWritten?_concat, ih]
    split <;> rfl

theorem read_ofRow (o : Int) :
    (ofRow row).read o = if 0 ≤ o then row[o.toNat]?.getD Symbol.blank else Symbol.blank := by
  split
  · rename_i inside
    obtain ⟨i, rfl⟩ := Int.eq_ofNat_of_zero_le inside
    exact read_ofRow_natCast row i
  · rename_i outside
    exact read_ofRow_of_neg row (Int.not_le.1 outside)

theorem read_made (o : Int) : (made row ws).read o = content row ws o := by
  rw [made, read_writes, read_ofRow, content]
  cases lastWritten? ws o <;> rfl

theorem getElem?_render (first last : Int) (i : Nat) : (t.render first last).toList[i]? =
    if first + i ≤ last then some (t.read (first + i)).shown else none := by
  rw [render, Symbol.text, String.toList_ofList, List.getElem?_map, getElem?_slice]
  split <;> rfl

theorem render_eq_empty_iff (first last : Int) : t.render first last = "" ↔ last < first := by
  rw [← String.toList_inj, String.toList_empty, List.eq_nil_iff_length_eq_zero]
  simp only [render, Symbol.text, slice, offsets, String.toList_ofList, List.length_map,
    List.length_range]
  omega

theorem made_holds_content :
    (∀ o, (made row ws).read o = content row ws o) ∧
      (∀ (first last : Int) (i : Nat), ((made row ws).render first last).toList[i]? =
        if first + i ≤ last then some (content row ws (first + i)).shown else none) ∧
      ∀ first last, (made row ws).render first last = "" ↔ last < first := by
  refine ⟨read_made ws row, fun first last i => ?_, (made row ws).render_eq_empty_iff⟩
  rw [getElem?_render, read_made]

example : ((made ['x'] [(-3, 'l'), (4, 'r'), (4, 's')]).render (-4) 5) = "_l__x___s_" := by decide

end OneTape.Tape
