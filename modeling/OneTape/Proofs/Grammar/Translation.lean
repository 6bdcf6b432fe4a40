import OneTape.Proofs.Grammar.Locality

/-!
A pattern looks at the characters that follow and never at the position, so that on a text without
line feeds the positions of the nodes are shifted and nothing else differs.
-/

namespace OneTape.Grammar

/-- The text is on one line as positions count lines, although it may hold carriage returns. -/
def OneLine (text : List Char) : Prop := ∀ c ∈ text, c ≠ '\n'

theorem Unbroken.oneLine {line : List Char} (unbroken : Unbroken line) : OneLine line := by
  rintro _ member rfl
  cases unbroken '\n' member

namespace Position

def shift (origin p : Position) : Position :=
  ⟨origin.offset + p.offset, origin.index + p.index, origin.line - 1 + p.line,
    origin.column - 1 + p.column⟩

theorem shift_next (origin p : Position) {c : Char} (sameLine : c ≠ '\n') :
    origin.shift (p.next c) = (origin.shift p).next c := by
  simp [shift, next, sameLine, Nat.add_assoc]

theorem shift_advance (origin p : Position) {text : List Char} (oneLine : OneLine text) :
    origin.shift (p.advance text) = (origin.shift p).advance text := by
  induction text generalizing p with
  | nil => rfl
  | cons c text ih =>
    have later : OneLine text := fun d member => oneLine d (List.mem_cons_of_mem c member)
    have next := shift_next origin p (oneLine c List.mem_cons_self)
    exact (ih (p.next c) later).trans (congrArg (advance · text) next)

/-- Lines and columns count from 1. -/
structure Counted (p : Position) : Prop where
  line : 1 ≤ p.line
  column : 1 ≤ p.column

theorem Counted.shift_first {origin : Position} (counted : origin.Counted) :
    origin.shift first = origin := by
  have line := Nat.sub_add_cancel counted.line
  have column := Nat.sub_add_cancel counted.column
  simp [shift, first, line, column]

theorem counted_first : first.Counted := ⟨Nat.le_refl 1, Nat.le_refl 1⟩

theorem Counted.next {p : Position} (counted : p.Counted) (c : Char) : (p.next c).Counted := by
  unfold Position.next
  split
  · exact ⟨Nat.le_add_left 1 p.line, Nat.le_refl 1⟩
  · exact ⟨counted.line, Nat.le_add_left 1 p.column⟩

theorem Counted.advance {p : Position} (counted : p.Counted) (text : List Char) :
    (p.advance text).Counted := by
  induction text generalizing p with
  | nil => exact counted
  | cons c text ih => exact ih (counted.next c)

end Position

variable {κ : Type}

namespace Node

mutual

def shift (origin : Position) : Node κ → Node κ
  | mk kind start stop text children =>
    mk kind (origin.shift start) (origin.shift stop) text (shiftAll origin children)

def shiftAll (origin : Position) : List (Node κ) → List (Node κ)
  | [] => []
  | n :: ns => n.shift origin :: shiftAll origin ns

end

theorem shiftAll_eq_map (origin : Position) (nodes : List (Node κ)) :
    shiftAll origin nodes = nodes.map (shift origin) := by
  induction nodes with
  | nil => rfl
  | cons n nodes ih => rw [shiftAll, ih, List.map_cons]

@[simp]
theorem shift_mk (origin : Position) (kind : κ) (start stop : Position) (text : List Char)
    (children : List (Node κ)) :
    (mk kind start stop text children).shift origin =
      mk kind (origin.shift start) (origin.shift stop) text (children.map (shift origin)) := by
  rw [shift, shiftAll_eq_map]

end Node

def Cursor.shift (origin : Position) (k : Cursor) : Cursor := ⟨origin.shift k.position, k.rest⟩

def Match.shift (origin : Position) (m : Match κ) : Match κ :=
  ⟨m.cursor.shift origin, m.nodes.map (Node.shift origin)⟩

theorem Cursor.Took.oneLine {k l : Cursor} {taken : List Char} (took : k.Took l taken)
    (oneLine : OneLine k.rest) : OneLine l.rest :=
  fun c member => oneLine c (by rw [took.rest]; exact List.mem_append_right taken member)

namespace Cursor

theorem satisfy?_shift (origin : Position) {k : Cursor} (oneLine : OneLine k.rest)
    (test : Char → Bool) :
    (k.shift origin).satisfy? test = (k.satisfy? test).map (shift origin) := by
  obtain ⟨position, rest⟩ := k
  cases rest with
  | nil => rfl
  | cons c rest =>
    have next := Position.shift_next origin position (oneLine c List.mem_cons_self)
    simp only [shift, satisfy?, ← next]
    split <;> rfl

theorem literal?_shift (origin : Position) {k : Cursor} (oneLine : OneLine k.rest)
    (word : List Char) :
    (k.shift origin).literal? word = (k.literal? word).map (shift origin) := by
  induction word generalizing k with
  | nil => rfl
  | cons c word ih =>
    simp only [literal?, satisfy?_shift origin oneLine]
    cases found : k.satisfy? (· == c) with
    | none => rfl
    | some l =>
      obtain ⟨_, -, took⟩ := took_satisfy found
      exact ih (took.oneLine oneLine)

theorem Took.shift (origin : Position) {k l : Cursor} {taken : List Char} (took : k.Took l taken)
    (oneLine : OneLine k.rest) : (k.shift origin).Took (l.shift origin) taken where
  rest := took.rest
  position := by
    have within : OneLine taken := fun c member =>
      oneLine c (by rw [took.rest]; exact List.mem_append_left _ member)
    exact (congrArg origin.shift took.position).trans (Position.shift_advance origin _ within)

end Cursor

theorem Node.between_shift (origin : Position) (kind : κ) {k l : Cursor} {taken : List Char}
    (took : k.Took l taken) (oneLine : OneLine k.rest) (children : List (Node κ)) :
    Node.between kind (k.shift origin) (l.shift origin) (children.map (shift origin)) =
      (Node.between kind k l children).shift origin := by
  rw [Node.between_eq kind (took.shift origin oneLine), Node.between_eq kind took, shift_mk]
  rfl

namespace Pattern

variable {step step' : Cursor → Option (Match κ)}

theorem repeatMatch_shift (origin : Position) (hstep : ∀ k, OneLine k.rest →
      step (k.shift origin) = (step k).map (Match.shift origin) ∧
      ∀ m, step k = some m → ∃ taken, k.Took m.cursor taken)
    (bound : List Char) {k : Cursor} (oneLine : OneLine k.rest) (nodes : List (Node κ)) :
    repeatMatch step bound (k.shift origin) (nodes.map (Node.shift origin)) =
      (repeatMatch step bound k nodes).shift origin := by
  induction bound generalizing k nodes with
  | nil => simp [repeatMatch, Match.shift]
  | cons c bound ih =>
    obtain ⟨shifted, takes⟩ := hstep k oneLine
    unfold repeatMatch
    rw [shifted]
    cases found : step k with
    | none => simp [Match.shift]
    | some m =>
      obtain ⟨taken, took⟩ := takes m found
      have rounds := ih (took.oneLine oneLine) (m.nodes.reverse ++ nodes)
      simpa [Match.shift] using rounds

theorem match?_shift (p : Pattern κ) (origin : Position) {k : Cursor} (oneLine : OneLine k.rest) :
    p.match? (k.shift origin) = (p.match? k).map (Match.shift origin) := by
  induction p generalizing k with
  | satisfy test =>
    simp only [match?, Cursor.satisfy?_shift origin oneLine, Option.map_map]
    rfl
  | literal word =>
    simp only [match?, Cursor.literal?_shift origin oneLine, Option.map_map]
    rfl
  | atEnd =>
    have same : (k.shift origin).rest = k.rest := rfl
    simp only [match?, same]
    split <;> rfl
  | seq p q hp hq =>
    simp only [match?, hp oneLine]
    cases first : p.match? k with
    | none => rfl
    | some m =>
      obtain ⟨taken, took⟩ := took_match first
      have second := hq (took.oneLine oneLine)
      simp only [Option.map_some, Match.shift, second]
      cases q.match? m.cursor <;> simp [Match.shift]
  | choice p q hp hq =>
    simp only [match?, hp oneLine, hq oneLine]
    cases p.match? k <;> rfl
  | optional p hp =>
    simp only [match?, hp oneLine]
    cases p.match? k <;> rfl
  | many p hp =>
    -- The repetition is bounded by the text that is left, which is the same in both places.
    simp only [match?, Option.map_some]
    exact congrArg some (repeatMatch_shift origin
      (fun k oneLine => ⟨hp oneLine, fun m => took_match⟩) k.rest oneLine [])
  | ahead p hp =>
    simp only [match?, hp oneLine, Option.isSome_map]
    split <;> rfl
  | notAhead p hp =>
    simp only [match?, hp oneLine, Option.isSome_map]
    split <;> rfl
  | node kind p hp =>
    simp only [match?, hp oneLine]
    cases inside : p.match? k with
    | none => rfl
    | some m =>
      obtain ⟨taken, took⟩ := took_match inside
      have moved := Node.between_shift origin kind took oneLine m.nodes
      simpa [Match.shift] using moved
  | leaf kind p hp =>
    simp only [match?, hp oneLine]
    cases inside : p.match? k with
    | none => rfl
    | some m =>
      obtain ⟨taken, took⟩ := took_match inside
      have moved := Node.between_shift origin kind took oneLine []
      simpa [Match.shift] using moved

end Pattern

end OneTape.Grammar
