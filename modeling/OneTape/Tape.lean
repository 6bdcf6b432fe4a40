import OneTape.Symbol

namespace OneTape

/-- A tape. The cell at `pivot + i` is `right[i]`, the cell at `pivot - 1 - i` is `left[i]`, and
all others are blank. -/
structure Tape where
  left : Array Symbol
  right : Array Symbol
  pivot : Int

namespace Tape

def empty : Tape := ⟨#[], #[], 0⟩

def ofRow (row : List Symbol) : Tape := ⟨#[], row.toArray, 0⟩

def cells (t : Tape) : List Symbol := t.left.toList.reverse ++ t.right.toList

def size (t : Tape) : Nat := t.left.size + t.right.size

def origin (t : Tape) : Int := t.pivot - t.left.size

/-- Tapes are compared by what they store: the cells, blank or not, and where they begin. -/
instance : BEq Tape := ⟨fun s t => s.origin == t.origin && s.cells == t.cells⟩

def read (t : Tape) (offset : Int) : Symbol :=
  match offset - t.pivot with
  | .ofNat i => t.right[i]?.getD Symbol.blank
  | .negSucc i => t.left[i]?.getD Symbol.blank

/-- Beyond the end a blank changes nothing, and any other symbol fills the gap with blanks. -/
def writeHalf (half : Array Symbol) (i : Nat) (s : Symbol) : Array Symbol :=
  if h : i < half.size then half.set i s
  else if s = Symbol.blank then half
  else (half ++ Array.replicate (i - half.size) Symbol.blank).push s

def write (t : Tape) (offset : Int) (s : Symbol) : Tape :=
  match t with
  | ⟨left, right, pivot⟩ =>
    if left.isEmpty && right.isEmpty then
      if s = Symbol.blank then ⟨left, right, pivot⟩ else ⟨left, right.push s, offset⟩
    else match offset - pivot with
      | .ofNat i => ⟨left, writeHalf right i s, pivot⟩
      | .negSucc i => ⟨writeHalf left i s, right, pivot⟩

def offsets (first last : Int) : List Int :=
  (List.range (last + 1 - first).toNat).map fun i : Nat => first + i

def slice (t : Tape) (first last : Int) : List Symbol := (offsets first last).map t.read

def bounds (t : Tape) : Option (Int × Int) := do
  let first ← t.cells.findIdx? (· ≠ Symbol.blank)
  let last ← t.cells.reverse.findIdx? (· ≠ Symbol.blank)
  return (t.origin + first, t.origin + t.size - 1 - last)

def written (t : Tape) : Int × List Symbol :=
  match t.bounds with
  | some (first, last) => (first, t.slice first last)
  | none => (0, [])

def render (t : Tape) (first last : Int) : String := Symbol.text (t.slice first last)

def text (t : Tape) : String := Symbol.text t.written.2

end Tape

end OneTape
