import Mathlib.Tactic.MkIffOfInductiveProp
import OneTape.Proofs.Description.Arrangement

namespace OneTape.Description

/-! ## Outlines that can be written down -/

@[mk_iff]
structure IsName (name : List Char) : Prop where
  nonempty : name ≠ []
  chars : name.all (fun c => c.isAlphanum || c == '_') = true
  ne_init : name ≠ ['i', 'n', 'i', 't']
  ne_accept : name ≠ ['a', 'c', 'c', 'e', 'p', 't']

instance (name : List Char) : Decidable (IsName name) := decidable_of_iff _ (isName_iff name).symm

/-- The symbols that no description can mention. -/
def unwritable : List Symbol := ['_', '\n', '\r']

namespace Outline

def names (o : Outline) : List String := o.states.map Prod.fst

def name (o : Outline) (i : Nat) : String := o.names.getD i ""

def rules (o : Outline) (i : Nat) : List Rule := (o.states[i]?.map Prod.snd).getD []

structure Valid (o : Outline) : Prop where
  nonempty : o.states ≠ []
  isName : ∀ name ∈ o.names, IsName name.toList
  distinct : o.names.Nodup
  initial_lt : o.initial < o.states.length
  accepting_lt : ∀ i ∈ o.accepting, i < o.states.length
  reads_distinct : ∀ q ∈ o.states, (q.2.map Rule.read).Nodup
  next_lt : ∀ q ∈ o.states, ∀ r ∈ q.2, r.next < o.states.length
  writable : ∀ q ∈ o.states, ∀ r ∈ q.2, r.read ∉ unwritable ∧ r.write ∉ unwritable

end Outline

/-! ## Fields -/

inductive Blank where
  | space
  | tab
deriving DecidableEq

def Blank.char : Blank → Char
  | space => ' '
  | tab => '\t'

def blanks (bs : List Blank) : List Char := bs.map Blank.char

inductive Separator where
  | comma (before after : List Blank)
  | spaces (first : Blank) (more : List Blank)
deriving DecidableEq

def Separator.text : Separator → List Char
  | comma before after => blanks before ++ ',' :: blanks after
  | spaces first more => blanks (first :: more)

def separated (fields : List (Separator × List Char)) : List Char :=
  fields.flatMap fun (s, name) => s.text ++ name

def withSeparators (seps : Nat → Separator) (names : List String) :
    List (Separator × List Char) :=
  names.zipIdx.map fun (name, i) => (seps i, name.toList)

/-- The form of a symbol: between apostrophes or bare, and for the blank whether it stands there
itself or is written as the placeholder. -/
structure SymbolStyle where
  quoted : Bool
  itself : Bool
deriving DecidableEq

namespace SymbolStyle

def char (y : SymbolStyle) (s : Symbol) : Char :=
  if s = Symbol.blank ∧ y.itself = false then Symbol.placeholder else s

def text (y : SymbolStyle) (s : Symbol) : List Char :=
  if y.quoted then ['\'', y.char s, '\''] else [y.char s]

def Fits (y : SymbolStyle) (s : Symbol) : Prop := y.quoted = true ∨ s ∉ [' ', '\t', ',']

end SymbolStyle

structure RuleStyle where
  indent : Blank
  moreIndent : List Blank
  read : SymbolStyle
  first : Separator
  arrow : Option Separator
  write : SymbolStyle
  second : Separator
  letter : Bool
  third : Separator

namespace RuleStyle

def marker (y : RuleStyle) : Direction → Char
  | .right => if y.letter then 'R' else '>'
  | .left => if y.letter then 'L' else '<'
  | .stay => 'S'

def arrowText (y : RuleStyle) : List Char :=
  match y.arrow with
  | none => []
  | some s => ['-', '>'] ++ s.text

def text (y : RuleStyle) (r : Rule) (target : List Char) : List Char :=
  blanks (y.indent :: y.moreIndent) ++ (y.read.text r.read ++ (y.first.text ++ (y.arrowText ++
    (y.write.text r.write ++ (y.second.text ++ ([y.marker r.direction] ++ (y.third.text ++
      target)))))))

structure Fits (y : RuleStyle) (r : Rule) : Prop where
  read : y.read.Fits r.read
  write : y.write.Fits r.write

/-- A bare apostrophe is not the first of two apostrophes around a separator. -/
def Apart (y : RuleStyle) (r : Rule) : Prop :=
  y.read.quoted = false → r.read = '\'' → y.arrow = none → y.first.text.length = 1 →
    (y.write.text r.write).head? ≠ some '\''

end RuleStyle

/-! ## Descriptions -/

inductive Part where
  | init
  | accept
  | block (i : Nat)
deriving DecidableEq

structure Row where
  text : List Char
  line : Line

structure Layout where
  /-- The blanks in front of the flag of the directive, if there is a directive. -/
  directive : Option (Blank × List Blank)
  /-- The separator behind the name of each state in the header. -/
  header : Nat → Separator
  init : Separator
  accept : Nat → Separator
  colon : Nat → List Blank
  rule : Nat → Nat → RuleStyle
  order : List Part
  /-- The blank lines in front of the first line. -/
  lead : List Char
  /-- What follows each line up to the next: blanks, line ends and blank lines. -/
  gap : Nat → List Char

namespace Layout

def directiveRows (y : Layout) (o : Outline) : List Row :=
  match y.directive with
  | none => []
  | some (first, more) =>
    [⟨['D', 'E', 'B', 'U', 'G'] ++ (blanks (first :: more) ++ [if o.debug then '1' else '0']),
      .directive o.debug⟩]

def headerRow (y : Layout) (o : Outline) : Row :=
  ⟨(o.name 0).toList ++ separated (withSeparators y.header o.names.tail), .header o.names⟩

def ruleRow (y : Layout) (o : Outline) (i j : Nat) (r : Rule) : Row :=
  ⟨(y.rule i j).text r (o.name r.next).toList,
    .rule r.read r.write r.direction (o.name r.next) 0⟩

def partRows (y : Layout) (o : Outline) : Part → List Row
  | .init => [⟨['i', 'n', 'i', 't'] ++ (y.init.text ++ (o.name o.initial).toList),
      .init (o.name o.initial)⟩]
  | .accept => [⟨['a', 'c', 'c', 'e', 'p', 't'] ++
      separated (withSeparators y.accept (o.accepting.map o.name)),
      .accept (o.accepting.map o.name)⟩]
  | .block i => ⟨(o.name i).toList ++ (blanks (y.colon i) ++ [':']), .block (o.name i)⟩ ::
      (o.rules i).zipIdx.map fun (r, j) => y.ruleRow o i j r

def rows (y : Layout) (o : Outline) : List Row :=
  y.directiveRows o ++ y.headerRow o :: y.order.flatMap (y.partRows o)

def body (y : Layout) (o : Outline) : List Char :=
  (y.rows o).zipIdx.flatMap fun (row, i) => row.text ++ y.gap i

def text (y : Layout) (o : Outline) : List Char := y.lead ++ y.body o

def IsGap (text : List Char) : Prop := ∀ c ∈ text, c ∈ [' ', '\t', '\n', '\r']

def Ended (text : List Char) : Prop := ∀ c ∈ text.getLast?, c ∈ ['\n', '\r']

/-- The layout leaves nothing out that the outline needs. -/
structure Fits (y : Layout) (o : Outline) : Prop where
  directive : o.debug = true → y.directive.isSome
  rules : ∀ i j r, (o.rules i)[j]? = some r → (y.rule i j).Fits r
  order_nodup : y.order.Nodup
  init_mem : .init ∈ y.order
  accept_mem : o.accepting ≠ [] → .accept ∈ y.order
  block_mem : ∀ i, o.rules i ≠ [] → .block i ∈ y.order
  block_lt : ∀ i, .block i ∈ y.order → i < o.states.length
  lead_isGap : IsGap y.lead
  lead_ended : Ended y.lead
  lead_directive : y.directive.isSome → y.lead = []
  gap_isGap : ∀ i, IsGap (y.gap i)
  gap_ended : ∀ i, i + 1 < (y.rows o).length → y.gap i ≠ [] ∧ Ended (y.gap i)

/-- The grammar can tell the parts of the layout apart: the header does not look like a directive
and no rule looks as if it read a quoted separator. -/
structure Unambiguous (y : Layout) (o : Outline) : Prop where
  rules : ∀ i j r, (o.rules i)[j]? = some r → (y.rule i j).Apart r
  header : ∀ first more, y.header 0 = .spaces first more →
    o.names ≠ ["DEBUG", "0"] ∧ o.names ≠ ["DEBUG", "1"]

end Layout

end OneTape.Description
