import Mathlib.Data.List.Nodup
import Mathlib.Data.List.Induction
import OneTape.Description.Line
import OneTape.Machine

/-!
When the lines of a description fit together (`WellFormed`), and which machine they describe
(`outlineOf`), said without building anything. `Admissible` says the same line by line.
-/

namespace OneTape

namespace Description

/-- What a machine is made of, without its indexes. -/
structure Outline where
  states : List (String × List Rule)
  initial : Nat
  accepting : List Nat
  debug : Bool
deriving DecidableEq

structure Clause where
  read : Symbol
  write : Symbol
  direction : Direction
  target : String
deriving DecidableEq

namespace Line

def directive? : Line → Option Bool
  | directive debug => some debug
  | _ => none

def header? : Line → Option (List String)
  | header names => some names
  | _ => none

def init? : Line → Option String
  | init name => some name
  | _ => none

def accept? : Line → Option (List String)
  | accept names => some names
  | _ => none

def block? : Line → Option String
  | block name => some name
  | _ => none

def clause? : Line → Option Clause
  | rule read write direction target _ => some ⟨read, write, direction, target⟩
  | _ => none

def isSection : Line → Bool
  | header _ | init _ | accept _ | block _ => true
  | _ => false

end Line

def select {α : Type} (kind : Line → Option α) (lines : List NumberedLine) : List α :=
  lines.filterMap fun l => kind l.line

def declared (lines : List NumberedLine) : List String := (select Line.header? lines).flatten

/-- The state whose block is open behind the lines: the nearest line before that is a header, an
`init` line, an `accept` line or the head of a block is the head of its block. -/
def openBlock (lines : List NumberedLine) : Option String :=
  (lines.reverse.find? (·.line.isSection)).bind (·.line.block?)

def blockClauses (lines : List NumberedLine) (name : String) : List Clause :=
  (List.range lines.length).filterMap fun i =>
    if openBlock (lines.take i) = some name then lines[i]?.bind (·.line.clause?) else none

def Clause.rule (names : List String) (c : Clause) : Rule :=
  ⟨c.read, c.write, c.direction, names.idxOf c.target⟩

structure WellFormed (lines : List NumberedLine) : Prop where
  regular : ∀ l ∈ lines, l.line ≠ .malformed ∧ l.line ≠ .unknown
  directive_first : ∀ l ∈ lines, l.line.directive?.isSome → l.number = 1
  one_header : (select Line.header? lines).length = 1
  header_first : ∀ before l after, lines = before ++ l :: after →
    l.line.directive? = none → l.line.header? = none → select Line.header? before ≠ []
  distinct : (declared lines).Nodup
  one_init : (select Line.init? lines).length = 1
  init_declared : ∀ name ∈ select Line.init? lines, name ∈ declared lines
  one_accept : (select Line.accept? lines).length ≤ 1
  accept_declared : ∀ names ∈ select Line.accept? lines, ∀ name ∈ names, name ∈ declared lines
  blocks_declared : ∀ name ∈ select Line.block? lines, name ∈ declared lines
  one_block : (select Line.block? lines).Nodup
  in_block : ∀ before l after, lines = before ++ l :: after →
    l.line.clause?.isSome → (openBlock before).isSome
  targets_declared : ∀ c ∈ select Line.clause? lines, c.target ∈ declared lines
  one_rule : ∀ name, ((blockClauses lines name).map Clause.read).Nodup

/-- The machine that the lines describe. The states are those of the header, each with the rules of
its block; the accepting states are listed once each; the last directive sets the flag. -/
def outlineOf (lines : List NumberedLine) : Outline where
  states := (declared lines).map fun name =>
    (name, (blockClauses lines name).map (Clause.rule (declared lines)))
  initial := (declared lines).idxOf ((select Line.init? lines).headD "")
  accepting := ((select Line.accept? lines).flatten.map (declared lines).idxOf).eraseDups
  debug := (select Line.directive? lines).getLastD false

/-! ## Lines behind others -/

section

variable {α : Type} (lines : List NumberedLine) (l : NumberedLine)

theorem select_append (kind : Line → Option α) (more : List NumberedLine) :
    select kind (lines ++ more) = select kind lines ++ select kind more := by
  simp [select]

@[simp] theorem select_nil (kind : Line → Option α) : select kind [] = [] := rfl

@[simp] theorem select_snoc (kind : Line → Option α) :
    select kind (lines ++ [l]) = select kind lines ++ (kind l.line).toList := by
  rw [select_append]
  cases found : kind l.line <;> simp [select, found]

theorem declared_append (more : List NumberedLine) :
    declared (lines ++ more) = declared lines ++ declared more := by
  simp [declared, select_append]

@[simp] theorem declared_nil : declared [] = [] := rfl

@[simp] theorem declared_snoc :
    declared (lines ++ [l]) = declared lines ++ l.line.header?.getD [] := by
  cases found : l.line.header? <;> simp [declared, found]

@[simp] theorem openBlock_nil : openBlock [] = none := rfl

@[simp] theorem openBlock_snoc :
    openBlock (lines ++ [l]) = if l.line.isSection then l.line.block? else openBlock lines := by
  cases found : l.line.isSection <;> simp [openBlock, found]

@[simp] theorem blockClauses_nil (name : String) : blockClauses [] name = [] := rfl

@[simp] theorem blockClauses_snoc (name : String) :
    blockClauses (lines ++ [l]) name = blockClauses lines name ++
      if openBlock lines = some name then l.line.clause?.toList else [] := by
  have earlier : ∀ i ∈ List.range lines.length,
      (if openBlock ((lines ++ [l]).take i) = some name
        then (lines ++ [l])[i]?.bind (·.line.clause?) else none) =
      if openBlock (lines.take i) = some name then lines[i]?.bind (·.line.clause?) else none := by
    intro i member
    have bound : i < lines.length := List.mem_range.1 member
    rw [List.take_append_of_le_length (Nat.le_of_lt bound), List.getElem?_append_left bound]
  rw [blockClauses, blockClauses, List.length_append, List.length_singleton, List.range_succ,
    List.filterMap_append, List.filterMap_congr earlier]
  congr 1
  by_cases opened : openBlock lines = some name
  · cases found : l.line.clause? <;> simp [opened, found]
  · simp [opened]

end

theorem mem_select {α : Type} {kind : Line → Option α} {lines : List NumberedLine} {a : α} :
    a ∈ select kind lines ↔ ∃ l ∈ lines, kind l.line = some a := List.mem_filterMap

theorem select_eq_nil_iff {α : Type} {kind : Line → Option α} {lines : List NumberedLine} :
    select kind lines = [] ↔ ∀ l ∈ lines, kind l.line = none := List.filterMap_eq_nil_iff

theorem mem_select_of_mem_blockClauses {lines : List NumberedLine} {name : String} {c : Clause}
    (member : c ∈ blockClauses lines name) : c ∈ select Line.clause? lines := by
  induction lines using List.reverseRecOn with
  | nil => simp at member
  | append_singleton lines l ih =>
    rw [blockClauses_snoc, List.mem_append] at member
    rw [select_snoc, List.mem_append]
    rcases member with earlier | last
    · exact .inl (ih earlier)
    · split at last
      · exact .inr last
      · simp at last

theorem mem_select_of_openBlock {lines : List NumberedLine} {name : String}
    (opened : openBlock lines = some name) : name ∈ select Line.block? lines := by
  obtain ⟨l, found, isBlock⟩ := Option.bind_eq_some_iff.1 opened
  exact mem_select.2 ⟨l, List.mem_reverse.1 (List.mem_of_find?_eq_some found), isBlock⟩

/-! ## Line by line -/

def Fits (before : List NumberedLine) (l : NumberedLine) : Prop :=
  match l.line with
  | .directive _ => l.number = 1
  | .header names => select Line.header? before = [] ∧ names.Nodup
  | .init name =>
    select Line.header? before ≠ [] ∧ select Line.init? before = [] ∧ name ∈ declared before
  | .accept names =>
    select Line.header? before ≠ [] ∧ select Line.accept? before = [] ∧
      ∀ name ∈ names, name ∈ declared before
  | .block name =>
    select Line.header? before ≠ [] ∧ name ∈ declared before ∧ name ∉ select Line.block? before
  | .rule read _ _ target _ =>
    select Line.header? before ≠ [] ∧ target ∈ declared before ∧
      ∃ name, openBlock before = some name ∧ ∀ c ∈ blockClauses before name, c.read ≠ read
  | .malformed => False
  | .unknown => False

def Admissible (lines : List NumberedLine) : Prop :=
  ∀ before l after, lines = before ++ l :: after → Fits before l

theorem admissible_nil : Admissible [] := by
  intro before l after split
  simp at split

theorem admissible_snoc {lines : List NumberedLine} {l : NumberedLine} :
    Admissible (lines ++ [l]) ↔ Admissible lines ∧ Fits lines l := by
  constructor
  · intro admissible
    refine ⟨?_, admissible lines l [] rfl⟩
    rintro before k after rfl
    exact admissible before k (after ++ [l]) (by simp)
  · rintro ⟨admissible, fits⟩ before k after split
    rcases List.eq_nil_or_concat after with rfl | ⟨middle, last, rfl⟩
    · obtain ⟨rfl, same⟩ := List.append_singleton_inj.1 split
      exact same ▸ fits
    · have split' : lines ++ [l] = (before ++ k :: middle) ++ [last] := by simpa using split
      obtain ⟨rfl, -⟩ := List.append_singleton_inj.1 split'
      exact admissible before k middle rfl

namespace Admissible

variable {lines : List NumberedLine}

theorem regular (admissible : Admissible lines) :
    ∀ l ∈ lines, l.line ≠ .malformed ∧ l.line ≠ .unknown := by
  intro l member
  obtain ⟨before, after, rfl⟩ := List.append_of_mem member
  have fits := admissible before l after rfl
  constructor <;>
  · intro bad
    simp [Fits, bad] at fits

theorem directive_first (admissible : Admissible lines) :
    ∀ l ∈ lines, l.line.directive?.isSome → l.number = 1 := by
  intro l member isDirective
  obtain ⟨before, after, rfl⟩ := List.append_of_mem member
  have fits := admissible before l after rfl
  cases kind : l.line <;> simp_all [Fits, Line.directive?]

theorem header_first (admissible : Admissible lines) : ∀ before l after,
    lines = before ++ l :: after → l.line.directive? = none → l.line.header? = none →
      select Line.header? before ≠ [] := by
  intro before l after split noDirective noHeader
  have fits := admissible before l after split
  cases kind : l.line <;> simp_all [Fits, Line.directive?, Line.header?]

theorem headless (admissible : Admissible lines) (missing : select Line.header? lines = []) :
    ∀ l ∈ lines, ∃ debug, l.line = .directive debug := by
  intro l member
  have noHeader := select_eq_nil_iff.1 missing l member
  obtain ⟨before, after, rfl⟩ := List.append_of_mem member
  rw [select_append, List.append_eq_nil_iff] at missing
  have first := admissible.header_first before l after rfl
  cases kind : l.line <;> simp_all [Line.directive?, Line.header?]

theorem select_length {α : Type} {kind : Line → Option α} (admissible : Admissible lines)
    (once : ∀ before l, Fits before l → (kind l.line).isSome → select kind before = []) :
    (select kind lines).length ≤ 1 := by
  induction lines using List.reverseRecOn with
  | nil => simp
  | append_singleton lines l ih =>
    obtain ⟨earlier, fits⟩ := admissible_snoc.1 admissible
    cases found : kind l.line with
    | none => simpa [found] using ih earlier
    | some a => simp [found, once lines l fits (by simp [found])]

theorem header_length (admissible : Admissible lines) :
    (select Line.header? lines).length ≤ 1 := by
  refine admissible.select_length fun before l fits isHeader => ?_
  cases kind : l.line <;> simp_all [Fits, Line.header?]

theorem init_length (admissible : Admissible lines) : (select Line.init? lines).length ≤ 1 := by
  refine admissible.select_length fun before l fits isInit => ?_
  cases kind : l.line <;> simp_all [Fits, Line.init?]

theorem accept_length (admissible : Admissible lines) :
    (select Line.accept? lines).length ≤ 1 := by
  refine admissible.select_length fun before l fits isAccept => ?_
  cases kind : l.line <;> simp_all [Fits, Line.accept?]

theorem one_block (admissible : Admissible lines) : (select Line.block? lines).Nodup := by
  induction lines using List.reverseRecOn with
  | nil => simp
  | append_singleton lines l ih =>
    obtain ⟨earlier, fits⟩ := admissible_snoc.1 admissible
    cases kind : l.line <;> simp_all [Fits, Line.block?, List.nodup_append]
    rintro a member rfl
    exact fits.2.2 member

theorem distinct (admissible : Admissible lines) : (declared lines).Nodup := by
  induction lines using List.reverseRecOn with
  | nil => simp
  | append_singleton lines l ih =>
    obtain ⟨earlier, fits⟩ := admissible_snoc.1 admissible
    have := ih earlier
    cases kind : l.line <;> simp_all [Fits, Line.header?, declared]

theorem one_rule (admissible : Admissible lines) (name : String) :
    ((blockClauses lines name).map Clause.read).Nodup := by
  induction lines using List.reverseRecOn with
  | nil => simp
  | append_singleton lines l ih =>
    obtain ⟨earlier, fits⟩ := admissible_snoc.1 admissible
    have distinct := ih earlier
    by_cases opened : openBlock lines = some name
    · cases kind : l.line <;> simp_all [Fits, Line.clause?, List.nodup_append]
    · simpa [opened] using distinct

theorem of_select {α : Type} {kind : Line → Option α} {a : α} (admissible : Admissible lines)
    (selected : a ∈ select kind lines) : ∃ before l, Fits before l ∧ kind l.line = some a ∧
      ∀ name ∈ declared before, name ∈ declared lines := by
  obtain ⟨l, member, found⟩ := mem_select.1 selected
  obtain ⟨before, after, split⟩ := List.append_of_mem member
  refine ⟨before, l, admissible before l after split, found, fun name known => ?_⟩
  rw [split, declared_append]
  exact List.mem_append_left _ known

theorem init_declared (admissible : Admissible lines) :
    ∀ name ∈ select Line.init? lines, name ∈ declared lines := by
  intro name selected
  obtain ⟨before, l, fits, found, kept⟩ := admissible.of_select selected
  apply kept
  cases kind : l.line <;> simp_all [Fits, Line.init?]

theorem accept_declared (admissible : Admissible lines) :
    ∀ names ∈ select Line.accept? lines, ∀ name ∈ names, name ∈ declared lines := by
  intro names selected name listed
  obtain ⟨before, l, fits, found, kept⟩ := admissible.of_select selected
  apply kept
  cases kind : l.line <;> simp_all [Fits, Line.accept?]

theorem blocks_declared (admissible : Admissible lines) :
    ∀ name ∈ select Line.block? lines, name ∈ declared lines := by
  intro name selected
  obtain ⟨before, l, fits, found, kept⟩ := admissible.of_select selected
  apply kept
  cases kind : l.line <;> simp_all [Fits, Line.block?]

theorem targets_declared (admissible : Admissible lines) :
    ∀ c ∈ select Line.clause? lines, c.target ∈ declared lines := by
  intro c selected
  obtain ⟨before, l, fits, found, kept⟩ := admissible.of_select selected
  apply kept
  cases kind : l.line <;> simp_all [Fits, Line.clause?]
  obtain ⟨-, known, -⟩ := fits
  exact found ▸ known

theorem in_block (admissible : Admissible lines) : ∀ before l after,
    lines = before ++ l :: after → l.line.clause?.isSome → (openBlock before).isSome := by
  intro before l after split isRule
  have fits := admissible before l after split
  cases kind : l.line <;> simp_all [Fits, Line.clause?]
  obtain ⟨-, -, name, opened, -⟩ := fits
  simp [opened]

end Admissible

/-! ## Both descriptions agree -/

theorem select_before_eq_nil {α : Type} {kind : Line → Option α} {a : α}
    {before after : List NumberedLine} {l : NumberedLine}
    (once : (select kind (before ++ l :: after)).length ≤ 1) (found : kind l.line = some a) :
    select kind before = [] := by
  rw [← List.singleton_append, ← List.append_assoc, select_append, select_snoc, found] at once
  simp only [Option.toList_some, List.length_append, List.length_singleton] at once
  exact List.length_eq_zero_iff.1 (by omega)

theorem blockClauses_prefix (lines more : List NumberedLine) (name : String) :
    blockClauses lines name <+: blockClauses (lines ++ more) name := by
  induction more using List.reverseRecOn with
  | nil => simp
  | append_singleton more l ih =>
    rw [← List.append_assoc, blockClauses_snoc]
    exact ih.trans (List.prefix_append _ _)

theorem WellFormed.admissible {lines : List NumberedLine} (w : WellFormed lines) :
    Admissible lines := by
  rintro before l after rfl
  have member : l ∈ before ++ l :: after := by simp
  -- The one header is among the lines before unless the line is a directive or the header itself.
  have all_declared : select Line.header? before ≠ [] →
      declared (before ++ l :: after) = declared before := by
    intro some_header
    have one := w.one_header
    rw [select_append, List.length_append] at one
    have : (select Line.header? (l :: after)).length = 0 := by
      have := List.length_pos_iff.2 some_header
      omega
    rw [declared_append, declared, declared, List.length_eq_zero_iff.1 this]
    simp
  have first := w.header_first before l after rfl
  cases kind : l.line with
  | directive debug =>
    simp only [Fits, kind]
    exact w.directive_first l member (by simp [kind, Line.directive?])
  | header names =>
    simp only [Fits, kind]
    have found : Line.header? l.line = some names := by simp [kind, Line.header?]
    have none_before := select_before_eq_nil (Nat.le_of_eq w.one_header) found
    refine ⟨none_before, ?_⟩
    have distinct := w.distinct
    rw [← List.singleton_append, ← List.append_assoc, declared_append, declared_snoc,
      found] at distinct
    exact (List.nodup_append.1 (List.nodup_append.1 distinct).1).2.1
  | init name =>
    simp only [kind, Line.directive?, Line.header?, true_implies] at first
    have found : Line.init? l.line = some name := by simp [kind, Line.init?]
    have known := w.init_declared name (mem_select.2 ⟨l, member, found⟩)
    rw [all_declared first] at known
    simp only [Fits, kind]
    exact ⟨first, select_before_eq_nil (Nat.le_of_eq w.one_init) found, known⟩
  | accept names =>
    simp only [kind, Line.directive?, Line.header?, true_implies] at first
    have found : Line.accept? l.line = some names := by simp [kind, Line.accept?]
    have known := w.accept_declared names (mem_select.2 ⟨l, member, found⟩)
    rw [all_declared first] at known
    simp only [Fits, kind]
    exact ⟨first, select_before_eq_nil w.one_accept found, known⟩
  | block name =>
    simp only [kind, Line.directive?, Line.header?, true_implies] at first
    have found : Line.block? l.line = some name := by simp [kind, Line.block?]
    have known := w.blocks_declared name (mem_select.2 ⟨l, member, found⟩)
    rw [all_declared first] at known
    have once := w.one_block
    rw [← List.singleton_append, ← List.append_assoc, select_append, select_snoc, found] at once
    have apart := (List.nodup_append.1 (List.nodup_append.1 once).1).2.2
    simp only [Fits, kind]
    exact ⟨first, known, fun earlier => apart name earlier name (by simp) rfl⟩
  | rule read write direction target column =>
    simp only [kind, Line.directive?, Line.header?, true_implies] at first
    have found : Line.clause? l.line = some ⟨read, write, direction, target⟩ := by
      simp [kind, Line.clause?]
    have known := w.targets_declared _ (mem_select.2 ⟨l, member, found⟩)
    rw [all_declared first] at known
    obtain ⟨name, opened⟩ :=
      Option.isSome_iff_exists.1 (w.in_block before l after rfl (by simp [found]))
    have grown := blockClauses_prefix (before ++ [l]) after name
    rw [List.append_assoc, List.singleton_append, blockClauses_snoc, if_pos opened, found] at grown
    have apart := (w.one_rule name).sublist (grown.map Clause.read).sublist
    rw [List.map_append, List.nodup_append] at apart
    simp only [Fits, kind]
    refine ⟨first, known, name, opened, fun c earlier => ?_⟩
    exact apart.2.2 c.read (List.mem_map_of_mem earlier) read (by simp)
  | malformed => exact absurd kind (w.regular l member).1
  | unknown => exact absurd kind (w.regular l member).2

theorem wellFormed_iff {lines : List NumberedLine} : WellFormed lines ↔
    Admissible lines ∧ select Line.header? lines ≠ [] ∧ select Line.init? lines ≠ [] := by
  constructor
  · intro w
    refine ⟨w.admissible, ?_, ?_⟩
    · exact List.ne_nil_of_length_pos (by rw [w.one_header]; exact Nat.one_pos)
    · exact List.ne_nil_of_length_pos (by rw [w.one_init]; exact Nat.one_pos)
  · rintro ⟨admissible, some_header, some_init⟩
    exact {
      regular := admissible.regular
      directive_first := admissible.directive_first
      one_header := by
        have := List.length_pos_iff.2 some_header
        have := admissible.header_length
        omega
      header_first := admissible.header_first
      distinct := admissible.distinct
      one_init := by
        have := List.length_pos_iff.2 some_init
        have := admissible.init_length
        omega
      init_declared := admissible.init_declared
      one_accept := admissible.accept_length
      accept_declared := admissible.accept_declared
      blocks_declared := admissible.blocks_declared
      one_block := admissible.one_block
      in_block := admissible.in_block
      targets_declared := admissible.targets_declared
      one_rule := admissible.one_rule }

end Description
end OneTape
