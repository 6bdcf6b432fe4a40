import OneTape.Proofs.Description.Parts
import OneTape.Proofs.Description.Truncation

/-!
For the error about a second rule the draft remembers the lines of the rules (`Remembers`), and
what it remembers are lines of the block that the rule is in.
-/

namespace OneTape.Description

variable {lines before : List NumberedLine} {d d' : Draft} {l : NumberedLine} {e : Error}

def IsRule (before : List NumberedLine) (l : NumberedLine) (name : String) (s : Symbol) : Prop :=
  openBlock before = some name ∧ ∃ c, l.line.clause? = some c ∧ c.read = s

inductive Fault (before : List NumberedLine) (l : NumberedLine) : Error → Prop where
  | missingHeader (missing : select Line.header? before = [])
      (other : l.line.directive? = none ∧ l.line.header? = none) :
      Fault before l (.missingHeader l.number)
  | unknownInitial {name : String} (line : l.line = .init name)
      (headed : select Line.header? before ≠ []) (unknown : name ∉ declared before) :
      Fault before l (.unknownInitial name l.number)
  | unknownAccepting {names : List String} {name : String} (line : l.line = .accept names)
      (headed : select Line.header? before ≠ []) (listed : name ∈ names)
      (unknown : name ∉ declared before) : Fault before l (.unknownAccepting name l.number)
  | unknownBlock {name : String} (line : l.line = .block name)
      (headed : select Line.header? before ≠ []) (unknown : name ∉ declared before) :
      Fault before l (.unknownBlock name l.number)
  | unknownTarget {read write : Symbol} {direction : Direction} {name : String} {column : Nat}
      (line : l.line = .rule read write direction name column)
      (headed : select Line.header? before ≠ []) (unknown : name ∉ declared before) :
      Fault before l (.unknownTarget name l.number column)
  | duplicateName {names : List String} {name : String} (line : l.line = .header names)
      (twice : List.Sublist [name, name] names) : Fault before l (.duplicateName name l.number)
  | duplicateBlock {name : String} (line : l.line = .block name)
      (again : name ∈ select Line.block? before) : Fault before l (.duplicateBlock name l.number)
  | secondHeader {names : List String} (line : l.line = .header names)
      (again : select Line.header? before ≠ []) :
      Fault before l (.duplicateSection .header l.number)
  | secondInit {name : String} (line : l.line = .init name)
      (again : select Line.init? before ≠ []) : Fault before l (.duplicateSection .init l.number)
  | secondAccept {names : List String} (line : l.line = .accept names)
      (again : select Line.accept? before ≠ []) :
      Fault before l (.duplicateSection .accept l.number)
  | malformedRule (line : l.line = .malformed) : Fault before l (.malformedRule l.number l.trimmed)
  | unknownLine (line : l.line = .unknown) : Fault before l (.unexpectedLine l.number l.trimmed)
  | lateDirective {b : Bool} (line : l.line = .directive b) (late : l.number ≠ 1) :
      Fault before l (.unexpectedLine l.number l.trimmed)
  | ruleOutsideBlock (isRule : l.line.clause?.isSome) (closed : openBlock before = none) :
      Fault before l (.ruleOutsideBlock l.number)
  | duplicateRule {name : String} {s : Symbol} {pre post : List NumberedLine} {k : NumberedLine}
      (isRule : IsRule before l name s) (split : before = pre ++ k :: post)
      (earlier : IsRule pre k name s) :
      Fault before l (.duplicateRule name s l.number k.number)

/-! ## The lines of rules -/

theorem ruleLine?_insert (d : Draft) (states : Array State) (state number : Nat) (read : Symbol)
    (state' : Nat) (s : Symbol) : Draft.ruleLine? { d with
      states := states
      ruleLines := d.ruleLines.insert state
        ((d.ruleLines[state]?.getD ∅).insert read number) } state' s =
      if state = state' ∧ read = s then some number else d.ruleLine? state' s := by
  simp only [Draft.ruleLine?, Std.TreeMap.getElem?_insert, Std.LawfulEqCmp.compare_eq_iff_eq]
  by_cases here : state = state'
  · subst here
    by_cases same : read = s
    · simp [same]
    · cases known : d.ruleLines[state]? <;> simp [Std.TreeMap.getElem?_insert, same]
  · simp [here]

structure Remembers (lines : List NumberedLine) (d : Draft) : Prop where
  sound : ∀ state s n, d.ruleLine? state s = some n → ∃ pre l post name,
    lines = pre ++ l :: post ∧ l.number = n ∧ IsRule pre l name s ∧
      (declared lines).idxOf name = state
  complete : ∀ state q, d.states[state]? = some q → ∀ r ∈ q.rules.toList,
    (d.ruleLine? state r.read).isSome

theorem remembers_nil : Remembers [] {} where
  sound state s n found := by simp [Draft.ruleLine?] at found
  complete state q stored := by simp at stored

theorem Remembers.keep (remembers : Remembers lines d) (noHeader : l.line.header? = none)
    (same : d'.ruleLines = d.ruleLines) (states : d'.states = d.states) :
    Remembers (lines ++ [l]) d' := by
  have still (state : Nat) (s : Symbol) : d'.ruleLine? state s = d.ruleLine? state s := by
    rw [Draft.ruleLine?, same, Draft.ruleLine?]
  constructor
  · intro state s n found
    obtain ⟨pre, k, post, name, rfl, number, isRule, place⟩ :=
      remembers.sound state s n (still state s ▸ found)
    refine ⟨pre, k, post ++ [l], name, by simp, number, isRule, ?_⟩
    rw [declared_snoc, noHeader, Option.getD_none, List.append_nil, place]
  · intro state q stored r listed
    rw [still]
    exact remembers.complete state q (states ▸ stored) r listed

theorem Remembers.header (remembers : Remembers lines d) (admissible : Admissible lines)
    (missing : select Line.header? lines = []) (same : d'.ruleLines = d.ruleLines)
    (empty : ∀ q ∈ d'.states.toList, q.rules.toList = []) : Remembers (lines ++ [l]) d' := by
  constructor
  · intro state s n found
    have still : d'.ruleLine? state s = d.ruleLine? state s := by
      rw [Draft.ruleLine?, same, Draft.ruleLine?]
    -- In front of the header there are no lines but directives.
    obtain ⟨pre, k, post, name, rfl, -, ⟨-, c, rule, -⟩, -⟩ :=
      remembers.sound state s n (still ▸ found)
    obtain ⟨b, directive⟩ := admissible.headless missing k (by simp)
    rw [directive] at rule
    cases rule
  · intro state q stored r listed
    rw [empty q (List.mem_of_getElem? (by simpa using stored))] at listed
    cases listed

theorem Remembers.rule (remembers : Remembers lines d) {name : String} {c : Clause} {r : Rule}
    {q q' : State} {state : Nat} (opened : openBlock lines = some name)
    (isRule : l.line.clause? = some c) (read : c.read = r.read)
    (place : (declared lines).idxOf name = state) (stored : d.states[state]? = some q)
    (pushed : q'.rules = q.rules.push r) :
    Remembers (lines ++ [l]) { d with
      states := d.states.setIfInBounds state q'
      ruleLines := d.ruleLines.insert state
        ((d.ruleLines[state]?.getD ∅).insert r.read l.number) } := by
  have noHeader : l.line.header? = none := by
    obtain ⟨column, line⟩ := clause?_eq_some isRule
    rw [line]
    rfl
  have all : declared (lines ++ [l]) = declared lines := by simp [noHeader]
  constructor
  · intro state' s n found
    rw [ruleLine?_insert] at found
    split at found
    · obtain ⟨rfl, rfl⟩ := ‹_ ∧ _›
      cases found
      exact ⟨lines, l, [], name, rfl, rfl, ⟨opened, c, isRule, read⟩, by rw [all, place]⟩
    · obtain ⟨pre, k, post, name', rfl, number, isRule', place'⟩ := remembers.sound state' s n found
      exact ⟨pre, k, post ++ [l], name', by simp, number, isRule', by rw [all, place']⟩
  · intro state' p at_state r' listed
    rw [ruleLine?_insert]
    split
    · rfl
    · rename_i other
      rw [Array.getElem?_setIfInBounds] at at_state
      split at at_state
      · obtain rfl : state = state' := ‹_›
        split at at_state <;> cases at_state
        rw [pushed, Array.toList_push, List.mem_append, List.mem_singleton] at listed
        rcases listed with old | rfl
        · exact remembers.complete state q stored r' old
        · exact absurd ⟨rfl, rfl⟩ other
      · exact remembers.complete state' p at_state r' listed

theorem declare_error (d : Draft) {number : Nat} {names : List String}
    (stated : d.states.toList.map State.name = []) (numbers : Numbers d.ids [])
    (failed : names.foldlM (Draft.declare number) d = .error e) :
    ∃ name, List.Sublist [name, name] names ∧ e = .duplicateName name number := by
  obtain ⟨before, name, after, c, rfl, reached, fails⟩ := exists_failing_element failed
  rcases declare_names number before d [] stated numbers with
    ⟨-, ids, states, made, numbers', -⟩ | ⟨-, e', fails'⟩
  swap
  · rw [reached] at fails'
    cases fails'
  obtain rfl := Except.ok.inj (reached.symm.trans made)
  unfold Draft.declare at fails
  split at fails <;> cases fails
  have known : name ∈ [] ++ before := (numbers'.contains_iff name).1 ‹_›
  refine ⟨name, ?_, rfl⟩
  exact (List.singleton_sublist.2 known).append ((List.nil_sublist after).cons_cons name)

theorem resolveAccepting_error {number : Nat} {names known : List String}
    (numbers : Numbers d.ids known) (failed : d.resolveAccepting number names = .error e) :
    ∃ name ∈ names, name ∉ known ∧ e = .unknownAccepting name number := by
  have fails : names.foldlM (d.listAccepting number) ([], ∅) = .error e := by
    rw [Draft.resolveAccepting] at failed
    cases listed : names.foldlM (d.listAccepting number) ([], ∅) with
    | ok both =>
      rw [listed] at failed
      cases failed
    | error e' =>
      rw [listed, error_bind] at failed
      rw [Except.error.inj failed]
  obtain ⟨before, name, after, ⟨listed, seen⟩, rfl, -, fails⟩ := exists_failing_element fails
  refine ⟨name, by simp, fun mem => ?_, ?_⟩
  · have found : d.ids[name]? = some (known.idxOf name) := by rw [numbers, if_pos mem]
    simp [Draft.listAccepting, found] at fails
  · unfold Draft.listAccepting at fails
    dsimp only at fails
    split at fails <;> cases fails
    rfl

/-! ## Lines behind others -/

def Settles (lines : List NumberedLine) (d : Draft) (l : NumberedLine) : Prop :=
  (∃ d', d.read l = .ok d' ∧ Remembers (lines ++ [l]) d') ∨
    ∃ e, d.read l = .error e ∧ Fault lines l e

namespace Remembers

theorem settles_directive (remembers : Remembers lines d) {b : Bool}
    (kind : l.line = .directive b) : Settles lines d l := by
  by_cases first : l.number = 1
  · exact .inl ⟨{ d with hasDirective := true, debug := b }, by simp [Draft.read, kind, first],
      remembers.keep (by simp [kind, Line.header?]) rfl rfl⟩
  · exact .inr ⟨_, by simp [Draft.read, kind, first], .lateDirective kind first⟩

theorem settles_headless (summary : Summary lines d) (headless : d.hasHeader ≠ true)
    (noDirective : l.line.directive? = none) (noHeader : l.line.header? = none) :
    Settles lines d l := by
  have missing : select Line.header? lines = [] := not_not.1 (mt summary.header.2 headless)
  refine .inr ⟨.missingHeader l.number, ?_, .missingHeader missing ⟨noDirective, noHeader⟩⟩
  cases kind : l.line <;> simp_all [Draft.read, Line.directive?, Line.header?]

theorem settles_header (remembers : Remembers lines d) (summary : Summary lines d)
    (admissible : Admissible lines) {names : List String} (kind : l.line = .header names) :
    Settles lines d l := by
  by_cases second : d.hasHeader = true
  · exact .inr ⟨_, by simp [Draft.read, kind, second],
      .secondHeader kind (summary.header.1 second)⟩
  have missing : select Line.header? lines = [] := not_not.1 (mt summary.header.2 second)
  have undeclared : declared lines = [] := by simp [declared, missing]
  have no_states : d.states.toList = [] := by simpa [undeclared] using summary.names
  have reading : d.read l = names.foldlM (Draft.declare l.number)
      { d with hasHeader := true, current := none } := by
    simp [Draft.read, kind, second]
  have numbers : Numbers d.ids [] := undeclared ▸ summary.ids
  rw [Settles, reading]
  cases made : names.foldlM (Draft.declare l.number)
      { d with hasHeader := true, current := none } with
  | error e =>
    obtain ⟨name, twice, rfl⟩ := declare_error { d with hasHeader := true, current := none }
      (by simp [no_states]) numbers made
    exact .inr ⟨_, rfl, .duplicateName kind twice⟩
  | ok d' =>
    refine .inl ⟨d', rfl, ?_⟩
    rcases declare_names l.number names { d with hasHeader := true, current := none } []
        (by simp [no_states]) numbers with ⟨-, ids, states, made', -, stated⟩ | ⟨-, e, fails⟩
    · obtain rfl := Except.ok.inj (made.symm.trans made')
      refine remembers.header admissible missing rfl fun q member => ?_
      rw [stated, no_states, List.nil_append] at member
      obtain ⟨name, -, rfl⟩ := List.mem_map.1 member
      simp [State.ofName]
    · rw [made] at fails
      cases fails

theorem settles_init (remembers : Remembers lines d) (summary : Summary lines d) {name : String}
    (kind : l.line = .init name) : Settles lines d l := by
  by_cases headed : d.hasHeader = true
  swap
  · exact settles_headless summary headed (by simp [kind, Line.directive?])
      (by simp [kind, Line.header?])
  by_cases set : d.initial.isSome = true
  · refine .inr ⟨_, by simp [Draft.read, Draft.readBody, kind, headed, set],
      .secondInit kind fun none => ?_⟩
    rw [summary.initial, none] at set
    cases set
  by_cases known : name ∈ declared lines
  · have found : d.ids[name]? = some ((declared lines).idxOf name) := by
      rw [summary.ids, if_pos known]
    exact .inl ⟨{ d with current := none, initial := some ((declared lines).idxOf name) },
      by simp [Draft.read, Draft.readBody, kind, headed, set, found],
      remembers.keep (by simp [kind, Line.header?]) rfl rfl⟩
  · have unknown : d.ids[name]? = none := by rw [summary.ids, if_neg known]
    exact .inr ⟨_, by simp [Draft.read, Draft.readBody, kind, headed, set, unknown],
      .unknownInitial kind (summary.header.1 headed) known⟩

theorem settles_accept (remembers : Remembers lines d) (summary : Summary lines d)
    {names : List String} (kind : l.line = .accept names) : Settles lines d l := by
  by_cases headed : d.hasHeader = true
  swap
  · exact settles_headless summary headed (by simp [kind, Line.directive?])
      (by simp [kind, Line.header?])
  by_cases set : d.accepting.isSome = true
  · refine .inr ⟨_, by simp [Draft.read, Draft.readBody, kind, headed, set],
      .secondAccept kind fun none => ?_⟩
    rw [summary.accepting, none] at set
    cases set
  cases resolved : d.resolveAccepting l.number names with
  | ok ids =>
    exact .inl ⟨{ d with current := none, accepting := some ids },
      by simp [Draft.read, Draft.readBody, kind, headed, set, resolved],
      remembers.keep (by simp [kind, Line.header?]) rfl rfl⟩
  | error e =>
    obtain ⟨name, listed, unknown, rfl⟩ := resolveAccepting_error summary.ids resolved
    exact .inr ⟨_, by simp [Draft.read, Draft.readBody, kind, headed, set, resolved],
      .unknownAccepting kind (summary.header.1 headed) listed unknown⟩

theorem settles_block (remembers : Remembers lines d) (summary : Summary lines d)
    (admissible : Admissible lines) {name : String} (kind : l.line = .block name) :
    Settles lines d l := by
  by_cases headed : d.hasHeader = true
  swap
  · exact settles_headless summary headed (by simp [kind, Line.directive?])
      (by simp [kind, Line.header?])
  by_cases known : name ∈ declared lines
  swap
  · have unknown : d.ids[name]? = none := by rw [summary.ids, if_neg known]
    exact .inr ⟨_, by simp [Draft.read, Draft.readBody, kind, headed, unknown],
      .unknownBlock kind (summary.header.1 headed) known⟩
  have found : d.ids[name]? = some ((declared lines).idxOf name) := by
    rw [summary.ids, if_pos known]
  by_cases second : (declared lines).idxOf name ∈ d.blocks
  · refine .inr ⟨_, by simp [Draft.read, Draft.readBody, kind, headed, found, second],
      .duplicateBlock kind ?_⟩
    obtain ⟨other, member, same⟩ := List.mem_map.1 ((summary.blocks _).1 second)
    exact (List.idxOf_inj (admissible.blocks_declared other member)).1 same ▸ member
  · exact .inl ⟨{ d with
        current := some ((declared lines).idxOf name)
        blocks := d.blocks.insert ((declared lines).idxOf name) },
      by simp [Draft.read, Draft.readBody, kind, headed, found, second],
      remembers.keep (by simp [kind, Line.header?]) rfl rfl⟩

theorem settles_rule (remembers : Remembers lines d) (summary : Summary lines d)
    (admissible : Admissible lines) {read write : Symbol} {direction : Direction} {target : String}
    {column : Nat} (kind : l.line = .rule read write direction target column) :
    Settles lines d l := by
  have clause : l.line.clause? = some ⟨read, write, direction, target⟩ := by
    simp [kind, Line.clause?]
  by_cases headed : d.hasHeader = true
  swap
  · exact settles_headless summary headed (by simp [kind, Line.directive?])
      (by simp [kind, Line.header?])
  cases opened : openBlock lines with
  | none =>
    have closed : d.current = none := by rw [summary.current, opened]; rfl
    exact .inr ⟨_, by simp [Draft.read, Draft.readBody, kind, headed, closed],
      .ruleOutsideBlock (by simp [clause]) opened⟩
  | some name =>
    obtain ⟨q, rfl, current, stored⟩ := summary.open_state admissible opened
    by_cases known : target ∈ declared lines
    swap
    · have unknown : d.ids[target]? = none := by rw [summary.ids, if_neg known]
      exact .inr ⟨_, by simp [Draft.read, Draft.readBody, kind, headed, current, unknown],
        .unknownTarget kind (summary.header.1 headed) known⟩
    have found : d.ids[target]? = some ((declared lines).idxOf target) := by
      rw [summary.ids, if_pos known]
    have indexed := summary.indexed q (List.mem_of_getElem? (by simpa using stored))
    cases pushed : q.push ⟨read, write, direction, (declared lines).idxOf target⟩ with
    | ok q' =>
      have grown : q'.rules =
          q.rules.push ⟨read, write, direction, (declared lines).idxOf target⟩ := by
        rw [((indexed.push_eq_ok_iff _).1 pushed).2]
      refine .inl ⟨_, ?_, remembers.rule opened clause rfl rfl stored grown⟩
      simp [Draft.read, Draft.readBody, Draft.addRule, kind, headed, current, found, stored, pushed]
    | error i =>
      -- Then the state has a rule that reads the symbol, and its line is remembered.
      have taken : ¬ q.Admits ⟨read, write, direction, (declared lines).idxOf target⟩ := by
        rw [← indexed.index_eq_none_iff]
        intro vacant
        simp [State.push, vacant] at pushed
      simp only [State.Admits, not_forall, not_not] at taken
      obtain ⟨r, listed, same⟩ := taken
      obtain ⟨n, line⟩ := Option.isSome_iff_exists.1 (remembers.complete _ q stored r listed)
      rw [show r.read = read from same] at line
      obtain ⟨pre, k, post, name, split, rfl, isRule, place⟩ := remembers.sound _ _ _ line
      have declared_name : name ∈ declared lines := by
        refine admissible.blocks_declared name ?_
        rw [split, select_append]
        exact List.mem_append_left _ (mem_select_of_openBlock isRule.1)
      obtain rfl := (List.idxOf_inj declared_name).1 place
      exact .inr ⟨_, by
        simp [Draft.read, Draft.readBody, Draft.addRule, kind, headed, current, found, stored,
          pushed, line],
        .duplicateRule ⟨opened, _, clause, rfl⟩ split isRule⟩

theorem settles (remembers : Remembers lines d) (summary : Summary lines d)
    (admissible : Admissible lines) : Settles lines d l := by
  cases kind : l.line with
  | directive b => exact remembers.settles_directive kind
  | header names => exact remembers.settles_header summary admissible kind
  | init name => exact remembers.settles_init summary kind
  | accept names => exact remembers.settles_accept summary kind
  | block name => exact remembers.settles_block summary admissible kind
  | rule read write direction target column => exact remembers.settles_rule summary admissible kind
  | malformed =>
    by_cases headed : d.hasHeader = true
    · exact .inr ⟨_, by simp [Draft.read, Draft.readBody, kind, headed], .malformedRule kind⟩
    · exact settles_headless summary headed (by simp [kind, Line.directive?])
        (by simp [kind, Line.header?])
  | unknown =>
    by_cases headed : d.hasHeader = true
    · exact .inr ⟨_, by simp [Draft.read, Draft.readBody, kind, headed], .unknownLine kind⟩
    · exact settles_headless summary headed (by simp [kind, Line.directive?])
        (by simp [kind, Line.header?])

end Remembers

theorem remembers_lines (reached : lines.foldlM Draft.read {} = .ok d) : Remembers lines d := by
  induction lines using List.reverseRecOn generalizing d with
  | nil =>
    cases reached
    exact remembers_nil
  | append_singleton lines l ih =>
    obtain ⟨d', early⟩ := read_of_prefix (List.prefix_append lines [l]) reached
    obtain ⟨admissible, summary⟩ := read_lines_ok early
    rw [List.foldlM_append, early, ok_bind, List.foldlM_cons] at reached
    rcases (ih early).settles summary admissible with ⟨d'', made, remembers⟩ | ⟨e, failed, -⟩
    · rw [made] at reached
      cases reached
      exact remembers
    · rw [failed] at reached
      cases reached

theorem fault_of_read (reached : before.foldlM Draft.read {} = .ok d)
    (failed : d.read l = .error e) : Admissible before ∧ Fault before l e := by
  obtain ⟨admissible, summary⟩ := read_lines_ok reached
  refine ⟨admissible, ?_⟩
  rcases (remembers_lines reached).settles summary admissible with
    ⟨d', made, -⟩ | ⟨e', fails, fault⟩
  · rw [failed] at made
    cases made
  · obtain rfl := Except.error.inj (failed.symm.trans fails)
    exact fault

end OneTape.Description
