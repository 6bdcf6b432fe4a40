import Mathlib.Data.List.Basic
import OneTape.Proofs.Description.Forms

/-!
`Arranged` says what is known when some of the parts and some of the rules have been read; each
further line adds what it says and disturbs nothing else.
-/

namespace OneTape.Description

variable {o : Outline} {flags : List Bool} {done : List Part} {written : Nat → List Rule}
variable {lines : List NumberedLine} {l : NumberedLine}

def Outline.clause (o : Outline) (r : Rule) : Clause :=
  ⟨r.read, r.write, r.direction, o.name r.next⟩

/-- The lines are those of a directive, if there is one, the header and the parts in `done`, where
the blocks hold the rules in `written`. -/
structure Arranged (o : Outline) (flags : List Bool) (done : List Part) (written : Nat → List Rule)
    (lines : List NumberedLine) : Prop where
  admissible : Admissible lines
  directives : select Line.directive? lines = flags
  header : select Line.header? lines = [o.names]
  init : select Line.init? lines = if .init ∈ done then [o.name o.initial] else []
  accept : select Line.accept? lines = if .accept ∈ done then [o.accepting.map o.name] else []
  blocks : ∀ i < o.states.length, o.name i ∈ select Line.block? lines ↔ .block i ∈ done
  clauses : ∀ i < o.states.length,
    blockClauses lines (o.name i) = (written i).map o.clause

theorem Arranged.declared (arranged : Arranged o flags done written lines) :
    declared lines = o.names := by
  rw [Description.declared, arranged.header]
  simp

theorem Outline.length_names (o : Outline) : o.names.length = o.states.length := by
  simp [Outline.names]

theorem Outline.name_eq_getElem {i : Nat} (bound : i < o.names.length) : o.name i = o.names[i] := by
  simp [Outline.name, bound]

theorem Outline.name_mem {i : Nat} (bound : i < o.states.length) : o.name i ∈ o.names := by
  rw [← o.length_names] at bound
  rw [name_eq_getElem bound]
  exact List.getElem_mem bound

theorem Outline.Valid.idxOf_name (valid : o.Valid) {i : Nat} (bound : i < o.states.length) :
    o.names.idxOf (o.name i) = i := by
  rw [← o.length_names] at bound
  rw [Outline.name_eq_getElem bound]
  exact valid.distinct.idxOf_getElem i bound

theorem Outline.Valid.name_inj (valid : o.Valid) {i j : Nat} (bound : i < o.states.length)
    (bound' : j < o.states.length) (same : o.name i = o.name j) : i = j := by
  rw [← valid.idxOf_name bound, same, valid.idxOf_name bound']

theorem Outline.of_rules {P : List Rule → Prop} (nothing : P []) (each : ∀ q ∈ o.states, P q.2)
    (i : Nat) : P (o.rules i) := by
  unfold Outline.rules
  cases found : o.states[i]? with
  | none => exact nothing
  | some q => exact each q (List.mem_of_getElem? found)

theorem Outline.Valid.rules_next_lt (valid : o.Valid) (i : Nat) :
    ∀ r ∈ o.rules i, r.next < o.states.length :=
  Outline.of_rules (P := fun rs => ∀ r ∈ rs, r.next < o.states.length) (by simp) valid.next_lt i

theorem Outline.Valid.rules_writable (valid : o.Valid) (i : Nat) :
    ∀ r ∈ o.rules i, r.read ∉ unwritable ∧ r.write ∉ unwritable :=
  Outline.of_rules (P := fun rs => ∀ r ∈ rs, r.read ∉ unwritable ∧ r.write ∉ unwritable) (by simp)
    valid.writable i

theorem Outline.Valid.nodup_reads (valid : o.Valid) (i : Nat) :
    ((o.rules i).map Rule.read).Nodup :=
  Outline.of_rules (P := fun rs => (rs.map Rule.read).Nodup) List.nodup_nil valid.reads_distinct i

theorem clause?_eq_some {line : Line} {c : Clause} (found : line.clause? = some c) :
    ∃ column, line = .rule c.read c.write c.direction c.target column := by
  cases line <;> simp only [Line.clause?, reduceCtorEq, Option.some.injEq] at found
  subst found
  exact ⟨_, rfl⟩

theorem clause?_unplaced (line : Line) : line.unplaced.clause? = line.clause? := by
  cases line <;> rfl

theorem unplaced_eq {line line' : Line} (same : line.unplaced = line')
    (noRule : line'.clause? = none) : line = line' := by
  cases line <;> subst same <;> simp_all [Line.unplaced, Line.clause?]

/-! ## One more line -/

theorem Arranged.init_line (arranged : Arranged o flags done written lines) (valid : o.Valid)
    (line : l.line = .init (o.name o.initial)) (new : .init ∉ done) :
    Arranged o flags (done ++ [.init]) written (lines ++ [l]) where
  admissible := by
    refine admissible_snoc.2 ⟨arranged.admissible, ?_⟩
    simp only [Fits, line, arranged.header, arranged.init, new, arranged.declared]
    exact ⟨by simp, by simp, Outline.name_mem valid.initial_lt⟩
  directives := by simp [line, Line.directive?, arranged.directives]
  header := by simp [line, Line.header?, arranged.header]
  init := by simp [line, Line.init?, arranged.init, new]
  accept := by simp [line, Line.accept?, arranged.accept]
  blocks := by simpa [line, Line.block?] using arranged.blocks
  clauses := by simpa [line, Line.clause?] using arranged.clauses

theorem Arranged.accept_line (arranged : Arranged o flags done written lines) (valid : o.Valid)
    (line : l.line = .accept (o.accepting.map o.name)) (new : .accept ∉ done) :
    Arranged o flags (done ++ [.accept]) written (lines ++ [l]) where
  admissible := by
    refine admissible_snoc.2 ⟨arranged.admissible, ?_⟩
    simp only [Fits, line, arranged.header, arranged.accept, new, arranged.declared]
    refine ⟨by simp, by simp, fun name listed => ?_⟩
    obtain ⟨i, member, rfl⟩ := List.mem_map.1 listed
    exact Outline.name_mem (valid.accepting_lt i member)
  directives := by simp [line, Line.directive?, arranged.directives]
  header := by simp [line, Line.header?, arranged.header]
  init := by simp [line, Line.init?, arranged.init]
  accept := by simp [line, Line.accept?, arranged.accept, new]
  blocks := by simpa [line, Line.block?] using arranged.blocks
  clauses := by simpa [line, Line.clause?] using arranged.clauses

theorem Arranged.block_line (arranged : Arranged o flags done written lines) (valid : o.Valid)
    {i : Nat} (bound : i < o.states.length) (line : l.line = .block (o.name i))
    (new : .block i ∉ done) :
    Arranged o flags (done ++ [.block i]) written (lines ++ [l]) where
  admissible := by
    refine admissible_snoc.2 ⟨arranged.admissible, ?_⟩
    simp only [Fits, line, arranged.header, arranged.declared, arranged.blocks i bound, new]
    exact ⟨by simp, Outline.name_mem bound, by simp⟩
  directives := by simp [line, Line.directive?, arranged.directives]
  header := by simp [line, Line.header?, arranged.header]
  init := by simp [line, Line.init?, arranged.init]
  accept := by simp [line, Line.accept?, arranged.accept]
  blocks j bound' := by
    have same : o.name j = o.name i ↔ j = i :=
      ⟨valid.name_inj bound' bound, fun same => by rw [same]⟩
    simp [line, Line.block?, arranged.blocks j bound', same]
  clauses := by simpa [line, Line.clause?] using arranged.clauses

theorem Arranged.rule_line (arranged : Arranged o flags done written lines) (valid : o.Valid)
    {i : Nat} (bound : i < o.states.length) (opened : openBlock lines = some (o.name i)) {r : Rule}
    (line : l.line.clause? = some (o.clause r)) (next_lt : r.next < o.states.length)
    (new : r.read ∉ (written i).map Rule.read) :
    Arranged o flags done (Function.update written i (written i ++ [r])) (lines ++ [l]) := by
  obtain ⟨column, line⟩ := clause?_eq_some line
  refine ⟨?admissible, ?directives, ?header, ?init, ?accept, ?blocks, ?clauses⟩
  case admissible =>
    refine admissible_snoc.2 ⟨arranged.admissible, ?_⟩
    simp only [Fits, line, arranged.header, arranged.declared]
    refine ⟨by simp, Outline.name_mem next_lt, o.name i, opened, ?_⟩
    rw [arranged.clauses i bound]
    intro c member
    obtain ⟨r', earlier, rfl⟩ := List.mem_map.1 member
    have apart : r'.read ≠ r.read := fun same => new (same ▸ List.mem_map_of_mem earlier)
    exact apart
  case directives => simp [line, Line.directive?, arranged.directives]
  case header => simp [line, Line.header?, arranged.header]
  case init => simp [line, Line.init?, arranged.init]
  case accept => simp [line, Line.accept?, arranged.accept]
  case blocks => simpa [line, Line.block?] using arranged.blocks
  case clauses =>
    intro j bound'
    rw [blockClauses_snoc, arranged.clauses j bound', opened, line]
    by_cases same : j = i
    · subst same
      simp [Line.clause?, Outline.clause]
    · have apart : o.name i ≠ o.name j := fun equal => same (valid.name_inj bound' bound equal.symm)
      simp [same, apart]

/-! ## One more part -/

theorem Arranged.rule_lines (arranged : Arranged o flags done written lines) (valid : o.Valid)
    {i : Nat} (bound : i < o.states.length) (opened : openBlock lines = some (o.name i))
    {rs : List Rule} {more : List NumberedLine}
    (read : more.map (·.line.clause?) = rs.map fun r => some (o.clause r))
    (next_lt : ∀ r ∈ rs, r.next < o.states.length)
    (distinct : ((written i ++ rs).map Rule.read).Nodup) :
    Arranged o flags done (Function.update written i (written i ++ rs)) (lines ++ more) := by
  induction rs generalizing lines written more with
  | nil =>
    have nothing : more = [] := by simpa using read
    subst nothing
    simpa using arranged
  | cons r rs ih =>
    cases more with
    | nil => cases read
    | cons l more =>
      rw [List.map_cons, List.map_cons, List.cons.injEq] at read
      have new : r.read ∉ (written i).map Rule.read := by
        intro earlier
        rw [List.map_append, List.nodup_append] at distinct
        exact distinct.2.2 _ earlier _ (by simp) rfl
      have arranged' := arranged.rule_line valid bound opened read.1 (next_lt r (by simp)) new
      have opened' : openBlock (lines ++ [l]) = some (o.name i) := by
        obtain ⟨column, line⟩ := clause?_eq_some read.1
        simp [line, Line.isSection, opened]
      have later := ih arranged' opened' read.2
        (fun r' member => next_lt r' (List.mem_cons_of_mem r member)) (by simpa using distinct)
      simpa using later

/-- The rules in the blocks among the parts. -/
def Outline.writtenIn (o : Outline) (done : List Part) (i : Nat) : List Rule :=
  if .block i ∈ done then o.rules i else []

theorem map_fst_zipIdx {α β : Type} (f : α → β) (xs : List α) :
    xs.zipIdx.map (fun p => f p.1) = xs.map f := by
  have same := congrArg (List.map f) (List.zipIdx_map_fst 0 xs)
  rwa [List.map_map] at same

theorem clause?_ruleRow (y : Layout) (o : Outline) (i j : Nat) (r : Rule) :
    (y.ruleRow o i j r).line.clause? = some (o.clause r) := rfl

theorem Arranged.part_lines (arranged : Arranged o flags done (o.writtenIn done) lines)
    (valid : o.Valid) {y : Layout} {p : Part} (new : p ∉ done)
    (bound : ∀ i, p = .block i → i < o.states.length) {more : List NumberedLine}
    (read : more.map (·.line.unplaced) = (y.partRows o p).map Row.line) :
    Arranged o flags (done ++ [p]) (o.writtenIn (done ++ [p])) (lines ++ more) := by
  cases p with
  | init =>
    have same : o.writtenIn (done ++ [.init]) = o.writtenIn done := by
      funext i
      simp [Outline.writtenIn]
    obtain ⟨l, rfl, line⟩ := List.map_eq_singleton_iff.1 read
    rw [same]
    exact arranged.init_line valid (unplaced_eq line rfl) new
  | accept =>
    have same : o.writtenIn (done ++ [.accept]) = o.writtenIn done := by
      funext i
      simp [Outline.writtenIn]
    obtain ⟨l, rfl, line⟩ := List.map_eq_singleton_iff.1 read
    rw [same]
    exact arranged.accept_line valid (unplaced_eq line rfl) new
  | block i =>
    have bound' := bound i rfl
    obtain ⟨b, rules, rfl, head, tail⟩ := List.map_eq_cons_iff.1 read
    have line : b.line = .block (o.name i) := unplaced_eq head rfl
    have opened : openBlock (lines ++ [b]) = some (o.name i) := by
      simp [line, Line.isSection, Line.block?]
    have clauses : rules.map (·.line.clause?) = (o.rules i).map fun r => some (o.clause r) := by
      have same := congrArg (List.map Line.clause?) tail
      rw [← map_fst_zipIdx fun r => some (o.clause r)]
      simpa [Function.comp_def, clause?_unplaced, clause?_ruleRow] using same
    have none_before : o.writtenIn done i = [] := by simp [Outline.writtenIn, new]
    have arranged' := (arranged.block_line valid bound' line new).rule_lines valid bound' opened
      clauses (valid.rules_next_lt i) (by simpa [none_before] using valid.nodup_reads i)
    have same : Function.update (o.writtenIn done) i (o.writtenIn done i ++ o.rules i) =
        o.writtenIn (done ++ [.block i]) := by
      funext j
      by_cases equal : j = i
      · subst equal
        simp [Outline.writtenIn, new]
      · simp [Outline.writtenIn, equal]
    rw [same] at arranged'
    simpa using arranged'

theorem Arranged.parts_lines (arranged : Arranged o flags done (o.writtenIn done) lines)
    (valid : o.Valid) {y : Layout} {parts : List Part} (distinct : (done ++ parts).Nodup)
    (bound : ∀ i, .block i ∈ parts → i < o.states.length) {more : List NumberedLine}
    (read : more.map (·.line.unplaced) = (parts.flatMap (y.partRows o)).map Row.line) :
    Arranged o flags (done ++ parts) (o.writtenIn (done ++ parts)) (lines ++ more) := by
  induction parts generalizing done lines more with
  | nil =>
    have nothing : more = [] := by simpa using read
    simpa [nothing] using arranged
  | cons p parts ih =>
    rw [List.flatMap_cons, List.map_append, List.map_eq_append_iff] at read
    obtain ⟨first, others, rfl, head, tail⟩ := read
    have new : p ∉ done := by
      intro earlier
      rw [List.nodup_append] at distinct
      exact distinct.2.2 p earlier p List.mem_cons_self rfl
    have arranged' := arranged.part_lines valid new
      (fun i same => bound i (same ▸ List.mem_cons_self)) head
    have later := ih arranged' (by simpa using distinct)
      (fun i member => bound i (List.mem_cons_of_mem p member)) tail
    simpa using later

/-! ## All lines -/

def Layout.debugFlags (y : Layout) (o : Outline) : List Bool :=
  if y.directive.isSome then [o.debug] else []

theorem exists_directives {y : Layout} {ds : List NumberedLine}
    (read : ds.map (·.line.unplaced) = (y.directiveRows o).map Row.line)
    (first : ∀ l ∈ ds.head?, l.number = 1) :
    Admissible ds ∧ select Line.directive? ds = y.debugFlags o ∧ select Line.header? ds = [] ∧
      select Line.init? ds = [] ∧ select Line.accept? ds = [] ∧ select Line.block? ds = [] ∧
      ∀ name, blockClauses ds name = [] := by
  unfold Layout.directiveRows at read
  unfold Layout.debugFlags
  cases directive : y.directive with
  | none =>
    rw [directive] at read
    obtain rfl : ds = [] := by simpa using read
    simp [admissible_nil]
  | some blanks =>
    rw [directive] at read
    obtain ⟨l, rfl, line⟩ := List.map_eq_singleton_iff.1 read
    replace line : l.line = .directive o.debug := unplaced_eq line rfl
    have number : l.number = 1 := first l rfl
    have admissible : Admissible ([] ++ [l]) :=
      admissible_snoc.2 ⟨admissible_nil, by simp [Fits, line, number]⟩
    have clauses (name : String) : blockClauses ([] ++ [l]) name = [] := by
      rw [blockClauses_snoc]
      simp
    refine ⟨admissible, ?_, ?_, ?_, ?_, ?_, clauses⟩ <;>
      simp [select, line, Line.directive?, Line.header?, Line.init?, Line.accept?, Line.block?]

theorem arranged_header (valid : o.Valid) {y : Layout} {ds : List NumberedLine}
    (read : ds.map (·.line.unplaced) = (y.directiveRows o).map Row.line)
    (first : ∀ l ∈ ds.head?, l.number = 1) (line : l.line = .header o.names) :
    Arranged o (y.debugFlags o) [] (o.writtenIn []) (ds ++ [l]) := by
  obtain ⟨admissible, directives, header, init, accept, block, clauses⟩ :=
    exists_directives read first
  exact {
    admissible := admissible_snoc.2 ⟨admissible, by simp [Fits, line, header, valid.distinct]⟩
    directives := by simp [line, Line.directive?, directives]
    header := by simp [line, Line.header?, header]
    init := by simp [line, Line.init?, init]
    accept := by simp [line, Line.accept?, accept]
    blocks := by simp [line, Line.block?, block]
    clauses := by simp [line, Line.clause?, clauses, Outline.writtenIn] }

theorem Outline.Valid.clause_rule (valid : o.Valid) {r : Rule} (bound : r.next < o.states.length) :
    (o.clause r).rule o.names = r := by
  simp [Clause.rule, Outline.clause, valid.idxOf_name bound]

theorem Arranged.outlineOf_eq {y : Layout} (arranged : Arranged o (y.debugFlags o) done
    (o.writtenIn done) lines) (valid : o.Valid) (debug : o.debug = true → y.directive.isSome)
    (init_mem : .init ∈ done) (accept_mem : o.accepting ≠ [] → .accept ∈ done)
    (block_mem : ∀ i, o.rules i ≠ [] → .block i ∈ done) :
    outlineOf lines = { o with accepting := o.accepting.eraseDups } := by
  have states : (o.names.map fun name =>
      (name, (blockClauses lines name).map (Clause.rule o.names))) = o.states := by
    refine List.ext_getElem (by simp [Outline.names]) fun i bound bound' => ?_
    have written : o.writtenIn done i = o.rules i := by
      unfold Outline.writtenIn
      split
      · rfl
      · by_contra missing
        exact absurd (block_mem i (Ne.symm missing)) ‹_›
    have same : ∀ r ∈ o.rules i, (Clause.rule o.names ∘ o.clause) r = id r :=
      fun r member => valid.clause_rule (valid.rules_next_lt i r member)
    have name_eq : o.name i = o.states[i].1 := by simp [Outline.name, Outline.names, bound']
    have rules_eq : o.rules i = o.states[i].2 := by simp [Outline.rules, bound']
    have bound'' : i < o.names.length := by rwa [o.length_names]
    have named : o.names[i] = o.name i := (Outline.name_eq_getElem bound'').symm
    rw [List.getElem_map, named, arranged.clauses i bound', written, List.map_map,
      List.map_congr_left same, List.map_id]
    exact Prod.ext name_eq rules_eq
  have initial : o.names.idxOf ((select Line.init? lines).headD "") = o.initial := by
    rw [arranged.init, if_pos init_mem]
    exact valid.idxOf_name valid.initial_lt
  have accepting : (select Line.accept? lines).flatten.map o.names.idxOf = o.accepting := by
    have same : ∀ i ∈ o.accepting, (o.names.idxOf ∘ o.name) i = id i :=
      fun i member => valid.idxOf_name (valid.accepting_lt i member)
    have named : (o.accepting.map o.name).map o.names.idxOf = o.accepting := by
      rw [List.map_map, List.map_congr_left same, List.map_id]
    rw [arranged.accept]
    split
    · simpa using named
    · by_cases nothing : o.accepting = []
      · simp [nothing]
      · exact absurd (accept_mem nothing) ‹_›
  have flag : (select Line.directive? lines).getLastD false = o.debug := by
    rw [arranged.directives, Layout.debugFlags]
    cases given : y.directive.isSome with
    | true => simp
    | false =>
      cases set : o.debug with
      | false => simp
      | true => simp [debug set] at given
  rw [outlineOf, arranged.declared, states, initial, accepting, flag]

theorem wellFormed_of_rows {y : Layout} (valid : o.Valid) (fits : y.Fits o)
    (read : lines.map (·.line.unplaced) = (y.rows o).map Row.line)
    (first : y.directive.isSome → ∀ l ∈ lines.head?, l.number = 1) :
    WellFormed lines ∧ outlineOf lines = { o with accepting := o.accepting.eraseDups } := by
  rw [Layout.rows, List.map_append, List.map_eq_append_iff] at read
  obtain ⟨ds, others, rfl, directives, read⟩ := read
  obtain ⟨l, more, rfl, header, parts⟩ := List.map_eq_cons_iff.1 read
  have line : l.line = .header o.names := unplaced_eq header rfl
  have first_directive : ∀ d ∈ ds.head?, d.number = 1 := by
    cases ds with
    | nil => simp
    | cons d ds =>
      apply first
      unfold Layout.directiveRows at directives
      cases given : y.directive with
      | none => simp [given] at directives
      | some blanks => rfl
  have arranged := (arranged_header valid directives first_directive line).parts_lines valid
    fits.order_nodup fits.block_lt parts
  rw [List.nil_append, List.append_assoc, List.singleton_append] at arranged
  refine ⟨wellFormed_iff.2 ⟨arranged.admissible, ?_, ?_⟩, ?_⟩
  · simp [arranged.header]
  · simp [arranged.init, fits.init_mem]
  · exact arranged.outlineOf_eq valid fits.directive fits.init_mem fits.accept_mem fits.block_mem

end OneTape.Description
