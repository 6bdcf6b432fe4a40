import OneTape.Description.Draft
import OneTape.Proofs.Description.Arrangement
import OneTape.Proofs.Machine.Lookup

/-!
Each kind of line either fits behind the lines before it, and then the draft holds what the lines
amount to with it (`Summary`), or it does not fit and is an error (`Progress`).
-/

namespace OneTape

def Machine.outline (m : Machine) : Description.Outline where
  states := m.states.toList.map fun q => (q.name, q.rules.toList)
  initial := m.initial
  accepting := m.accepting
  debug := m.debug

namespace Description

def Numbers (ids : Std.TreeMap String Nat) (names : List String) : Prop :=
  ∀ name, ids[name]? = if name ∈ names then some (names.idxOf name) else none

structure Summary (lines : List NumberedLine) (d : Draft) : Prop where
  debug : d.debug = (select Line.directive? lines).getLastD false
  header : d.hasHeader = true ↔ select Line.header? lines ≠ []
  names : d.states.toList.map State.name = declared lines
  ids : Numbers d.ids (declared lines)
  initial : d.initial = (select Line.init? lines).head?.map (declared lines).idxOf
  accepting : d.accepting = (select Line.accept? lines).head?.map fun names =>
    (names.map (declared lines).idxOf).eraseDups
  current : d.current = (openBlock lines).map (declared lines).idxOf
  blocks : ∀ i, i ∈ d.blocks ↔ i ∈ (select Line.block? lines).map (declared lines).idxOf
  indexed : ∀ q ∈ d.states.toList, q.Indexed
  rules : ∀ q ∈ d.states.toList,
    q.rules.toList = (blockClauses lines q.name).map (Clause.rule (declared lines))

theorem summary_nil : Summary [] {} where
  debug := rfl
  header := by simp
  names := rfl
  ids := by simp [Numbers]
  initial := rfl
  accepting := rfl
  current := rfl
  blocks := by simp
  indexed := by simp
  rules := by simp

def Progress (lines : List NumberedLine) (d : Draft) (l : NumberedLine) : Prop :=
  (Fits lines l ∧ ∃ next, d.read l = .ok next ∧ Summary (lines ++ [l]) next) ∨
    (¬Fits lines l ∧ ∃ e, d.read l = .error e)

theorem ok_bind {ε α β : Type} (a : α) (f : α → Except ε β) : (Except.ok a >>= f) = f a := rfl

theorem error_bind {ε α β : Type} (e : ε) (f : α → Except ε β) :
    (Except.error e >>= f) = .error e := rfl

/-! ## Names -/

theorem Numbers.insert {ids : Std.TreeMap String Nat} {names : List String} {name : String}
    (numbers : Numbers ids names) (new : name ∉ names) :
    Numbers (ids.insert name names.length) (names ++ [name]) := by
  intro other
  rw [Std.TreeMap.getElem?_insert, numbers other]
  by_cases same : name = other
  · subst same
    simp [List.idxOf_append, new]
  · have differ : compare name other ≠ .eq := fun h => same (Std.LawfulEqCmp.eq_of_compare h)
    have differ' : other ≠ name := fun h => same h.symm
    by_cases known : other ∈ names <;> simp [differ, differ', known, List.idxOf_append]

theorem Numbers.contains_iff {ids : Std.TreeMap String Nat} {names : List String}
    (numbers : Numbers ids names) (name : String) : ids.contains name = true ↔ name ∈ names := by
  rw [Std.TreeMap.contains_eq_isSome_getElem?, numbers name]
  by_cases known : name ∈ names <;> simp [known]

theorem declare_names (number : Nat) (names : List String) (d : Draft) (before : List String)
    (stated : d.states.toList.map State.name = before) (numbers : Numbers d.ids before) :
    ((names.Nodup ∧ ∀ name ∈ names, name ∉ before) ∧
      ∃ ids states, names.foldlM (Draft.declare number) d =
          .ok { d with ids := ids, states := states } ∧ Numbers ids (before ++ names) ∧
        states.toList = d.states.toList ++ names.map State.ofName) ∨
    (¬(names.Nodup ∧ ∀ name ∈ names, name ∉ before) ∧
      ∃ e, names.foldlM (Draft.declare number) d = .error e) := by
  induction names generalizing d before with
  | nil => exact .inl ⟨by simp, d.ids, d.states, rfl, by simpa using numbers, by simp⟩
  | cons name names ih =>
    have known := numbers.contains_iff name
    by_cases repeated : name ∈ before
    · refine .inr ⟨fun good => good.2 name (by simp) repeated, .duplicateName name number, ?_⟩
      rw [List.foldlM_cons, Draft.declare, if_pos (known.2 repeated)]
      rfl
    · have step : d.declare number name = .ok { d with
          ids := d.ids.insert name before.length, states := d.states.push (.ofName name) } := by
        rw [Draft.declare, if_neg (mt known.1 repeated), ← stated]
        simp
      have good_iff : ((name :: names).Nodup ∧ ∀ other ∈ name :: names, other ∉ before) ↔
          names.Nodup ∧ ∀ other ∈ names, other ∉ before ++ [name] := by
        simp only [List.nodup_cons, List.mem_cons, List.mem_append, not_or,
          forall_eq_or_imp, List.not_mem_nil, or_false]
        constructor
        · rintro ⟨⟨fresh, distinct⟩, -, apart⟩
          exact ⟨distinct, fun other member =>
            ⟨apart other member, fun same => fresh (same ▸ member)⟩⟩
        · rintro ⟨distinct, apart⟩
          exact ⟨⟨fun member => (apart name member).2 rfl, distinct⟩, repeated,
            fun other member => (apart other member).1⟩
      rw [good_iff, List.foldlM_cons, step, ok_bind]
      have rest := ih { d with
          ids := d.ids.insert name before.length, states := d.states.push (.ofName name) }
        (before ++ [name]) (by simp [stated, State.ofName]) (numbers.insert repeated)
      simpa using rest

/-! ## Accepting states -/

theorem eraseDups_snoc (ids : List Nat) (i : Nat) :
    (ids ++ [i]).eraseDups = if i ∈ ids then ids.eraseDups else ids.eraseDups ++ [i] := by
  rw [List.eraseDups_append]
  by_cases listed : i ∈ ids <;> simp [List.removeAll, listed, List.eraseDups_cons]

theorem list_accepting (d : Draft) (number : Nat) (names known : List String)
    (numbers : Numbers d.ids known) :
    ((∀ name ∈ names, name ∈ known) ∧
      ∃ listed seen, names.foldlM (d.listAccepting number) ([], ∅) = .ok (listed, seen) ∧
        listed.reverse = (names.map known.idxOf).eraseDups ∧
        ∀ i, i ∈ seen ↔ i ∈ names.map known.idxOf) ∨
    (¬(∀ name ∈ names, name ∈ known) ∧
      ∃ e, names.foldlM (d.listAccepting number) ([], ∅) = .error e) := by
  induction names using List.reverseRecOn with
  | nil => exact .inl ⟨by simp, [], ∅, rfl, by simp, by simp⟩
  | append_singleton names name ih =>
    rw [List.foldlM_append]
    rcases ih with ⟨good, listed, seen, reached, reversed, members⟩ | ⟨bad, e, failed⟩
    · rw [reached, ok_bind, List.foldlM_cons]
      by_cases mem : name ∈ known
      · have found : d.ids[name]? = some (known.idxOf name) := by rw [numbers, if_pos mem]
        by_cases old : known.idxOf name ∈ seen
        · refine .inl ⟨by simpa [or_imp, forall_and] using ⟨good, mem⟩, listed, seen, ?_, ?_, ?_⟩
          · simp [Draft.listAccepting, found, old, ok_bind, pure, Except.pure]
          · rw [List.map_append, List.map_singleton, eraseDups_snoc, if_pos ((members _).1 old),
              reversed]
          · intro i
            rw [members, List.map_append, List.mem_append, List.map_singleton, List.mem_singleton]
            exact ⟨.inl, fun h => h.elim id fun same => same ▸ (members _).1 old⟩
        · refine .inl ⟨by simpa [or_imp, forall_and] using ⟨good, mem⟩,
            known.idxOf name :: listed, seen.insert (known.idxOf name), ?_, ?_, ?_⟩
          · simp [Draft.listAccepting, found, old, ok_bind, pure, Except.pure]
          · rw [List.map_append, List.map_singleton, eraseDups_snoc,
              if_neg (mt (members _).2 old), List.reverse_cons, reversed]
          · intro i
            rw [Std.TreeSet.mem_insert, members, List.map_append, List.mem_append,
              List.map_singleton, List.mem_singleton, Std.LawfulEqCmp.compare_eq_iff_eq, or_comm,
              eq_comm]
      · refine .inr ⟨fun all => mem (all name (by simp)), .unknownAccepting name number, ?_⟩
        have missing : d.ids[name]? = none := by rw [numbers, if_neg mem]
        simp [Draft.listAccepting, missing]
    · rw [failed]
      exact .inr ⟨fun all => bad fun name mem => all name (by simp [mem]), e, rfl⟩

/-! ## Lines -/

section

variable {lines : List NumberedLine} {d : Draft} {l : NumberedLine}

theorem Summary.behind (summary : Summary lines d) {next : Draft}
    (plain : l.line.header? = none ∧ l.line.clause? = none)
    (kept : next.hasHeader = d.hasHeader ∧ next.ids = d.ids ∧ next.states = d.states)
    (debug : next.debug = l.line.directive?.getD d.debug)
    (initial : next.initial = d.initial.or (l.line.init?.map (declared lines).idxOf))
    (accepting : next.accepting = d.accepting.or (l.line.accept?.map fun names =>
      (names.map (declared lines).idxOf).eraseDups))
    (current : next.current = if l.line.isSection
      then l.line.block?.map (declared lines).idxOf else d.current)
    (blocks : ∀ i, i ∈ next.blocks ↔
      i ∈ d.blocks ∨ l.line.block?.map (declared lines).idxOf = some i) :
    Summary (lines ++ [l]) next := by
  obtain ⟨noHeader, noClause⟩ := plain
  obtain ⟨hasHeader, ids, states⟩ := kept
  have same : declared (lines ++ [l]) = declared lines := by simp [noHeader]
  exact {
    debug := by
      rw [debug, summary.debug, select_snoc]
      cases l.line.directive? <;> simp
    header := by
      rw [hasHeader, summary.header]
      simp [noHeader]
    names := by rw [states, same, summary.names]
    ids := by
      rw [ids, same]
      exact summary.ids
    initial := by
      rw [initial, same, summary.initial, select_snoc]
      cases select Line.init? lines <;> cases l.line.init? <;> simp
    accepting := by
      rw [accepting, same, summary.accepting, select_snoc]
      cases select Line.accept? lines <;> cases l.line.accept? <;> simp
    current := by
      rw [current, same, summary.current, openBlock_snoc]
      cases l.line.isSection <;> simp
    blocks := by
      intro i
      rw [blocks, same, summary.blocks, select_snoc]
      cases l.line.block? <;> simp [eq_comm]
    indexed := by
      rw [states]
      exact summary.indexed
    rules := by
      rw [states, same]
      simpa [noClause] using summary.rules }

theorem Summary.progress_directive (summary : Summary lines d) {debug : Bool}
    (kind : l.line = .directive debug) : Progress lines d l := by
  by_cases first : l.number = 1
  · refine .inl ⟨by simpa [Fits, kind] using first, { d with hasDirective := true, debug := debug },
      by simp [Draft.read, kind, first], ?_⟩
    apply summary.behind <;> simp [kind, Line.header?, Line.clause?, Line.directive?, Line.init?,
      Line.accept?, Line.isSection, Line.block?]
  · exact .inr ⟨by simpa [Fits, kind] using first, .unexpectedLine l.number l.trimmed,
      by simp [Draft.read, kind, first]⟩

theorem Summary.progress_headless (summary : Summary lines d) (headless : d.hasHeader ≠ true)
    (noDirective : l.line.directive? = none) (noHeader : l.line.header? = none) :
    Progress lines d l := by
  have missing : select Line.header? lines = [] := not_not.1 (mt summary.header.2 headless)
  refine .inr ⟨?_, .missingHeader l.number, ?_⟩
  · intro fits
    cases kind : l.line <;> simp_all [Fits, Line.directive?, Line.header?]
  · cases kind : l.line <;> simp_all [Draft.read, Line.directive?, Line.header?]

theorem Summary.progress_header (summary : Summary lines d) (admissible : Admissible lines)
    {names : List String} (kind : l.line = .header names) : Progress lines d l := by
  by_cases second : d.hasHeader = true
  · refine .inr ⟨?_, .duplicateSection .header l.number, by simp [Draft.read, kind, second]⟩
    simp only [Fits, kind]
    exact fun fits => summary.header.1 second fits.1
  have missing : select Line.header? lines = [] := not_not.1 (mt summary.header.2 second)
  have undeclared : declared lines = [] := by simp [declared, missing]
  have no_states : d.states.toList = [] := by
    simpa [undeclared] using summary.names
  -- Nothing but directives was read, so that nothing can have been said with other names.
  have nothing {α : Type} {other : Line → Option α}
      (silent : ∀ debug, other (.directive debug) = none) :
      select other lines = [] := by
    apply select_eq_nil_iff.2
    intro k member
    obtain ⟨debug, found⟩ := admissible.headless missing k member
    rw [found, silent]
  have no_init : select Line.init? lines = [] := nothing fun _ => rfl
  have no_accept : select Line.accept? lines = [] := nothing fun _ => rfl
  have no_block : select Line.block? lines = [] := nothing fun _ => rfl
  have no_clause (name : String) : blockClauses lines name = [] := by
    apply List.eq_nil_iff_forall_not_mem.2
    intro c member
    have no_clauses : select Line.clause? lines = [] := nothing fun _ => rfl
    have := mem_select_of_mem_blockClauses member
    simp [no_clauses] at this
  have fits_iff : Fits lines l ↔ names.Nodup := by simp [Fits, kind, missing]
  have reading : d.read l = names.foldlM (Draft.declare l.number)
      { d with hasHeader := true, current := none } := by
    simp [Draft.read, kind, second]
  rw [Progress, fits_iff, reading]
  rcases declare_names l.number names { d with hasHeader := true, current := none } []
      (by simp [no_states]) (by simpa [undeclared] using summary.ids) with
    ⟨⟨distinct, -⟩, ids, states, made, numbers, stated⟩ | ⟨repeated, e, failed⟩
  · refine .inl ⟨distinct, _, made, ?_⟩
    have all : declared (lines ++ [l]) = names := by simp [undeclared, kind, Line.header?]
    rw [no_states, List.nil_append] at stated
    exact {
      debug := by simpa [kind, Line.directive?] using summary.debug
      header := by simp [kind, Line.header?]
      names := by
        rw [all, stated, List.map_map]
        simp [State.ofName, Function.comp_def]
      ids := by simpa [all] using numbers
      initial := by simp [summary.initial, no_init, kind, Line.init?]
      accepting := by simp [summary.accepting, no_accept, kind, Line.accept?]
      current := by simp [kind, Line.isSection, Line.block?]
      blocks := by
        intro i
        rw [summary.blocks]
        simp [no_block, kind, Line.block?]
      indexed := by
        intro q member
        rw [stated] at member
        obtain ⟨name, -, rfl⟩ := List.mem_map.1 member
        exact State.indexed_ofName name
      rules := by
        intro q member
        rw [stated] at member
        obtain ⟨name, -, rfl⟩ := List.mem_map.1 member
        simp [State.ofName, no_clause, kind, Line.clause?] }
  · exact .inr ⟨fun distinct => repeated ⟨distinct, by simp⟩, e, failed⟩

theorem Summary.progress_init (summary : Summary lines d) {name : String}
    (kind : l.line = .init name) : Progress lines d l := by
  by_cases headed : d.hasHeader = true
  swap
  · exact summary.progress_headless headed (by simp [kind, Line.directive?])
      (by simp [kind, Line.header?])
  have some_header := summary.header.1 headed
  by_cases second : select Line.init? lines = []
  swap
  · refine .inr ⟨by simp [Fits, kind, second], .duplicateSection .init l.number, ?_⟩
    have isSome : d.initial.isSome = true := by
      rw [summary.initial, Option.isSome_map]
      simpa using second
    simp [Draft.read, Draft.readBody, kind, headed, isSome]
  have unset : d.initial = none := by rw [summary.initial, second]; rfl
  by_cases known : name ∈ declared lines
  · have found : d.ids[name]? = some ((declared lines).idxOf name) := by
      rw [summary.ids, if_pos known]
    refine .inl ⟨by simp [Fits, kind, some_header, second, known],
      { d with current := none, initial := some ((declared lines).idxOf name) },
      by simp [Draft.read, Draft.readBody, kind, headed, unset, found], ?_⟩
    apply summary.behind <;> simp [kind, unset, Line.header?, Line.clause?, Line.directive?,
      Line.init?, Line.accept?, Line.isSection, Line.block?]
  · have unknown : d.ids[name]? = none := by rw [summary.ids, if_neg known]
    exact .inr ⟨by simp [Fits, kind, known], .unknownInitial name l.number,
      by simp [Draft.read, Draft.readBody, kind, headed, unset, unknown]⟩

theorem Summary.progress_accept (summary : Summary lines d) {names : List String}
    (kind : l.line = .accept names) : Progress lines d l := by
  by_cases headed : d.hasHeader = true
  swap
  · exact summary.progress_headless headed (by simp [kind, Line.directive?])
      (by simp [kind, Line.header?])
  have some_header := summary.header.1 headed
  by_cases second : select Line.accept? lines = []
  swap
  · refine .inr ⟨by simp [Fits, kind, second], .duplicateSection .accept l.number, ?_⟩
    have isSome : d.accepting.isSome = true := by
      rw [summary.accepting, Option.isSome_map]
      simpa using second
    simp [Draft.read, Draft.readBody, kind, headed, isSome]
  have unset : d.accepting = none := by rw [summary.accepting, second]; rfl
  have fits_iff : Fits lines l ↔ ∀ name ∈ names, name ∈ declared lines := by
    simp [Fits, kind, some_header, second]
  rw [Progress, fits_iff]
  rcases list_accepting d l.number names (declared lines) summary.ids with
    ⟨known, listed, seen, made, reversed, -⟩ | ⟨unknown, e, failed⟩
  · have resolved : d.resolveAccepting l.number names =
        .ok ((names.map (declared lines).idxOf).eraseDups) := by
      rw [Draft.resolveAccepting, made, ← reversed]
      rfl
    refine .inl ⟨known,
      { d with current := none, accepting := some ((names.map (declared lines).idxOf).eraseDups) },
      by simp [Draft.read, Draft.readBody, kind, headed, unset, resolved], ?_⟩
    apply summary.behind <;> simp [kind, unset, Line.header?, Line.clause?, Line.directive?,
      Line.init?, Line.accept?, Line.isSection, Line.block?]
  · have refused : d.resolveAccepting l.number names = .error e := by
      rw [Draft.resolveAccepting, failed]
      rfl
    exact .inr ⟨unknown, e, by simp [Draft.read, Draft.readBody, kind, headed, unset, refused]⟩

theorem Summary.progress_block (summary : Summary lines d) (admissible : Admissible lines)
    {name : String} (kind : l.line = .block name) : Progress lines d l := by
  by_cases headed : d.hasHeader = true
  swap
  · exact summary.progress_headless headed (by simp [kind, Line.directive?])
      (by simp [kind, Line.header?])
  have some_header := summary.header.1 headed
  by_cases known : name ∈ declared lines
  swap
  · have unknown : d.ids[name]? = none := by rw [summary.ids, if_neg known]
    exact .inr ⟨by simp [Fits, kind, known], .unknownBlock name l.number,
      by simp [Draft.read, Draft.readBody, kind, headed, unknown]⟩
  have found : d.ids[name]? = some ((declared lines).idxOf name) := by
    rw [summary.ids, if_pos known]
  have begun_iff : (declared lines).idxOf name ∈ d.blocks ↔ name ∈ select Line.block? lines := by
    rw [summary.blocks, List.mem_map]
    constructor
    · rintro ⟨other, member, same⟩
      exact (List.idxOf_inj (admissible.blocks_declared other member)).1 same ▸ member
    · exact fun member => ⟨name, member, rfl⟩
  by_cases second : name ∈ select Line.block? lines
  · exact .inr ⟨by simp [Fits, kind, second], .duplicateBlock name l.number,
      by simp [Draft.read, Draft.readBody, kind, headed, found, begun_iff.2 second]⟩
  · refine .inl ⟨by simp [Fits, kind, some_header, second, known],
      { d with
        current := some ((declared lines).idxOf name)
        blocks := d.blocks.insert ((declared lines).idxOf name) },
      by simp [Draft.read, Draft.readBody, kind, headed, found, mt begun_iff.1 second], ?_⟩
    apply summary.behind <;> simp [kind, Line.header?, Line.clause?, Line.directive?,
      Line.init?, Line.accept?, Line.isSection, Line.block?, Std.TreeSet.mem_insert, or_comm]

theorem Summary.open_state (summary : Summary lines d) (admissible : Admissible lines)
    {name : String} (opened : openBlock lines = some name) : ∃ q, q.name = name ∧
      d.current = some ((declared lines).idxOf name) ∧
      d.states[(declared lines).idxOf name]? = some q := by
  have known := admissible.blocks_declared name (mem_select_of_openBlock opened)
  have named : (d.states.toList.map State.name)[(declared lines).idxOf name]? = some name := by
    rw [summary.names]
    exact List.getElem?_idxOf known
  rw [List.getElem?_map, Option.map_eq_some_iff] at named
  obtain ⟨q, stored, rfl⟩ := named
  exact ⟨q, rfl, by rw [summary.current, opened]; rfl, by simpa using stored⟩

theorem Summary.name_ne (summary : Summary lines d) (admissible : Admissible lines)
    {p q : State} {i j : Nat} (atp : d.states[i]? = some p) (atq : d.states[j]? = some q)
    (apart : i ≠ j) : p.name ≠ q.name := by
  intro same
  have distinct := admissible.distinct
  rw [← summary.names] at distinct
  have namep : (d.states.toList.map State.name)[i]? = some p.name := by simp [atp]
  have nameq : (d.states.toList.map State.name)[j]? = some p.name := by simp [atq, same]
  have bound : i < (d.states.toList.map State.name).length := (List.getElem?_eq_some_iff.1 namep).1
  exact apart ((List.getElem?_inj bound distinct).1 (namep.trans nameq.symm))

theorem Summary.behind_rule (summary : Summary lines d) (admissible : Admissible lines)
    {read write : Symbol} {direction : Direction} {target : String} {column : Nat} {q q' : State}
    (kind : l.line = .rule read write direction target column)
    (opened : openBlock lines = some q.name)
    (stored : d.states[(declared lines).idxOf q.name]? = some q)
    (pushed : q.push ⟨read, write, direction, (declared lines).idxOf target⟩ = .ok q')
    (ruleLines : Std.TreeMap Nat (Std.TreeMap Symbol Nat)) :
    Summary (lines ++ [l]) { d with
      states := d.states.setIfInBounds ((declared lines).idxOf q.name) q'
      ruleLines := ruleLines } := by
  have member : q ∈ d.states.toList := List.mem_of_getElem? (by simpa using stored)
  have indexed := summary.indexed q member
  obtain ⟨-, grown⟩ := (indexed.push_eq_ok_iff _).1 pushed
  have same_name : q'.name = q.name := by rw [grown]
  have same : declared (lines ++ [l]) = declared lines := by simp [kind, Line.header?]
  -- A state is the one with the new rule or an old one with another name.
  have states_cases : ∀ p ∈ (d.states.setIfInBounds ((declared lines).idxOf q.name) q').toList,
      p = q' ∨ (p ∈ d.states.toList ∧ p.name ≠ q.name) := by
    intro p here
    obtain ⟨i, at_i⟩ := List.mem_iff_getElem?.1 here
    rw [Array.toList_setIfInBounds, List.getElem?_set] at at_i
    split at at_i
    · split at at_i
      · exact .inl (Option.some.inj at_i).symm
      · cases at_i
    · rename_i apart
      exact .inr ⟨List.mem_of_getElem? at_i,
        summary.name_ne admissible (by simpa using at_i) stored (Ne.symm apart)⟩
  exact {
    debug := by simpa [kind, Line.directive?] using summary.debug
    header := by simpa [kind, Line.header?] using summary.header
    names := by
      rw [same, ← summary.names, Array.toList_setIfInBounds, List.map_set, same_name, summary.names]
      have named : (declared lines)[(declared lines).idxOf q.name]? = some q.name := by
        rw [← summary.names, List.getElem?_map, summary.names]
        simp [stored]
      obtain ⟨bound, entry⟩ := List.getElem?_eq_some_iff.1 named
      have unchanged := List.set_getElem_self bound
      rwa [entry] at unchanged
    ids := by simpa [same] using summary.ids
    initial := by simpa [same, kind, Line.init?] using summary.initial
    accepting := by simpa [same, kind, Line.accept?] using summary.accepting
    current := by simpa [same, kind, Line.isSection] using summary.current
    blocks := by simpa [same, kind, Line.block?] using summary.blocks
    indexed := by
      intro p here
      rcases states_cases p here with rfl | ⟨old, -⟩
      · exact indexed.push pushed
      · exact summary.indexed p old
    rules := by
      intro p here
      rw [same]
      rcases states_cases p here with rfl | ⟨old, other⟩
      · rw [same_name, blockClauses_snoc, if_pos opened, grown]
        simp [summary.rules q member, kind, Line.clause?, Clause.rule]
      · have closed : openBlock lines ≠ some p.name := by
          rw [opened]
          exact fun h => other (Option.some.inj h).symm
        rw [blockClauses_snoc, if_neg closed, List.append_nil]
        exact summary.rules p old }

theorem Summary.progress_rule (summary : Summary lines d) (admissible : Admissible lines)
    {read write : Symbol} {direction : Direction} {target : String} {column : Nat}
    (kind : l.line = .rule read write direction target column) : Progress lines d l := by
  by_cases headed : d.hasHeader = true
  swap
  · exact summary.progress_headless headed (by simp [kind, Line.directive?])
      (by simp [kind, Line.header?])
  have some_header := summary.header.1 headed
  cases opened : openBlock lines with
  | none =>
    have closed : d.current = none := by rw [summary.current, opened]; rfl
    exact .inr ⟨by simp [Fits, kind, opened], .ruleOutsideBlock l.number,
      by simp [Draft.read, Draft.readBody, kind, headed, closed]⟩
  | some name =>
    obtain ⟨q, rfl, current, stored⟩ := summary.open_state admissible opened
    by_cases known : target ∈ declared lines
    swap
    · have unknown : d.ids[target]? = none := by rw [summary.ids, if_neg known]
      exact .inr ⟨by simp [Fits, kind, known], .unknownTarget target l.number column,
        by simp [Draft.read, Draft.readBody, kind, headed, current, unknown]⟩
    have found : d.ids[target]? = some ((declared lines).idxOf target) := by
      rw [summary.ids, if_pos known]
    have member : q ∈ d.states.toList := List.mem_of_getElem? (by simpa using stored)
    have fits_iff : Fits lines l ↔
        q.Admits ⟨read, write, direction, (declared lines).idxOf target⟩ := by
      simp [Fits, kind, some_header, known, opened, State.Admits, summary.rules q member,
        Clause.rule]
    rw [Progress, fits_iff, ← (summary.indexed q member).index_eq_none_iff]
    cases pushed : q.push ⟨read, write, direction, (declared lines).idxOf target⟩ with
    | ok q' =>
      have made : d.read l = .ok { d with
          states := d.states.setIfInBounds ((declared lines).idxOf q.name) q'
          ruleLines := d.ruleLines.insert ((declared lines).idxOf q.name)
            ((d.ruleLines[(declared lines).idxOf q.name]?.getD ∅).insert read l.number) } := by
        simp [Draft.read, Draft.readBody, Draft.addRule, kind, headed, current, found, stored,
          pushed]
      refine .inl ⟨?_, _, made, summary.behind_rule admissible kind opened stored pushed _⟩
      rw [(summary.indexed q member).index_eq_none_iff]
      exact (((summary.indexed q member).push_eq_ok_iff _).1 pushed).1
    | error i =>
      refine .inr ⟨?_, .duplicateRule q.name read l.number
        ((d.ruleLine? ((declared lines).idxOf q.name) read).getD l.number), ?_⟩
      · intro vacant
        simp [State.push, vacant] at pushed
      · simp [Draft.read, Draft.readBody, Draft.addRule, kind, headed, current, found, stored,
          pushed]

theorem Summary.progress (summary : Summary lines d) (admissible : Admissible lines) :
    Progress lines d l := by
  cases kind : l.line with
  | directive debug => exact summary.progress_directive kind
  | header names => exact summary.progress_header admissible kind
  | init name => exact summary.progress_init kind
  | accept names => exact summary.progress_accept kind
  | block name => exact summary.progress_block admissible kind
  | rule read write direction target column => exact summary.progress_rule admissible kind
  | malformed =>
    refine .inr ⟨by simp [Fits, kind], ?_⟩
    by_cases headed : d.hasHeader = true <;> simp [Draft.read, Draft.readBody, kind, headed]
  | unknown =>
    refine .inr ⟨by simp [Fits, kind], ?_⟩
    by_cases headed : d.hasHeader = true <;> simp [Draft.read, Draft.readBody, kind, headed]

end

/-! ## Rows of lines -/

theorem read_lines (lines : List NumberedLine) :
    (Admissible lines ∧ ∃ d, lines.foldlM Draft.read {} = .ok d ∧ Summary lines d) ∨
      (¬Admissible lines ∧ ∃ e, lines.foldlM Draft.read {} = .error e) := by
  induction lines using List.reverseRecOn with
  | nil => exact .inl ⟨admissible_nil, {}, rfl, summary_nil⟩
  | append_singleton lines l ih =>
    rw [admissible_snoc, List.foldlM_append]
    rcases ih with ⟨admissible, d, reached, summary⟩ | ⟨inadmissible, e, failed⟩
    · rw [reached, ok_bind, List.foldlM_cons]
      rcases summary.progress admissible (l := l) with
        ⟨fits, next, made, summary'⟩ | ⟨unfit, e, failed⟩
      · rw [made, ok_bind]
        exact .inl ⟨⟨admissible, fits⟩, next, rfl, summary'⟩
      · rw [failed, error_bind]
        exact .inr ⟨fun both => unfit both.2, e, rfl⟩
    · rw [failed, error_bind]
      exact .inr ⟨fun both => inadmissible both.1, e, rfl⟩

theorem Summary.outline_eq {lines : List NumberedLine} {d : Draft} (summary : Summary lines d)
    (admissible : Admissible lines) {name : String}
    (started : select Line.init? lines = [name]) :
    (Machine.ofStates d.states ((declared lines).idxOf name) (d.accepting.getD [])
      d.debug).outline =
      outlineOf lines := by
  have states : (d.states.toList.map fun q => (q.name, q.rules.toList)) =
      (declared lines).map fun name =>
        (name, (blockClauses lines name).map (Clause.rule (declared lines))) := by
    rw [← summary.names, List.map_map]
    apply List.map_congr_left
    intro q member
    rw [summary.names]
    simp [summary.rules q member]
  have accepting : d.accepting.getD [] =
      ((select Line.accept? lines).flatten.map (declared lines).idxOf).eraseDups := by
    rw [summary.accepting]
    have once := admissible.accept_length
    cases listed : select Line.accept? lines with
    | nil => rfl
    | cons names more =>
      rw [listed, List.length_cons] at once
      have : more = [] := List.length_eq_zero_iff.1 (by omega)
      simp [this]
  simp [Machine.outline, Machine.ofStates, outlineOf, states, accepting, summary.debug, started]

theorem assemble_lines (lines : List NumberedLine) :
    (WellFormed lines ∧ ∃ m, assemble lines = .ok m ∧ m.outline = outlineOf lines ∧
        ∀ q ∈ m.states.toList, q.Indexed) ∨
      (¬WellFormed lines ∧ ∃ e, assemble lines = .error e) := by
  rw [wellFormed_iff, assemble]
  rcases read_lines lines with ⟨admissible, d, reached, summary⟩ | ⟨inadmissible, e, failed⟩
  swap
  · rw [failed]
    exact .inr ⟨fun w => inadmissible w.1, e, rfl⟩
  rw [reached, ok_bind, Draft.finish]
  by_cases headed : d.hasHeader = true
  swap
  · rw [if_neg headed]
    exact .inr ⟨fun w => headed (summary.header.2 w.2.1), _, rfl⟩
  rw [if_pos headed, summary.initial]
  cases started : select Line.init? lines with
  | nil => exact .inr ⟨fun w => w.2.2 rfl, _, rfl⟩
  | cons name more =>
    have once := admissible.init_length
    rw [started, List.length_cons] at once
    obtain rfl : more = [] := List.length_eq_zero_iff.1 (by omega)
    exact .inl ⟨⟨admissible, summary.header.1 headed, by simp⟩, _, rfl,
      summary.outline_eq admissible started, summary.indexed⟩

end Description
end OneTape
