import OneTape.Proofs.Description.RowGroups
import OneTape.Proofs.Execution.Renumbering

namespace OneTape.Description

open Grammar

/-- The header with commas between the names, and with any blanks around them. -/
def commaHeader (first : String) (more : List String) (before after : Nat → List Blank)
    (trailing : List Blank) : List Char :=
  (first.toList ++ separated (withSeparators (fun i => .comma (before i) (after i)) more)) ++
    blanks trailing

def Rewritten (names : List String) (header header' : List Char) : Prop :=
  header' = header ∨ ∃ first more before after trailing, (first :: more).Perm names ∧
    header' = commaHeader first more before after trailing

/-- Up to the header the rows are the same, and behind it there may be blank rows anywhere. -/
inductive Rearranged : List (List Char) → List (List Char) → Prop where
  | intro {lead body body' : List (List Char)} {header header' : List Char} {names : List String}
      {groups groups' : List RowGroup} (isHeader : wording header = some (.header names))
      (rewritten : Rewritten names header header') (sound : ∀ g ∈ groups, g.Sound)
      (grouped : solid body = groups.flatMap Group.rows)
      (grouped' : solid body' = groups'.flatMap Group.rows)
      (shuffled : Shuffled groups groups') :
      Rearranged (lead ++ header :: body) (lead ++ header' :: body')

variable {pieces : List (Position × List Char)} {header : Position × List Char}
variable {first : String} {more : List String} {w : Line}

theorem worded_of_wording {row : List Char} (worded : wording row = some w) : w.Worded := by
  obtain ⟨lines, classified, found⟩ := Option.bind_eq_some_iff.1 worded
  obtain ⟨l, head, rfl⟩ := Option.map_eq_some_iff.1 found
  exact worded_of_linesOf? classified l (List.mem_of_head? head)

theorem wording_commaHeader {before after : Nat → List Blank} {trailing : List Blank}
    (areNames : ∀ name ∈ first :: more, IsName name.toList)
    (unbroken : Unbroken (commaHeader first more before after trailing)) :
    wording (commaHeader first more before after trailing) = some (.header (first :: more)) := by
  have isName : IsName first.toList := areNames first List.mem_cons_self
  have fields : ∀ f ∈ withSeparators (fun i => .comma (before i) (after i)) more, IsName f.2 :=
    areNames_withSeparators fun name member => areNames name (List.mem_cons_of_mem first member)
  -- A directive has no comma.
  have other (b : Blank) (bs : List Blank) (flag : Char)
      (_ : first.toList = ['D', 'E', 'B', 'U', 'G'])
      (single : withSeparators (fun i => .comma (before i) (after i)) more =
        [(.spaces b bs, [flag])]) : flag ≠ '0' ∧ flag ≠ '1' := by
    obtain ⟨⟨name, i⟩, -, same⟩ := List.map_eq_singleton_iff.1 single
    cases same
  obtain ⟨l, row, -, line⟩ :=
    readsAs_header isName fields (map_snd_withSeparators _ _) other trailing .first
  have row : linesOfRow (.first, commaHeader first more before after trailing) = [l] := row
  rw [wording, linesOf?_line unbroken, row]
  exact congrArg some (unplaced_eq line rfl)

theorem Rewritten.exists_names {names : List String} {header header' : List Char}
    (rewritten : Rewritten names header header') (isHeader : wording header = some (.header names))
    (unbroken : Unbroken header') :
    ∃ names', names'.Perm names ∧ wording header' = some (.header names') := by
  rcases rewritten with rfl | ⟨first, more, before, after, trailing, perm, rfl⟩
  · exact ⟨names, .refl names, isHeader⟩
  -- The names can be written down, because the header has them.
  · exact ⟨first :: more, perm, wording_commaHeader (fun name member =>
      (worded_of_wording isHeader).2 name (perm.mem_iff.1 member)) unbroken⟩

/-! ## The machines -/

section

variable {lines lines' : List NumberedLine} {m m' : Machine} {i : Nat} {q : State}

/-- The number that a state has by its place in one header, by its place in another. -/
def renumber (names names' : List String) (i : Nat) : Nat := names'.idxOf (names.getD i "")

theorem renumber_of_getElem? {names names' : List String} {name : String}
    (here : names[i]? = some name) : renumber names names' i = names'.idxOf name := by
  rw [renumber, List.getD_eq_getElem?_getD, here, Option.getD_some]

theorem state?_eq (outline : m.outline = outlineOf lines) (i : Nat) :
    (m.state? i).map (fun q => (q.name, q.rules.toList)) = (declared lines)[i]?.map fun name =>
      (name, (blockClauses lines name).map (Clause.rule (declared lines))) := by
  have states := congrArg (fun o : Outline => o.states[i]?) outline
  simpa [Machine.outline, outlineOf, Machine.state?] using states

theorem exists_state (outline : m.outline = outlineOf lines) {name : String}
    (here : (declared lines)[i]? = some name) : ∃ q, m.state? i = some q ∧ q.name = name := by
  have same := state?_eq outline i
  rw [here, Option.map_some] at same
  obtain ⟨q, stored, both⟩ := Option.map_eq_some_iff.1 same
  exact ⟨q, stored, (Prod.mk.inj both).1⟩

theorem of_state (outline : m.outline = outlineOf lines) (stored : m.state? i = some q) :
    (declared lines)[i]? = some q.name ∧
      q.rules.toList = (blockClauses lines q.name).map (Clause.rule (declared lines)) := by
  have same := state?_eq outline i
  rw [stored, Option.map_some] at same
  obtain ⟨name, here, both⟩ := Option.map_eq_some_iff.1 same.symm
  obtain ⟨rfl, rules⟩ := Prod.mk.inj both
  exact ⟨here, rules.symm⟩

theorem idxOf_of_getElem? {names : List String} {name : String} (distinct : names.Nodup)
    (here : names[i]? = some name) : names.idxOf name = i := by
  obtain ⟨bound, rfl⟩ := List.getElem?_eq_some_iff.1 here
  exact distinct.idxOf_getElem i bound

theorem mem_accepting_iff (formed : WellFormed lines) (outline : m.outline = outlineOf lines)
    (stored : m.state? i = some q) :
    i ∈ m.accepting ↔ q.name ∈ (select Line.accept? lines).flatten := by
  obtain ⟨here, -⟩ := of_state outline stored
  have listed : m.accepting = (outlineOf lines).accepting := congrArg Outline.accepting outline
  rw [listed, outlineOf, List.mem_eraseDups, List.mem_map]
  constructor
  · rintro ⟨name, accepted, place⟩
    obtain ⟨names, selected, among⟩ := List.mem_flatten.1 accepted
    have known := formed.accept_declared names selected name among
    rw [← idxOf_of_getElem? formed.distinct here] at place
    exact (List.idxOf_inj known).1 place ▸ accepted
  · intro accepted
    exact ⟨q.name, accepted, idxOf_of_getElem? formed.distinct here⟩

/-- Lines that describe a machine amount to the same as others, in another order. -/
structure Reordered (lines lines' : List NumberedLine) : Prop where
  formed : WellFormed lines'
  names : (declared lines').Perm (declared lines)
  init : (select Line.init? lines').Perm (select Line.init? lines)
  accept : (select Line.accept? lines').Perm (select Line.accept? lines)
  clauses : ∀ name, (blockClauses lines' name).Perm (blockClauses lines name)

theorem Reordered.renamed (reordered : Reordered lines lines') (formed : WellFormed lines)
    (outline : m.outline = outlineOf lines) (outline' : m'.outline = outlineOf lines') :
    Machine.Renamed (renumber (declared lines) (declared lines')) m m' := by
  obtain ⟨formed', names, init, accept, clauses⟩ := reordered
  have counterpart {i : Nat} {q : State} (stored : m.state? i = some q) :
      ∃ q', m'.state? (renumber (declared lines) (declared lines') i) = some q' ∧
        q'.name = q.name := by
    obtain ⟨here, -⟩ := of_state outline stored
    rw [renumber_of_getElem? here]
    exact exists_state outline' (List.getElem?_idxOf (names.mem_iff.2 (List.mem_of_getElem? here)))
  have moved {name : String} (known : name ∈ declared lines) :
      renumber (declared lines) (declared lines') ((declared lines).idxOf name) =
        (declared lines').idxOf name := renumber_of_getElem? (List.getElem?_idxOf known)
  constructor
  case state =>
    intro i q stored
    obtain ⟨q', stored', same⟩ := counterpart stored
    refine ⟨q', stored', same, ?_⟩
    rw [(of_state outline' stored').2, (of_state outline stored).2, same, List.map_map]
    have each : ∀ c ∈ blockClauses lines q.name, (Rule.rename (renumber (declared lines)
        (declared lines')) ∘ Clause.rule (declared lines)) c = c.rule (declared lines') := by
      intro c member
      have known := formed.targets_declared c (mem_select_of_mem_blockClauses member)
      simp [Rule.rename, Clause.rule, moved known]
    rw [List.map_congr_left each]
    exact (clauses q.name).map _
  case onto =>
    intro j q' stored'
    obtain ⟨here', -⟩ := of_state outline' stored'
    have known := names.mem_iff.1 (List.mem_of_getElem? here')
    obtain ⟨q, stored, -⟩ := exists_state outline (List.getElem?_idxOf known)
    exact ⟨_, q, stored, (moved known).trans (idxOf_of_getElem? formed'.distinct here')⟩
  case initial =>
    obtain ⟨name, single⟩ := List.length_eq_one_iff.1 formed.one_init
    have single' : select Line.init? lines' = [name] := List.perm_singleton.1 (single ▸ init)
    have first : m.initial = (outlineOf lines).initial := congrArg Outline.initial outline
    have first' : m'.initial = (outlineOf lines').initial := congrArg Outline.initial outline'
    rw [first, first', outlineOf, outlineOf, single, single']
    exact (moved (formed.init_declared name (by simp [single]))).symm
  case accepting =>
    intro i q stored
    obtain ⟨q', stored', same⟩ := counterpart stored
    rw [mem_accepting_iff formed' outline' stored', mem_accepting_iff formed outline stored, same]
    exact accept.flatten.mem_iff

end

/-! ## The texts -/

theorem Cut.head {text : List Char} {start : Position} (cut : Cut start text pieces) :
    ∀ p ∈ pieces.head?, p.1 = start := by
  cases cut <;> simp

theorem leading_rows_same {pieces' behind behind' : List (Position × List Char)}
    {header' : Position × List Char} {text text' : List Char} (paired : Paired text)
    (cut : Cut .first text (pieces ++ header :: behind))
    (cut' : Cut .first text' (pieces' ++ header' :: behind'))
    (same : pieces'.map Prod.snd = pieces.map Prod.snd)
    (leading : ∀ p ∈ pieces, ∀ w, wording p.2 = some w → w.directive?.isSome ∧ p.1.line = 1) :
    ∀ p ∈ pieces', ∀ w, wording p.2 = some w → w.directive?.isSome ∧ p.1.line = 1 := by
  intro p' inside w worded
  obtain ⟨i, here'⟩ := List.mem_iff_getElem?.1 inside
  have here : (pieces.map Prod.snd)[i]? = some p'.2 := by rw [← same, List.getElem?_map, here']; rfl
  rw [List.getElem?_map] at here
  obtain ⟨p, here, row⟩ := Option.map_eq_some_iff.1 here
  obtain ⟨isDirective, one⟩ := leading p (List.mem_of_getElem? here) w (row ▸ worded)
  refine ⟨isDirective, ?_⟩
  -- The row with the index `i` has the number `1 + i`, so it is the first.
  have number := ((cut.eq_physicalLines paired rfl).2 i p
    (List.getElem?_append_left (List.getElem?_eq_some_iff.1 here).1 ▸ here)).1
  obtain rfl : i = 0 := by
    have first : Position.first.line = 1 := rfl
    omega
  have head : p' ∈ (pieces' ++ header' :: behind').head? := by
    rw [List.head?_append, List.head?_eq_getElem?, here']
    rfl
  rw [cut'.head p' head]
  rfl

theorem reordered_groups {names names' : List String}
    {front lines front' lines' : List NumberedLine} {groups groups' : List LineGroup}
    (headed : Headed names front) (grouped : Grouped lines groups)
    (headed' : Headed names' front') (grouped' : Grouped lines' groups')
    (perm : names'.Perm names) (shuffled : Shuffled groups groups')
    (formed : WellFormed (front ++ lines)) : Reordered (front ++ lines) (front' ++ lines') where
  formed := wellFormed_of_fair headed' grouped'
    ((fair_of_wellFormed headed grouped formed).shuffle shuffled perm)
  names := by rwa [declared_grouped headed grouped, declared_grouped headed' grouped']
  init := by
    rw [select_init_grouped headed grouped, select_init_grouped headed' grouped']
    exact shuffled.headsOf Line.init?
  accept := by
    rw [select_accept_grouped headed grouped, select_accept_grouped headed' grouped']
    exact shuffled.headsOf Line.accept?
  clauses name := by
    rw [blockClauses_grouped headed grouped, blockClauses_grouped headed' grouped']
    exact shuffled.clausesOf name

theorem Rearranged.reordered {text text' : List Char} (paired : Paired text)
    (rearranged : Rearranged (rowsOf text) (rowsOf text'))
    (formed : WellFormed ((rows .first [] text).flatMap linesOfRow)) :
    Reordered ((rows .first [] text).flatMap linesOfRow)
      ((rows .first [] text').flatMap linesOfRow) := by
  have cut : Cut .first text (rows .first [] text) := cut_iff.2 rfl
  have cut' : Cut .first text' (rows .first [] text') := cut_iff.2 rfl
  generalize same : rowsOf text = rs at rearranged
  generalize same' : rowsOf text' = rs' at rearranged
  obtain @⟨lead, body, body', header, header', names, groups, groups', isHeader, rewritten, sound,
    grouped, grouped', shuffled⟩ := rearranged
  obtain ⟨leading, rest, split, rfl, rest_rows⟩ := List.map_eq_append_iff.1 same
  obtain ⟨h, behind, rfl, rfl, rfl⟩ := List.map_eq_cons_iff.1 rest_rows
  obtain ⟨leading', rest', split', lead, rest_rows'⟩ := List.map_eq_append_iff.1 same'
  obtain ⟨h', behind', rfl, rfl, rfl⟩ := List.map_eq_cons_iff.1 rest_rows'
  rw [split] at cut formed ⊢
  rw [split'] at cut' ⊢
  have placed := List.forall_mem_append.1 cut.placed
  have placed' := List.forall_mem_append.1 cut'.placed
  have directives := leading_rows cut.placed isHeader formed
  have directives' := leading_rows_same paired cut cut' lead directives
  obtain ⟨names', permuted, isHeader'⟩ :=
    rewritten.exists_names isHeader (placed'.2 h' List.mem_cons_self).1
  have sound' : ∀ g ∈ groups', g.Sound := by
    intro g' member
    obtain ⟨g, listed, alike⟩ := shuffled.exists_alike member
    exact (sound g listed).of_alike alike
  simp only [List.flatMap_append, List.flatMap_cons, ← List.append_assoc] at formed ⊢
  exact reordered_groups
    (headed_rows placed.1 (placed.2 h List.mem_cons_self) directives isHeader)
    (grouped_rows (fun p member => placed.2 p (List.mem_cons_of_mem h member)) sound grouped)
    (headed_rows placed'.1 (placed'.2 h' List.mem_cons_self) directives' isHeader')
    (grouped_rows (fun p member => placed'.2 p (List.mem_cons_of_mem h' member)) sound' grouped')
    permuted (shuffled.map Group.meaning Group.alike_meaning) formed

/-- A text with the same lines in another order describes the same machine with other numbers for
its states. -/
theorem order_without_meaning (text text' : String) (m : Machine) (paired : Paired text.toList)
    (parsed : Machine.ofText text = .ok m)
    (rearranged : Rearranged (rowsOf text.toList) (rowsOf text'.toList))
    (small : text'.utf8ByteSize ≤ maxSize) : ∃ m' f, Machine.ofText text' = .ok m' ∧
      (∀ options row fuel,
        m'.runWith options row fuel = (m.runWith options row fuel).rename f ∧
        ∀ r, m.runWith options row fuel = .halted r → m'.verdict (r.rename f) = m.verdict r) ∧
      (∀ row fuel, m'.judge row fuel = (m.judge row fuel).map fun p => (p.1.rename f, p.2)) ∧
      (∀ row, m'.checkInput row = m.checkInput row) ∧
      List.Forall₂ Warning.Alike m.analyze m'.analyze := by
  obtain ⟨lines, classified, -, formed, outline, -⟩ := Machine.exists_lines parsed
  rw [linesOf?_eq] at classified
  obtain rfl := Option.some.inj classified
  have reordered := rearranged.reordered paired formed
  obtain ⟨m', parsed', outline'⟩ := (ofText_eq_ok_iff (linesOf?_eq text'.toList) _).2
    ⟨small, reordered.formed, rfl⟩
  have renamed := reordered.renamed formed outline outline'
  have consistent := Machine.consistent_ofText parsed
  have consistent' := Machine.consistent_ofText parsed'
  refine ⟨m', _, parsed', fun options row fuel => ⟨renamed.runWith consistent consistent',
    fun r halted => ?_⟩, fun row fuel => renamed.judge consistent consistent', renamed.checkInput,
    renamed.analyze consistent consistent'⟩
  exact renamed.verdict consistent consistent' (consistent.valid.finalStateId_lt halted)

theorem order_without_meaning_reversed : ∃ m m' f,
    Machine.ofText "A B\ninit A\naccept B\nA:\n\t0 1 > B\n\t1 1 > A" = .ok m ∧
      Machine.ofText "B, A\nA:\n\t1 1 > A\n\t0 1 > B\n\naccept B\ninit A" = .ok m' ∧
      ∀ options row fuel, m'.runWith options row fuel = (m.runWith options row fuel).rename f := by
  let start : RowGroup := ⟨"init A".toList, []⟩
  let accept : RowGroup := ⟨"accept B".toList, []⟩
  let block (rules : List (List Char)) : RowGroup := ⟨"A:".toList, rules⟩
  let zero := "\t0 1 > B".toList
  let one := "\t1 1 > A".toList
  have checked : (Machine.ofText
      "A B\ninit A\naccept B\nA:\n\t0 1 > B\n\t1 1 > A").toOption.any (fun _ => true) = true := by
    decide +kernel
  have sound : ∀ g ∈ [start, accept, block [zero, one]], g.Sound := by decide +kernel
  have rearranged : Rearranged
      (rowsOf "A B\ninit A\naccept B\nA:\n\t0 1 > B\n\t1 1 > A".toList)
      (rowsOf "B, A\nA:\n\t1 1 > A\n\t0 1 > B\n\naccept B\ninit A".toList) :=
    @Rearranged.intro [] _ _ "A B".toList _ ["A", "B"] [start, accept, block [zero, one]]
      [block [one, zero], accept, start] (by decide +kernel)
      (.inr ⟨"B", ["A"], fun _ => [], fun _ => [.space], [], .swap .., by decide +kernel⟩) sound
      (by decide +kernel) (by decide +kernel)
      ⟨[block [zero, one], accept, start], (List.reverse_perm _).symm,
        .cons ⟨rfl, .swap ..⟩ (.cons ⟨rfl, .refl _⟩ (.cons ⟨rfl, .refl _⟩ .nil))⟩
  obtain ⟨m, parsed, -⟩ := ok_of_any checked
  obtain ⟨m', f, parsed', runs, -⟩ := order_without_meaning _
    "B, A\nA:\n\t1 1 > A\n\t0 1 > B\n\naccept B\ninit A" m (by decide +kernel) parsed rearranged
    (by decide +kernel)
  exact ⟨m, m', f, parsed, parsed', fun options row fuel => (runs options row fuel).1⟩

end OneTape.Description
