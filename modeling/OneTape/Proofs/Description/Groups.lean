import OneTape.Proofs.Description.Arrangement
import OneTape.Proofs.Description.Parts

/-!
Behind the header each line that is no rule begins a group, and the rules below it belong to the
group. Whether lines fit together is a matter of their groups (`Fair`), in whatever order.
-/

namespace OneTape.Description

structure Group (α β : Type) where
  head : α
  rules : List β

abbrev LineGroup := Group Line Clause

variable {front lines rules : List NumberedLine} {names : List String} {name : String}
variable {clauses : List Clause} {groups : List LineGroup} {h l : NumberedLine}

def AreRules (rules : List NumberedLine) (clauses : List Clause) : Prop :=
  rules.map (·.line.clause?) = clauses.map some

inductive Grouped : List NumberedLine → List LineGroup → Prop where
  | nothing : Grouped [] []
  | group {h : NumberedLine} {rules lines : List NumberedLine} {clauses : List Clause}
      {groups : List LineGroup} (begins : h.line.isSection = true)
      (noHeader : h.line.header? = none) (areRules : AreRules rules clauses)
      (further : Grouped lines groups) :
      Grouped (h :: (rules ++ lines)) (⟨h.line, clauses⟩ :: groups)

/-- The lines up to the header: it may have directives in front of it. -/
def Headed (names : List String) (front : List NumberedLine) : Prop :=
  ∃ ds h, front = ds ++ [h] ∧ h.line = .header names ∧
    ∀ d ∈ ds, d.line.directive?.isSome ∧ d.number = 1

def headsOf {α : Type} (kind : Line → Option α) (groups : List LineGroup) : List α :=
  (groups.map Group.head).filterMap kind

def clausesOf (groups : List LineGroup) (name : String) : List Clause :=
  groups.flatMap fun g => if g.head.block? = some name then g.rules else []

structure Fair (names : List String) (groups : List LineGroup) : Prop where
  distinct : names.Nodup
  one_init : (headsOf Line.init? groups).length = 1
  init_declared : ∀ name ∈ headsOf Line.init? groups, name ∈ names
  one_accept : (headsOf Line.accept? groups).length ≤ 1
  accept_declared : ∀ listed ∈ headsOf Line.accept? groups, ∀ name ∈ listed, name ∈ names
  blocks_declared : ∀ name ∈ headsOf Line.block? groups, name ∈ names
  one_block : (headsOf Line.block? groups).Nodup
  in_block : ∀ g ∈ groups, g.rules ≠ [] → g.head.block?.isSome
  targets_declared : ∀ g ∈ groups, ∀ c ∈ g.rules, c.target ∈ names
  one_rule : ∀ name, ((clausesOf groups name).map Clause.read).Nodup

/-! ## Rules behind lines -/

theorem areRules_append {more : List NumberedLine} (areRules : AreRules (rules ++ more) clauses) :
    ∃ early late, clauses = early ++ late ∧ AreRules rules early ∧ AreRules more late := by
  have mapped : clauses.map some = rules.map (·.line.clause?) ++ more.map (·.line.clause?) :=
    areRules.symm.trans List.map_append
  obtain ⟨early, late, rfl, first, last⟩ := List.map_eq_append_iff.1 mapped
  exact ⟨early, late, rfl, first.symm, last.symm⟩

theorem areRules_cons {r : NumberedLine} (areRules : AreRules (r :: rules) clauses) :
    ∃ c others, clauses = c :: others ∧ r.line.clause? = some c ∧ AreRules rules others := by
  cases clauses with
  | nil => cases areRules
  | cons c others =>
    obtain ⟨first, areRules⟩ := List.cons.inj areRules
    exact ⟨c, others, rfl, first, areRules⟩

theorem AreRules.exists_clause (areRules : AreRules rules clauses) :
    ∀ r ∈ rules, ∃ c, r.line.clause? = some c := by
  intro r member
  have mapped : r.line.clause? ∈ clauses.map some := areRules ▸ List.mem_map_of_mem member
  obtain ⟨c, -, same⟩ := List.mem_map.1 mapped
  exact ⟨c, same.symm⟩

theorem isSection_of_clause {w : Line} {c : Clause} (isRule : w.clause? = some c) :
    w.isSection = false := by
  obtain ⟨column, rfl⟩ := clause?_eq_some isRule
  rfl

theorem clause?_of_isSection {w : Line} (isSection : w.isSection = true) : w.clause? = none := by
  cases w <;> first | rfl | cases isSection

theorem openBlock_rules (areRules : AreRules rules clauses) :
    openBlock (front ++ rules) = openBlock front := by
  induction rules using List.reverseRecOn generalizing clauses with
  | nil => rw [List.append_nil]
  | append_singleton rules r ih =>
    obtain ⟨early, late, -, areRules, last⟩ := areRules_append areRules
    obtain ⟨c, isRule⟩ := last.exists_clause r List.mem_cons_self
    rw [← List.append_assoc, openBlock_snoc, isSection_of_clause isRule]
    exact ih areRules

theorem blockClauses_rules (areRules : AreRules rules clauses) (name : String) :
    blockClauses (front ++ rules) name =
      blockClauses front name ++ if openBlock front = some name then clauses else [] := by
  induction rules generalizing front clauses with
  | nil =>
    obtain rfl : clauses = [] := List.map_eq_nil_iff.1 areRules.symm
    simp
  | cons r rules ih =>
    obtain ⟨c, others, rfl, isRule, areRules⟩ := areRules_cons areRules
    have still : openBlock (front ++ [r]) = openBlock front := by
      rw [openBlock_snoc, isSection_of_clause isRule]
      rfl
    rw [List.append_cons, ih areRules, still, blockClauses_snoc, isRule]
    split <;> simp

/-- Rules are nothing to the selection. -/
def Skips {α : Type} (kind : Line → Option α) : Prop :=
  ∀ read write direction target column, kind (.rule read write direction target column) = none

theorem select_rules {α : Type} {kind : Line → Option α} (skips : Skips kind)
    (areRules : AreRules rules clauses) : select kind rules = [] := by
  refine select_eq_nil_iff.2 fun r member => ?_
  obtain ⟨c, isRule⟩ := areRules.exists_clause r member
  obtain ⟨column, line⟩ := clause?_eq_some isRule
  rw [line]
  exact skips _ _ _ _ _

theorem select_clause_rules (areRules : AreRules rules clauses) :
    select Line.clause? rules = clauses := by
  have mapped := congrArg (List.filterMap id) areRules
  simpa [List.filterMap_map, Function.comp_def, select] using mapped

/-! ## Groups behind lines -/

namespace Grouped

theorem select {α : Type} {kind : Line → Option α} (grouped : Grouped lines groups)
    (skips : Skips kind) : select kind lines = headsOf kind groups := by
  induction grouped with
  | nothing => rfl
  | @group h rules lines clauses groups _ _ areRules _ ih =>
    have whole : h :: (rules ++ lines) = [h] ++ (rules ++ lines) := rfl
    rw [whole, select_append, select_append, select_rules skips areRules, ih, List.nil_append,
      headsOf, headsOf, List.map_cons]
    cases found : kind h.line <;> simp [Description.select, found]

theorem select_clauses (grouped : Grouped lines groups) :
    Description.select Line.clause? lines = groups.flatMap Group.rules := by
  induction grouped with
  | nothing => rfl
  | @group h rules lines clauses groups begins _ areRules _ ih =>
    have whole : h :: (rules ++ lines) = [h] ++ (rules ++ lines) := rfl
    have head : Description.select Line.clause? [h] = [] :=
      select_eq_nil_iff.2 (by simpa using clause?_of_isSection begins)
    rw [whole, select_append, select_append, select_clause_rules areRules, ih, head,
      List.nil_append, List.flatMap_cons]

theorem blockClauses (grouped : Grouped lines groups) (front : List NumberedLine) (name : String) :
    blockClauses (front ++ lines) name = blockClauses front name ++ clausesOf groups name := by
  induction grouped generalizing front with
  | nothing => simp [clausesOf]
  | @group h rules lines clauses groups begins _ areRules _ ih =>
    have whole : front ++ h :: (rules ++ lines) = ((front ++ [h]) ++ rules) ++ lines := by simp
    rw [whole, ih, blockClauses_rules areRules, blockClauses_snoc, openBlock_snoc, begins,
      clause?_of_isSection begins, clausesOf, clausesOf, List.flatMap_cons]
    simp

theorem exists_group (grouped : Grouped lines groups) {before after : List NumberedLine}
    (split : lines = before ++ l :: after) (isRule : l.line.clause?.isSome) :
    ∃ g ∈ groups, g.rules ≠ [] ∧
      ∀ front, openBlock (front ++ before) = g.head.block? := by
  induction grouped generalizing before with
  | nothing => simp at split
  | @group h rules lines clauses groups begins _ areRules _ ih =>
    cases before with
    | nil =>
      obtain ⟨rfl, -⟩ := List.cons.inj split
      rw [clause?_of_isSection begins] at isRule
      cases isRule
    | cons b before =>
      obtain ⟨rfl, behind⟩ := List.cons.inj split
      rcases List.append_eq_append_iff.1 behind with ⟨more, rfl, later⟩ | ⟨more, rfl, last⟩
      · obtain ⟨g, member, some_rule, block⟩ := ih later
        refine ⟨g, List.mem_cons_of_mem _ member, some_rule, fun front => ?_⟩
        have whole : front ++ h :: (rules ++ more) = (front ++ [h] ++ rules) ++ more := by simp
        rw [whole, block]
      cases more with
      | nil =>
        obtain ⟨g, member, some_rule, block⟩ := @ih [] last.symm
        exact ⟨g, List.mem_cons_of_mem _ member, some_rule, fun front => by
          rw [← block (front ++ h :: before), List.append_nil]⟩
      | cons k more =>
        obtain ⟨early, late, rfl, areRules, others⟩ := areRules_append areRules
        obtain ⟨c, late, rfl, -, -⟩ := areRules_cons others
        rename AreRules before early => first
        refine ⟨_, List.mem_cons_self, by simp, fun front => ?_⟩
        rw [List.append_cons, openBlock_rules first, openBlock_snoc, begins]
        rfl

theorem exists_rule (grouped : Grouped lines groups) {g : LineGroup} (member : g ∈ groups)
    (some_rule : g.rules ≠ []) : ∃ before l after, lines = before ++ l :: after ∧
      l.line.clause?.isSome ∧ ∀ front, openBlock (front ++ before) = g.head.block? := by
  induction grouped with
  | nothing => cases member
  | @group h rules lines clauses groups begins _ areRules _ ih =>
    rcases List.mem_cons.1 member with rfl | member
    · cases rules with
      | nil => exact absurd (List.map_eq_nil_iff.1 areRules.symm) some_rule
      | cons r rules =>
        obtain ⟨c, others, -, isRule, -⟩ := areRules_cons areRules
        refine ⟨[h], r, rules ++ lines, rfl, by simp [isRule], fun front => ?_⟩
        rw [openBlock_snoc, begins]
        rfl
    · obtain ⟨before, l, after, rfl, isRule, block⟩ := ih member
      refine ⟨h :: (rules ++ before), l, after, by simp, isRule, fun front => ?_⟩
      have whole : front ++ h :: (rules ++ before) = (front ++ [h] ++ rules) ++ before := by simp
      rw [whole, block]

theorem of_mem (grouped : Grouped lines groups) : ∀ l ∈ lines,
    l.line.isSection = true ∧ l.line.header? = none ∨ l.line.clause?.isSome := by
  induction grouped with
  | nothing => simp
  | @group h rules lines clauses groups begins noHeader areRules _ ih =>
    intro l member
    rcases List.mem_cons.1 member with rfl | member
    · exact .inl ⟨begins, noHeader⟩
    rcases List.mem_append.1 member with member | member
    · exact .inr (Option.isSome_iff_exists.2 (areRules.exists_clause l member))
    · exact ih l member

theorem headsOf_header (grouped : Grouped lines groups) : headsOf Line.header? groups = [] := by
  induction grouped with
  | nothing => rfl
  | group _ noHeader _ _ ih =>
    rw [headsOf, List.map_cons, List.filterMap_cons_none noHeader]
    exact ih

end Grouped

namespace Headed

theorem selects (headed : Headed names front) :
    select Line.header? front = [names] ∧ select Line.init? front = [] ∧
      select Line.accept? front = [] ∧ select Line.block? front = [] ∧
      select Line.clause? front = [] := by
  obtain ⟨ds, h, rfl, header, directives⟩ := headed
  have nothing {α : Type} {kind : Line → Option α}
      (apart : ∀ b, kind (.directive b) = none) : select kind ds = [] := by
    refine select_eq_nil_iff.2 fun d member => ?_
    obtain ⟨isDirective, -⟩ := directives d member
    cases line : d.line <;> rw [line] at isDirective <;> cases isDirective
    exact apart _
  refine ⟨?_, ?_, ?_, ?_, ?_⟩ <;>
  · rw [select_snoc, header, nothing fun _ => rfl]
    rfl

theorem openBlock (headed : Headed names front) : openBlock front = none := by
  obtain ⟨ds, h, rfl, header, -⟩ := headed
  rw [openBlock_snoc, header]
  rfl

theorem blockClauses (headed : Headed names front) (name : String) :
    blockClauses front name = [] := by
  refine List.eq_nil_iff_forall_not_mem.2 fun c member => ?_
  have selected := mem_select_of_mem_blockClauses member
  rw [headed.selects.2.2.2.2] at selected
  cases selected

theorem behind (headed : Headed names front) {before after : List NumberedLine}
    (split : front ++ lines = before ++ l :: after) (noDirective : l.line.directive? = none)
    (noHeader : l.line.header? = none) :
    ∃ more, before = front ++ more ∧ lines = more ++ l :: after := by
  rcases List.append_eq_append_iff.1 split with ⟨more, rfl, later⟩ | ⟨more, inside, last⟩
  · exact ⟨more, rfl, later⟩
  cases more with
  | nil => exact ⟨[], by simpa using inside.symm, last.symm⟩
  | cons k more =>
    obtain ⟨rfl, -⟩ := List.cons.inj last
    obtain ⟨ds, h, rfl, header, directives⟩ := headed
    have member : l ∈ ds ++ [h] := by simp [inside]
    rcases List.mem_append.1 member with member | member
    · have isDirective := (directives l member).1
      rw [noDirective] at isDirective
      cases isDirective
    · obtain rfl := List.mem_singleton.1 member
      rw [header] at noHeader
      cases noHeader

end Headed

/-! ## Whole descriptions -/

section

variable (headed : Headed names front) (grouped : Grouped lines groups)
include headed grouped

theorem select_header_grouped : select Line.header? (front ++ lines) = [names] := by
  rw [select_append, headed.selects.1, grouped.select fun _ _ _ _ _ => rfl,
    grouped.headsOf_header, List.append_nil]

theorem declared_grouped : declared (front ++ lines) = names := by
  rw [declared, select_header_grouped headed grouped, List.flatten_singleton]

theorem select_init_grouped :
    select Line.init? (front ++ lines) = headsOf Line.init? groups := by
  rw [select_append, headed.selects.2.1, grouped.select fun _ _ _ _ _ => rfl, List.nil_append]

theorem select_accept_grouped :
    select Line.accept? (front ++ lines) = headsOf Line.accept? groups := by
  rw [select_append, headed.selects.2.2.1, grouped.select fun _ _ _ _ _ => rfl, List.nil_append]

theorem select_block_grouped :
    select Line.block? (front ++ lines) = headsOf Line.block? groups := by
  rw [select_append, headed.selects.2.2.2.1, grouped.select fun _ _ _ _ _ => rfl,
    List.nil_append]

theorem select_clause_grouped :
    select Line.clause? (front ++ lines) = groups.flatMap Group.rules := by
  rw [select_append, headed.selects.2.2.2.2, grouped.select_clauses, List.nil_append]

theorem blockClauses_grouped (name : String) :
    blockClauses (front ++ lines) name = clausesOf groups name := by
  rw [grouped.blockClauses, headed.blockClauses, List.nil_append]

theorem fair_of_wellFormed (formed : WellFormed (front ++ lines)) : Fair names groups where
  distinct := declared_grouped headed grouped ▸ formed.distinct
  one_init := select_init_grouped headed grouped ▸ formed.one_init
  init_declared := by
    have known := formed.init_declared
    rwa [select_init_grouped headed grouped, declared_grouped headed grouped] at known
  one_accept := select_accept_grouped headed grouped ▸ formed.one_accept
  accept_declared := by
    have known := formed.accept_declared
    rwa [select_accept_grouped headed grouped, declared_grouped headed grouped] at known
  blocks_declared := by
    have known := formed.blocks_declared
    rwa [select_block_grouped headed grouped, declared_grouped headed grouped] at known
  one_block := select_block_grouped headed grouped ▸ formed.one_block
  in_block := by
    intro g member some_rule
    obtain ⟨before, l, after, rfl, isRule, block⟩ := grouped.exists_rule member some_rule
    have opened := formed.in_block (front ++ before) l after (by simp) isRule
    rwa [block] at opened
  targets_declared := by
    have known := formed.targets_declared
    rw [select_clause_grouped headed grouped, declared_grouped headed grouped] at known
    exact fun g member c listed => known c (List.mem_flatMap.2 ⟨g, member, listed⟩)
  one_rule name := blockClauses_grouped headed grouped name ▸ formed.one_rule name

theorem wellFormed_of_fair (fair : Fair names groups) : WellFormed (front ++ lines) where
  regular := by
    intro l member
    rcases List.mem_append.1 member with member | member
    · obtain ⟨ds, h, rfl, header, directives⟩ := headed
      rcases List.mem_append.1 member with member | member
      · obtain ⟨isDirective, -⟩ := directives l member
        constructor <;> intro bad <;> rw [bad] at isDirective <;> cases isDirective
      · obtain rfl := List.mem_singleton.1 member
        simp [header]
    · constructor <;> intro bad <;> have kind := grouped.of_mem l member <;>
        simp [bad, Line.isSection, Line.clause?] at kind
  directive_first := by
    intro l member isDirective
    rcases List.mem_append.1 member with member | member
    · obtain ⟨ds, h, rfl, header, directives⟩ := headed
      rcases List.mem_append.1 member with member | member
      · exact (directives l member).2
      · obtain rfl := List.mem_singleton.1 member
        simp [header, Line.directive?] at isDirective
    · have kind := grouped.of_mem l member
      cases line : l.line <;> simp_all [Line.isSection, Line.clause?, Line.directive?]
  one_header := by rw [select_header_grouped headed grouped, List.length_singleton]
  header_first := by
    intro before l after split noDirective noHeader
    obtain ⟨more, rfl, -⟩ := headed.behind split noDirective noHeader
    rw [select_append, headed.selects.1]
    simp
  distinct := (declared_grouped headed grouped).symm ▸ fair.distinct
  one_init := (select_init_grouped headed grouped).symm ▸ fair.one_init
  init_declared := by
    rw [select_init_grouped headed grouped, declared_grouped headed grouped]
    exact fair.init_declared
  one_accept := (select_accept_grouped headed grouped).symm ▸ fair.one_accept
  accept_declared := by
    rw [select_accept_grouped headed grouped, declared_grouped headed grouped]
    exact fair.accept_declared
  blocks_declared := by
    rw [select_block_grouped headed grouped, declared_grouped headed grouped]
    exact fair.blocks_declared
  one_block := (select_block_grouped headed grouped).symm ▸ fair.one_block
  in_block := by
    intro before l after split isRule
    obtain ⟨c, clause⟩ := Option.isSome_iff_exists.1 isRule
    obtain ⟨column, line⟩ := clause?_eq_some clause
    obtain ⟨more, rfl, behind⟩ := headed.behind split (by rw [line]; rfl) (by rw [line]; rfl)
    obtain ⟨g, member, some_rule, block⟩ := grouped.exists_group behind isRule
    rw [block]
    exact fair.in_block g member some_rule
  targets_declared := by
    rw [select_clause_grouped headed grouped, declared_grouped headed grouped]
    intro c selected
    obtain ⟨g, member, listed⟩ := List.mem_flatMap.1 selected
    exact fair.targets_declared g member c listed
  one_rule name := (blockClauses_grouped headed grouped name).symm ▸ fair.one_rule name

end

/-! ## Other orders -/

def Group.Alike {α β : Type} (g g' : Group α β) : Prop := g'.head = g.head ∧ g'.rules.Perm g.rules

def Shuffled {α β : Type} (groups groups' : List (Group α β)) : Prop :=
  ∃ middle, groups.Perm middle ∧ List.Forall₂ Group.Alike middle groups'

theorem Shuffled.map {α β γ δ : Type} {gs gs' : List (Group α β)} (shuffled : Shuffled gs gs')
    (f : Group α β → Group γ δ) (alike : ∀ g g' : Group α β, g.Alike g' → (f g).Alike (f g')) :
    Shuffled (gs.map f) (gs'.map f) := by
  obtain ⟨middle, perm, each⟩ := shuffled
  refine ⟨middle.map f, perm.map f, ?_⟩
  rw [List.forall₂_map_left_iff, List.forall₂_map_right_iff]
  exact each.imp alike

namespace Shuffled

variable {groups' : List LineGroup}

theorem heads (shuffled : Shuffled groups groups') :
    (groups'.map Group.head).Perm (groups.map Group.head) := by
  obtain ⟨middle, perm, each⟩ := shuffled
  have same : groups'.map Group.head = middle.map Group.head := by
    clear perm
    induction each with
    | nil => rfl
    | cons alike _ ih => rw [List.map_cons, List.map_cons, alike.1, ih]
  rw [same]
  exact (perm.map Group.head).symm

theorem headsOf {α : Type} (shuffled : Shuffled groups groups') (kind : Line → Option α) :
    (headsOf kind groups').Perm (headsOf kind groups) := shuffled.heads.filterMap kind

theorem clausesOf (shuffled : Shuffled groups groups') (name : String) :
    (clausesOf groups' name).Perm (clausesOf groups name) := by
  obtain ⟨middle, perm, each⟩ := shuffled
  refine .trans ?_ (perm.flatMap_right _).symm
  clear perm
  induction each with
  | nil => exact .refl _
  | @cons g g' _ _ alike _ ih =>
    simp only [Description.clausesOf, List.flatMap_cons, alike.1]
    refine .append ?_ ih
    split
    · exact alike.2
    · exact .refl _

theorem exists_alike {α β : Type} {gs gs' : List (Group α β)} (shuffled : Shuffled gs gs')
    {g' : Group α β} (member : g' ∈ gs') : ∃ g ∈ gs, g.Alike g' := by
  obtain ⟨middle, perm, each⟩ := shuffled
  obtain ⟨i, bound, rfl⟩ := List.getElem_of_mem member
  have bound' : i < middle.length := each.length_eq ▸ bound
  exact ⟨middle[i], perm.mem_iff.2 (List.getElem_mem bound'), each.get bound' bound⟩

end Shuffled

theorem Fair.shuffle {groups' : List LineGroup} {names' : List String} (fair : Fair names groups)
    (shuffled : Shuffled groups groups') (perm : names'.Perm names) : Fair names' groups' where
  distinct := perm.nodup_iff.2 fair.distinct
  one_init := (shuffled.headsOf Line.init?).length_eq.trans fair.one_init
  init_declared name listed :=
    perm.mem_iff.2 (fair.init_declared name ((shuffled.headsOf Line.init?).mem_iff.1 listed))
  one_accept := (shuffled.headsOf Line.accept?).length_eq ▸ fair.one_accept
  accept_declared listed member name among := perm.mem_iff.2
    (fair.accept_declared listed ((shuffled.headsOf Line.accept?).mem_iff.1 member) name among)
  blocks_declared name listed :=
    perm.mem_iff.2 (fair.blocks_declared name ((shuffled.headsOf Line.block?).mem_iff.1 listed))
  one_block := (shuffled.headsOf Line.block?).nodup_iff.2 fair.one_block
  in_block g' member some_rule := by
    obtain ⟨g, listed, head, rules⟩ := shuffled.exists_alike member
    rw [head]
    exact fair.in_block g listed fun nothing => some_rule (List.Perm.eq_nil (nothing ▸ rules))
  targets_declared g' member c listed := by
    obtain ⟨g, inside, -, rules⟩ := shuffled.exists_alike member
    exact perm.mem_iff.2 (fair.targets_declared g inside c (rules.mem_iff.1 listed))
  one_rule name := ((shuffled.clausesOf name).map Clause.read).nodup_iff.2 (fair.one_rule name)

end OneTape.Description
