import OneTape.Proofs.Machine.Consistent
import OneTape.Proofs.Machine.Reachability

namespace OneTape

def Rule.rename (f : Nat → Nat) (r : Rule) : Rule := { r with next := f r.next }

/-- The same warning, with the names of states in any order. -/
def Warning.Alike : Warning → Warning → Prop
  | unreachableStates names, unreachableStates names' => names'.Perm names
  | w, w' => w' = w

theorem Warning.alike_refl (w : Warning) : w.Alike w := by
  cases w with
  | unreachableStates names => exact .refl names
  | noAcceptingStates | neverAccepts | unhandledSymbols => rfl

namespace Machine

open Description

variable {f : Nat → Nat} {m m' : Machine} {i j : Nat}

/-- The state that has the number `i` in one machine has the number `f i` in the other. -/
structure Renamed (f : Nat → Nat) (m m' : Machine) : Prop where
  state : ∀ i q, m.state? i = some q → ∃ q', m'.state? (f i) = some q' ∧ q'.name = q.name ∧
    q'.rules.toList.Perm (q.rules.toList.map (Rule.rename f))
  onto : ∀ j q', m'.state? j = some q' → ∃ i q, m.state? i = some q ∧ f i = j
  initial : m'.initial = f m.initial
  accepting : ∀ i q, m.state? i = some q → (f i ∈ m'.accepting ↔ i ∈ m.accepting)

theorem Valid.leads_lt (valid : m.Valid) (leads : m.Leads i j) : j < m.states.size := by
  unfold Leads Machine.targets at leads
  cases stored : m.state? i with
  | none => simp [stored] at leads
  | some q =>
    simp only [stored, Option.map_some, Option.getD_some, List.mem_map] at leads
    obtain ⟨r, listed, rfl⟩ := leads
    exact valid.next_lt q (mem_states_of_state stored) r listed

theorem Valid.reaches_lt (valid : m.Valid) (inside : i < m.states.size)
    (reaches : m.Reaches i j) : j < m.states.size := by
  induction reaches with
  | refl => exact inside
  | tail _ leads _ => exact valid.leads_lt leads

namespace Consistent

variable {q : State}

theorem accepting_lt (consistent : m.Consistent) (listed : i ∈ m.accepting) : i < m.states.size :=
  m.size_outline ▸ consistent.outline.accepting_lt i listed

theorem rule?_eq_some_iff (consistent : m.Consistent) (stored : m.state? i = some q) {s : Symbol}
    {r : Rule} : q.rule? s = some r ↔ r ∈ q.rules.toList ∧ r.read = s :=
  (consistent.inStep (mem_states_of_state stored)).rule?_eq_some_iff

theorem idOf?_name (consistent : m.Consistent) (stored : m.state? i = some q) :
    m.idOf? q.name = some i :=
  (consistent.idOf?_iff q.name i).2 ⟨q, stored, rfl⟩

theorem eq_of_name (consistent : m.Consistent) {q' : State} (stored : m.state? i = some q)
    (stored' : m.state? j = some q') (same : q.name = q'.name) : i = j := by
  have here := consistent.idOf?_name stored
  rw [same, consistent.idOf?_name stored'] at here
  exact (Option.some.inj here).symm

end Consistent

namespace Renamed

theorem name (renamed : Renamed f m m') (inside : i < m.states.size) :
    m'.nameOf (f i) = m.nameOf i := by
  obtain ⟨q, stored⟩ := exists_state_of_lt inside
  obtain ⟨q', stored', same, -⟩ := renamed.state i q stored
  simp [nameOf, stored, stored', same]

theorem inj (renamed : Renamed f m m') (consistent : m.Consistent) (inside : i < m.states.size)
    (inside' : j < m.states.size) (same : f i = f j) : i = j := by
  obtain ⟨p, stored⟩ := exists_state_of_lt inside
  obtain ⟨q, stored'⟩ := exists_state_of_lt inside'
  obtain ⟨p', there, name, -⟩ := renamed.state i p stored
  obtain ⟨q', there', name', -⟩ := renamed.state j q stored'
  rw [same, there', Option.some.injEq] at there
  exact consistent.eq_of_name stored stored' (by rw [← name, ← name', there])

theorem rule? (renamed : Renamed f m m') (consistent : m.Consistent) (consistent' : m'.Consistent)
    {q : State} (stored : m.state? i = some q) (s : Symbol) :
    ∃ q', m'.state? (f i) = some q' ∧ q'.rule? s = (q.rule? s).map (Rule.rename f) := by
  obtain ⟨q', stored', -, rules⟩ := renamed.state i q stored
  refine ⟨q', stored', Option.ext fun r' => ?_⟩
  rw [consistent'.rule?_eq_some_iff stored', rules.mem_iff, List.mem_map, Option.map_eq_some_iff]
  constructor
  · rintro ⟨⟨r, listed, rfl⟩, read⟩
    exact ⟨r, (consistent.rule?_eq_some_iff stored).2 ⟨listed, read⟩, rfl⟩
  · rintro ⟨r, found, rfl⟩
    obtain ⟨listed, read⟩ := (consistent.rule?_eq_some_iff stored).1 found
    exact ⟨⟨r, listed, rfl⟩, read⟩

theorem isAcceptingId (renamed : Renamed f m m') (consistent : m.Consistent)
    (consistent' : m'.Consistent) (inside : i < m.states.size) :
    m'.isAcceptingId (f i) = m.isAcceptingId i := by
  obtain ⟨q, stored⟩ := exists_state_of_lt inside
  rw [Bool.eq_iff_iff, consistent'.isAcceptingId_iff, consistent.isAcceptingId_iff,
    renamed.accepting i q stored]

/-! ## Reaching -/

theorem leads_iff (renamed : Renamed f m m') (inside : i < m.states.size) :
    m'.Leads (f i) j ↔ ∃ k, m.Leads i k ∧ f k = j := by
  obtain ⟨q, stored⟩ := exists_state_of_lt inside
  obtain ⟨q', stored', -, rules⟩ := renamed.state i q stored
  have targets : (m'.targets (f i)).Perm ((m.targets i).map f) := by
    simpa [Machine.targets, stored, stored', Rule.rename, Function.comp_def] using
      rules.map Rule.next
  rw [Leads, targets.mem_iff, List.mem_map]
  rfl

theorem reaches_iff (renamed : Renamed f m m') (consistent : m.Consistent)
    (inside : i < m.states.size) : m'.Reaches (f i) j ↔ ∃ k, m.Reaches i k ∧ f k = j := by
  constructor
  · intro reaches
    have kept : ∃ k, m.Reaches i k ∧ f k = j ∧ k < m.states.size := by
      induction reaches with
      | refl => exact ⟨i, .refl, rfl, inside⟩
      | tail _ leads ih =>
        obtain ⟨k, reaches, rfl, inside⟩ := ih
        obtain ⟨l, further, rfl⟩ := (renamed.leads_iff inside).1 leads
        exact ⟨l, reaches.tail further, rfl, consistent.valid.leads_lt further⟩
    obtain ⟨k, reaches, same, -⟩ := kept
    exact ⟨k, reaches, same⟩
  · rintro ⟨k, reaches, rfl⟩
    have kept : m'.Reaches (f i) (f k) ∧ k < m.states.size := by
      induction reaches with
      | refl => exact ⟨.refl, inside⟩
      | tail _ leads ih =>
        exact ⟨ih.1.tail ((renamed.leads_iff ih.2).2 ⟨_, leads, rfl⟩),
          consistent.valid.leads_lt leads⟩
    exact kept.1

theorem mem_reachable (renamed : Renamed f m m') (consistent : m.Consistent)
    (inside : i < m.states.size) : f i ∈ m'.reachable ↔ i ∈ m.reachable := by
  rw [mem_reachable_iff, mem_reachable_iff, renamed.initial,
    renamed.reaches_iff consistent consistent.valid.initial_lt]
  constructor
  · rintro ⟨k, reaches, same⟩
    have inside' := consistent.valid.reaches_lt consistent.valid.initial_lt reaches
    exact renamed.inj consistent inside' inside same ▸ reaches
  · intro reaches
    exact ⟨i, reaches, rfl⟩

end Renamed

/-! ## Findings -/

theorem mem_unreachableNames_iff {name : String} : name ∈ m.unreachableNames ↔
    ∃ i q, m.state? i = some q ∧ q.name = name ∧ i ∉ m.reachable := by
  have stands {i : Nat} {q : State} : (q, i) ∈ m.states.toList.zipIdx ↔ m.state? i = some q := by
    rw [List.mem_zipIdx_iff_getElem?, state?, Array.getElem?_toList]
  have out_iff {i : Nat} : (!m.reachable.contains i) = true ↔ i ∉ m.reachable := by
    rw [Bool.not_eq_true', ← Bool.not_eq_true, ← Std.TreeSet.mem_iff_contains]
  simp only [unreachableNames, List.mem_map, List.mem_filter, Prod.exists, stands, out_iff]
  constructor
  · rintro ⟨q, i, ⟨stored, out⟩, rfl⟩
    exact ⟨i, q, stored, rfl, out⟩
  · rintro ⟨i, q, stored, rfl, out⟩
    exact ⟨q, i, ⟨stored, out⟩, rfl⟩

theorem Consistent.nodup_unreachableNames (consistent : m.Consistent) :
    m.unreachableNames.Nodup := by
  have names : (m.states.toList.map State.name).Nodup := by
    have distinct := consistent.outline.distinct
    rwa [Outline.names, Machine.outline, List.map_map] at distinct
  have all : m.states.toList.zipIdx.map (fun p => p.1.name) = m.states.toList.map State.name := by
    conv_rhs => rw [← List.zipIdx_map_fst 0 m.states.toList, List.map_map]
    rfl
  rw [← all] at names
  exact names.sublist (List.filter_sublist.map _)

namespace Renamed

theorem unreachableNames (renamed : Renamed f m m') (consistent : m.Consistent)
    (consistent' : m'.Consistent) : m'.unreachableNames.Perm m.unreachableNames := by
  refine (List.perm_ext_iff_of_nodup consistent'.nodup_unreachableNames
    consistent.nodup_unreachableNames).2 fun name => ?_
  rw [mem_unreachableNames_iff, mem_unreachableNames_iff]
  constructor
  · rintro ⟨j, q', stored', rfl, out⟩
    obtain ⟨i, q, stored, rfl⟩ := renamed.onto j q' stored'
    obtain ⟨p, there, same, -⟩ := renamed.state i q stored
    obtain rfl := Option.some.inj (stored'.symm.trans there)
    exact ⟨i, q, stored, same.symm,
      mt (renamed.mem_reachable consistent (lt_of_state stored)).2 out⟩
  · rintro ⟨i, q, stored, rfl, out⟩
    obtain ⟨q', stored', same, -⟩ := renamed.state i q stored
    exact ⟨f i, q', stored', same, mt (renamed.mem_reachable consistent (lt_of_state stored)).1 out⟩

theorem mem_accepting_iff (renamed : Renamed f m m') (consistent' : m'.Consistent) :
    j ∈ m'.accepting ↔ ∃ i q, m.state? i = some q ∧ i ∈ m.accepting ∧ f i = j := by
  constructor
  · intro listed
    obtain ⟨q', stored'⟩ := exists_state_of_lt (consistent'.accepting_lt listed)
    obtain ⟨i, q, stored, rfl⟩ := renamed.onto j q' stored'
    exact ⟨i, q, stored, (renamed.accepting i q stored).1 listed, rfl⟩
  · rintro ⟨i, q, stored, listed, rfl⟩
    exact (renamed.accepting i q stored).2 listed

theorem acceptingWarning? (renamed : Renamed f m m') (consistent : m.Consistent)
    (consistent' : m'.Consistent) : m'.acceptingWarning? = m.acceptingWarning? := by
  have none_accepting : m'.accepting.isEmpty = m.accepting.isEmpty := by
    rw [Bool.eq_iff_iff, List.isEmpty_iff, List.isEmpty_iff, List.eq_nil_iff_forall_not_mem,
      List.eq_nil_iff_forall_not_mem]
    constructor
    · intro nothing i listed
      obtain ⟨q, stored⟩ := exists_state_of_lt (consistent.accepting_lt listed)
      exact nothing (f i) ((renamed.accepting i q stored).2 listed)
    · intro nothing j listed
      obtain ⟨i, -, -, listed, -⟩ := (renamed.mem_accepting_iff consistent').1 listed
      exact nothing i listed
  have some_reached : m'.accepting.any m'.reachable.contains =
      m.accepting.any m.reachable.contains := by
    rw [Bool.eq_iff_iff, List.any_eq_true, List.any_eq_true]
    simp only [← Std.TreeSet.mem_iff_contains]
    constructor
    · rintro ⟨j, listed, reached⟩
      obtain ⟨i, q, stored, accepting, rfl⟩ := (renamed.mem_accepting_iff consistent').1 listed
      exact ⟨i, accepting, (renamed.mem_reachable consistent (lt_of_state stored)).1 reached⟩
    · rintro ⟨i, listed, reached⟩
      have inside := consistent.accepting_lt listed
      obtain ⟨q, stored⟩ := exists_state_of_lt inside
      exact ⟨f i, (renamed.accepting i q stored).2 listed,
        (renamed.mem_reachable consistent inside).2 reached⟩
  rw [Machine.acceptingWarning?, none_accepting, some_reached, Machine.acceptingWarning?]

theorem analyze (renamed : Renamed f m m') (consistent : m.Consistent)
    (consistent' : m'.Consistent) : List.Forall₂ Warning.Alike m.analyze m'.analyze := by
  have names := renamed.unreachableNames consistent consistent'
  rw [Machine.analyze, Machine.analyze, renamed.acceptingWarning? consistent consistent',
    unreachableWarning?, unreachableWarning?, names.isEmpty_eq]
  have last : List.Forall₂ Warning.Alike m.acceptingWarning?.toList m.acceptingWarning?.toList :=
    List.forall₂_same.2 fun w _ => w.alike_refl
  cases m.unreachableNames.isEmpty with
  | true => exact last
  | false => exact .cons names last

theorem reads_iff (renamed : Renamed f m m') {s : Symbol} : m'.Reads s ↔ m.Reads s := by
  have by_number (m : Machine) : m.Reads s ↔
      ∃ i q, m.state? i = some q ∧ s ∈ q.rules.toList.map Rule.read := by
    simp only [Reads, ← List.mem_map]
    constructor
    · rintro ⟨q, member, listed⟩
      obtain ⟨i, here⟩ := List.mem_iff_getElem?.1 member
      exact ⟨i, q, by simpa [state?] using here, listed⟩
    · rintro ⟨i, q, stored, listed⟩
      exact ⟨q, mem_states_of_state stored, listed⟩
  have same {q q' : State} (rules : q'.rules.toList.Perm (q.rules.toList.map (Rule.rename f))) :
      s ∈ q'.rules.toList.map Rule.read ↔ s ∈ q.rules.toList.map Rule.read := by
    have reads := (rules.map Rule.read).mem_iff (a := s)
    rwa [List.map_map] at reads
  rw [by_number, by_number]
  constructor
  · rintro ⟨j, q', stored', listed⟩
    obtain ⟨i, q, stored, rfl⟩ := renamed.onto j q' stored'
    obtain ⟨p, there, -, rules⟩ := renamed.state i q stored
    obtain rfl := Option.some.inj (stored'.symm.trans there)
    exact ⟨i, q, stored, (same rules).1 listed⟩
  · rintro ⟨i, q, stored, listed⟩
    obtain ⟨q', stored', -, rules⟩ := renamed.state i q stored
    exact ⟨f i, q', stored', (same rules).2 listed⟩

theorem checkInput (renamed : Renamed f m m') (row : List Symbol) :
    m'.checkInput row = m.checkInput row := by
  have handled (s : Symbol) : m'.readSymbols.contains s = m.readSymbols.contains s := by
    rw [Bool.eq_iff_iff, ← Std.TreeSet.mem_iff_contains, ← Std.TreeSet.mem_iff_contains,
      mem_readSymbols_iff, mem_readSymbols_iff, renamed.reads_iff]
  have unhandled : m'.unhandledSymbols row = m.unhandledSymbols row := by
    simp only [unhandledSymbols, handled]
  rw [Machine.checkInput, unhandled, Machine.checkInput]

end Renamed

end Machine

end OneTape
