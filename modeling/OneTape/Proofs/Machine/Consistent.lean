import OneTape.Description.Draft
import OneTape.Proofs.Description.Validity

namespace OneTape

namespace Machine

open Description

variable {m : Machine} {text : String} {i : Nat} {q : State}

theorem exists_state_of_lt (inside : i < m.states.size) : ∃ q, m.state? i = some q :=
  ⟨_, Array.getElem?_eq_getElem inside⟩

theorem lt_of_state (stored : m.state? i = some q) : i < m.states.size :=
  (Array.getElem?_eq_some_iff.1 stored).1

theorem mem_states_of_state (stored : m.state? i = some q) : q ∈ m.states.toList :=
  List.mem_of_getElem? (by simpa [state?] using stored)

theorem size_outline (m : Machine) : m.outline.states.length = m.states.size := by
  simp [outline]

theorem mem_outline (member : q ∈ m.states.toList) :
    (q.name, q.rules.toList) ∈ m.outline.states := List.mem_map.2 ⟨q, member, rfl⟩

/-- What can be relied on in a machine that was read. -/
structure Consistent (m : Machine) : Prop where
  outline : m.outline.Valid
  indexed : ∀ q ∈ m.states.toList, q.Indexed
  accepting_nodup : m.accepting.Nodup
  idOf?_iff : ∀ name i, m.idOf? name = some i ↔ ∃ q, m.state? i = some q ∧ q.name = name
  isAcceptingId_iff : ∀ i, m.isAcceptingId i = true ↔ i ∈ m.accepting

/-- What runs rely on. -/
structure Valid (m : Machine) : Prop where
  indexed : ∀ q ∈ m.states.toList, q.Indexed
  initial_lt : m.initial < m.states.size
  next_lt : ∀ q ∈ m.states.toList, ∀ r ∈ q.rules.toList, r.next < m.states.size

theorem Consistent.valid (consistent : m.Consistent) : m.Valid where
  indexed := consistent.indexed
  initial_lt := m.size_outline ▸ consistent.outline.initial_lt
  next_lt _ member := m.size_outline ▸ consistent.outline.next_lt _ (mem_outline member)

theorem Consistent.inStep (consistent : m.Consistent) (member : q ∈ m.states.toList) :
    q.InStep where
  indexed := consistent.indexed q member
  distinct := consistent.outline.reads_distinct _ (mem_outline member)

/-! ## Ids -/

theorem numbers_idsOf {states : Array State} (distinct : (states.toList.map State.name).Nodup) :
    Numbers (idsOf states) (states.toList.map State.name) := by
  unfold idsOf
  generalize states.toList = qs at distinct ⊢
  induction qs using List.reverseRecOn with
  | nil => simp [Numbers]
  | append_singleton qs q ih =>
    rw [List.map_append, List.nodup_append] at distinct
    have new : q.name ∉ qs.map State.name := fun old => distinct.2.2 _ old _ (by simp) rfl
    have grown := (ih distinct.1).insert new
    simpa [List.zipIdx_append] using grown

theorem numbers_eq_some_iff {ids : Std.TreeMap String Nat} {names : List String}
    (numbers : Numbers ids names) (distinct : names.Nodup) {name : String} {i : Nat} :
    ids[name]? = some i ↔ names[i]? = some name := by
  rw [numbers name, List.getElem?_eq_some_iff]
  constructor
  · intro found
    split at found
    · obtain rfl := Option.some.inj found
      exact ⟨List.idxOf_lt_length_iff.2 ‹_›, List.getElem_idxOf _⟩
    · cases found
  · rintro ⟨inside, rfl⟩
    rw [if_pos (List.getElem_mem inside), distinct.idxOf_getElem]

/-! ## Machines that were read -/

theorem ofText_eq_ok (parsed : Machine.ofText text = .ok m) :
    ∃ lines, linesOf? text.toList = some lines ∧ assemble lines = .ok m := by
  unfold Machine.ofText Description.read at parsed
  split at parsed
  · cases parsed
  · split at parsed
    · cases parsed
    · exact ⟨_, ‹_›, parsed⟩

theorem exists_lines (parsed : Machine.ofText text = .ok m) :
    ∃ lines, linesOf? text.toList = some lines ∧ assemble lines = .ok m ∧ WellFormed lines ∧
      m.outline = outlineOf lines ∧ ∀ q ∈ m.states.toList, q.Indexed := by
  obtain ⟨lines, classified, assembled⟩ := Machine.ofText_eq_ok parsed
  rcases assemble_lines lines with ⟨w, m', assembled', outline, indexed⟩ | ⟨-, e, failed⟩
  · obtain rfl := Except.ok.inj (assembled.symm.trans assembled')
    exact ⟨lines, classified, assembled, w, outline, indexed⟩
  · rw [assembled] at failed
    cases failed

theorem outline_valid (parsed : Machine.ofText text = .ok m) : m.outline.Valid := by
  obtain ⟨lines, classified, -, w, outline, -⟩ := exists_lines parsed
  rw [outline]
  exact w.outline_valid (worded_of_linesOf? classified)

theorem indexes_of_assemble {lines : List NumberedLine} (assembled : assemble lines = .ok m) :
    m.ids = idsOf m.states ∧ m.acceptingSet = .ofList m.accepting := by
  rw [assemble] at assembled
  cases reached : lines.foldlM Draft.read {} with
  | error e =>
    rw [reached] at assembled
    cases assembled
  | ok d =>
    rw [reached, ok_bind, Draft.finish] at assembled
    split at assembled
    · split at assembled
      · cases assembled
      · obtain rfl := Except.ok.inj assembled
        exact ⟨rfl, rfl⟩
    · cases assembled

theorem idOf?_eq_some_iff (parsed : Machine.ofText text = .ok m) {name : String} {i : Nat} :
    m.idOf? name = some i ↔ ∃ q, m.state? i = some q ∧ q.name = name := by
  obtain ⟨lines, -, assembled, -⟩ := exists_lines parsed
  have distinct : (m.states.toList.map State.name).Nodup := by
    have names := (outline_valid parsed).distinct
    rwa [Outline.names, outline, List.map_map] at names
  rw [idOf?, (indexes_of_assemble assembled).1,
    numbers_eq_some_iff (numbers_idsOf distinct) distinct, List.getElem?_map,
    Option.map_eq_some_iff]
  simp [state?]

theorem isAcceptingId_eq_true_iff (parsed : Machine.ofText text = .ok m) (i : Nat) :
    m.isAcceptingId i = true ↔ i ∈ m.accepting := by
  obtain ⟨lines, -, assembled, -⟩ := exists_lines parsed
  rw [isAcceptingId, (indexes_of_assemble assembled).2, Std.TreeSet.contains_ofList,
    List.contains_iff_mem]

theorem accepting_nodup (parsed : Machine.ofText text = .ok m) : m.accepting.Nodup := by
  obtain ⟨lines, -, -, -, same, -⟩ := exists_lines parsed
  have listed : m.accepting = (outlineOf lines).accepting := congrArg Outline.accepting same
  rw [listed]
  exact nodup_eraseDups _

theorem consistent_ofText (parsed : Machine.ofText text = .ok m) : m.Consistent where
  outline := outline_valid parsed
  indexed := by
    obtain ⟨-, -, -, -, -, indexed⟩ := exists_lines parsed
    exact indexed
  accepting_nodup := accepting_nodup parsed
  idOf?_iff _ _ := idOf?_eq_some_iff parsed
  isAcceptingId_iff := isAcceptingId_eq_true_iff parsed

theorem valid_ofText (parsed : Machine.ofText text = .ok m) : m.Valid :=
  (consistent_ofText parsed).valid

/-- The indexes and sets that a machine keeps say what its lists say, whatever was read. -/
theorem ofText_consistent (parsed : Machine.ofText text = .ok m) :
    m.Consistent ∧ 0 < m.states.size ∧ ∀ q ∈ m.states.toList,
      (q.rules.toList.map Rule.read).Nodup ∧
        ∀ s, q.rule? s = q.rules.toList.find? (·.read = s) := by
  have consistent := consistent_ofText parsed
  refine ⟨consistent, Nat.zero_lt_of_lt consistent.valid.initial_lt, fun q member => ?_⟩
  have inStep := consistent.inStep member
  exact ⟨inStep.distinct, inStep.indexed.rule?_eq_find?⟩

theorem ofText_consistent_two : ∃ m,
    Machine.ofText "A, B\ninit A\naccept B, B\nA:\n\t1, 0, >, B\n" = .ok m ∧ m.Consistent ∧
      m.accepting = [1] ∧ m.idOf? "B" = some 1 ∧ m.idOf? "C" = none := by
  have checked : ((Machine.ofText
      "A, B\ninit A\naccept B, B\nA:\n\t1, 0, >, B\n").toOption.any fun m =>
        m.accepting == [1] && m.idOf? "B" == some 1 && m.idOf? "C" == none) = true := by
    decide +kernel
  cases parsed : Machine.ofText "A, B\ninit A\naccept B, B\nA:\n\t1, 0, >, B\n" with
  | error e => simp [parsed, Except.toOption] at checked
  | ok m =>
    simp only [parsed, Except.toOption, Option.any_some, Bool.and_eq_true, beq_iff_eq] at checked
    exact ⟨m, rfl, (ofText_consistent parsed).1, checked.1.1, checked.1.2, checked.2⟩

end Machine

end OneTape
