import OneTape.Proofs.Description.Assembly
import OneTape.Proofs.Description.Nodes

namespace OneTape.Description

variable {lines : List NumberedLine}

theorem nodup_eraseDups (ids : List Nat) : ids.eraseDups.Nodup := by
  induction ids using List.reverseRecOn with
  | nil => simp
  | append_singleton ids i ih =>
    rw [eraseDups_snoc]
    by_cases listed : i ∈ ids
    · rwa [if_pos listed]
    · rw [if_neg listed, List.nodup_append]
      refine ⟨ih, List.nodup_singleton i, fun j member k single => ?_⟩
      obtain rfl := List.mem_singleton.1 single
      rintro rfl
      exact listed (List.mem_eraseDups.1 member)

theorem names_outlineOf : (outlineOf lines).names = declared lines := by
  simp [Outline.names, outlineOf, Function.comp_def]

theorem exists_header (w : WellFormed lines) :
    ∃ l ∈ lines, ∃ names, l.line = .header names ∧ declared lines = names := by
  obtain ⟨names, one⟩ := List.length_eq_one_iff.1 w.one_header
  obtain ⟨l, member, found⟩ := mem_select.1 (show names ∈ select Line.header? lines by simp [one])
  refine ⟨l, member, names, ?_, by simp [declared, one]⟩
  cases kind : l.line <;> simp_all [Line.header?]

theorem worded_clauses (worded : ∀ l ∈ lines, l.line.Worded) {c : Clause}
    (selected : c ∈ select Line.clause? lines) :
    c.read ∉ unwritable ∧ c.write ∉ unwritable := by
  obtain ⟨l, member, found⟩ := mem_select.1 selected
  have symbols := worded l member
  cases kind : l.line <;> rw [kind] at found symbols <;> cases found
  exact symbols

/-- Well-formed lines that a text can hold have an outline that can be written down. -/
theorem WellFormed.outline_valid (w : WellFormed lines) (worded : ∀ l ∈ lines, l.line.Worded) :
    (outlineOf lines).Valid := by
  obtain ⟨l, member, names, header, all⟩ := exists_header w
  have areNames := worded l member
  rw [header] at areNames
  have size : (outlineOf lines).states.length = (declared lines).length := by simp [outlineOf]
  have rules_of {q : String × List Rule} (listed : q ∈ (outlineOf lines).states) :
      q.2 = (blockClauses lines q.1).map (Clause.rule (declared lines)) := by
    obtain ⟨name, -, rfl⟩ := List.mem_map.1 listed
    rfl
  have clause_of {q : String × List Rule} (listed : q ∈ (outlineOf lines).states) {r : Rule}
      (rule : r ∈ q.2) : ∃ c ∈ select Line.clause? lines, c.rule (declared lines) = r := by
    rw [rules_of listed] at rule
    obtain ⟨c, clause, rfl⟩ := List.mem_map.1 rule
    exact ⟨c, mem_select_of_mem_blockClauses clause, rfl⟩
  exact {
    nonempty := by
      rw [← List.length_pos_iff, size, all]
      exact List.length_pos_iff.2 areNames.1
    isName := by
      rw [names_outlineOf, all]
      exact areNames.2
    distinct := by
      rw [names_outlineOf]
      exact w.distinct
    initial_lt := by
      obtain ⟨name, started⟩ := List.length_eq_one_iff.1 w.one_init
      rw [size, outlineOf, started]
      exact List.idxOf_lt_length_iff.2 (w.init_declared name (by simp [started]))
    accepting_lt := by
      intro i listed
      rw [outlineOf, List.mem_eraseDups, List.mem_map] at listed
      obtain ⟨name, accepted, rfl⟩ := listed
      obtain ⟨names, selected, among⟩ := List.mem_flatten.1 accepted
      rw [size]
      exact List.idxOf_lt_length_iff.2 (w.accept_declared names selected name among)
    reads_distinct := by
      intro q listed
      rw [rules_of listed, List.map_map]
      exact w.one_rule q.1
    next_lt := by
      intro q listed r rule
      obtain ⟨c, selected, rfl⟩ := clause_of listed rule
      rw [size]
      exact List.idxOf_lt_length_iff.2 (w.targets_declared c selected)
    writable := by
      intro q listed r rule
      obtain ⟨c, selected, rfl⟩ := clause_of listed rule
      exact worded_clauses worded selected }

end OneTape.Description
