import OneTape.Proofs.Machine.Lookup

namespace OneTape.State

variable {q q' : State} {r : Rule} {i : Nat}

/-- The push as a call that changes index and rules in place, one after the other. -/
def pushInPlace (r : Rule) : StateM State (Except Nat Unit) := do
  if let some i := (← get).index[r.read]? then
    return .error i
  modify fun q => { q with index := q.index.insert r.read q.rules.size }
  modify fun q => { q with rules := q.rules.push r }
  return .ok ()

def pushAll (calls : List Rule) : StateM State (List (Except Nat Unit)) :=
  calls.mapM pushInPlace

def build (name : String) (calls : List Rule) : List (Except Nat Unit) × State :=
  (pushAll calls).run (ofName name)

/-- The rules of the calls that succeeded. -/
def taken (calls : List Rule) (answers : List (Except Nat Unit)) : List Rule :=
  ((calls.zip answers).filter (·.2.isOk)).map Prod.fst

@[simp]
theorem taken_cons_ok (r : Rule) (calls : List Rule) (answers : List (Except Nat Unit)) :
    taken (r :: calls) (.ok () :: answers) = r :: taken calls answers := rfl

@[simp]
theorem taken_cons_error (r : Rule) (i : Nat) (calls : List Rule)
    (answers : List (Except Nat Unit)) :
    taken (r :: calls) (.error i :: answers) = taken calls answers := rfl

theorem taken_eq_self {calls : List Rule} {answers : List (Except Nat Unit)}
    (answered : answers.length = calls.length) (succeeded : ∀ a ∈ answers, a = .ok ()) :
    taken calls answers = calls := by
  induction calls generalizing answers with
  | nil => simp [taken]
  | cons r calls ih =>
    obtain ⟨a, answers, rfl⟩ := List.exists_cons_of_length_eq_add_one answered
    obtain ⟨rfl, others⟩ := List.forall_mem_cons.1 succeeded
    rw [taken_cons_ok, ih (by simpa using answered) others]

theorem run_pushInPlace (q : State) (r : Rule) :
    (pushInPlace r).run q = ((q.push r).map fun _ => (), (q.push r).toOption.getD q) := by
  unfold pushInPlace State.push
  cases found : q.index[r.read]? with
  | some i =>
    simp [found]
    rfl
  | none =>
    simp [found]
    rfl

theorem run_pushAll_cons (q : State) (r : Rule) (calls : List Rule) :
    (pushAll (r :: calls)).run q =
      let after := (pushAll calls).run ((q.push r).toOption.getD q)
      (((q.push r).map fun _ => ()) :: after.1, after.2) := by
  simp only [pushAll, List.mapM_cons, StateT.run_bind, run_pushInPlace]
  rfl

theorem run_pushAll_of_ok (pushed : q.push r = .ok q') (calls : List Rule) :
    (pushAll (r :: calls)).run q =
      (.ok () :: ((pushAll calls).run q').1, ((pushAll calls).run q').2) := by
  rw [run_pushAll_cons, pushed]
  rfl

theorem run_pushAll_of_error (failed : q.push r = .error i) (calls : List Rule) :
    (pushAll (r :: calls)).run q =
      (.error i :: ((pushAll calls).run q).1, ((pushAll calls).run q).2) := by
  rw [run_pushAll_cons, failed]
  rfl

/-- What every push that succeeds keeps, calls keep. -/
theorem pushAll_keeps {P : State → Prop}
    (kept : ∀ {q q' : State} {r : Rule}, P q → q.push r = .ok q' → P q')
    (holds : P q) (calls : List Rule) : P ((pushAll calls).run q).2 := by
  induction calls generalizing q with
  | nil => exact holds
  | cons r calls ih =>
    cases pushed : q.push r with
    | ok q' =>
      rw [run_pushAll_of_ok pushed]
      exact ih (kept holds pushed)
    | error i =>
      rw [run_pushAll_of_error pushed]
      exact ih holds

theorem InStep.pushAll (inStep : q.InStep) (calls : List Rule) :
    ((pushAll calls).run q).2.InStep :=
  pushAll_keeps InStep.push inStep calls

theorem name_pushAll (q : State) (calls : List Rule) : ((pushAll calls).run q).2.name = q.name := by
  refine pushAll_keeps (P := (·.name = q.name)) (fun {p p' r} same pushed => ?_) rfl calls
  unfold State.push at pushed
  split at pushed
  · cases pushed
  · obtain rfl := Except.ok.inj pushed
    exact same

theorem length_pushAll (q : State) (calls : List Rule) :
    ((pushAll calls).run q).1.length = calls.length := by
  induction calls generalizing q with
  | nil => rfl
  | cons r calls ih => simp [run_pushAll_cons, ih]

theorem InStep.rules_pushAll (inStep : q.InStep) (calls : List Rule) :
    ((State.pushAll calls).run q).2.rules.toList =
      q.rules.toList ++ taken calls ((State.pushAll calls).run q).1 := by
  induction calls generalizing q with
  | nil => exact (List.append_nil _).symm
  | cons r calls ih =>
    cases pushed : q.push r with
    | ok q' =>
      have grown : q'.rules = q.rules.push r := by
        rw [((inStep.indexed.push_eq_ok_iff r).1 pushed).2]
      rw [run_pushAll_of_ok pushed, taken_cons_ok, ih (inStep.push pushed), grown,
        Array.toList_push, List.append_assoc, List.singleton_append]
    | error i => rw [run_pushAll_of_error pushed, taken_cons_error, ih inStep]

theorem run_pushInPlace_eq_error_iff :
    (pushInPlace r).run q = (.error i, q') ↔ q.push r = .error i ∧ q' = q := by
  rw [run_pushInPlace]
  refine Prod.ext_iff.trans ?_
  cases q.push r with
  | ok grown => simp [Except.map]
  | error j => simp [Except.map, Except.toOption, eq_comm]

theorem run_pushInPlace_eq_ok_iff :
    (pushInPlace r).run q = (.ok (), q') ↔ q.push r = .ok q' := by
  rw [run_pushInPlace]
  refine Prod.ext_iff.trans ?_
  cases q.push r with
  | ok grown => simp [Except.map, Except.toOption]
  | error j => simp [Except.map]

theorem inStep_build (name : String) (calls : List Rule) : (build name calls).2.InStep :=
  (inStep_ofName name).pushAll calls

theorem rules_build (name : String) (calls : List Rule) :
    (build name calls).2.rules.toList = taken calls (build name calls).1 := by
  simpa [build, ofName] using (inStep_ofName name).rules_pushAll calls

theorem rules_build_of_ok {name : String} {calls : List Rule}
    (succeeded : ∀ a ∈ (build name calls).1, a = .ok ()) :
    (build name calls).2.rules.toList = calls := by
  rw [rules_build]
  exact taken_eq_self (length_pushAll _ _) succeeded

/-- Rules and index stay in step, whatever is pushed. A push that fails names the rule that reads
the symbol and changes nothing, and the order of pushes that succeed has no meaning. -/
theorem pushes_in_step (name : String) (calls : List Rule) :
    ∃ answers q, build name calls = (answers, q) ∧ q.name = name ∧
      answers.length = calls.length ∧ q.rules.toList = taken calls answers ∧
      (q.rules.toList.map Rule.read).Nodup ∧
      (∀ (s : Symbol) (i : Nat), q.index[s]? = some i ↔
        ∃ r, q.rules[i]? = some r ∧ r.read = s) ∧
      (∀ s r, q.rule? s = some r ↔ r ∈ q.rules.toList ∧ r.read = s) ∧
      (∀ s, q.rule? s = none ↔ ∀ r ∈ q.rules.toList, r.read ≠ s) ∧
      (∀ (r : Rule) (i : Nat), q.push r = .error i ↔
        ∃ p, q.rules[i]? = some p ∧ p.read = r.read) ∧
      (∀ r i q', (pushInPlace r).run q = (.error i, q') ↔ q.push r = .error i ∧ q' = q) ∧
      (∀ r q', (pushInPlace r).run q = (.ok (), q') ↔ q.push r = .ok q') ∧
      ∀ name' calls', (∀ a ∈ answers, a = .ok ()) →
        (∀ a ∈ (build name' calls').1, a = .ok ()) → (∀ r, r ∈ calls ↔ r ∈ calls') →
        ∀ s, q.rule? s = (build name' calls').2.rule? s := by
  have inStep := inStep_build name calls
  refine ⟨_, _, rfl, name_pushAll _ _, length_pushAll _ _, rules_build name calls,
    inStep.distinct, fun _ _ => inStep.index_eq_some_iff, fun _ _ => inStep.rule?_eq_some_iff,
    fun _ => inStep.rule?_eq_none_iff, fun _ _ => inStep.push_eq_error_iff,
    fun _ _ _ => run_pushInPlace_eq_error_iff, fun _ _ => run_pushInPlace_eq_ok_iff, ?_⟩
  intro name' calls' succeeded succeeded' same
  refine inStep.rule?_congr (inStep_build name' calls') fun r => ?_
  rw [rules_build_of_ok succeeded, rules_build_of_ok succeeded']
  exact same r

theorem pushes_in_step_swapped :
    (∀ a ∈ (build "A" [⟨'1', '0', .left, 0⟩, ⟨'0', '1', .right, 1⟩]).1, a = .ok ()) ∧
      (∀ a ∈ (build "A" [⟨'0', '1', .right, 1⟩, ⟨'1', '0', .left, 0⟩]).1, a = .ok ()) ∧
      (∀ r : Rule, r ∈ [⟨'1', '0', .left, 0⟩, ⟨'0', '1', .right, 1⟩] ↔
        r ∈ [⟨'0', '1', .right, 1⟩, ⟨'1', '0', .left, 0⟩]) ∧
      ∀ s, (build "A" [⟨'1', '0', .left, 0⟩, ⟨'0', '1', .right, 1⟩]).2.rule? s =
        (build "A" [⟨'0', '1', .right, 1⟩, ⟨'1', '0', .left, 0⟩]).2.rule? s := by
  have succeeded : ∀ a ∈ (build "A" [⟨'1', '0', .left, 0⟩, ⟨'0', '1', .right, 1⟩]).1,
      a = .ok () := by decide +kernel
  have succeeded' : ∀ a ∈ (build "A" [⟨'0', '1', .right, 1⟩, ⟨'1', '0', .left, 0⟩]).1,
      a = .ok () := by decide +kernel
  have same (r : Rule) : r ∈ [⟨'1', '0', .left, 0⟩, ⟨'0', '1', .right, 1⟩] ↔
      r ∈ [⟨'0', '1', .right, 1⟩, ⟨'1', '0', .left, 0⟩] := by
    simp [or_comm]
  obtain ⟨answers, q, built, -, -, -, -, -, -, -, -, -, -, together⟩ :=
    pushes_in_step "A" [⟨'1', '0', .left, 0⟩, ⟨'0', '1', .right, 1⟩]
  rw [built] at succeeded ⊢
  exact ⟨succeeded, succeeded', same, together "A" _ succeeded succeeded' same⟩

example :
    let one : Rule := ⟨'1', '0', .left, 0⟩
    let zero : Rule := ⟨'0', '1', .right, 1⟩
    (build "A" [one, zero, { one with next := 1 }, { zero with write := '0' }]).1 =
      [.ok (), .ok (), .error 0, .error 1] := by
  decide +kernel

end OneTape.State
