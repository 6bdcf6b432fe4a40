import OneTape.CommandLine.Program

namespace OneTape.CommandLine.Transcript

variable {s s' t t' : Transcript} {ts before after : List Transcript}

theorem append_of_success (succeeds : s.code = some 0) :
    s ++ t = ⟨s.stdout ++ t.stdout, s.stderr ++ t.stderr, t.code⟩ := by
  obtain ⟨stdout, stderr, code⟩ := s
  exact if_pos succeeds

theorem append_of_failure (fails : s.code ≠ some 0) : s ++ t = s := by
  obtain ⟨stdout, stderr, code⟩ := s
  exact if_neg fails

theorem nil_append (t : Transcript) : ({} : Transcript) ++ t = t := by
  rw [append_of_success rfl]
  simp

theorem append_nil (t : Transcript) : t ++ ({} : Transcript) = t := by
  by_cases succeeds : t.code = some 0
  · rw [append_of_success succeeds]
    simp [← succeeds]
  · exact append_of_failure succeeds

theorem append_code : (s ++ t).code = if s.code = some 0 then t.code else s.code := by
  split
  · rw [append_of_success ‹_›]
  · rw [append_of_failure ‹_›]

theorem append_succeeds_iff : (s ++ t).code = some 0 ↔ s.code = some 0 ∧ t.code = some 0 := by
  rw [append_code]
  split <;> simp_all

theorem append_assoc (s t u : Transcript) : s ++ t ++ u = s ++ (t ++ u) := by
  by_cases first : s.code = some 0
  · by_cases second : t.code = some 0
    · rw [append_of_success (append_succeeds_iff.2 ⟨first, second⟩), append_of_success first,
        append_of_success first, append_of_success second]
      simp [String.append_assoc]
    · have both : (s ++ t).code ≠ some 0 := fun ok => second (append_succeeds_iff.1 ok).2
      rw [append_of_failure both, append_of_failure second]
  · rw [append_of_failure first, append_of_failure first, append_of_failure first]

theorem foldl_append (ts : List Transcript) : ts.foldl append s = s ++ concat ts := by
  induction ts generalizing s with
  | nil => exact (append_nil s).symm
  | cons t ts ih =>
    have further : concat (t :: ts) = t ++ concat ts := by
      rw [concat, List.foldl_cons, ih]
      exact congrArg (· ++ concat ts) (nil_append t)
    rw [List.foldl_cons, ih, further, ← append_assoc]
    rfl

@[simp] theorem concat_nil : concat [] = {} := rfl

@[simp] theorem concat_cons : concat (t :: ts) = t ++ concat ts := by
  rw [concat, List.foldl_cons, foldl_append]
  exact congrArg (· ++ concat ts) (nil_append t)

theorem concat_append : concat (before ++ after) = concat before ++ concat after := by
  rw [concat, List.foldl_append, foldl_append]
  rfl

theorem concat_of_success (succeed : ∀ t ∈ ts, t.code = some 0) :
    concat ts = ⟨String.join (ts.map stdout), String.join (ts.map stderr), some 0⟩ := by
  induction ts with
  | nil => rfl
  | cons t ts ih =>
    obtain ⟨first, further⟩ := List.forall_mem_cons.1 succeed
    rw [concat_cons, append_of_success first, ih further]
    simp

theorem concat_of_failure (succeed : ∀ t ∈ before, t.code = some 0) (fails : t.code ≠ some 0) :
    concat (before ++ t :: after) = ⟨String.join (before.map stdout) ++ t.stdout,
      String.join (before.map stderr) ++ t.stderr, t.code⟩ := by
  rw [concat_append, concat_cons, append_of_failure fails, concat_of_success succeed,
    append_of_success rfl]

/-- What is run of a list of items: all of them up to the first that fails. -/
def attempted {α : Type} (f : α → Transcript) : List α → List α
  | [] => []
  | x :: xs => x :: if (f x).code = some 0 then attempted f xs else []

variable {α : Type} {f g : α → Transcript}

theorem concat_attempted (f : α → Transcript) (xs : List α) :
    concat ((attempted f xs).map f) = concat (xs.map f) := by
  induction xs with
  | nil => rfl
  | cons x xs ih =>
    rw [attempted, List.map_cons, List.map_cons, concat_cons, concat_cons]
    by_cases succeeds : (f x).code = some 0
    · rw [if_pos succeeds, ih]
    · rw [append_of_failure succeeds, append_of_failure succeeds]

theorem attempted_congr {xs : List α} (same : ∀ x ∈ attempted f xs, (g x).code = (f x).code) :
    attempted g xs = attempted f xs := by
  induction xs with
  | nil => rfl
  | cons x xs ih =>
    obtain ⟨first, further⟩ := List.forall_mem_cons.1 same
    rw [attempted, attempted, first]
    by_cases succeeds : (f x).code = some 0
    · rw [if_pos succeeds] at further ⊢
      rw [if_pos succeeds, ih further]
    · rw [if_neg succeeds, if_neg succeeds]

theorem code_concat_of_attempted {xs : List α} {x : α} (member : x ∈ attempted f xs)
    (fails : (f x).code ≠ some 0) : (concat (xs.map f)).code = (f x).code := by
  induction xs with
  | nil => cases member
  | cons y xs ih =>
    rw [attempted, List.mem_cons] at member
    rw [List.map_cons, concat_cons, append_code]
    by_cases succeeds : (f y).code = some 0
    · rw [if_pos succeeds] at member ⊢
      rcases member with rfl | member
      · exact absurd succeeds fails
      · exact ih member
    · rw [if_neg succeeds] at member ⊢
      rcases member with rfl | member
      · rfl
      · cases member

theorem concat_lines (texts : List String) :
    concat (texts.map line) = ⟨String.join (texts.map (· ++ "\n")), "", some 0⟩ := by
  induction texts with
  | nil => rfl
  | cons text texts ih =>
    rw [List.map_cons, concat_cons, ih, append_of_success rfl]
    simp [line]

/-! ## More fuel -/

def Settles (s t : Transcript) : Prop := s.code ≠ none → t = s

theorem Settles.refl (t : Transcript) : Settles t t := fun _ => rfl

theorem Settles.append (first : Settles s s') (second : Settles t t') :
    Settles (s ++ t) (s' ++ t') := by
  intro ended
  rw [append_code] at ended
  by_cases succeeds : s.code = some 0
  · rw [if_pos succeeds] at ended
    rw [first (by simp [succeeds]), second ended]
  · rw [if_neg succeeds] at ended
    rw [first ended, append_of_failure succeeds, append_of_failure succeeds]

theorem Settles.concat {xs : List α} (each : ∀ x ∈ xs, Settles (f x) (g x)) :
    Settles (Transcript.concat (xs.map f)) (Transcript.concat (xs.map g)) := by
  induction xs with
  | nil => exact fun _ => rfl
  | cons x xs ih =>
    obtain ⟨first, further⟩ := List.forall_mem_cons.1 each
    rw [List.map_cons, List.map_cons, concat_cons, concat_cons]
    exact first.append (ih further)

/-! ## Without the standard output -/

def silent (t : Transcript) : Transcript := { t with stdout := "" }

theorem eq_of_silent (same : s.silent = t) : s = ⟨s.stdout, t.stderr, t.code⟩ := by
  rw [← same]
  rfl

theorem silent_append : (s ++ t).silent = s.silent ++ t.silent := by
  by_cases succeeds : s.code = some 0
  · have also : s.silent.code = some 0 := succeeds
    rw [append_of_success succeeds, append_of_success also]
    simp [silent]
  · have also : s.silent.code ≠ some 0 := succeeds
    rw [append_of_failure succeeds, append_of_failure also]

theorem silent_concat : (concat ts).silent = concat (ts.map silent) := by
  induction ts with
  | nil => rfl
  | cons t ts ih => rw [concat_cons, List.map_cons, concat_cons, silent_append, ih]

theorem silent_concat_congr {xs : List α} (same : ∀ x ∈ xs, (g x).silent = (f x).silent) :
    (concat (xs.map g)).silent = (concat (xs.map f)).silent := by
  rw [silent_concat, silent_concat, List.map_map, List.map_map]
  exact congrArg concat (List.map_congr_left same)

theorem silent_concat_map {p : α → Prop} [DecidablePred p]
    (fails : t.code ≠ some 0) (each : ∀ x, (f x).silent = if p x then {} else t) (xs : List α) :
    (concat (xs.map f)).silent = if ∀ x ∈ xs, p x then {} else t := by
  induction xs with
  | nil => simp [silent]
  | cons x xs ih =>
    rw [List.map_cons, concat_cons, silent_append, ih, each]
    by_cases first : p x
    · simp [first, nil_append]
    · simp [first, append_of_failure fails]

end OneTape.CommandLine.Transcript
