import Mathlib.Data.List.Basic
import OneTape.Grammar.Lemmas

/-!
A pattern is local if it matches a line of a text exactly as it matches the line alone. For a
repetition this needs that each round takes a character, so that its bound is never reached.
-/

namespace OneTape.Grammar

def breaksLine (c : Char) : Bool := c == '\n' || c == '\r'

theorem breaksLine_iff {c : Char} : breaksLine c = true ↔ c = '\n' ∨ c = '\r' := by
  simp [breaksLine]

def Unbroken (line : List Char) : Prop := ∀ c ∈ line, breaksLine c = false

def AtLineEnd : List Char → Prop
  | [] => True
  | c :: _ => breaksLine c = true

theorem Unbroken.head {c : Char} {line : List Char} (unbroken : Unbroken (c :: line)) :
    breaksLine c = false :=
  unbroken c List.mem_cons_self

theorem Unbroken.tail {c : Char} {line : List Char} (unbroken : Unbroken (c :: line)) :
    Unbroken line :=
  fun d member => unbroken d (List.mem_cons_of_mem c member)

theorem unbroken_nil : Unbroken [] := fun _ member => absurd member List.not_mem_nil

theorem Unbroken.concat {line : List Char} (unbroken : Unbroken line) {c : Char}
    (ordinary : breaksLine c = false) : Unbroken (line ++ [c]) := by
  intro d member
  rcases List.mem_append.1 member with member | member
  · exact unbroken d member
  · exact List.mem_singleton.1 member ▸ ordinary

theorem unbroken_append {before after : List Char} (first : Unbroken before)
    (second : Unbroken after) : Unbroken (before ++ after) :=
  fun c member => (List.mem_append.1 member).elim (first c) (second c)

theorem Unbroken.left {before after : List Char} (unbroken : Unbroken (before ++ after)) :
    Unbroken before := fun c member => unbroken c (List.mem_append_left after member)

theorem Unbroken.right {before after : List Char} (unbroken : Unbroken (before ++ after)) :
    Unbroken after := fun c member => unbroken c (List.mem_append_right before member)

theorem unbroken_of_all {text : List Char} (all : text.all (!breaksLine ·) = true) :
    Unbroken text := by
  intro c member
  simpa using List.all_eq_true.1 all c member

theorem Unbroken.eq_nil {line : List Char} (unbroken : Unbroken line) (ended : AtLineEnd line) :
    line = [] := by
  cases line with
  | nil => rfl
  | cons c line => simp [AtLineEnd, unbroken.head] at ended

theorem Position.index_advance (p : Position) (taken : List Char) :
    (p.advance taken).index = p.index + taken.length := by
  induction taken generalizing p with
  | nil => rfl
  | cons c taken ih =>
    have next : (p.next c).index = p.index + 1 := by
      unfold Position.next
      split <;> rfl
    rw [Position.advance, List.foldl_cons, ← Position.advance, ih, next, List.length_cons]
    omega

theorem Node.between_eq {κ : Type} (kind : κ) {k l : Cursor} {taken : List Char}
    (took : k.Took l taken) (children : List (Node κ)) :
    Node.between kind k l children = .mk kind k.position l.position taken children := by
  have length : l.position.index - k.position.index = taken.length := by
    rw [took.position, Position.index_advance]
    omega
  rw [Node.between, length, took.rest, List.take_left]

variable {κ : Type}

def Match.followedBy (m : Match κ) (rest : List Char) : Match κ :=
  ⟨⟨m.cursor.position, m.cursor.rest ++ rest⟩, m.nodes⟩

theorem Cursor.Took.followedBy {position : Position} {line taken : List Char} {m : Match κ}
    (took : Cursor.Took ⟨position, line⟩ m.cursor taken) (rest : List Char) :
    Cursor.Took ⟨position, line ++ rest⟩ (m.followedBy rest).cursor taken := by
  have text : line = taken ++ m.cursor.rest := took.rest
  exact ⟨by simp [text, Match.followedBy], took.position⟩

namespace Pattern

variable {p q : Pattern κ} {step : Cursor → Option (Match κ)}

/-! ## Repetitions -/

def Progressive (step : Cursor → Option (Match κ)) : Prop :=
  ∀ k m, step k = some m → m.cursor.rest.length < k.rest.length

theorem match?_seq_eq_some_iff {k : Cursor} {n : Match κ} : (seq p q).match? k = some n ↔
    ∃ m m', p.match? k = some m ∧ q.match? m.cursor = some m' ∧
      n = ⟨m'.cursor, m.nodes ++ m'.nodes⟩ := by
  simp only [match?]
  cases p.match? k with
  | none => simp
  | some m =>
    cases second : q.match? m.cursor with
    | none => simp [second]
    | some m' => simp [second, eq_comm]

theorem match?_choice_eq_some {k : Cursor} {m : Match κ}
    (matched : (choice p q).match? k = some m) : p.match? k = some m ∨ q.match? k = some m := by
  simp only [match?] at matched
  split at matched
  · exact .inr matched
  · exact .inl (matched ▸ ‹_›)

theorem eq_of_ahead {k : Cursor} {m : Match κ} (matched : (ahead p).match? k = some m) :
    (p.match? k).isSome = true ∧ m = ⟨k, []⟩ := by
  simp only [match?] at matched
  split at matched <;> cases matched
  exact ⟨‹_›, rfl⟩

theorem eq_of_notAhead {k : Cursor} {m : Match κ} (matched : (notAhead p).match? k = some m) :
    p.match? k = none ∧ m = ⟨k, []⟩ := by
  simp only [match?] at matched
  split at matched <;> cases matched
  exact ⟨Option.not_isSome_iff_eq_none.1 ‹_›, rfl⟩

theorem length_rest_le {k : Cursor} {m : Match κ} (matched : p.match? k = some m) :
    m.cursor.rest.length ≤ k.rest.length := by
  obtain ⟨taken, took⟩ := took_match matched
  rw [took.rest, List.length_append]
  omega

theorem progressive_satisfy (test : Char → Bool) :
    Progressive (satisfy test : Pattern κ).match? := by
  intro k m matched
  obtain ⟨l, satisfied, rfl⟩ := Option.map_eq_some_iff.1 matched
  obtain ⟨c, -, took⟩ := Cursor.took_satisfy satisfied
  simp [took.rest]

theorem progressive_seq_left (progress : Progressive p.match?) :
    Progressive (seq p q).match? := by
  intro k n matched
  obtain ⟨m, m', first, second, rfl⟩ := match?_seq_eq_some_iff.1 matched
  have later : m'.cursor.rest.length ≤ m.cursor.rest.length := length_rest_le second
  exact Nat.lt_of_le_of_lt later (progress k m first)

theorem progressive_seq_right (progress : Progressive q.match?) :
    Progressive (seq p q).match? := by
  intro k n matched
  obtain ⟨m, m', first, second, rfl⟩ := match?_seq_eq_some_iff.1 matched
  exact Nat.lt_of_lt_of_le (progress m.cursor m' second) (length_rest_le first)

theorem progressive_literal (c : Char) (word : List Char) :
    Progressive (literal (c :: word) : Pattern κ).match? := by
  intro k m matched
  obtain ⟨l, found, rfl⟩ := Option.map_eq_some_iff.1 matched
  have took := Cursor.took_literal found
  simp only [took.rest, List.length_append, List.length_cons]
  omega

theorem progressive_choice (first : Progressive p.match?) (second : Progressive q.match?) :
    Progressive (choice p q).match? := by
  intro k m matched
  rcases match?_choice_eq_some matched with matched | matched
  · exact first k m matched
  · exact second k m matched

theorem progressive_leaf (kind : κ) (progress : Progressive p.match?) :
    Progressive (leaf kind p).match? := by
  intro k m matched
  obtain ⟨n, body, rfl⟩ := Option.map_eq_some_iff.1 matched
  exact progress k n body

theorem repeatMatch_nodes (bound : List Char) (k : Cursor) (nodes : List (Node κ)) :
    repeatMatch step bound k nodes =
      ⟨(repeatMatch step bound k []).cursor,
        nodes.reverse ++ (repeatMatch step bound k []).nodes⟩ := by
  induction bound generalizing k nodes with
  | nil => simp [repeatMatch]
  | cons c bound ih =>
    unfold repeatMatch
    cases step k with
    | none => simp
    | some m =>
      dsimp only
      rw [ih, ih m.cursor (m.nodes.reverse ++ [])]
      simp

theorem repeatMatch_bound (progress : Progressive step) {bound bound' : List Char} {k : Cursor}
    (enough : k.rest.length ≤ bound.length) (enough' : k.rest.length ≤ bound'.length)
    (nodes : List (Node κ)) :
    repeatMatch step bound k nodes = repeatMatch step bound' k nodes := by
  have stuck (k : Cursor) (nothing : k.rest.length ≤ 0) : step k = none := by
    cases matched : step k with
    | none => rfl
    | some m => exact absurd (progress k m matched) (by omega)
  induction bound generalizing bound' k nodes with
  | nil =>
    cases bound' with
    | nil => rfl
    | cons c bound' => simp [repeatMatch, stuck k enough]
  | cons c bound ih =>
    cases bound' with
    | nil => simp [repeatMatch, stuck k enough']
    | cons c' bound' =>
      unfold repeatMatch
      cases matched : step k with
      | none => rfl
      | some m =>
        have shorter := progress k m matched
        rw [List.length_cons] at enough enough'
        exact ih (by omega) (by omega) _

theorem match?_many (progress : Progressive p.match?) (k : Cursor) :
    (many p).match? k = match p.match? k with
      | none => some ⟨k, []⟩
      | some m => ((many p).match? m.cursor).map fun n => ⟨n.cursor, m.nodes ++ n.nodes⟩ := by
  simp only [match?]
  cases matched : p.match? k with
  | none =>
    cases k.rest with
    | nil => rfl
    | cons c rest => simp [repeatMatch, matched]
  | some m =>
    have shorter := progress k m matched
    cases text : k.rest with
    | nil => simp [text] at shorter
    | cons c rest =>
      rw [text, List.length_cons] at shorter
      rw [repeatMatch, matched]
      dsimp only
      have enough : m.cursor.rest.length ≤ rest.length := by omega
      rw [repeatMatch_nodes, repeatMatch_bound progress enough (Nat.le_refl m.cursor.rest.length)]
      simp

theorem many_stops (progress : Progressive p.match?) {k : Cursor} {m : Match κ}
    (matched : (many p).match? k = some m) : p.match? m.cursor = none := by
  induction size : k.rest.length using Nat.strongRecOn generalizing k m with
  | ind n ih =>
    rw [match?_many progress] at matched
    cases round : p.match? k with
    | none =>
      rw [round] at matched
      cases matched
      exact round
    | some first =>
      rw [round] at matched
      obtain ⟨later, rounds, rfl⟩ := Option.map_eq_some_iff.1 matched
      have shorter := progress k first round
      have stopped : p.match? later.cursor = none := ih _ (by omega) rounds rfl
      exact stopped

/-! ## Local patterns -/

def Local (p : Pattern κ) : Prop :=
  ∀ position line rest, Unbroken line → AtLineEnd rest →
    p.match? ⟨position, line ++ rest⟩ = (p.match? ⟨position, line⟩).map (·.followedBy rest)

theorem unbroken_rest {k : Cursor} {m : Match κ} (unbroken : Unbroken k.rest)
    (matched : p.match? k = some m) : Unbroken m.cursor.rest := by
  obtain ⟨taken, took⟩ := took_match matched
  intro c member
  exact unbroken c (by rw [took.rest]; exact List.mem_append_right taken member)

theorem local_satisfy {test : Char → Bool} (lineFeed : test '\n' = false)
    (carriageReturn : test '\r' = false) : (satisfy test : Pattern κ).Local := by
  intro position line rest unbroken ended
  cases line with
  | cons c line =>
    simp only [match?, Cursor.satisfy?, List.cons_append]
    split <;> rfl
  | nil =>
    cases rest with
    | nil => rfl
    | cons c rest =>
      rcases breaksLine_iff.1 ended with rfl | rfl <;> simp [match?, Cursor.satisfy?, *]

theorem local_literal {word : List Char} (unbroken : Unbroken word) :
    (literal word : Pattern κ).Local := by
  intro position line rest whole ended
  simp only [match?, Option.map_map]
  induction word generalizing position line with
  | nil => rfl
  | cons c word ih =>
    have ordinary := unbroken.head
    cases line with
    | cons d line =>
      simp only [Cursor.literal?, Cursor.satisfy?, List.cons_append]
      by_cases same : (d == c) = true
      · simpa [same] using ih unbroken.tail (position.next d) line whole.tail
      · simp [same]
    | nil =>
      cases rest with
      | nil => rfl
      | cons d rest =>
        have differs : (d == c) = false := by
          rw [beq_eq_false_iff_ne]
          rintro rfl
          simp [AtLineEnd, ordinary] at ended
        simp [Cursor.literal?, Cursor.satisfy?, differs]

theorem Local.seq (first : p.Local) (second : q.Local) : (seq p q).Local := by
  intro position line rest unbroken ended
  simp only [match?, first position line rest unbroken ended]
  cases matched : p.match? ⟨position, line⟩ with
  | none => rfl
  | some m =>
    have whole : Unbroken m.cursor.rest := unbroken_rest unbroken matched
    have behind := second m.cursor.position m.cursor.rest rest whole ended
    simp only [Option.map_some, Match.followedBy, behind]
    cases q.match? m.cursor <;> rfl

theorem Local.choice (first : p.Local) (second : q.Local) : (choice p q).Local := by
  intro position line rest unbroken ended
  simp only [match?, first position line rest unbroken ended,
    second position line rest unbroken ended]
  cases p.match? ⟨position, line⟩ <;> rfl

theorem Local.optional (body : p.Local) : (optional p).Local := by
  intro position line rest unbroken ended
  simp only [match?, body position line rest unbroken ended]
  cases p.match? ⟨position, line⟩ <;> rfl

theorem Local.notAhead (body : p.Local) : (notAhead p).Local := by
  intro position line rest unbroken ended
  simp only [match?, body position line rest unbroken ended]
  cases p.match? ⟨position, line⟩ <;> rfl

theorem Local.many (body : p.Local) (progress : Progressive p.match?) : (many p).Local := by
  intro position line rest unbroken ended
  induction size : line.length using Nat.strongRecOn generalizing position line with
  | ind n ih =>
    rw [match?_many progress, match?_many progress, body position line rest unbroken ended]
    cases matched : p.match? ⟨position, line⟩ with
    | none => rfl
    | some m =>
      have shorter : m.cursor.rest.length < line.length := progress _ m matched
      have whole : Unbroken m.cursor.rest := unbroken_rest unbroken matched
      have later := ih _ (by omega) m.cursor.position m.cursor.rest whole rfl
      simp only [Option.map_some, Match.followedBy, later, Option.map_map]
      rfl

theorem Local.some1 (body : p.Local) (progress : Progressive p.match?) : (some1 p).Local :=
  body.seq (body.many progress)

theorem Local.node (body : p.Local) (kind : κ) : (node kind p).Local := by
  intro position line rest unbroken ended
  simp only [match?, body position line rest unbroken ended]
  cases matched : p.match? ⟨position, line⟩ with
  | none => rfl
  | some m =>
    obtain ⟨taken, took⟩ := took_match matched
    simp only [Option.map_some, Node.between_eq kind took,
      Node.between_eq kind (took.followedBy rest)]
    rfl

theorem Local.leaf (body : p.Local) (kind : κ) : (leaf kind p).Local := by
  intro position line rest unbroken ended
  simp only [match?, body position line rest unbroken ended]
  cases matched : p.match? ⟨position, line⟩ with
  | none => rfl
  | some m =>
    obtain ⟨taken, took⟩ := took_match matched
    simp only [Option.map_some, Node.between_eq kind took,
      Node.between_eq kind (took.followedBy rest)]
    rfl

end Pattern

end OneTape.Grammar
