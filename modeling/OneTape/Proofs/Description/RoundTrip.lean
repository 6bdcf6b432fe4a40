import OneTape.Proofs.Description.Acceptance
import OneTape.Proofs.Description.Gaps
import OneTape.Proofs.Description.Parts

namespace OneTape.Description

open Grammar

variable {o : Outline} {y : Layout}

/-! ## Rows without line ends -/

theorem IsName.unbroken {name : List Char} (isName : IsName name) : Unbroken name := by
  intro c member
  have ident := List.all_eq_true.1 isName.chars c member
  by_contra breaks
  rcases breaksLine_iff.1 (Bool.not_eq_false _ ▸ breaks) with rfl | rfl <;> cases ident

theorem Separator.unbroken (s : Separator) : Unbroken s.text := by
  intro c member
  rcases Separator.mem_text member with rfl | rfl | rfl <;> rfl

theorem unbroken_separated {fields : List (Separator × List Char)}
    (areNames : ∀ f ∈ fields, IsName f.2) : Unbroken (separated fields) := by
  intro c member
  obtain ⟨f, listed, inside⟩ := List.mem_flatMap.1 member
  exact unbroken_append f.1.unbroken (areNames f listed).unbroken c inside

theorem RuleStyle.unbroken (y : RuleStyle) {r : Rule} {target : List Char}
    (readable : r.read ∉ unwritable) (writable : r.write ∉ unwritable) (isName : IsName target) :
    Unbroken (y.text r target) := by
  have arrow : Unbroken y.arrowText := by
    unfold RuleStyle.arrowText
    cases y.arrow with
    | none => exact unbroken_of_all rfl
    | some s => exact unbroken_append (unbroken_of_all rfl) s.unbroken
  have marker : Unbroken [y.marker r.direction] := by
    cases r.direction <;> simp only [RuleStyle.marker] <;> cases y.letter <;>
      exact unbroken_of_all rfl
  exact unbroken_append (unbroken_blanks _) <| unbroken_append (y.read.unbroken readable) <|
    unbroken_append y.first.unbroken <| unbroken_append arrow <|
    unbroken_append (y.write.unbroken writable) <| unbroken_append y.second.unbroken <|
    unbroken_append marker <| unbroken_append y.third.unbroken isName.unbroken

/-! ## Every row can be read -/

theorem Outline.Valid.isName_name (valid : o.Valid) {i : Nat} (bound : i < o.states.length) :
    IsName (o.name i).toList :=
  valid.isName _ (Outline.name_mem bound)

theorem readable_directive {row : Row} (member : row ∈ y.directiveRows o) : row.Readable := by
  unfold Layout.directiveRows at member
  cases given : y.directive with
  | none => simp [given] at member
  | some bs =>
    rw [given] at member
    obtain rfl := List.mem_singleton.1 member
    refine ⟨?_, by simp, readsAs_directive bs.1 bs.2 o.debug⟩
    have flag : Unbroken [if o.debug then '1' else '0'] := by
      cases o.debug <;> exact unbroken_of_all rfl
    exact unbroken_append (unbroken_of_all rfl) (unbroken_append (unbroken_blanks _) flag)

theorem readable_header (valid : o.Valid) (unambiguous : y.Unambiguous o) :
    (y.headerRow o).Readable := by
  obtain ⟨first, more, names⟩ : ∃ first more, o.names = first :: more := by
    cases names : o.names with
    | nil => exact absurd (List.map_eq_nil_iff.1 names) valid.nonempty
    | cons first more => exact ⟨first, more, rfl⟩
  have isName : IsName first.toList := valid.isName first (by simp [names])
  have areNames : ∀ f ∈ withSeparators y.header more, IsName f.2 :=
    areNames_withSeparators fun name member => valid.isName name (by simp [names, member])
  have other (b : Blank) (bs : List Blank) (flag : Char)
      (word : first.toList = ['D', 'E', 'B', 'U', 'G'])
      (single : withSeparators y.header more = [(.spaces b bs, [flag])]) :
      flag ≠ '0' ∧ flag ≠ '1' := by
    rcases more with _ | ⟨second, _ | ⟨third, more⟩⟩ <;> simp [withSeparators] at single
    obtain ⟨separator, text⟩ := single
    have excluded := unambiguous.header b bs separator
    have first_eq : first = "DEBUG" := String.toList_inj.1 word
    constructor
    · rintro rfl
      have second_eq : second = "0" := String.toList_inj.1 text
      exact excluded.1 (by rw [names, first_eq, second_eq])
    · rintro rfl
      have second_eq : second = "1" := String.toList_inj.1 text
      exact excluded.2 (by rw [names, first_eq, second_eq])
  have row : y.headerRow o =
      ⟨first.toList ++ separated (withSeparators y.header more), .header (first :: more)⟩ := by
    simp [Layout.headerRow, Outline.name, names]
  rw [row]
  refine ⟨unbroken_append isName.unbroken (unbroken_separated areNames), ?_,
    readsAs_header isName areNames (map_snd_withSeparators _ _) other⟩
  simp [isName.nonempty]

theorem readable_rule (valid : o.Valid) (fits : y.Fits o) (unambiguous : y.Unambiguous o)
    {i j : Nat} {r : Rule} (listed : (o.rules i)[j]? = some r) : (y.ruleRow o i j r).Readable := by
  have member : r ∈ o.rules i := List.mem_of_getElem? listed
  obtain ⟨readable, writable⟩ := valid.rules_writable i r member
  have isName := valid.isName_name (valid.rules_next_lt i r member)
  refine ⟨(y.rule i j).unbroken readable writable isName, ?_,
    readsAs_rule (fits.rules i j r listed) (unambiguous.rules i j r listed) readable writable
      isName⟩
  simp [Layout.ruleRow, RuleStyle.text, blanks]

theorem readable_part (valid : o.Valid) (fits : y.Fits o) (unambiguous : y.Unambiguous o)
    {p : Part} (listed : p ∈ y.order) {row : Row} (member : row ∈ y.partRows o p) :
    row.Readable := by
  cases p with
  | init =>
    obtain rfl := List.mem_singleton.1 member
    have isName := valid.isName_name valid.initial_lt
    refine ⟨?_, by simp, readsAs_init y.init isName⟩
    exact unbroken_append (unbroken_of_all rfl) (unbroken_append y.init.unbroken isName.unbroken)
  | accept =>
    obtain rfl := List.mem_singleton.1 member
    have areNames : ∀ f ∈ withSeparators y.accept (o.accepting.map o.name), IsName f.2 := by
      apply areNames_withSeparators
      intro name member
      obtain ⟨i, accepting, rfl⟩ := List.mem_map.1 member
      exact valid.isName_name (valid.accepting_lt i accepting)
    refine ⟨?_, by simp, readsAs_accept areNames (map_snd_withSeparators _ _)⟩
    exact unbroken_append (unbroken_of_all rfl) (unbroken_separated areNames)
  | block i =>
    have isName := valid.isName_name (fits.block_lt i listed)
    rcases List.mem_cons.1 member with rfl | inside
    · refine ⟨?_, by simp, readsAs_block isName (y.colon i)⟩
      exact unbroken_append isName.unbroken
        (unbroken_append (unbroken_blanks _) (unbroken_of_all rfl))
    · obtain ⟨⟨r, j⟩, stands, rfl⟩ := List.mem_map.1 inside
      exact readable_rule valid fits unambiguous (List.mem_zipIdx_iff_getElem?.1 stands)

theorem readable_rows (valid : o.Valid) (fits : y.Fits o) (unambiguous : y.Unambiguous o) :
    ∀ row ∈ y.rows o, row.Readable := by
  intro row member
  rcases List.mem_append.1 member with first | behind
  · exact readable_directive first
  · rcases List.mem_cons.1 behind with rfl | inside
    · exact readable_header valid unambiguous
    · obtain ⟨p, listed, inside⟩ := List.mem_flatMap.1 inside
      exact readable_part valid fits unambiguous listed inside

/-! ## The text as a whole -/

theorem exists_lines (valid : o.Valid) (fits : y.Fits o) (unambiguous : y.Unambiguous o) :
    ∃ lines, linesOf? (y.text o) = some lines ∧
      lines.map (·.line.unplaced) = (y.rows o).map Row.line ∧
      (y.directive.isSome → ∀ l ∈ lines.head?, l.number = 1) := by
  have readable := readable_rows valid fits unambiguous
  have ended (i : Nat) (bound : i + 1 < 0 + (y.rows o).length) :
      y.gap i ≠ [] ∧ Layout.Ended (y.gap i) := fits.gap_ended i (by omega)
  obtain ⟨next, same, first⟩ : ∃ next, described .first [] (y.text o) =
      described next [] (y.body o) ∧ (y.directive.isSome → next = .first) := by
    by_cases directive : y.directive.isSome
    · refine ⟨.first, ?_, fun _ => rfl⟩
      rw [Layout.text, fits.lead_directive directive, List.nil_append]
    · have noFeed : (y.body o).head? ≠ some '\n' := by
        rw [Layout.body]
        cases rows : y.rows o with
        | nil => simp
        | cons row rs =>
          rw [List.zipIdx_cons, List.flatMap_cons, List.append_assoc]
          exact (readable row (by simp [rows])).head_ne _
      obtain ⟨next, same⟩ := described_gap fits.lead_isGap fits.lead_ended noFeed .first
      exact ⟨next, same, fun given => absurd given directive⟩
  obtain ⟨lines, described, read, number⟩ := described_rows fits.gap_isGap readable 0 ended next
  refine ⟨lines, ?_, read, fun directive l head => ?_⟩
  · rw [linesOf?_eq, ← described]
    exact congrArg some same
  · rw [number l head, first directive]
    rfl

def Layout.plain (o : Outline) (header : Separator) (style : RuleStyle) : Layout where
  directive := if o.debug then some (.space, []) else none
  header _ := header
  init := .spaces .space []
  accept _ := .spaces .space []
  colon _ := []
  rule _ _ := style
  order := .init :: .accept :: (List.range o.states.length).map .block
  lead := []
  gap _ := ['\n']

def RuleStyle.quoted : RuleStyle where
  indent := .tab
  moreIndent := []
  read := ⟨true, false⟩
  first := .spaces .space []
  arrow := some (.spaces .space [])
  write := ⟨true, false⟩
  second := .comma [] [.space]
  letter := true
  third := .comma [] [.space]

def RuleStyle.bare : RuleStyle where
  indent := .tab
  moreIndent := []
  read := ⟨false, false⟩
  first := .spaces .space []
  arrow := none
  write := ⟨false, false⟩
  second := .spaces .space []
  letter := false
  third := .spaces .space []

theorem quoted_fits (r : Rule) : RuleStyle.quoted.Fits r := ⟨.inl rfl, .inl rfl⟩

theorem plain_fits {style : RuleStyle} (styled : ∀ q ∈ o.states, ∀ r ∈ q.2, style.Fits r)
    (header : Separator) : (Layout.plain o header style).Fits o where
  directive set := by simp [Layout.plain, set]
  rules i j r listed := by
    have styled_rules : ∀ r ∈ o.rules i, style.Fits r :=
      Outline.of_rules (P := fun rs => ∀ r ∈ rs, style.Fits r) (by simp) styled i
    exact styled_rules r (List.mem_of_getElem? listed)
  order_nodup := by
    have blocks : ((List.range o.states.length).map Part.block).Nodup :=
      List.nodup_range.map fun i j same => by simpa using same
    simp [Layout.plain, blocks]
  init_mem := by simp [Layout.plain]
  accept_mem _ := by simp [Layout.plain]
  block_mem i some_rule := by
    have bound : i < o.states.length := by
      by_contra beyond
      simp [Outline.rules, Nat.not_lt.1 beyond] at some_rule
    simp [Layout.plain, bound]
  block_lt i member := by simpa [Layout.plain] using member
  lead_isGap := by simp [Layout.IsGap, Layout.plain]
  lead_ended := by simp [Layout.Ended, Layout.plain]
  lead_directive _ := rfl
  gap_isGap i := by simp [Layout.IsGap, Layout.plain]
  gap_ended i bound := by simp [Layout.Ended, Layout.plain]

theorem plain_unambiguous (o : Outline) (before after : List Blank) :
    (Layout.plain o (.comma before after) .quoted).Unambiguous o where
  rules i j r listed isBare := by simp [Layout.plain, RuleStyle.quoted] at isBare
  header first more separator := by simp [Layout.plain] at separator

/-- Accepting states are listed once each, and only a text that is too large is not read. -/
theorem ofText_text (valid : o.Valid) (fits : y.Fits o) (unambiguous : y.Unambiguous o) :
    (Machine.ofText (String.ofList (y.text o))).map Machine.outline =
      if (String.ofList (y.text o)).utf8ByteSize > maxSize then
        .error (.tooLarge (String.ofList (y.text o)).utf8ByteSize)
      else .ok { o with accepting := o.accepting.eraseDups } := by
  obtain ⟨lines, classified, read, first⟩ := exists_lines valid fits unambiguous
  obtain ⟨formed, outline⟩ := wellFormed_of_rows valid fits read first
  rw [← String.toList_ofList (l := y.text o)] at classified
  split
  · rename_i large
    rw [Machine.ofText, if_pos large]
    rfl
  · rename_i small
    obtain ⟨m, parsed, same⟩ := (ofText_eq_ok_iff classified _).2 ⟨Nat.not_lt.1 small, formed, rfl⟩
    rw [parsed, Except.map, same, outline]

theorem ofText_text_two_states :
    let o : Outline := ⟨[("a", [⟨'\'', Symbol.blank, .left, 1⟩]), ("b", [])], 1, [1, 0, 1], true⟩
    let y := Layout.plain o (.comma [] [.space]) .quoted
    o.Valid ∧ y.Fits o ∧ y.Unambiguous o ∧
      (Machine.ofText (String.ofList (y.text o))).map Machine.outline =
        .ok { o with accepting := [1, 0] } := by
  intro o y
  have valid : o.Valid := by
    constructor <;> decide +kernel
  have small : ¬ (String.ofList (y.text o)).utf8ByteSize > maxSize := by decide +kernel
  have fits := plain_fits (o := o) (fun _ _ r _ => quoted_fits r) (.comma [] [.space])
  have unambiguous := plain_unambiguous o [] [.space]
  refine ⟨valid, fits, unambiguous, ?_⟩
  rw [ofText_text valid fits unambiguous, if_neg small]
  rfl

/-- The text is the outline in the layout, but it does not describe the machine. -/
structure Misread (text : String) (o : Outline) (y : Layout) : Prop where
  valid : o.Valid
  fits : y.Fits o
  written : text = String.ofList (y.text o)
  small : text.utf8ByteSize ≤ maxSize
  lost : (Machine.ofText text).map Machine.outline ≠
    .ok { o with accepting := o.accepting.eraseDups }

theorem map_outline_ne {text : String} (failed : (Machine.ofText text).toOption.isNone = true) :
    (Machine.ofText text).map Machine.outline ≠ .ok o := by
  intro read
  cases parsed : Machine.ofText text with
  | error e => simp [parsed, Except.map] at read
  | ok m => simp [parsed, Except.toOption] at failed

/-- A header of two names without a comma may be a directive, and two bare apostrophes with a blank
between them are a quoted blank. -/
theorem misread_ambiguous_layouts :
    let debug : Outline := ⟨[("DEBUG", []), ("0", [])], 0, [], false⟩
    let apostrophe : Outline := ⟨[("A", [⟨'\'', '\'', .stay, 0⟩])], 0, [], false⟩
    Misread "DEBUG 0\ninit DEBUG\naccept\nDEBUG:\n0:\n" debug
        (.plain debug (.spaces .space []) .bare) ∧
      Misread "A\ninit A\naccept\nA:\n\t' ' S A\n" apostrophe
        (.plain apostrophe (.comma [] []) .bare) := by
  intro debug apostrophe
  constructor
  · exact {
      valid := by constructor <;> decide +kernel
      fits := plain_fits (by simp [debug]) _
      written := by decide +kernel
      small := by decide +kernel
      lost := map_outline_ne (by decide +kernel) }
  · have apostrophes : RuleStyle.bare.Fits ⟨'\'', '\'', .stay, 0⟩ :=
      ⟨.inr (by decide), .inr (by decide)⟩
    exact {
      valid := by constructor <;> decide +kernel
      fits := plain_fits (by simpa [apostrophe] using apostrophes) _
      written := by decide +kernel
      small := by decide +kernel
      lost := map_outline_ne (by decide +kernel) }

end OneTape.Description
