import OneTape.Grammar.Pattern

namespace OneTape

namespace Grammar

structure Cursor.Took (k l : Cursor) (taken : List Char) : Prop where
  rest : k.rest = taken ++ l.rest
  position : l.position = k.position.advance taken

theorem Cursor.Took.refl (k : Cursor) : k.Took k [] := ⟨rfl, rfl⟩

theorem Cursor.Took.trans {k l m : Cursor} {s t : List Char} (h : k.Took l s) (g : l.Took m t) :
    k.Took m (s ++ t) :=
  ⟨by rw [h.rest, g.rest, List.append_assoc], by
    rw [g.position, h.position, Position.advance, Position.advance, Position.advance,
      List.foldl_append]⟩

theorem Cursor.took_satisfy {p : Char → Bool} {k l : Cursor} (h : k.satisfy? p = some l) :
    ∃ c, p c = true ∧ k.Took l [c] := by
  obtain ⟨position, rest⟩ := k
  cases rest with
  | nil => simp [satisfy?] at h
  | cons c rest =>
    simp only [satisfy?] at h
    split at h
    · cases h
      exact ⟨c, ‹_›, rfl, rfl⟩
    · cases h

theorem Cursor.took_literal {word : List Char} {k l : Cursor} (h : k.literal? word = some l) :
    k.Took l word := by
  induction word generalizing k with
  | nil => cases h; exact .refl _
  | cons c word ih =>
    obtain ⟨j, hj, hl⟩ := Option.bind_eq_some_iff.1 h
    obtain ⟨d, hd, took⟩ := took_satisfy hj
    rw [beq_iff_eq] at hd
    subst hd
    exact took.trans (ih hl)

namespace Pattern

variable {κ : Type}

theorem took_repeatMatch {step : Cursor → Option (Match κ)}
    (hstep : ∀ {k m}, step k = some m → ∃ taken, k.Took m.cursor taken)
    (bound : List Char) (k : Cursor) (nodes : List (Node κ)) :
    ∃ taken, k.Took (repeatMatch step bound k nodes).cursor taken := by
  induction bound generalizing k nodes with
  | nil => exact ⟨[], .refl k⟩
  | cons c bound ih =>
    unfold repeatMatch
    split
    · exact ⟨[], .refl k⟩
    · rename_i m hm
      obtain ⟨s, hs⟩ := hstep hm
      obtain ⟨t, ht⟩ := ih m.cursor (m.nodes.reverse ++ nodes)
      exact ⟨s ++ t, hs.trans ht⟩

theorem took_match {p : Pattern κ} {k : Cursor} {m : Match κ} (h : p.match? k = some m) :
    ∃ taken, k.Took m.cursor taken := by
  induction p generalizing k m with
  | satisfy test =>
    obtain ⟨l, hl, rfl⟩ := Option.map_eq_some_iff.1 h
    obtain ⟨c, -, took⟩ := Cursor.took_satisfy hl
    exact ⟨_, took⟩
  | literal word =>
    obtain ⟨l, hl, rfl⟩ := Option.map_eq_some_iff.1 h
    exact ⟨_, Cursor.took_literal hl⟩
  | atEnd =>
    simp only [match?] at h
    split at h <;> cases h
    exact ⟨[], .refl k⟩
  | seq p q hp hq =>
    simp only [match?] at h
    split at h
    · cases h
    · split at h <;> cases h
      obtain ⟨s, hs⟩ := hp ‹_›
      obtain ⟨t, ht⟩ := hq ‹_›
      exact ⟨s ++ t, hs.trans ht⟩
  | choice p q hp hq =>
    simp only [match?] at h
    split at h
    · exact hq h
    · cases h; exact hp ‹_›
  | optional p hp =>
    simp only [match?] at h
    split at h <;> cases h
    · exact ⟨[], .refl k⟩
    · exact hp ‹_›
  | many p hp =>
    simp only [match?, Option.some.injEq] at h
    subst h
    exact took_repeatMatch hp _ _ _
  | ahead p hp =>
    simp only [match?] at h
    split at h <;> cases h
    exact ⟨[], .refl k⟩
  | notAhead p hp =>
    simp only [match?] at h
    split at h <;> cases h
    exact ⟨[], .refl k⟩
  | node kind p hp =>
    obtain ⟨n, hn, rfl⟩ := Option.map_eq_some_iff.1 h
    have took := hp hn
    exact took
  | leaf kind p hp =>
    obtain ⟨n, hn, rfl⟩ := Option.map_eq_some_iff.1 h
    have took := hp hn
    exact took

end Pattern
end Grammar
end OneTape
