import SlidingCache.Key.Rule

/-!
# Legal store keys put together

A segment that is not empty is a legal key, and so are two legal keys with a period between them.
-/

namespace SlidingCache

theorem Text.isDotBounded_eq_false_iff {t : Text} :
    t.isDotBounded = false ↔ t.head? ≠ some dot ∧ t.getLast? ≠ some dot := by
  simp [isDotBounded]

namespace StoreKey

variable {key key' : Text} {c : CodePoint}

theorem isChar_dot : isChar dot := by decide

theorem isChar_of_isSegmentChar (h : isSegmentChar c) : isChar c := by simp [isChar, h]

theorem isSegmentChar_dot : isSegmentChar dot = false := by decide

theorem isAscii_of_isSegmentChar (h : isSegmentChar c) : c.isAscii := by
  simp only [isSegmentChar, CodePoint.isAlphanumeric, Bool.or_eq_true, beq_iff_eq] at h
  rcases h with (((h | rfl) | rfl) | rfl) | rfl
  · simp [CodePoint.isDigit, CodePoint.isUpper, CodePoint.isLower, CodePoint.isAscii] at *
    omega
  all_goals rfl

theorem isLegal_segment (hne : key ≠ []) (h : ∀ c ∈ key, isSegmentChar c) : IsLegal key := by
  have hdot : dot ∉ key := by
    intro hmem
    have hdot := h dot hmem
    rw [isSegmentChar_dot] at hdot
    cases hdot
  refine ⟨hne, Text.isDotBounded_eq_false_iff.2 ⟨?_, ?_⟩, ?_⟩
  · intro hhead
    exact hdot (List.mem_of_head? hhead)
  · intro hlast
    exact hdot (List.mem_of_getLast? hlast)
  · intro c hc
    exact isChar_of_isSegmentChar (h c hc)

theorem IsLegal.exists_head? (h : IsLegal key) : ∃ c, key.head? = some c ∧ c ≠ dot := by
  obtain ⟨hhead, -⟩ := Text.isDotBounded_eq_false_iff.1 h.not_dotBounded
  cases hc : key.head? with
  | none => exact absurd (List.head?_eq_none_iff.1 hc) h.ne_nil
  | some c => exact ⟨c, rfl, fun heq => hhead (heq ▸ hc)⟩

theorem IsLegal.exists_getLast? (h : IsLegal key) : ∃ c, key.getLast? = some c ∧ c ≠ dot := by
  obtain ⟨-, hlast⟩ := Text.isDotBounded_eq_false_iff.1 h.not_dotBounded
  cases hc : key.getLast? with
  | none => exact absurd (List.getLast?_eq_none_iff.1 hc) h.ne_nil
  | some c => exact ⟨c, rfl, fun heq => hlast (heq ▸ hc)⟩

/-- What begins and ends with legal keys is one if all between is made of their characters. -/
theorem IsLegal.between (h : IsLegal key) (h' : IsLegal key') {middle : Text}
    (hmiddle : ∀ c ∈ middle, StoreKey.isChar c) : IsLegal (key ++ (middle ++ key')) := by
  obtain ⟨x, hx, hxdot⟩ := h.exists_head?
  obtain ⟨y, hy, hydot⟩ := h'.exists_getLast?
  refine ⟨by simp [h.ne_nil], Text.isDotBounded_eq_false_iff.2 ⟨?_, ?_⟩, ?_⟩
  · simpa [hx] using hxdot
  · simpa [hy] using hydot
  · intro c hc
    rcases List.mem_append.1 hc with hc | hc
    · exact h.isChar c hc
    · rcases List.mem_append.1 hc with hc | hc
      · exact hmiddle c hc
      · exact h'.isChar c hc

theorem IsLegal.append (h : IsLegal key) (h' : IsLegal key') : IsLegal (key ++ dot :: key') := by
  show IsLegal (key ++ ([dot] ++ key'))
  refine h.between h' fun c hc => ?_
  rw [List.mem_singleton.1 hc]
  exact isChar_dot

theorem isLegal_join {segments : List Text} (hne : segments ≠ [])
    (h : ∀ s ∈ segments, IsLegal s) : IsLegal (Text.join [dot] segments) := by
  induction segments with
  | nil => exact absurd rfl hne
  | cons s rest ih =>
    by_cases hrest : rest = []
    · subst hrest
      exact h s List.mem_cons_self
    · rw [Text.join_cons_of_ne_nil _ _ hrest, List.append_assoc, List.singleton_append]
      exact (h s List.mem_cons_self).append
        (ih hrest fun s hs => h s (List.mem_cons_of_mem _ hs))

end StoreKey

end SlidingCache
