import Mathlib.Data.List.Nodup
import SlidingCache.Table

/-!
# Rows of tables

Where a key occurs once, `Table.get?` says which rows there are. Rows that are put one after another
replace those before them: of each key the last one counts (`Table.get?_putAll`).
-/

namespace SlidingCache

namespace Table

variable {κ α : Type} [DecidableEq κ] {k : κ} {v : α} {t : Table κ α}

theorem isSome_get?_iff : (t.get? k).isSome ↔ k ∈ t.map Prod.fst := by
  induction t with
  | nil => simp
  | cons row rest ih =>
    obtain ⟨k', v'⟩ := row
    by_cases h : k' = k
    · simp [get?, h]
    · simp [get?, h, ih, Ne.symm h]

theorem get?_of_mem (h : (t.map Prod.fst).Nodup) (hmem : (k, v) ∈ t) : t.get? k = some v := by
  induction t with
  | nil => cases hmem
  | cons row rest ih =>
    obtain ⟨k', v'⟩ := row
    obtain ⟨hnew, hrest⟩ := List.nodup_cons.1 h
    rcases List.mem_cons.1 hmem with hrow | hmem
    · cases hrow
      simp [get?]
    · have hk : k' ≠ k := by
        rintro rfl
        exact hnew (List.mem_map.2 ⟨_, hmem, rfl⟩)
      rw [get?, if_neg hk]
      exact ih hrest hmem

theorem mem_of_get? (h : t.get? k = some v) : (k, v) ∈ t := by
  induction t with
  | nil => cases h
  | cons row rest ih =>
    obtain ⟨k', v'⟩ := row
    by_cases hk : k' = k
    · subst hk
      simp only [get?, if_true, Option.some.injEq] at h
      simp [h]
    · rw [get?, if_neg hk] at h
      exact List.mem_cons_of_mem _ (ih h)

theorem mem_put {row : κ × α} (h : row ∈ t.put k v) : row = (k, v) ∨ row ∈ t := by
  induction t with
  | nil => exact .inl (List.mem_singleton.1 h)
  | cons row' rest ih =>
    obtain ⟨k', v'⟩ := row'
    by_cases hk : k' = k
    · subst hk
      simp only [put, if_true, List.mem_cons] at h
      exact h.imp_right (List.mem_cons_of_mem _)
    · simp only [put, hk, if_false, List.mem_cons] at h
      rcases h with rfl | h
      · exact .inr List.mem_cons_self
      · exact (ih h).imp_right (List.mem_cons_of_mem _)

theorem map_fst_put : (t.put k v).map Prod.fst =
    if k ∈ t.map Prod.fst then t.map Prod.fst else t.map Prod.fst ++ [k] := by
  induction t with
  | nil => simp [put]
  | cons row rest ih =>
    obtain ⟨k', v'⟩ := row
    by_cases h : k' = k
    · simp [put, h]
    · simp only [put, h, if_false, List.map_cons, ih, List.mem_cons, Ne.symm h, false_or]
      split <;> rfl

theorem nodup_put (h : (t.map Prod.fst).Nodup) : ((t.put k v).map Prod.fst).Nodup := by
  rw [map_fst_put]
  split
  · exact h
  · rename_i hnew
    exact List.nodup_append.2 ⟨h, List.nodup_singleton k, by
      intro a ha b hb
      rintro rfl
      exact hnew (List.mem_singleton.1 hb ▸ ha)⟩

theorem nodup_erase (h : (t.map Prod.fst).Nodup) : ((t.erase k).map Prod.fst).Nodup :=
  h.sublist (List.filter_sublist.map _)

/-! ## Several rows -/

variable {rows rows' : Table κ α}

theorem get?_eq_none_iff : t.get? k = none ↔ k ∉ t.map Prod.fst := by
  rw [← isSome_get?_iff, Option.not_isSome_iff_eq_none]

theorem get?_append : get? k (rows ++ rows') = (get? k rows).or (get? k rows') := by
  induction rows with
  | nil => rfl
  | cons row rest ih =>
    by_cases h : row.1 = k
    · simp [get?, h]
    · simp [get?, h, ih]

theorem get?_reverse (h : (t.map Prod.fst).Nodup) : get? k t.reverse = t.get? k := by
  have hreverse : (t.reverse.map Prod.fst).Nodup := by
    rwa [List.map_reverse, List.nodup_reverse]
  cases hk : t.get? k with
  | some v => exact get?_of_mem hreverse (List.mem_reverse.2 (mem_of_get? hk))
  | none =>
    rw [get?_eq_none_iff] at hk ⊢
    rwa [List.map_reverse, List.mem_reverse]

/-- A table without the rows whose values are refused. -/
theorem get?_filter (p : α → Bool) (h : (t.map Prod.fst).Nodup) :
    get? k (t.filter fun row => p row.2) = (t.get? k).filter p := by
  induction t with
  | nil => rfl
  | cons row rest ih =>
    obtain ⟨hnew, hrest⟩ := List.nodup_cons.1 h
    have ih := ih hrest
    rw [List.filter_cons]
    by_cases hk : row.1 = k
    · subst hk
      rw [get?_eq_none_iff.2 hnew] at ih
      cases hp : p row.2 with
      | true => simp [get?, Option.filter_some, hp]
      | false => simpa [get?, Option.filter_some, hp] using ih
    · cases hp : p row.2 with
      | true => simpa [get?, hk] using ih
      | false => simpa [get?, hk] using ih

/-- Puts rows one after another. -/
def putAll (t rows : Table κ α) : Table κ α := rows.foldl (fun t (k, v) => t.put k v) t

theorem nodup_putAll (h : (t.map Prod.fst).Nodup) : ((t.putAll rows).map Prod.fst).Nodup := by
  induction rows generalizing t with
  | nil => exact h
  | cons row rest ih => exact ih (nodup_put h)

theorem mem_putAll {row : κ × α} (h : row ∈ t.putAll rows) : row ∈ t ∨ row ∈ rows := by
  induction rows generalizing t with
  | nil => exact .inl h
  | cons row' rest ih =>
    rcases ih h with h | h
    · rcases mem_put h with rfl | h
      · exact .inr List.mem_cons_self
      · exact .inl h
    · exact .inr (List.mem_cons_of_mem _ h)

theorem get?_putAll : get? k (t.putAll rows) = (get? k rows.reverse).or (t.get? k) := by
  induction rows generalizing t with
  | nil => rfl
  | cons row rest ih =>
    obtain ⟨k', v⟩ := row
    rw [List.reverse_cons, get?_append, Option.or_assoc]
    refine (ih (t := t.put k' v)).trans ?_
    rw [get?_put]
    by_cases h : k' = k
    · simp [get?, h]
    · simp [get?, h]

end Table

end SlidingCache
