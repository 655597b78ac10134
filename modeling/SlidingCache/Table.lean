/-!
# Tables

Association lists whose keys occur once. `Table.put` changes a row in its place or adds it at the
end, `Table.erase` removes it; what they do is said through `Table.get?`.
-/

namespace SlidingCache

abbrev Table (κ α : Type) := List (κ × α)

namespace Table

variable {κ α : Type} [DecidableEq κ]

def get? (k : κ) : Table κ α → Option α
  | [] => none
  | (k', v) :: r => if k' = k then some v else get? k r

def put (k : κ) (v : α) : Table κ α → Table κ α
  | [] => [(k, v)]
  | (k', v') :: r => if k' = k then (k', v) :: r else (k', v') :: put k v r

def erase (k : κ) (t : Table κ α) : Table κ α := t.filter (·.1 ≠ k)

@[simp] theorem get?_nil (k : κ) : get? k ([] : Table κ α) = none := rfl

theorem get?_put (k k' : κ) (v : α) (t : Table κ α) :
    get? k' (put k v t) = if k = k' then some v else get? k' t := by
  induction t with
  | nil => simp [put, get?]
  | cons row r ih =>
    rcases row with ⟨k'', v''⟩
    by_cases h : k'' = k
    · subst h
      by_cases h' : k'' = k' <;> simp [put, get?, h']
    · by_cases h' : k'' = k'
      · subst h'
        simp [put, get?, h, Ne.symm h]
      · simp [put, get?, h, h', ih]

theorem get?_erase (k k' : κ) (t : Table κ α) :
    get? k' (erase k t) = if k = k' then none else get? k' t := by
  induction t with
  | nil => simp [erase]
  | cons row r ih =>
    rcases row with ⟨k'', v''⟩
    simp only [erase] at ih
    by_cases h : k'' = k
    · subst h
      by_cases h' : k'' = k' <;> simp_all [erase, get?]
    · by_cases h' : k'' = k'
      · subst h'
        simp [erase, get?, h, Ne.symm h]
      · simp_all [erase, get?]

end Table

end SlidingCache
