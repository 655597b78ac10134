import SlidingCache.Log.Value
import SlidingCache.Proofs.Json.RoundTrip
import SlidingCache.Proofs.Table

/-!
# Log values in JSON

Of most log values JSON says all: of those that are made of strings without surrogates, integers of
64 bits, truth values, `null`, and lists and objects of such (`LogValue.IsPlain`). A table of them
can be written as one line, and what is read from the line is the table (`LogValue.exists_line`).
-/

namespace SlidingCache.LogValue

open Json (maxNesting leastInteger greatestInteger)

mutual

/-- A JSON value as a log value. -/
def ofJson : Json → LogValue
  | .null => .null
  | .bool b => .bool b
  | .int n => .int n
  | .float negative b => .float negative b
  | .str t => .str t
  | .arr elements => .arr (ofJsons elements)
  | .obj fields => .obj (ofFields fields)

@[inherit_doc ofJson] def ofJsons : List Json → List LogValue
  | [] => []
  | v :: r => ofJson v :: ofJsons r

@[inherit_doc ofJson] def ofFields : List (Text × Json) → List (Text × LogValue)
  | [] => []
  | (n, v) :: r => (n, ofJson v) :: ofFields r

end

mutual

/-- A value that JSON says all of. -/
def IsPlain : LogValue → Prop
  | .null | .bool _ => True
  | .int n => leastInteger ≤ n ∧ n ≤ greatestInteger
  | .str t => ∀ c ∈ t, c.isSurrogate = false
  | .arr elements => ArePlain elements
  | .obj fields => FieldsArePlain fields
  | .float .. | .instant _ | .duration _ | .bytes _ => False

@[inherit_doc IsPlain] def ArePlain : List LogValue → Prop
  | [] => True
  | v :: r => v.IsPlain ∧ ArePlain r

/-- No name stands twice, and no name holds a surrogate. -/
def FieldsArePlain : List (Text × LogValue) → Prop
  | [] => True
  | (n, v) :: r =>
    v.IsPlain ∧ (∀ c ∈ n, c.isSurrogate = false) ∧ n ∉ r.map Prod.fst ∧ FieldsArePlain r

end

mutual

/-- How many containers stand in one another; an empty list counts for nothing. -/
def nesting : LogValue → Nat
  | .arr elements => if elements.isEmpty then 0 else elementsNesting elements + 1
  | .obj fields => fieldsNesting fields + 1
  | _ => 0

@[inherit_doc nesting] def elementsNesting : List LogValue → Nat
  | [] => 0
  | v :: r => max v.nesting (elementsNesting r)

@[inherit_doc nesting] def fieldsNesting : List (Text × LogValue) → Nat
  | [] => 0
  | (_, v) :: r => max v.nesting (fieldsNesting r)

end

/-! ## One value -/

variable {t : Table Text LogValue} {name : Text}

theorem map_fst_fieldsToJson (fields : List (Text × LogValue)) :
    (fieldsToJson fields).map Prod.fst = fields.map Prod.fst := by
  induction fields with
  | nil => rfl
  | cons field r ih => exact congrArg (field.1 :: ·) ih

mutual

theorem isExact_toJson (v : LogValue) (hv : v.IsPlain) : v.toJson.IsExact := by
  cases v with
  | null | bool | int | str => exact trivial
  | arr elements => exact areExact_toJsons elements hv
  | obj fields => exact fieldsAreExact_fieldsToJson fields hv
  | float | instant | duration | bytes => cases hv

theorem areExact_toJsons (elements : List LogValue) (hv : ArePlain elements) :
    Json.AreExact (toJsons elements) := by
  cases elements with
  | nil => exact trivial
  | cons v r => exact ⟨isExact_toJson v hv.1, areExact_toJsons r hv.2⟩

theorem fieldsAreExact_fieldsToJson (fields : List (Text × LogValue))
    (hv : FieldsArePlain fields) : Json.FieldsAreExact (fieldsToJson fields) := by
  cases fields with
  | nil => exact trivial
  | cons field r =>
    obtain ⟨hfirst, -, hnew, hrest⟩ := hv
    refine ⟨isExact_toJson field.2 hfirst, ?_, fieldsAreExact_fieldsToJson r hrest⟩
    rwa [map_fst_fieldsToJson]

end

mutual

theorem ofJson_toJson (v : LogValue) (hv : v.IsPlain) : ofJson v.toJson = v := by
  cases v with
  | null | bool | int | str => rfl
  | arr elements => exact congrArg arr (ofJsons_toJsons elements hv)
  | obj fields => exact congrArg obj (ofFields_fieldsToJson fields hv)
  | float | instant | duration | bytes => cases hv

theorem ofJsons_toJsons (elements : List LogValue) (hv : ArePlain elements) :
    ofJsons (toJsons elements) = elements := by
  cases elements with
  | nil => rfl
  | cons v r => exact congr (congrArg _ (ofJson_toJson v hv.1)) (ofJsons_toJsons r hv.2)

theorem ofFields_fieldsToJson (fields : List (Text × LogValue)) (hv : FieldsArePlain fields) :
    ofFields (fieldsToJson fields) = fields := by
  cases fields with
  | nil => rfl
  | cons field r =>
    obtain ⟨hfirst, -, -, hrest⟩ := hv
    exact congr (congrArg (fun v => (((field.1, v) : Text × LogValue) :: ·))
      (ofJson_toJson field.2 hfirst)) (ofFields_fieldsToJson r hrest)

end

mutual

/-- A plain value can be written wherever its containers find room. -/
theorem exists_tokens {depth : Nat} (v : LogValue) (hv : v.IsPlain)
    (h : depth + v.nesting ≤ maxNesting) : ∃ written, v.toJson.tokens depth = .ok written := by
  cases v with
  | null | bool => exact ⟨_, rfl⟩
  | int n => exact ⟨_, if_pos hv⟩
  | str t =>
    obtain ⟨token, htoken⟩ := Json.exists_strToken_iff.2 hv
    exact ⟨_, Chain.bind_eq_ok.2 ⟨token, htoken, rfl⟩⟩
  | arr elements =>
    cases elements with
    | nil => exact ⟨_, rfl⟩
    | cons v r =>
      simp only [nesting, List.isEmpty_cons, Bool.false_eq_true, if_false] at h
      obtain ⟨inner, hinner⟩ := exists_elementTokens (v :: r) false hv
        (show depth + 1 + elementsNesting (v :: r) ≤ maxNesting by omega)
      refine ⟨.beginArray :: inner, ?_⟩
      simp only [toJson, Json.tokens]
      rw [if_pos (.inr (by omega))]
      exact Chain.bind_eq_ok.2 ⟨inner, hinner, rfl⟩
  | obj fields =>
    simp only [nesting] at h
    obtain ⟨inner, hinner⟩ := exists_fieldTokens fields false hv
      (show depth + 1 + fieldsNesting fields ≤ maxNesting by omega)
    refine ⟨.beginObject :: inner, ?_⟩
    simp only [toJson, Json.tokens]
    rw [if_pos (by omega)]
    exact Chain.bind_eq_ok.2 ⟨inner, hinner, rfl⟩
  | float | instant | duration | bytes => cases hv

theorem exists_elementTokens {depth : Nat} (elements : List LogValue) (follows : Bool)
    (hv : ArePlain elements) (h : depth + elementsNesting elements ≤ maxNesting) :
    ∃ written, Json.elementTokens depth follows (toJsons elements) = .ok written := by
  cases elements with
  | nil => exact ⟨_, rfl⟩
  | cons v r =>
    simp only [elementsNesting] at h
    obtain ⟨first, hfirst⟩ := exists_tokens v hv.1
      (show depth + v.nesting ≤ maxNesting by omega)
    obtain ⟨rest, hrest⟩ := exists_elementTokens r true hv.2
      (show depth + elementsNesting r ≤ maxNesting by omega)
    exact ⟨_, Chain.bind_eq_ok.2 ⟨first, hfirst, Chain.bind_eq_ok.2 ⟨rest, hrest, rfl⟩⟩⟩

theorem exists_fieldTokens {depth : Nat} (fields : List (Text × LogValue)) (follows : Bool)
    (hv : FieldsArePlain fields) (h : depth + fieldsNesting fields ≤ maxNesting) :
    ∃ written, Json.fieldTokens depth follows (fieldsToJson fields) = .ok written := by
  cases fields with
  | nil => exact ⟨_, rfl⟩
  | cons field r =>
    obtain ⟨hplain, hname, -, hplain'⟩ := hv
    simp only [fieldsNesting] at h
    obtain ⟨token, htoken⟩ := Json.exists_strToken_iff.2 hname
    obtain ⟨first, hfirst⟩ := exists_tokens field.2 hplain
      (show depth + field.2.nesting ≤ maxNesting by omega)
    obtain ⟨rest, hrest⟩ := exists_fieldTokens r true hplain'
      (show depth + fieldsNesting r ≤ maxNesting by omega)
    exact ⟨_, Chain.bind_eq_ok.2 ⟨token, htoken, Chain.bind_eq_ok.2 ⟨first, hfirst,
      Chain.bind_eq_ok.2 ⟨rest, hrest, rfl⟩⟩⟩⟩

end

/-! ## A table -/

/-- A value that a line has room for: the object of the line is a container of its own. -/
structure Fits (v : LogValue) : Prop where
  plain : v.IsPlain
  nesting : v.nesting < maxNesting

theorem fits_str {t : Text} (h : ∀ c ∈ t, c.isSurrogate = false) : (str t).Fits :=
  ⟨h, show 0 < maxNesting by decide⟩

theorem fits_null : null.Fits := ⟨trivial, by decide⟩

theorem fits_int {n : Int} (h : leastInteger ≤ n ∧ n ≤ greatestInteger) : (int n).Fits :=
  ⟨h, show 0 < maxNesting by decide⟩

/-- A row with a name and a value that a line has room for. -/
structure RowFits (row : Text × LogValue) : Prop where
  name : ∀ c ∈ row.1, c.isSurrogate = false
  value : row.2.Fits

theorem rowFits_nil : ∀ row ∈ ([] : Table Text LogValue), RowFits row := by rintro _ ⟨⟩

theorem rowFits_cons {v : LogValue} (hname : ∀ c ∈ name, c.isSurrogate = false) (hv : v.Fits)
    (h : ∀ row ∈ t, RowFits row) : ∀ row ∈ ((name, v) :: t : Table Text LogValue), RowFits row :=
  List.forall_mem_cons.2 ⟨⟨hname, hv⟩, h⟩

theorem fieldsArePlain_of_rowFits (hnodup : (t.map Prod.fst).Nodup) (h : ∀ row ∈ t, RowFits row) :
    FieldsArePlain t := by
  induction t with
  | nil => exact trivial
  | cons row rest ih =>
    obtain ⟨hnew, hrest⟩ := List.nodup_cons.1 hnodup
    have hrow := h row List.mem_cons_self
    exact ⟨hrow.value.plain, hrow.name, hnew, ih hrest fun r hr => h r (List.mem_cons_of_mem _ hr)⟩

theorem nesting_obj_le (h : ∀ row ∈ t, RowFits row) : (obj t).nesting ≤ maxNesting := by
  suffices hfields : fieldsNesting t < maxNesting from hfields
  induction t with
  | nil => decide
  | cons row rest ih =>
    have hrow := (h row List.mem_cons_self).value.nesting
    have hrest := ih fun r hr => h r (List.mem_cons_of_mem _ hr)
    exact Nat.max_lt.2 ⟨hrow, hrest⟩

theorem map_ofJson_get?_fieldsToJson (h : FieldsArePlain t) :
    (Json.get? name (fieldsToJson t)).map ofJson = t.get? name := by
  induction t with
  | nil => rfl
  | cons row rest ih =>
    obtain ⟨hplain, -, -, hrest⟩ := h
    by_cases hn : row.1 = name
    · simp [fieldsToJson, Json.get?, Table.get?, hn, ofJson_toJson _ hplain]
    · simp only [fieldsToJson, Json.get?, Table.get?, if_neg hn]
      exact ih hrest

/-- A line that says just what a table says: no control character breaks it, and it is read as an
object with the rows of the table. -/
structure Says (line : Text) (said : Text → Option LogValue) : Prop where
  oneLine : ∀ c ∈ line, 0x20 ≤ c.val
  read : ∃ fields, Json.ofText? line = some (.obj fields) ∧ (fields.map Prod.fst).Nodup ∧
    ∀ name, (Json.get? name fields).map ofJson = said name

/-- **A table is read back from its line.** -/
theorem exists_line (hnodup : (t.map Prod.fst).Nodup) (h : ∀ row ∈ t, RowFits row) :
    ∃ line, (obj t).toJson.toText = .ok line ∧ Says line t.get? := by
  have hplain : (obj t).IsPlain := fieldsArePlain_of_rowFits hnodup h
  have hroom : 0 + (obj t).nesting ≤ maxNesting := by
    rw [Nat.zero_add]
    exact nesting_obj_le h
  obtain ⟨written, hwritten⟩ := exists_tokens (obj t) hplain hroom
  have htext : (obj t).toJson.toText = .ok (written.flatMap Json.Token.text) :=
    Chain.bind_eq_ok.2 ⟨written, hwritten, rfl⟩
  have hexact := isExact_toJson (obj t) hplain
  refine ⟨_, htext, fun c hc => (Json.visible_of_toText hexact htext c hc).1, fieldsToJson t,
    Json.ofText?_toText hexact htext, ?_, fun name => map_ofJson_get?_fieldsToJson hplain⟩
  rwa [map_fst_fieldsToJson]

end SlidingCache.LogValue
