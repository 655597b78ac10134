import SlidingCache.Json.Printer
import SlidingCache.Json.Reader
import SlidingCache.Proofs.Chains
import SlidingCache.Proofs.Json.Token
import SlidingCache.Proofs.Text.Utf8

/-!
# What is written as JSON is read back

A value without numbers other than integers, in whose objects no name stands twice, is read back
from the octets of its text (`Json.ofBytes?_octets`), and these hold no control character
(`Json.visible_of_toText`). The tokens of a value are `Legible`, so the text is cut into them again;
and they take the reader from the state before the value to the state after it (`Json.run?_tokens`).
-/

namespace SlidingCache.Json

mutual

/-- Whether the text of a value says all of it. -/
def IsExact : Json → Prop
  | .float .. => False
  | .arr elements => AreExact elements
  | .obj fields => FieldsAreExact fields
  | _ => True

@[inherit_doc IsExact] def AreExact : List Json → Prop
  | [] => True
  | v :: r => v.IsExact ∧ AreExact r

@[inherit_doc IsExact] def FieldsAreExact : List (Text × Json) → Prop
  | [] => True
  | (n, v) :: r => v.IsExact ∧ n ∉ r.map Prod.fst ∧ FieldsAreExact r

end

/-! ## Tokens that can be told apart -/

namespace Token

/-- A character that may stand in the text of a token: no control character and no surrogate. -/
def IsVisible (c : CodePoint) : Prop := 0x20 ≤ c.val ∧ c.isSurrogate = false

/-- What can be written between two other tokens and cut out again. -/
structure IsClean (token : Token) : Prop where
  plain : token.IsPlain
  visible : ∀ c ∈ token.text, IsVisible c

/-- The row is empty or begins with a token that is no word. -/
def Breaks (tokens : List Token) : Prop := ∀ token ∈ tokens.head?, token.isWord = false

/-- A row of tokens that may stand before any row that breaks from it. -/
structure Legible (tokens : List Token) : Prop where
  clean : ∀ token ∈ tokens, token.IsClean
  spaced : ∀ {r}, Spaced r → Breaks r → Spaced (tokens ++ r)

variable {token : Token} {a b r : List Token} {t : Text}

theorem spaced_cons (h : token.isWord → Breaks r) (hr : Spaced r) : Spaced (token :: r) := by
  cases r with
  | nil => exact trivial
  | cons next r =>
    refine ⟨fun ⟨hword, hnext⟩ => ?_, hr⟩
    rw [h hword next rfl] at hnext
    cases hnext

theorem legible_singleton (h : token.IsClean) : Legible [token] where
  clean token' h' := by
    obtain rfl := List.mem_singleton.1 h'
    exact h
  spaced hr hbreaks := spaced_cons (fun _ => hbreaks) hr

theorem Legible.cons (hb : Legible b) (h : token.IsClean) (hword : token.isWord = false) :
    Legible (token :: b) where
  clean token' h' := by
    rcases List.mem_cons.1 h' with rfl | h'
    · exact h
    · exact hb.clean token' h'
  spaced hr hbreaks := spaced_cons (by simp [hword]) (hb.spaced hr hbreaks)

theorem Legible.append (ha : Legible a) (hb : Legible b) (hne : b ≠ []) (hbreaks : Breaks b) :
    Legible (a ++ b) where
  clean token h := (List.mem_append.1 h).elim (ha.clean token) (hb.clean token)
  spaced hr hr' := by
    rw [List.append_assoc]
    apply ha.spaced (hb.spaced hr hr')
    cases b with
    | nil => exact absurd rfl hne
    | cons next b => exact hbreaks

/-- No character of the text of a legible row is a control character or a surrogate. -/
theorem Legible.visible (h : Legible a) : ∀ c ∈ a.flatMap text, IsVisible c := by
  intro c hc
  obtain ⟨token, htoken, hc⟩ := List.mem_flatMap.1 hc
  exact (h.clean token htoken).visible c hc

theorem Legible.ofText?_flatMap_text (h : Legible a) : ofText? (a.flatMap text) = some a := by
  refine Token.ofText?_flatMap_text (fun token htoken => (h.clean token htoken).plain) ?_
  have := h.spaced (r := []) trivial (by rintro token ⟨⟩)
  rwa [List.append_nil] at this

/-! ### The text of one token -/

theorem isVisible_of_isAscii {c : CodePoint} (hlow : 0x20 ≤ c.val) (hhigh : c.isAscii) :
    IsVisible c := ⟨hlow, CodePoint.isSurrogate_of_isAscii hhigh⟩

theorem isVisible_ofDigit {d : Nat} : IsVisible (CodePoint.ofDigit d) := by
  obtain ⟨hlow, hascii⟩ := Text.ofDigit_bounds d
  exact isVisible_of_isAscii (Nat.le_trans (by decide) hlow) hascii

theorem isVisible_of_all {c : CodePoint} (h : t.all fun c => decide (0x20 ≤ c.val) && c.isAscii)
    (hc : c ∈ t) : IsVisible c := by
  have := List.all_eq_true.1 h c hc
  simp only [Bool.and_eq_true, decide_eq_true_eq] at this
  exact isVisible_of_isAscii this.1 this.2

theorem isVisible_escapedChar {c d : CodePoint} (hc : c.isSurrogate = false)
    (h : d ∈ escapedChar c) : IsVisible d := by
  unfold escapedChar at h
  iterate 7
    split at h
    · exact isVisible_of_all (by decide) h
  split at h
  · rename_i hcontrol
    rw [Text.hex_four (by omega)] at h
    rcases List.mem_append.1 h with h | h
    · exact isVisible_of_all (by decide) h
    · simp only [List.mem_cons, List.not_mem_nil, or_false] at h
      rcases h with rfl | rfl | rfl | rfl <;> exact isVisible_ofDigit
  · rename_i hcontrol
    obtain rfl := List.mem_singleton.1 h
    exact ⟨Nat.le_of_not_lt hcontrol, hc⟩

theorem isClean_str (h : ∀ c ∈ t, c.isSurrogate = false) : (str t).IsClean where
  plain := trivial
  visible c hc := by
    simp only [text, List.cons_append, List.mem_cons, List.mem_append, List.mem_flatMap,
      List.not_mem_nil, or_false] at hc
    rcases hc with rfl | ⟨d, hd, hc⟩ | rfl
    · exact ⟨by decide, by decide⟩
    · exact isVisible_escapedChar (h d hd) hc
    · exact ⟨by decide, by decide⟩

theorem isClean_int {n : Int} (hlow : leastInteger ≤ n) (hhigh : n ≤ greatestInteger) :
    (int n).IsClean where
  plain := ⟨hlow, Int.lt_of_le_of_lt hhigh (by decide)⟩
  visible c hc := by
    have digit : ∀ {n : Nat}, c ∈ Text.ofNat n → IsVisible c := by
      intro n hc
      have hdigit := Text.isDigit_of_mem_ofNat n c hc
      refine isVisible_of_isAscii ?_ (Text.isAscii_of_isDigit hdigit)
      simp only [CodePoint.isDigit, Bool.and_eq_true, decide_eq_true_eq] at hdigit
      omega
    cases n with
    | ofNat n => exact digit hc
    | negSucc n =>
      rcases List.mem_cons.1 hc with rfl | hc
      · exact ⟨by decide, by decide⟩
      · exact digit hc

/-- Punctuation and literals. -/
theorem isClean_of_all (hplain : token.IsPlain)
    (h : token.text.all fun c => decide (0x20 ≤ c.val) && c.isAscii) : token.IsClean :=
  ⟨hplain, fun _ hc => isVisible_of_all h hc⟩

theorem isClean_colon : IsClean .colon := isClean_of_all trivial (by decide)

theorem isClean_bool (b : Bool) : (bool b).IsClean := by
  cases b <;> exact isClean_of_all trivial (by decide)

end Token

/-! ## Values as rows of tokens -/

open Token

theorem strToken_eq_ok {t : Text} {token : Token} (h : strToken t = .ok token) :
    token = .str t ∧ token.IsClean := by
  unfold strToken at h
  split at h
  · cases h
  · rename_i hany
    cases h
    refine ⟨rfl, isClean_str fun c hc => ?_⟩
    simp only [Bool.not_eq_true, List.any_eq_false] at hany
    exact hany c hc

theorem elementTokens_breaks {depth : Nat} {elements : List Json} {written : List Token}
    (h : elementTokens depth true elements = .ok written) : written ≠ [] ∧ Breaks written := by
  cases elements with
  | nil =>
    cases h
    exact ⟨by simp, by rintro token ⟨⟩; rfl⟩
  | cons v r =>
    obtain ⟨first, -, h⟩ := Chain.bind_eq_ok.1 h
    obtain ⟨rest, -, ⟨⟩⟩ := Chain.bind_eq_ok.1 h
    exact ⟨by simp, by rintro token ⟨⟩; rfl⟩

theorem fieldTokens_breaks {depth : Nat} {fields : List (Text × Json)} {written : List Token}
    (h : fieldTokens depth true fields = .ok written) : written ≠ [] ∧ Breaks written := by
  cases fields with
  | nil =>
    cases h
    exact ⟨by simp, by rintro token ⟨⟩; rfl⟩
  | cons field r =>
    obtain ⟨name, -, h⟩ := Chain.bind_eq_ok.1 h
    obtain ⟨first, -, h⟩ := Chain.bind_eq_ok.1 h
    obtain ⟨rest, -, ⟨⟩⟩ := Chain.bind_eq_ok.1 h
    exact ⟨by simp, by rintro token ⟨⟩; rfl⟩

/-- A comma goes before what follows. -/
theorem Token.Legible.comma {a : List Token} {follows : Bool} (h : Legible a) :
    Legible ((if follows then [.comma] else []) ++ a) := by
  cases follows with
  | true => exact h.cons (isClean_of_all trivial (by decide)) rfl
  | false => exact h

mutual

theorem legible_tokens {depth : Nat} {written : List Token} (v : Json) (hv : v.IsExact)
    (h : v.tokens depth = .ok written) : Legible written := by
  cases v with
  | null => cases h; exact legible_singleton (isClean_of_all trivial (by decide))
  | bool b => cases h; exact legible_singleton (isClean_bool b)
  | int n =>
    simp only [tokens] at h
    split at h
    · rename_i hn
      cases h
      exact legible_singleton (isClean_int hn.1 hn.2)
    · cases h
  | float negative b => cases hv
  | str t =>
    obtain ⟨token, htoken, ⟨⟩⟩ := Chain.bind_eq_ok.1 h
    exact legible_singleton (strToken_eq_ok htoken).2
  | arr elements =>
    simp only [tokens] at h
    split at h
    · obtain ⟨inner, hinner, ⟨⟩⟩ := Chain.bind_eq_ok.1 h
      exact (legible_elementTokens elements hv hinner).cons (isClean_of_all trivial (by decide)) rfl
    · cases h
  | obj fields =>
    simp only [tokens] at h
    split at h
    · obtain ⟨inner, hinner, ⟨⟩⟩ := Chain.bind_eq_ok.1 h
      exact (legible_fieldTokens fields hv hinner).cons (isClean_of_all trivial (by decide)) rfl
    · cases h

theorem legible_elementTokens {depth : Nat} {follows : Bool} {written : List Token}
    (elements : List Json) (hv : AreExact elements)
    (h : elementTokens depth follows elements = .ok written) : Legible written := by
  cases elements with
  | nil => cases h; exact legible_singleton (isClean_of_all trivial (by decide))
  | cons v r =>
    obtain ⟨first, hfirst, h⟩ := Chain.bind_eq_ok.1 h
    obtain ⟨rest, hrest, ⟨⟩⟩ := Chain.bind_eq_ok.1 h
    obtain ⟨hne, hbreaks⟩ := elementTokens_breaks hrest
    have hlegible := legible_elementTokens r hv.2 hrest
    have hboth := (legible_tokens v hv.1 hfirst).append hlegible hne hbreaks
    rw [List.append_assoc]
    exact hboth.comma

theorem legible_fieldTokens {depth : Nat} {follows : Bool} {written : List Token}
    (fields : List (Text × Json)) (hv : FieldsAreExact fields)
    (h : fieldTokens depth follows fields = .ok written) : Legible written := by
  cases fields with
  | nil => cases h; exact legible_singleton (isClean_of_all trivial (by decide))
  | cons field r =>
    rcases field with ⟨n, v⟩
    obtain ⟨name, hname, h⟩ := Chain.bind_eq_ok.1 h
    obtain ⟨first, hfirst, h⟩ := Chain.bind_eq_ok.1 h
    obtain ⟨rest, hrest, ⟨⟩⟩ := Chain.bind_eq_ok.1 h
    obtain ⟨hne, hbreaks⟩ := fieldTokens_breaks hrest
    obtain ⟨rfl, hclean⟩ := strToken_eq_ok hname
    have hlegible := legible_fieldTokens r hv.2.2 hrest
    have hboth := (legible_tokens v hv.1 hfirst).append hlegible hne hbreaks
    rw [List.append_assoc]
    exact ((hboth.cons isClean_colon rfl).cons hclean rfl).comma

end

/-! ## What can be written -/

theorem exists_strToken_iff {t : Text} :
    (∃ token, strToken t = .ok token) ↔ ∀ c ∈ t, c.isSurrogate = false := by
  unfold strToken
  split <;> simp_all

theorem exists_fieldTokens_iff {depth : Nat} {fields : List (Text × Json)} (follows : Bool) :
    (∃ written, fieldTokens depth follows fields = .ok written) ↔
      ∀ field ∈ fields, (∃ token, strToken field.1 = .ok token) ∧
        ∃ written, field.2.tokens depth = .ok written := by
  induction fields generalizing follows with
  | nil => simp [fieldTokens]
  | cons field r ih =>
    constructor
    · rintro ⟨written, h⟩
      obtain ⟨name, hname, h⟩ := Chain.bind_eq_ok.1 h
      obtain ⟨first, hfirst, h⟩ := Chain.bind_eq_ok.1 h
      obtain ⟨rest, hrest, -⟩ := Chain.bind_eq_ok.1 h
      intro other hother
      rcases List.mem_cons.1 hother with rfl | hother
      · exact ⟨⟨name, hname⟩, first, hfirst⟩
      · exact (ih true).1 ⟨rest, hrest⟩ other hother
    · intro h
      obtain ⟨⟨name, hname⟩, first, hfirst⟩ := h field List.mem_cons_self
      obtain ⟨rest, hrest⟩ := (ih true).2 fun other hother =>
        h other (List.mem_cons_of_mem _ hother)
      refine ⟨(if follows then [.comma] else []) ++ name :: .colon :: first ++ rest, ?_⟩
      refine Chain.bind_eq_ok.2 ⟨name, hname, ?_⟩
      refine Chain.bind_eq_ok.2 ⟨first, hfirst, ?_⟩
      exact Chain.bind_eq_ok.2 ⟨rest, hrest, rfl⟩

/-- An object can be written just when its names and values can. -/
theorem exists_toText_obj_iff {fields : List (Text × Json)} :
    (∃ t, (obj fields).toText = .ok t) ↔
      ∀ field ∈ fields, (∃ token, strToken field.1 = .ok token) ∧
        ∃ written, field.2.tokens 1 = .ok written := by
  rw [← exists_fieldTokens_iff false]
  have hdepth : 0 < maxNesting := by decide
  constructor
  · rintro ⟨t, h⟩
    obtain ⟨written, h, -⟩ := Chain.bind_eq_ok.1 h
    rw [tokens, if_pos hdepth] at h
    obtain ⟨inner, hinner, -⟩ := Chain.bind_eq_ok.1 h
    exact ⟨inner, hinner⟩
  · rintro ⟨inner, hinner⟩
    refine ⟨_, Chain.bind_eq_ok.2 ⟨.beginObject :: inner, ?_, rfl⟩⟩
    rw [tokens, if_pos hdepth]
    exact Chain.bind_eq_ok.2 ⟨inner, hinner, rfl⟩

/-! ## Reading the tokens of a value -/

theorem put_of_not_mem {name : Text} {value : Json} {fields : List (Text × Json)}
    (h : name ∉ fields.map Prod.fst) : put name value fields = fields ++ [(name, value)] := by
  induction fields with
  | nil => rfl
  | cons field r ih =>
    simp only [List.map_cons, List.mem_cons, not_or] at h
    rw [put, if_neg (Ne.symm h.1), ih h.2]
    rfl

theorem run?_cons {reading reading' : Reading} {token : Token} {r : List Token}
    (h : reading.next? token = some reading') : reading.run? (token :: r) = reading'.run? r := by
  simp only [Reading.run?, h, Option.bind_eq_bind, Option.bind_some]

/-- A value may stand where an element is expected. -/
theorem run?_element {depth : Nat} {v : Json} {written r : List Token} {stack : List Frame}
    (h : v.tokens depth = .ok written) :
    (Reading.element stack).run? (written ++ r) = (Reading.value stack).run? (written ++ r) := by
  obtain ⟨token, rest, rfl, hne⟩ : ∃ token rest, written = token :: rest ∧ token ≠ .endArray := by
    cases v with
    | null | bool | float => cases h; exact ⟨_, _, rfl, by simp⟩
    | int n =>
      simp only [tokens] at h
      split at h
      · cases h; exact ⟨_, _, rfl, by simp⟩
      · cases h
    | str t =>
      obtain ⟨token, htoken, ⟨⟩⟩ := Chain.bind_eq_ok.1 h
      exact ⟨_, _, rfl, by simp [(strToken_eq_ok htoken).1]⟩
    | arr elements | obj fields =>
      simp only [tokens] at h
      split at h
      · obtain ⟨inner, -, ⟨⟩⟩ := Chain.bind_eq_ok.1 h
        exact ⟨_, _, rfl, by simp⟩
      · cases h
  have hnext : (Reading.element stack).next? token = (Reading.value stack).next? token := by
    unfold Reading.next?
    split <;> simp_all
  simp only [List.cons_append, Reading.run?, hnext]

/-- Where the reader stands before the elements of an array that are still to come. -/
def beforeElements (stack : List Frame) (done : List Json) (follows : Bool) : Reading :=
  if follows then .separator (.array done :: stack) else .element (.array done :: stack)

@[inherit_doc beforeElements]
def beforeFields (stack : List Frame) (done : List (Text × Json)) (last : Text) (follows : Bool) :
    Reading :=
  if follows then .separator (.object done last :: stack) else .fieldName stack done true

mutual

/-- The tokens of a value lead from the state before it to the state after it. -/
theorem run?_tokens {depth : Nat} {written : List Token} (v : Json) (stack : List Frame)
    (r : List Token) (hv : v.IsExact) (hstack : stack.length = depth) (hdepth : depth ≤ maxNesting)
    (h : v.tokens depth = .ok written) :
    (Reading.value stack).run? (written ++ r) = (Reading.after v stack).run? r := by
  have hopen : stack.length < maxOpen := Nat.lt_of_le_of_lt (hstack ▸ hdepth) (by decide)
  cases v with
  | null | bool b => cases h; rfl
  | int n =>
    simp only [tokens] at h
    split at h
    · cases h; rfl
    · cases h
  | float negative b => cases hv
  | str t =>
    obtain ⟨token, htoken, ⟨⟩⟩ := Chain.bind_eq_ok.1 h
    rw [(strToken_eq_ok htoken).1]
    rfl
  | arr elements =>
    simp only [tokens] at h
    split at h
    · rename_i hempty
      obtain ⟨inner, hinner, ⟨⟩⟩ := Chain.bind_eq_ok.1 h
      have hbegin : (Reading.value stack).next? .beginArray =
          some (.element (.array [] :: stack)) := by
        simp [Reading.next?, Reading.ofFirst?, hopen]
      rw [List.cons_append, run?_cons hbegin]
      exact run?_elementTokens elements stack [] r false hv (congrArg (· + 1) hstack)
        (fun hne => hempty.resolve_left (by simpa using hne)) (fun _ => rfl) hinner
    · cases h
  | obj fields =>
    simp only [tokens] at h
    split at h
    · rename_i hlt
      obtain ⟨inner, hinner, ⟨⟩⟩ := Chain.bind_eq_ok.1 h
      have hbegin : (Reading.value stack).next? .beginObject = some (.fieldName stack [] true) := by
        simp [Reading.next?, Reading.ofFirst?, hopen]
      rw [List.cons_append, run?_cons hbegin]
      exact run?_fieldTokens fields stack [] [] r false hv (congrArg (· + 1) hstack) hlt
        (fun _ => rfl) (by simp) hinner
    · cases h

theorem run?_elementTokens {depth : Nat} {written : List Token} (elements : List Json)
    (stack : List Frame) (done : List Json) (r : List Token) (follows : Bool)
    (hv : AreExact elements) (hstack : stack.length + 1 = depth)
    (hdepth : elements ≠ [] → depth ≤ maxNesting) (hdone : follows = false → done = [])
    (h : elementTokens depth follows elements = .ok written) :
    (beforeElements stack done follows).run? (written ++ r) =
      (Reading.after (.arr (done.reverse ++ elements)) stack).run? r := by
  cases elements with
  | nil =>
    cases h
    cases follows with
    | true => rw [List.append_nil]; rfl
    | false => rw [hdone rfl]; rfl
  | cons v rest =>
    obtain ⟨first, hfirst, h⟩ := Chain.bind_eq_ok.1 h
    obtain ⟨later, hlater, ⟨⟩⟩ := Chain.bind_eq_ok.1 h
    have hle := hdepth (by simp)
    have hbegin : (beforeElements stack done follows).run?
        ((if follows then [.comma] else []) ++ first ++ later ++ r) =
        (Reading.value (.array done :: stack)).run? (first ++ (later ++ r)) := by
      cases follows with
      | true =>
        simp only [List.append_assoc]
        exact run?_cons rfl
      | false =>
        simp only [List.append_assoc]
        exact run?_element (r := later ++ r) hfirst
    have hvalue := run?_tokens v (.array done :: stack) (later ++ r) hv.1 hstack hle hfirst
    have hrest := run?_elementTokens rest stack (v :: done) r true hv.2 hstack (fun _ => hle)
      (by simp) hlater
    rw [hbegin, hvalue, List.append_cons, ← List.reverse_cons]
    exact hrest

theorem run?_fieldTokens {depth : Nat} {written : List Token} (fields : List (Text × Json))
    (stack : List Frame) (done : List (Text × Json)) (last : Text) (r : List Token)
    (follows : Bool) (hv : FieldsAreExact fields) (hstack : stack.length + 1 = depth)
    (hdepth : depth ≤ maxNesting) (hdone : follows = false → done = [])
    (hnew : ∀ name ∈ fields.map Prod.fst, name ∉ done.map Prod.fst)
    (h : fieldTokens depth follows fields = .ok written) :
    (beforeFields stack done last follows).run? (written ++ r) =
      (Reading.after (.obj (done ++ fields)) stack).run? r := by
  cases fields with
  | nil =>
    cases h
    cases follows with
    | true => rw [List.append_nil]; rfl
    | false => rw [hdone rfl]; rfl
  | cons field rest =>
    rcases field with ⟨n, v⟩
    obtain ⟨name, hname, h⟩ := Chain.bind_eq_ok.1 h
    obtain ⟨first, hfirst, h⟩ := Chain.bind_eq_ok.1 h
    obtain ⟨later, hlater, ⟨⟩⟩ := Chain.bind_eq_ok.1 h
    obtain ⟨rfl, -⟩ := strToken_eq_ok hname
    have hbegin : (beforeFields stack done last follows).run?
        ((if follows then [.comma] else []) ++ .str n :: .colon :: first ++ later ++ r) =
        (Reading.value (.object done n :: stack)).run? (first ++ (later ++ r)) := by
      cases follows with
      | true =>
        simp only [List.append_assoc]
        rfl
      | false =>
        simp only [List.append_assoc]
        rfl
    have hvalue := run?_tokens v (.object done n :: stack) (later ++ r) hv.1 hstack hdepth hfirst
    have hput : put n v done = done ++ [(n, v)] := put_of_not_mem (hnew n (by simp))
    have hnew' : ∀ name ∈ rest.map Prod.fst, name ∉ (done ++ [(n, v)]).map Prod.fst := by
      intro name hname
      simp only [List.map_append, List.map_cons, List.map_nil, List.mem_append,
        List.mem_singleton, not_or]
      exact ⟨hnew name (List.mem_cons_of_mem _ hname), fun heq => hv.2.1 (heq ▸ hname)⟩
    have hrest := run?_fieldTokens rest stack (done ++ [(n, v)]) n r true hv.2.2 hstack hdepth
      (by simp) hnew' hlater
    rw [hbegin, hvalue, List.append_cons]
    simp only [Reading.after, hput]
    exact hrest

end

/-! ## Whole texts -/

variable {v : Json} {t : Text} {written : List Token}

theorem ofTokens?_tokens (hv : v.IsExact) (h : v.tokens 0 = .ok written) :
    ofTokens? written = some v := by
  have hrun := run?_tokens v [] [] hv rfl (by decide) h
  rw [List.append_nil] at hrun
  rw [ofTokens?, hrun]
  rfl

/-- **A value is read back from its text.** -/
theorem ofText?_toText (hv : v.IsExact) (h : v.toText = .ok t) : ofText? t = some v := by
  obtain ⟨written, hwritten, ⟨⟩⟩ := Chain.bind_eq_ok.1 h
  simp only [ofText?, (legible_tokens v hv hwritten).ofText?_flatMap_text, Option.bind_eq_bind,
    Option.bind_some, ofTokens?_tokens hv hwritten]

/-- The text of a value is one line without surrogates. -/
theorem visible_of_toText (hv : v.IsExact) (h : v.toText = .ok t) : ∀ c ∈ t, IsVisible c := by
  obtain ⟨written, hwritten, ⟨⟩⟩ := Chain.bind_eq_ok.1 h
  exact (legible_tokens v hv hwritten).visible

theorem ofBytes?_octets (hv : v.IsExact) (h : v.toText = .ok t) :
    ofBytes? (t.flatMap CodePoint.octets) = some v := by
  have hdecode := Utf8.decode?_flatMap_octets fun c hc => (visible_of_toText hv h c hc).2
  simp only [ofBytes?, hdecode, Option.bind_eq_bind, Option.bind_some, ofText?_toText hv h]

end SlidingCache.Json
