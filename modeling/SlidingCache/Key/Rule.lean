import SlidingCache.Text.Quoted

/-!
# Store keys

What the store accepts as a key: one or more ASCII letters, digits, hyphens, slashes, underscores,
equals signs or periods, with no period at either end. `StoreKey.check` decides it and names the
first rule that is broken; `StoreKey.IsLegal` states it.
-/

namespace SlidingCache

/-- Why a key is refused. -/
inductive KeyFault where
  /-- The store key is empty. -/
  | emptyStoreKey
  | dotBounded
  | illegalCharacter
  /-- The application key, or the key to be read back, is empty. -/
  | emptyKey
  /-- A surrogate has no UTF-8 form. -/
  | notUtf8
  | escapesNotUtf8
  | malformedSegment (segment : Text)
  /-- A reason in words; the empty one is left out of the message. -/
  | stated (reason : Text)
  deriving DecidableEq

def KeyFault.reason : KeyFault → Text
  | emptyStoreKey => "key cannot be empty"
  | dotBounded => "key cannot start or end with a period"
  | illegalCharacter => "key contains invalid characters"
  | emptyKey => "key must not be empty"
  | notUtf8 => "key is not encodable as UTF-8"
  | escapesNotUtf8 => "escaped bytes are not valid UTF-8"
  | malformedSegment segment => ("malformed segment " : Text) ++ segment.quoted
  | stated reason => reason

/-- A refused key. -/
structure InvalidKey where
  key : Text
  fault : KeyFault
  deriving DecidableEq

def InvalidKey.message (e : InvalidKey) : Text :=
  let text := ("Invalid key: " : Text) ++ e.key.quoted
  if e.fault.reason.isEmpty then text else text ++ (" (" : Text) ++ e.fault.reason ++ (")" : Text)

def dot : CodePoint := CodePoint.ofChar '.'

/-- Whether a period stands at either end. -/
def Text.isDotBounded (t : Text) : Bool := t.head? == some dot || t.getLast? == some dot

namespace StoreKey

/-- The characters of a store key besides the period. -/
def isSegmentChar (c : CodePoint) : Bool :=
  c.isAlphanumeric || c == CodePoint.ofChar '-' || c == CodePoint.ofChar '/'
    || c == CodePoint.ofChar '_' || c == CodePoint.ofChar '='

def isChar (c : CodePoint) : Bool := isSegmentChar c || c == dot

/-- The keys that the store accepts. -/
structure IsLegal (key : Text) : Prop where
  ne_nil : key ≠ []
  not_dotBounded : key.isDotBounded = false
  isChar : ∀ c ∈ key, isChar c

/-- The first rule that a key breaks. -/
def fault? (key : Text) : Option KeyFault :=
  if key.isEmpty then some .emptyStoreKey
  else if key.isDotBounded then some .dotBounded
  else if !key.all isChar then some .illegalCharacter
  else none

def check (key : Text) : Except InvalidKey Unit :=
  match fault? key with
  | some fault => .error ⟨key, fault⟩
  | none => .ok ()

theorem fault?_eq_none_iff {key : Text} : fault? key = none ↔ IsLegal key := by
  constructor
  · intro h
    simp only [fault?] at h
    split at h <;> (try split at h) <;> (try split at h) <;> simp_all
    exact ⟨by assumption, by assumption, by assumption⟩
  · rintro ⟨h₁, h₂, h₃⟩
    simp [fault?, h₁, h₂]
    exact h₃

theorem check_eq_ok_iff {key : Text} : check key = .ok () ↔ IsLegal key := by
  rw [← fault?_eq_none_iff, check]; split <;> simp_all

instance (key : Text) : Decidable (IsLegal key) :=
  decidable_of_iff _ fault?_eq_none_iff

end StoreKey

end SlidingCache
