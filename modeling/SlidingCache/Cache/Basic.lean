import SlidingCache.Key.Encoding

/-!
# A cache's keys

A cache writes application keys with one of the key encodings and may put them under a prefix, a
store key itself, which a period separates from the encoded key.
-/

namespace SlidingCache

/-- How a cache names its entries in the store. -/
structure Cache where
  encoding : KeyEncoding := .percent
  /-- What stands in front of all keys; nothing if empty. -/
  keyPrefix : Text := []
  prefix_legal : keyPrefix = [] ∨ StoreKey.IsLegal keyPrefix := by exact .inl rfl

namespace Cache

instance : Inhabited Cache := ⟨{}⟩

/-- A prefix as a cache keeps it: without periods at its end. -/
def normalize (keyPrefix : Text) : Text := keyPrefix.dropEndWhile (· = dot)

/-- The cache of a key encoding and a prefix. -/
def make (encoding : KeyEncoding) (keyPrefix : Text) : Except InvalidKey Cache :=
  if h : normalize keyPrefix = [] then .ok ⟨encoding, normalize keyPrefix, .inl h⟩
  else match h : StoreKey.check (normalize keyPrefix) with
    | .ok _ => .ok ⟨encoding, normalize keyPrefix, .inr (StoreKey.check_eq_ok_iff.1 h)⟩
    | .error e => .error e

/-- The store key of an encoded key. -/
def underPrefix (c : Cache) (encoded : Text) : Text :=
  if c.keyPrefix.isEmpty then encoded else c.keyPrefix ++ dot :: encoded

/-- The key under which the store holds an application key. -/
def storeKey (c : Cache) (key : Text) : Except InvalidKey Text :=
  c.underPrefix <$> c.encoding.encode key

end Cache

end SlidingCache
