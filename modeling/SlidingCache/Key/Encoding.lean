import SlidingCache.Key.Percent
import SlidingCache.Key.Punycode

/-!
# Key encodings

The two ways to write any application key as a store key and to read it back, chosen by name.
-/

namespace SlidingCache

inductive KeyEncoding where
  | percent
  | punycode
  deriving DecidableEq, Inhabited

/-- A name that no encoding has. -/
structure UnknownEncoding where
  name : Text
  deriving DecidableEq

namespace KeyEncoding

def all : List KeyEncoding := [percent, punycode]

def name : KeyEncoding → Text
  | percent => "percent"
  | punycode => "punycode"

/-- Finds an encoding by its name in any letter case. -/
def ofName (name : Text) : Except UnknownEncoding KeyEncoding :=
  match all.find? (·.name == name.lowerAscii) with
  | some e => .ok e
  | none => .error ⟨name⟩

def encode : KeyEncoding → Text → Except InvalidKey Text
  | percent => PercentKey.encode
  | punycode => PunycodeKey.encode

def decode : KeyEncoding → Text → Except InvalidKey Text
  | percent => PercentKey.decode
  | punycode => PunycodeKey.decode

end KeyEncoding

def UnknownEncoding.message (e : UnknownEncoding) : Text :=
  ("Unsupported key encoder " : Text) ++ e.name.quoted ++ (". Supported values: " : Text)
    ++ Text.join ", " (KeyEncoding.all.map KeyEncoding.name) ++ ("." : Text)

end SlidingCache
