import SlidingCache.Json.Value

/-!
# Values in the place of something else

Settings and the parts of a log record can be set to any value, which need not be able to do the
work of what it stands for. `Misfit` says what it lacks.
-/

namespace SlidingCache

/-- Why a value cannot do the work of what it stands for. Kinds are given by their names. -/
inductive Misfit where
  /-- It has no parts. -/
  | noParts (kind : Text)
  /-- It has fewer parts than are asked for; octets have no name there. -/
  | tooShort (kind : Text)
  /-- Its parts have names and no numbers. -/
  | noNumber (number : Nat)
  | lacks (kind member : Text)
  | notCallable (kind : Text)
  /-- It cannot be looked up in a table. -/
  | unhashable (kind : Text)
  /-- It cannot be set into a column. -/
  | noColumn (kind : Text)
  /-- It cannot count. -/
  | notInteger (kind : Text)
  /-- It counts further than 64 bits with a sign go. -/
  | tooLarge (kind : Text)
  deriving DecidableEq

def Misfit.message : Misfit → Text
  | noParts kind => kind.quoted ++ (" object is not subscriptable" : Text)
  | tooShort kind =>
    (if kind.isEmpty then [] else kind ++ (" " : Text)) ++ ("index out of range" : Text)
  | noNumber number => Text.ofNat number
  | lacks kind member =>
    kind.quoted ++ (" object has no attribute " : Text) ++ member.quoted
  | notCallable kind => kind.quoted ++ (" object is not callable" : Text)
  | unhashable kind => ("unhashable type: " : Text) ++ kind.quoted
  | noColumn kind =>
    ("unsupported format string passed to " : Text) ++ kind ++ (".__format__" : Text)
  | notInteger kind => kind.quoted ++ (" object cannot be interpreted as an integer" : Text)
  | tooLarge kind =>
    ("cannot fit " : Text) ++ kind.quoted ++ (" into an index-sized integer" : Text)

/-- The text that a value is; others lack the part of a text that is asked for. -/
def Json.textWith (member : Text) : Json → Except Misfit Text
  | .str t => .ok t
  | v => .error (.lacks v.kindName member)

end SlidingCache
