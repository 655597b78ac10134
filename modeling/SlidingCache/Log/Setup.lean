import SlidingCache.Misfit
import SlidingCache.Text.Upper

/-!
# Setting up the log

Which records are let through and how they are written. `LogSetup.configure` chooses both anew, or
leaves all as it was if it does not know the level.
-/

namespace SlidingCache

inductive LineFormat where
  | json
  /-- For reading. Colours are used if the value counts as yes. -/
  | console (colors : Json)

structure LogSetup where
  /-- The least severity that is let through. -/
  level : Int := 30
  format : Option LineFormat := none
  /-- The least severity of the Redis client; zero if it has none of its own. -/
  redisLevel : Int := 0

inductive LevelFault where
  | unknown (name : Text)
  /-- The name belongs to a text that is no level. -/
  | notLevel (value : Text)
  /-- The name belongs to something that is no level, shown as it is in messages. -/
  | neither (shown : Text)
  | misfit (fault : Misfit)
  deriving DecidableEq

def LevelFault.message : LevelFault → Text
  | unknown name => ("module 'logging' has no attribute " : Text) ++ name.quoted
  | notLevel value => ("Unknown level: " : Text) ++ value.quoted
  | neither shown => ("Level not an integer or a valid string: " : Text) ++ shown
  | misfit fault => fault.message

namespace LogSetup

/-- The levels by name, in capitals. -/
def levels : List (Text × Int) :=
  [("NOTSET", 0), ("DEBUG", 10), ("INFO", 20), ("WARNING", 30), ("WARN", 30), ("ERROR", 40),
    ("CRITICAL", 50), ("FATAL", 50)]

/-- The table of template styles, as it is shown in messages. -/
def stylesShown : Text :=
  ("\x7b'%': (<class 'logging.PercentStyle'>, '%(levelname)s:%(name)s:%(message)s'), " : Text)
    ++ ("'\x7b': (<class 'logging.StrFormatStyle'>, " : Text)
    ++ ("'\x7blevelname\x7d:\x7bname\x7d:\x7bmessage\x7d'), " : Text)
    ++ ("'$': (<class 'logging.StringTemplateStyle'>, " : Text)
    ++ ("'$\x7blevelname\x7d:$\x7bname\x7d:$\x7bmessage\x7d')\x7d" : Text)

/-- The names in capitals that stand beside the levels. -/
def others : List (Text × LevelFault) :=
  [("BASIC_FORMAT", .notLevel "%(levelname)s:%(name)s:%(message)s"),
    ("_STYLES", .neither stylesShown)]

/-- The level of a name in any letter case. -/
def level? (name : Json) : Except LevelFault Int := do
  let name := (← (name.textWith "upper").mapError .misfit).upper
  match levels.find? (·.1 = name), others.find? (·.1 = name) with
  | some (_, level), _ => return level
  | none, some (_, fault) => throw fault
  | none, none => throw (.unknown name)

/-- Colours are used if they are wanted and the log goes to a terminal. -/
def configure (s : LogSetup) (json : Bool) (level colors : Json) (terminal : Bool) :
    Except LevelFault Unit × LogSetup :=
  match level? level with
  | .error e => (.error e, s)
  | .ok level =>
    let colors := if colors.holds then .bool terminal else colors
    (.ok (), ⟨level, some (if json then .json else .console colors), 30⟩)

end LogSetup

end SlidingCache
