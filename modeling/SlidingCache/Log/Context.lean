import SlidingCache.Journal
import SlidingCache.Log.Value

/-!
# Contexts of log records

The operation and key that are current when a record is made. Contexts are entered and left in the
course of the work: `ContextStack` goes back to what was current before.
-/

namespace SlidingCache

namespace LogContext

/-- The context with some of its parts set; names of other things are passed over. -/
def setAll (c : LogContext LogValue) (parts : List (Text × LogValue)) : LogContext LogValue :=
  parts.foldl (fun c (name, v) =>
    if name = ("operation" : Text) then { c with operation := v }
    else if name = ("cache_key" : Text) then { c with cacheKey := v }
    else c) c

/-- The parts that say something. -/
def parts (c : LogContext LogValue) : List (Text × LogValue) :=
  [(("operation" : Text), c.operation), ("cache_key", c.cacheKey)].filter (·.2.holds)

end LogContext

structure ContextStack where
  current : LogContext LogValue := ⟨.str [], .str []⟩
  /-- The contexts that were left behind, the latest first. -/
  outer : List (LogContext LogValue) := []

namespace ContextStack

def enter (s : ContextStack) (parts : List (Text × LogValue)) : ContextStack :=
  ⟨s.current.setAll parts, s.current :: s.outer⟩

/-- Back to the context in which the latest one was entered. -/
def leave? (s : ContextStack) : Option ContextStack := match s.outer with
  | c :: rest => some ⟨c, rest⟩
  | [] => none

theorem leave?_enter (s : ContextStack) (parts : List (Text × LogValue)) :
    (s.enter parts).leave? = some s := rfl

end ContextStack

end SlidingCache
