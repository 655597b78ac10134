import SlidingCache.Journal
import SlidingCache.Table

/-!
# Counters

How often reads found a live entry, missed, or met an expired one, how renewals went, and how many
operations there were. `Counters.ofJournal` counts what a journal holds.
-/

namespace SlidingCache

structure Counters where
  hits : Nat := 0
  misses : Nat := 0
  expired : Nat := 0
  /-- By label, in the order in which labels came up. -/
  renewals : Table Text Nat := []
  /-- By operation, in the order in which operations came up. -/
  operations : Table Text Nat := []
  deriving DecidableEq, Inhabited

namespace Counters

/-- Counts one more under a label. -/
def countUp (label : Text) (t : Table Text Nat) : Table Text Nat :=
  t.put label ((t.get? label).getD 0 + 1)

def count (c : Counters) : Notice → Counters
  | .hit => { c with hits := c.hits + 1 }
  | .miss => { c with misses := c.misses + 1 }
  | .expired => { c with expired := c.expired + 1 }
  | .renewal label => { c with renewals := countUp label.name c.renewals }
  | .operation operation => { c with operations := countUp operation.name c.operations }
  | .say .. => c

def ofJournal (journal : List Remark) : Counters :=
  journal.foldl (fun c r => c.count r.notice) {}

/-- Whether nothing has been counted. -/
def isEmpty (c : Counters) : Bool := c == {}

end Counters

end SlidingCache
