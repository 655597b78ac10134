import SlidingCache.Journal

/-!
# Reading with renewal

A read fetches the entry, deletes it if its absolute bound has passed, and starts its sliding window
anew by writing the fetched value over the fetched revision. If another writer came between, the
entry is fetched once more, only for its revision, and written again; a second conflict ends the
renewal without an error. The payload is always that of the first fetch.

A read is a machine. `ReadStage` says what it waits for, `ReadStage.call` is the store call that it
has asked for, and `ReadStage.resume` takes the answer and either asks for the next call or ends.
Every turn lowers `ReadStage.rank`, so a read makes at most five calls.
-/

namespace SlidingCache

inductive ReadStage where
  | fetching
  /-- Deletes the fetched value, whose bound has passed. -/
  | deleting (found : Held)
  /-- Writes the value fetched last over its revision; `last` if there is no further attempt. -/
  | renewing (payload : Bytes) (found : Held) (ttl : Duration) (last : Bool)
  | refetching (payload : Bytes)
  /-- Deletes the value of the second fetch, whose bound has passed. -/
  | deletingAgain (payload : Bytes) (found : Held)
  deriving DecidableEq

/-- What a turn says, and what comes next: another stage or the end. -/
structure Turn (stage α : Type) where
  notices : List Notice
  next : stage ⊕ Except CacheFault α

namespace ReadStage

/-- The store call that a read waits for. -/
def call (key : Text) : ReadStage → StoreCall
  | fetching | refetching _ => .get key
  | deleting found | deletingAgain _ found => .delete key (some found.revision)
  | renewing _ found ttl _ => .update key found.value found.revision (some ttl)

/-- Bounds the calls that are still to come. -/
def rank : ReadStage → Nat
  | fetching => 4
  | renewing _ _ _ false => 3
  | refetching _ => 2
  | renewing _ _ _ true => 1
  | deleting _ | deletingAgain .. => 0

abbrev ReadTurn := Turn ReadStage (Option Bytes)

def fail (notices : List Notice) (fault : CacheFault) : ReadTurn := ⟨notices, .inr (.error fault)⟩

/-- The end of a read that found a live entry. -/
def conclude (notices : List Notice) (label : Option RenewalLabel) (payload : Bytes) : ReadTurn :=
  ⟨notices ++ (label.map Notice.renewal).toList, .inr (.ok (some payload))⟩

def miss (notices : List Notice) : ReadTurn := ⟨notices ++ [.miss], .inr (.ok none)⟩

def log (line : LogLine) : Notice := .say line none

/-- Starts the window of a live entry anew, if it has one and its bound leaves time. -/
def renew (notices : List Notice) (payload : Bytes) (found : Held) (entry : Entry) (last : Bool)
    (now : Instant) : ReadTurn :=
  match entry.sliding with
  | none => conclude notices (if last then some .conceded else none) payload
  | some window =>
    match renewalTtl entry.absolute window now with
    | .error e => fail notices (.time e)
    | .ok ttl =>
      if ttl.isPositive then ⟨notices, .inl (.renewing payload found ttl last)⟩
      else conclude notices (some .skipped) payload

/-- After the first fetch. -/
def fetched (now : Instant) : Option Held → ReadTurn
  | none => miss []
  | some found =>
    match Entry.decode found.value with
    | .error e => fail [] (.corrupt e)
    | .ok entry =>
      match entry.isExpired now with
      | .error e => fail [] (.time e)
      | .ok true => ⟨[.expired], .inl (.deleting found)⟩
      | .ok false => renew [.hit] entry.payload found entry false now

/-- After the second fetch. -/
def refetched (payload : Bytes) (now : Instant) : Option Held → ReadTurn
  | none => conclude [] (some .conceded) payload
  | some found =>
    match Entry.decode found.value with
    | .error e => fail [] (.corrupt e)
    | .ok entry =>
      match entry.isExpired now with
      | .error e => fail [] (.time e)
      | .ok true => ⟨[.expired], .inl (.deletingAgain payload found)⟩
      | .ok false => renew [] payload found entry true now

/-- What is said after the delete of an expired entry; none for a failure that ends the read. -/
def deleted? (key : Text) : Except StoreFault Unit → Except StoreFault Notice
  | .ok _ => .ok (log (.expiredDeleted key))
  | .error (.conflict ..) => .ok (log (.expiredChanged key))
  | .error e => .error e

/-- The turn that the answer to the awaited call allows. -/
def resume (key : Text) (now : Instant) :
    (stage : ReadStage) → Except StoreFault (stage.call key).Reply → ReadTurn
  | .fetching, .ok found => fetched now found
  | .fetching, .error e => fail [] (.store e)
  | .deleting _, reply =>
    match deleted? key reply with
    | .ok notice => miss [notice]
    | .error e => fail [] (.store e)
  | .renewing payload _ _ _, .ok _ => conclude [] (some .renewed) payload
  | .renewing payload _ _ last, .error (.conflict ..) =>
    let notices := [.renewal .conflict, log (.raceLost key (if last then 2 else 1))]
    if last then conclude notices (some .conceded) payload
    else ⟨notices, .inl (.refetching payload)⟩
  | .renewing .., .error e => fail [] (.store e)
  | .refetching payload, .ok found => refetched payload now found
  | .refetching _, .error e => fail [] (.store e)
  | .deletingAgain payload _, reply =>
    match deleted? key reply with
    | .ok notice => conclude [notice] (some .conceded) payload
    | .error e => fail [] (.store e)

theorem rank_renew {notices payload found entry last now stage}
    (h : (renew notices payload found entry last now).next = .inl stage) :
    stage.rank ≤ if last then 1 else 3 := by
  unfold renew at h
  split at h
  · simp [conclude] at h
  · split at h
    · simp [fail] at h
    · split at h
      · simp only [Sum.inl.injEq] at h
        subst h; cases last <;> simp [rank]
      · simp [conclude] at h

theorem rank_resume {key now} {stage next : ReadStage} {reply}
    (h : (resume key now stage reply).next = .inl next) : next.rank < stage.rank := by
  cases stage with
  | fetching =>
    cases reply with
    | error e => simp [resume, fail] at h
    | ok found =>
      cases found with
      | none => simp [resume, fetched, miss] at h
      | some found =>
        simp only [resume, fetched] at h
        split at h
        · simp [fail] at h
        · split at h
          · simp [fail] at h
          · simp only [Sum.inl.injEq] at h
            subst h; simp [rank]
          · have := rank_renew h
            simp at this
            show next.rank < 4; omega
  | refetching payload =>
    cases reply with
    | error e => simp [resume, fail] at h
    | ok found =>
      cases found with
      | none => simp [resume, refetched, conclude] at h
      | some found =>
        simp only [resume, refetched] at h
        split at h
        · simp [fail] at h
        · split at h
          · simp [fail] at h
          · simp only [Sum.inl.injEq] at h
            subst h; simp [rank]
          · have := rank_renew h
            simp at this
            show next.rank < 2; omega
  | deleting found =>
    simp only [resume] at h
    split at h <;> simp [miss, fail] at h
  | deletingAgain payload found =>
    simp only [resume] at h
    split at h <;> simp [conclude, fail] at h
  | renewing payload found ttl last =>
    cases reply with
    | ok n => simp [resume, conclude] at h
    | error e =>
      cases e <;> simp only [resume] at h
      case conflict =>
        cases last
        · simp at h
          subst h; simp [rank]
        · simp [conclude] at h
      all_goals simp [fail] at h

/-! ## A read without interruption -/

/-- Runs a read to its end on a store that nobody else uses, at one reading of the clock. -/
def run {σ : Type} [Store σ] (key : Text) (now : Instant) (stage : ReadStage) (store : σ) :
    List Notice × Except CacheFault (Option Bytes) × σ :=
  let (reply, store) := Store.perform now (stage.call key) store
  match _h : (resume key now stage reply).next with
  | .inr result => ((resume key now stage reply).notices, result, store)
  | .inl next =>
    let (notices, result) := run key now next store
    ((resume key now stage reply).notices ++ notices, result)
termination_by stage.rank
decreasing_by exact rank_resume _h

end ReadStage

end SlidingCache
