import Mathlib.Data.List.Chain
import SlidingCache.Proofs.Sequence.Calls
import SlidingCache.Proofs.Shared.History
import SlidingCache.Proofs.Shared.Reading
import SlidingCache.Scenario

/-!
# A read in any environment

Between two calls of a read others may do with the store what they like, and any time may pass
(`Environment`). `ReadStage.runAmid` runs a read there and lists its calls.

What a turn of a read may lead to is said once (`ReadStage.Leads`). By it a read makes few calls
(`ReadStage.budget`), each of them follows on the one before it (`ReadCall.Follows`), and the payload
is settled by the first fetch (`ReadStage.Pays`). `AnyStore.course_runAmid` puts this together.
-/

namespace SlidingCache

/-- What goes on around a read, by the number of its call. -/
structure Environment (σ : Type) where
  /-- What others make of the store before the call. -/
  meanwhile : Nat → σ → σ
  /-- The clock of the store at the call. -/
  clock : Nat → Instant
  /-- The clock of the reader when it takes the answer. -/
  taken : Nat → Instant

/-- A call of a read, and when its answer was taken. -/
structure ReadCall (σ : Type) extends Access σ where
  taken : Instant

/-- The stored value is an entry with that payload whose bound has not passed. -/
def Held.Shows (found : Held) (now : Instant) (payload : Bytes) : Prop :=
  ∃ entry, Entry.decode found.value = .ok entry ∧ ¬ HasLapsed found.value now ∧
    entry.payload = payload

/-- The stored value is an entry with a window that is to start anew with that time to live. -/
def Held.Renews (found : Held) (now : Instant) (ttl : Duration) : Prop :=
  ∃ entry, Entry.decode found.value = .ok entry ∧ entry.renewal? now = some ttl ∧ ttl.isPositive

theorem Held.not_hasLapsed {value : Bytes} {entry : Entry} {now : Instant}
    (hdecode : Entry.decode value = .ok entry) (h : entry.isExpired now = .ok false) :
    ¬ HasLapsed value now := by
  rintro ⟨entry', bound, hdecode', hbound, hlt⟩
  obtain rfl : entry = entry' := Except.ok.inj (hdecode.symm.trans hdecode')
  rw [Entry.isExpired, hbound] at h
  obtain ⟨order, hcompare, horder⟩ := Chain.bind_eq_ok.1 h
  have hgt := (Instant.compare?_eq_ok_iff.1 hcompare).2
  rw [Int.compare_eq_gt.2 hlt] at hgt
  obtain rfl := hgt
  cases horder

theorem Entry.renewal?_eq {entry : Entry} {now : Instant} {window ttl : Duration}
    (hwindow : entry.sliding = some window) (h : renewalTtl entry.absolute window now = .ok ttl) :
    entry.renewal? now = some ttl := by
  rw [renewal?, hwindow, Option.map_some]
  cases habsolute : entry.absolute with
  | none =>
    rw [habsolute] at h
    exact congrArg some (Except.ok.inj h)
  | some bound =>
    rw [habsolute] at h
    obtain ⟨left, hleft, ⟨⟩⟩ := Chain.bind_eq_ok.1 h
    rw [Timeline.since?_instant, Instant.since?] at hleft
    split at hleft
    · cases hleft
      rfl
    · cases hleft

/-- The fault is that of a call that lost against another revision. -/
def CacheFault.IsConflict (fault : CacheFault) : Prop := ∃ key n, fault = .store (.conflict key n)

/-- The fault is one that is found before the store is asked: in the key, in the expiration or in
the header of the entry. -/
def CacheFault.isRefusal : CacheFault → Bool
  | invalidKey _ | plan _ | encode _ => true
  | _ => false

namespace ReadStage

variable {key : Text} {now : Instant}

/-! ## Turns -/

/-- The payload that a read is to end with, once the first fetch has settled it. -/
def payload? : ReadStage → Option Bytes
  | fetching | deleting _ => none
  | renewing payload .. | refetching payload | deletingAgain payload _ => some payload

/-- What a turn may lead to: the next stage, or the end of the read. -/
inductive Leads (key : Text) (now : Instant) : (stage : ReadStage) →
    Except StoreFault (stage.call key).Reply → ReadStage ⊕ Except CacheFault (Option Bytes) → Prop
  /-- A fetch fails. -/
  | unread {stage e} : (stage.call key).method = .get →
    Leads key now stage (.error e) (.inr (.error (.store e)))
  | failed {stage reply fault} : ¬ fault.IsConflict → fault.isRefusal = false →
    Leads key now stage reply (.inr (.error fault))
  | missing : Leads key now .fetching (.ok none) (.inr (.ok none))
  | lapsed {found} : HasLapsed found.value now →
    Leads key now .fetching (.ok (some found)) (.inl (.deleting found))
  | kept {found payload} : found.Shows now payload →
    Leads key now .fetching (.ok (some found)) (.inr (.ok (some payload)))
  | due {found payload ttl} : found.Shows now payload → found.Renews now ttl →
    Leads key now .fetching (.ok (some found)) (.inl (.renewing payload found ttl false))
  | deleted {found reply} : Leads key now (.deleting found) reply (.inr (.ok none))
  | ended {stage payload reply} : stage.payload? = some payload →
    Leads key now stage reply (.inr (.ok (some payload)))
  | lost {payload found ttl reply} :
    Leads key now (.renewing payload found ttl false) reply (.inl (.refetching payload))
  | lapsedAgain {payload found} : HasLapsed found.value now →
    Leads key now (.refetching payload) (.ok (some found)) (.inl (.deletingAgain payload found))
  | dueAgain {payload found ttl} : found.Renews now ttl →
    Leads key now (.refetching payload) (.ok (some found)) (.inl (.renewing payload found ttl true))

/-- What becomes of a live entry: its window starts anew, or the read ends. -/
theorem renew_cases (notices : List Notice) (payload : Bytes) {found : Held} {entry : Entry}
    (last : Bool) (now : Instant) (hdecode : Entry.decode found.value = .ok entry) :
    (∃ ttl, found.Renews now ttl ∧ (renew notices payload found entry last now).next =
        .inl (.renewing payload found ttl last)) ∨
      (renew notices payload found entry last now).next = .inr (.ok (some payload)) ∨
      ∃ e, (renew notices payload found entry last now).next = .inr (.error (.time e)) := by
  unfold renew
  split
  · exact .inr (.inl rfl)
  · rename_i window hwindow
    split
    · rename_i e _
      exact .inr (.inr ⟨e, rfl⟩)
    · rename_i ttl httl
      split
      · rename_i hpos
        exact .inl ⟨ttl, ⟨entry, hdecode, Entry.renewal?_eq hwindow httl, hpos⟩, rfl⟩
      · exact .inr (.inl rfl)

theorem leads_fetched (found? : Option Held) :
    Leads key now .fetching (.ok found?) (fetched now found?).next := by
  unfold fetched
  split
  · exact .missing
  · rename_i found
    split
    · exact .failed nofun rfl
    · rename_i entry hdecode
      split
      · exact .failed nofun rfl
      · rename_i hexpired
        exact .lapsed (hasLapsed_of_isExpired hdecode hexpired)
      · rename_i hexpired
        have hshows : found.Shows now entry.payload :=
          ⟨entry, hdecode, Held.not_hasLapsed hdecode hexpired, rfl⟩
        rcases renew_cases [.hit] entry.payload false now hdecode with
          ⟨ttl, hrenews, hnext⟩ | hnext | ⟨e, hnext⟩
        · exact hnext ▸ .due hshows hrenews
        · exact hnext ▸ .kept hshows
        · exact hnext ▸ .failed nofun rfl

theorem leads_refetched {payload : Bytes} (found? : Option Held) :
    Leads key now (.refetching payload) (.ok found?) (refetched payload now found?).next := by
  unfold refetched
  split
  · exact .ended rfl
  · rename_i found
    split
    · exact .failed nofun rfl
    · rename_i entry hdecode
      split
      · exact .failed nofun rfl
      · rename_i hexpired
        exact .lapsedAgain (hasLapsed_of_isExpired hdecode hexpired)
      · rcases renew_cases [] payload true now hdecode with
          ⟨ttl, hrenews, hnext⟩ | hnext | ⟨e, hnext⟩
        · exact hnext ▸ .dueAgain hrenews
        · exact hnext ▸ .ended rfl
        · exact hnext ▸ .failed nofun rfl

theorem deleted?_eq_error {reply : Except StoreFault Unit} {e : StoreFault}
    (h : deleted? key reply = .error e) : ¬ (CacheFault.store e).IsConflict := by
  rintro ⟨k, n, ⟨⟩⟩
  cases reply with
  | ok => cases h
  | error fault => cases fault <;> cases h

/-- **What a turn leads to.** -/
theorem leads_resume (stage : ReadStage) (reply : Except StoreFault (stage.call key).Reply) :
    Leads key now stage reply (resume key now stage reply).next := by
  cases stage with
  | fetching =>
    cases reply with
    | error e => exact .unread rfl
    | ok found? => exact leads_fetched found?
  | refetching payload =>
    cases reply with
    | error e => exact .unread rfl
    | ok found? => exact leads_refetched found?
  | deleting found =>
    simp only [resume]
    split
    · exact .deleted
    · exact .failed (deleted?_eq_error ‹_›) rfl
  | deletingAgain payload found =>
    simp only [resume]
    split
    · exact .ended rfl
    · exact .failed (deleted?_eq_error ‹_›) rfl
  | renewing payload found ttl last =>
    cases reply with
    | ok n => exact .ended rfl
    | error e =>
      cases e with
      | conflict k n =>
        cases last with
        | true => exact .ended rfl
        | false => exact .lost
      | _ =>
        refine .failed ?_ rfl
        rintro ⟨k, n, ⟨⟩⟩

/-! ## What a turn brings -/

/-- How many calls of a kind a read may still make. -/
def budget : ReadStage → StoreMethod → Nat
  | fetching, .get | fetching, .update | renewing _ _ _ false, .update => 2
  | fetching, .delete | deleting _, .delete | deletingAgain .., .delete => 1
  | renewing _ _ _ false, .get | renewing _ _ _ false, .delete | renewing _ _ _ true, .update => 1
  | refetching _, .get | refetching _, .update | refetching _, .delete => 1
  | _, _ => 0

end ReadStage

/-- What a fetch has found. -/
def StoreCall.found? : (call : StoreCall) → Except StoreFault call.Reply → Option Held
  | .get _, .ok found? => found?
  | _, _ => none

section
variable {σ : Type} [Store σ] {key : Text}

def ReadCall.found? (a : ReadCall σ) : Option Held := a.call.found? a.reply

/-- What a call of a read rests on: the call right before it. -/
inductive ReadCall.Follows (key : Text) (b a : ReadCall σ) : Prop
  /-- The entry is fetched once more. -/
  | fetch : a.call = .get key → Follows key b a
  /-- The value that was just fetched is written over its revision, for as long as its own window
  and bound allow. -/
  | renew {found ttl} : b.found? = some found → found.Renews b.taken ttl →
    a.call = .update key found.value found.revision (some ttl) → Follows key b a
  /-- The revision that was just fetched is deleted, for its bound has passed. -/
  | delete {found} : b.found? = some found → HasLapsed found.value b.taken →
    a.call = .delete key (some found.revision) → Follows key b a

namespace ReadStage

/-- What a read may end with if its next call is `a`: after the first fetch nothing changes it. -/
def Pays (stage : ReadStage) (a : ReadCall σ) (answer : Option Bytes) : Prop :=
  match stage with
  | fetching => ∀ payload, answer = some payload ↔
    ∃ found, a.found? = some found ∧ found.Shows a.taken payload
  | stage => answer = stage.payload?

/-- The call that a read makes on a store. -/
def callOn (stage : ReadStage) (key : Text) (s : σ) (now taken : Instant) : ReadCall σ :=
  ⟨⟨s, now, stage.call key⟩, taken⟩

variable {stage next : ReadStage} {s : σ} {now taken : Instant} {answer : Option Bytes}

theorem found?_callOn (stage : ReadStage) (key : Text) (s : σ) (now taken : Instant) :
    (stage.callOn key s now taken).found? =
      (stage.call key).found? (stage.callOn key s now taken).reply := rfl

theorem Leads.within {reply : Except StoreFault (stage.call key).Reply}
    (h : Leads key now stage reply (.inl next)) (m : StoreMethod) :
    next.budget m + (if (stage.call key).method = m then 1 else 0) ≤ stage.budget m := by
  cases h <;> cases m <;> simp [budget, call, StoreCall.method]

theorem within_end (key : Text) (stage : ReadStage) (m : StoreMethod) :
    (if (stage.call key).method = m then 1 else 0) ≤ stage.budget m := by
  cases stage with
  | renewing payload found ttl last =>
    cases last <;> cases m <;> simp [budget, call, StoreCall.method]
  | _ => cases m <;> simp [budget, call, StoreCall.method]

/-- What is called next rests on this call. -/
theorem Leads.follows {b : ReadCall σ}
    (h : Leads key taken stage (stage.callOn key s now taken).reply (.inl next))
    (hb : b.call = next.call key) : (stage.callOn key s now taken).Follows key b := by
  have hfound := found?_callOn stage key s now taken
  generalize (stage.callOn key s now taken).reply = reply at h hfound
  cases h with
  | lapsed hlapsed | lapsedAgain hlapsed => exact .delete hfound hlapsed hb
  | due _ hrenews | dueAgain hrenews => exact .renew hfound hrenews hb
  | lost => exact .fetch hb

theorem pays_some {a : ReadCall σ} {found : Held} {payload : Bytes}
    (hfound : a.found? = some found) (hshows : found.Shows a.taken payload) :
    fetching.Pays a (some payload) := by
  intro payload'
  constructor
  · rintro ⟨⟩
    exact ⟨found, hfound, hshows⟩
  · rintro ⟨found', hfound', entry', hdecode', -, rfl⟩
    obtain rfl : found = found' := Option.some.inj (hfound.symm.trans hfound')
    obtain ⟨entry, hdecode, -, rfl⟩ := hshows
    obtain rfl : entry = entry' := Except.ok.inj (hdecode.symm.trans hdecode')
    rfl

theorem pays_none {a : ReadCall σ}
    (h : ∀ found, a.found? = some found → HasLapsed found.value a.taken) :
    fetching.Pays a none := by
  intro payload
  constructor
  · rintro ⟨⟩
  · rintro ⟨found, hfound, entry, -, hlive, -⟩
    exact absurd (h found hfound) hlive

/-- What the read pays later it was to pay all along. -/
theorem Leads.pays {b : ReadCall σ}
    (h : Leads key taken stage (stage.callOn key s now taken).reply (.inl next))
    (hpays : next.Pays b answer) : stage.Pays (stage.callOn key s now taken) answer := by
  have hfound := found?_callOn stage key s now taken
  generalize (stage.callOn key s now taken).reply = reply at h hfound
  cases h with
  | lapsed hlapsed =>
    obtain rfl : answer = none := hpays
    refine pays_none fun found' hfound' => ?_
    obtain rfl := Option.some.inj (hfound.symm.trans hfound')
    exact hlapsed
  | due hshows =>
    obtain rfl := (show answer = some _ from hpays)
    exact pays_some hfound hshows
  | lost | lapsedAgain | dueAgain => exact hpays

theorem Leads.pays_end
    (h : Leads key taken stage (stage.callOn key s now taken).reply (.inr (.ok answer))) :
    stage.Pays (stage.callOn key s now taken) answer := by
  have hfound := found?_callOn stage key s now taken
  generalize (stage.callOn key s now taken).reply = reply at h hfound
  cases h with
  | missing => exact pays_none fun found' hfound' => nomatch hfound.symm.trans hfound'
  | kept hshows => exact pays_some hfound hshows
  | deleted => rfl
  | ended hpayload =>
    cases stage with
    | fetching | deleting => cases hpayload
    | _ => exact hpayload.symm

/-! ## Runs -/

/-- Runs a read from its call number `n` on to its end, others using the store in between. Lists its
calls, and what the read ends with. -/
def runAmid (env : Environment σ) (key : Text) (n : Nat) (stage : ReadStage) (s : σ) :
    List (ReadCall σ) × Except CacheFault (Option Bytes) :=
  let a := stage.callOn key (env.meanwhile n s) (env.clock n) (env.taken n)
  match _h : (resume key a.taken stage a.reply).next with
  | .inr result => ([a], result)
  | .inl next =>
    let (calls, result) := runAmid env key (n + 1) next a.after
    (a :: calls, result)
termination_by stage.rank
decreasing_by exact rank_resume _h

section
variable {env : Environment σ} {n : Nat} {a : ReadCall σ}
  (ha : a = stage.callOn key (env.meanwhile n s) (env.clock n) (env.taken n))
include ha

theorem runAmid_of_inr {result : Except CacheFault (Option Bytes)}
    (h : (resume key (env.taken n) stage (Store.perform (env.clock n) (stage.call key)
      (env.meanwhile n s)).1).next = .inr result) :
    runAmid env key n stage s = ([a], result) := by
  subst ha
  rw [runAmid]
  dsimp only
  split
  · rename_i heq
    obtain rfl := Sum.inr.inj (heq.symm.trans h)
    rfl
  · rename_i heq
    exact nomatch heq.symm.trans h

theorem runAmid_of_inl
    (h : (resume key (env.taken n) stage (Store.perform (env.clock n) (stage.call key)
      (env.meanwhile n s)).1).next = .inl next) :
    runAmid env key n stage s =
      (a :: (runAmid env key (n + 1) next a.after).1, (runAmid env key (n + 1) next a.after).2) := by
  subst ha
  rw [runAmid]
  dsimp only
  split
  · rename_i heq
    exact nomatch heq.symm.trans h
  · rename_i heq
    obtain rfl := Sum.inl.inj (heq.symm.trans h)
    rfl

end

/-- What is to be said of a read from a stage on. -/
structure Course (key : Text) (stage : ReadStage) (calls : List (ReadCall σ))
    (result : Except CacheFault (Option Bytes)) : Prop where
  pays : ∃ a rest, calls = a :: rest ∧ a.call = stage.call key ∧
    ∀ answer, result = .ok answer → stage.Pays a answer
  follows : calls.IsChain (ReadCall.Follows key)
  within : ∀ m, (calls.map (·.call.method)).count m ≤ stage.budget m
  noConflict : ∀ fault, result = .error fault → ¬ fault.IsConflict

/-- Fetches from a store never fail for a conflict. -/
def Agreeable (σ : Type) [Store σ] : Prop := ∀ (s : σ) (now : Instant) (call : StoreCall),
  call.method = .get → ∀ k n, (Store.perform now call s).1 ≠ .error (.conflict k n)

/-- The end of a read. -/
theorem Leads.course {result : Except CacheFault (Option Bytes)} (hagreeable : Agreeable σ)
    (h : Leads key taken stage (stage.callOn key s now taken).reply (.inr result)) :
    Course key stage [stage.callOn key s now taken] result where
  pays := by
    refine ⟨_, [], rfl, rfl, ?_⟩
    rintro answer rfl
    exact h.pays_end
  follows := .singleton _
  within m := by
    rw [List.map_singleton, List.count_singleton]
    simpa [callOn] using within_end key stage m
  noConflict := by
    have hfetch := hagreeable s now (stage.call key)
    rintro fault rfl hconflict
    change ∀ _, ∀ k n, (stage.callOn key s now taken).reply ≠ _ at hfetch
    generalize (stage.callOn key s now taken).reply = reply at h hfetch
    cases h with
    | failed hno => exact hno hconflict
    | unread hmethod =>
      obtain ⟨k, n, ⟨⟩⟩ := hconflict
      exact hfetch hmethod k n rfl

/-- One more call before the rest of a read. -/
theorem Course.cons {calls : List (ReadCall σ)} {result : Except CacheFault (Option Bytes)}
    (h : Course key next calls result)
    (hleads : Leads key taken stage (stage.callOn key s now taken).reply (.inl next)) :
    Course key stage (stage.callOn key s now taken :: calls) result := by
  obtain ⟨b, rest, rfl, hcall, hpays⟩ := h.pays
  exact {
    pays := ⟨_, _, rfl, rfl, fun answer hanswer => hleads.pays (hpays answer hanswer)⟩
    follows := .cons_cons (hleads.follows hcall) h.follows
    within := fun m => by
      rw [List.map_cons, List.count_cons]
      refine Nat.le_trans (Nat.add_le_add_right (h.within m) _) ?_
      simpa [callOn] using hleads.within m
    noConflict := h.noConflict }

theorem course_runAmid (hagreeable : Agreeable σ) (env : Environment σ) (key : Text) (n : Nat)
    (stage : ReadStage) (s : σ) :
    Course key stage (runAmid env key n stage s).1 (runAmid env key n stage s).2 := by
  induction n, stage, s using runAmid.induct env key with
  | case1 n stage s a result hnext =>
    rw [runAmid_of_inr rfl hnext]
    exact Leads.course hagreeable (hnext ▸ leads_resume stage _)
  | case2 n stage s a next hnext calls result hrest ih =>
    rw [runAmid_of_inl rfl hnext]
    exact ih.cons (hnext ▸ leads_resume stage _)

/-- Nobody else is there, and no time passes. -/
def Environment.still (σ : Type) (now : Instant) : Environment σ where
  meanwhile _ s := s
  clock _ := now
  taken _ := now

/-- Undisturbed, a read ends as it does on a store of its own. -/
theorem runAmid_still (key : Text) (now : Instant) (n : Nat) (stage : ReadStage) (s : σ) :
    (runAmid (Environment.still σ now) key n stage s).2 = (stage.run key now s).2.1 := by
  induction n, stage, s using runAmid.induct (Environment.still σ now) key with
  | case1 n stage s a result hnext =>
    have hrun : (stage.run key now s).2 = (result, a.after) := run_of_inr hnext
    rw [runAmid_of_inr rfl hnext, hrun]
  | case2 n stage s a next hnext calls result hrest ih =>
    have hrun : (stage.run key now s).2 = (next.run key now a.after).2 := run_of_inl hnext
    rw [runAmid_of_inl rfl hnext, hrun]
    exact ih

/-- What a read does and what it ends with. -/
structure Protocol (key : Text) (calls : List (ReadCall σ))
    (result : Except CacheFault (Option Bytes)) : Prop where
  /-- It fetches first, and unless it fails it ends with the payload of what this first fetch has
  found, if its bound had not passed then. -/
  first : ∃ a rest, calls = a :: rest ∧ a.call = .get key ∧
    ∀ answer, result = .ok answer → ∀ payload, answer = some payload ↔
      ∃ found, a.found? = some found ∧ found.Shows a.taken payload
  /-- Every later call rests on the call before it. -/
  follows : calls.IsChain (ReadCall.Follows key)
  gets : (calls.map (·.call.method)).count .get ≤ 2
  updates : (calls.map (·.call.method)).count .update ≤ 2
  deletes : (calls.map (·.call.method)).count .delete ≤ 1
  puts : (calls.map (·.call.method)).count .put = 0
  noConflict : ∀ k n, result ≠ .error (.store (.conflict k n))

end ReadStage

end

namespace AnyStore

theorem agreeable : ReadStage.Agreeable AnyStore := by
  intro s now call hmethod k n h
  cases call with
  | put | delete | update => cases hmethod
  | get key =>
    cases s with
    | memory s =>
      simp only [Store.perform, MemoryStore.get] at h
      split at h <;> cases h
    | redis s =>
      simp only [Store.perform, RedisStore.get] at h
      cases hkey : StoreKey.check key <;> rw [hkey] at h <;> cases h

/-- **The protocol holds in any environment.** -/
theorem protocol_runAmid (env : Environment AnyStore) (key : Text) (s : AnyStore) :
    let run := ReadStage.runAmid env key 0 .fetching s
    ReadStage.Protocol key run.1 run.2 := by
  have h := ReadStage.course_runAmid agreeable env key 0 .fetching s
  exact {
    first := h.pays
    follows := h.follows
    gets := h.within .get
    updates := h.within .update
    deletes := h.within .delete
    puts := Nat.le_zero.1 (h.within .put)
    noConflict := fun k n heq => h.noConflict _ heq ⟨k, n, rfl⟩ }

/-- An entry with a window of nine microseconds. -/
def windowed (payload : Bytes) : Bytes :=
  ("\x7b\"sldexp\":9\x7d" : Text).flatMap CodePoint.octets ++ Entry.lineFeed :: payload

/-- Somebody else writes the key before every second call. -/
def overtaking : Environment AnyStore where
  meanwhile n s :=
    if n % 2 = 1 then (Store.perform default (.put "k" (windowed [2]) none) s).2 else s
  clock _ := default
  taken _ := default

/-- A read that is overtaken twice gives up and ends with what it has found first. -/
example :
    let s := (Store.perform default (.put "k" (windowed [1]) none) (memory {})).2
    let run := ReadStage.runAmid overtaking "k" 0 .fetching s
    run.1.map (·.call.method) = [.get, .update, .get, .update] ∧
      run.2.toOption = some (some [1]) := by decide +kernel

end AnyStore

end SlidingCache
