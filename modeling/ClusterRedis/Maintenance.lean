import ClusterRedis.Footprint
import ClusterRedis.KvGaps
import ClusterRedis.Peer
import ClusterRedis.Runs

/-!
# The upkeep of the key index

Every replica runs a task that at each tick lists the registrations, lets
listings read the key index or not, and – on the replica that holds the
sweep lock – completes the index: a backfill, then a fresh look for builds
that do not keep it, then the mark. An operator can have the index completed
too; there the look comes first.

None of this is atomic. A task is a sequence of commands and of accesses to
what its process shares – whether listings read the index, and the last scan
for registrations with its lock – and between any two of them every other
task, client and build may act. So a task is a `Stage`: the next command,
with what the task has read so far. A step of the fleet takes one command of
one task, one operation of a client, one write of an older build, or time.

What a statement about a completion speaks of – the keys that have been
there since its scan began, the builds that have been registered since it
forgot the last scan – is in no variable of the code. It is kept beside it,
in `TaskBooks`: written at the steps that begin such a stretch, and cut down
after every step to what still holds (`TaskBooks.note`).
-/

open RedisKv Numerals

/-! ## Tasks -/

/-- What a task does. -/
inductive Duty where
  /-- The maintenance of a replica. -/
  | maintenance
  /-- `complete_key_index`. -/
  | operator
  /-- `list_peers` and `watch_peers`. -/
  | peers

/-- Who lists the registrations. -/
inductive Caller where
  | tick
  | completion (started : ℕ)
  | operator
  | peers

/-- **Where a task stands**: the command it sends next, or what it waits
for. -/
inductive Stage where
  | idle
  /-- `list_registrations`: the node ids of the sorted set, -/
  | range (c : Caller)
  /-- dropping those that are past, -/
  | trim (c : Caller) (ids : List String) (now : ℕ)
  /-- their registrations, -/
  | read (c : Caller) (ids : List String)
  /-- the lock of the last scan, -/
  | enter (c : Caller) (ids : List String) (found : List Registration)
  /-- a step of a scan of the registrations, -/
  | scan (c : Caller) (ids : List String) (found : List Registration) (cursor : UInt64)
      (keys : List String)
  /-- and reading what it found. -/
  | fetch (c : Caller) (ids : List String) (found : List Registration) (keys : List String)
  /-- `gate_index`: an older build was listed, -/
  | invalidate (seen : List String)
  /-- or none was; whether the index is marked complete, -/
  | ask
  /-- and the answer. -/
  | told (complete : Bool)
  /-- The sweep lock. -/
  | lock (unindexed : Bool)
  /-- The sweep. -/
  | sweep (unindexed : Bool)
  /-- `backfill_index`: a step of a scan of the data keys, -/
  | backfill (operator : Bool) (started : ℕ) (cursor : UInt64)
  /-- and indexing its batch. -/
  | index (operator : Bool) (started : ℕ) (batch : List String) (next : UInt64)
  /-- The lock of the last scan, to forget it. -/
  | forget (c : Caller)
  /-- `mark_index_complete`. -/
  | mark (operator : Bool) (started : ℕ)
  /-- Listings may read the index. -/
  | ready

/-- **What a step is given**: the clocks, what the server replies to `SCAN`,
whether the sweep lock is held, and whether the connection fails – before
the command ran (`some false`) or after (`some true`). -/
structure Turn where
  clock : ℕ
  instant : ℕ
  reply : UInt64 × List String
  held : Bool
  fault : Option Bool

/-- **What is kept beside a task.** -/
structure TaskBooks where
  /-- The keys that have been there since the backfill's scan began, -/
  since : String → Prop
  /-- the keys that scan has returned, -/
  done : List String
  /-- the older builds that have created a data key since, -/
  creators : String → Prop
  /-- and what made replicas invalidate the index since. -/
  doubts : List (List String)
  /-- The older builds that had created one when the last scan was forgotten, -/
  before : String → Prop
  /-- the data keys that have been there since then, -/
  kept : String → Prop
  /-- the nodes that have been registered since then as older builds are, -/
  enrolled : String → Prop
  /-- and those that were when the scan ended that was then used. -/
  checked : String → Prop
  /-- The keys that have been there since a scan of the registrations began. -/
  scanned : String → Prop

/-- Nothing is kept yet. -/
def TaskBooks.blank : TaskBooks :=
  ⟨fun _ => False, [], fun _ => False, [], fun _ => False, fun _ => False, fun _ => False,
    fun _ => False, fun _ => False⟩

/-- **After every step**, what is kept is what still holds. -/
def TaskBooks.note (p : String) (creator : Option String) (s : Redis) (b : TaskBooks) :
    TaskBooks :=
  { b with
    since := fun k => b.since k ∧ s.Live k
    creators := fun id => b.creators id ∨ creator = some id
    kept := fun k => b.kept k ∧ s.Live k
    enrolled := fun id => b.enrolled id ∧ Registered p s id
    scanned := fun k => b.scanned k ∧ s.Live k }

/-- A backfill begins. -/
def TaskBooks.begun (s : Redis) (b : TaskBooks) : TaskBooks :=
  { b with
    since := s.Live
    done := []
    creators := fun _ => False
    doubts := [] }

/-! ## The fleet -/

/-- **A fleet**: tasks `ι` in processes `π`. -/
structure Fleet (ι π : Type) where
  lua : Lua
  drv : Driver
  /-- `key_prefix`. -/
  p : String
  /-- `peer_ttl_ms`. -/
  peerTtlMs : ℕ
  home : ι → π
  duty : ι → Duty
  /-- The node ids of older builds. -/
  older : String → Prop

/-- How old the last scan may be. -/
def Fleet.maxAge {ι π : Type} (F : Fleet ι π) : ℕ := min 30000 F.peerTtlMs

/-- **A scan of the registrations**: when it ended and what it found; and
for every task the nodes that were enrolled at its end. -/
structure PeerScan (ι : Type) where
  took : ℕ
  found : List Registration
  enrolled : ι → String → Prop

/-- **The state of a fleet.** -/
structure FleetWorld (ι π : Type) where
  redis : Redis
  /-- Whether a process lets listings read the index. -/
  ready : π → Bool
  last : π → Option (PeerScan ι)
  /-- Which task has the lock of the last scan. -/
  holder : π → Option ι
  stage : ι → Stage
  /-- When a task last saw an older build. -/
  unindexedSeen : ι → Option ℕ
  books : ι → TaskBooks
  /-- The index has been invalidated since the backfill began that marked
  it. -/
  stale : Prop

/-- **A step of the fleet.** -/
inductive FleetEvent (ι : Type) where
  /-- A client of a current build, a sweep or prune of one, or time. -/
  | kv (e : KvEvent)
  /-- An older build, by its node id, writes a data key. -/
  | olderWrite (id key : String) (o : Obj)
  | olderDelete (key : String)
  /-- A key that is none of the store's is written or deleted: a
  registration, a lease. -/
  | outside (k : String) (o : Option Obj)
  | task (i : ι) (t : Turn)

section Steps

variable {ι π : Type} [DecidableEq ι] [DecidableEq π] {α : Type}

namespace FleetWorld

/-- The task goes on with a stage. -/
def goto (w : FleetWorld ι π) (i : ι) (st : Stage) : FleetWorld ι π :=
  { w with stage := Function.update w.stage i st }

/-- What is kept beside a task is rewritten. -/
def book (w : FleetWorld ι π) (i : ι) (b : TaskBooks) : FleetWorld ι π :=
  { w with books := Function.update w.books i b }

/-- **Send a command**: it may fail before the server ran it or after, or
the server may refuse it. -/
def send (w : FleetWorld ι π) (t : Turn) (x : Script α)
    (ok : α → FleetWorld ι π → FleetWorld ι π) (err : FleetWorld ι π → FleetWorld ι π) :
    FleetWorld ι π :=
  match t.fault with
  | some false => err w
  | some true => err { w with redis := (x w.redis).2 }
  | none => match (x w.redis).1 with
    | .ok a => ok a { w with redis := (x w.redis).2 }
    | .error _ => err { w with redis := (x w.redis).2 }

end FleetWorld

variable (F : Fleet ι π)

namespace Fleet

/-- **The registrations are listed**, and the caller goes on. -/
def concluded (w : FleetWorld ι π) (i : ι) (t : Turn) (c : Caller) (ids : List String)
    (found : List Registration) (sc : PeerScan ι) : FleetWorld ι π :=
  let rs := listedRegistrations ids found sc.found
  match c with
  | .tick =>
    if unindexedPeer rs then
      { w with
        unindexedSeen := Function.update w.unindexedSeen i (some t.instant)
        ready := Function.update w.ready (F.home i) false }.goto i
        (.invalidate (unindexedIds rs))
    else w.goto i .ask
  | .completion started =>
    if unindexedPeer rs then w.goto i .idle
    else (w.book i { w.books i with checked := sc.enrolled i }).goto i (.mark false started)
  | .operator =>
    if unindexedPeer rs then w.goto i .idle
    else (w.book i { w.books i with checked := sc.enrolled i }).goto i (.backfill true t.clock 0)
  | .peers => w.goto i .idle

/-- The lock of the last scan is given up. -/
def unlock (w : FleetWorld ι π) (i : ι) : FleetWorld ι π :=
  { w with holder := Function.update w.holder (F.home i) none }

/-- After a batch of the backfill: the next step of the scan, or what comes
after the backfill. -/
def afterBatch (operator : Bool) (started : ℕ) (next : UInt64) : Stage :=
  if next ≠ 0 then .backfill operator started next
  else if operator then .mark true started
  else .forget (.completion started)

/-- An older build was last seen long enough ago. -/
def settled (w : FleetWorld ι π) (i : ι) (t : Turn) : Bool :=
  (w.unindexedSeen i).all (fun seen => decide (F.peerTtlMs ≤ t.instant - seen))

/-- **A step of a task.** -/
def taskStep (w : FleetWorld ι π) (i : ι) (t : Turn) : FleetWorld ι π :=
  match w.stage i with
  | .idle => match F.duty i with
    | .maintenance => w.goto i (.range .tick)
    | .operator => w.goto i (.forget .operator)
    | .peers => w.goto i (.range .peers)
  | .range c =>
    w.send t (Redis.zrangebyscore (peersIndexKey F.p) (Double.round t.clock))
      (fun ids w => w.goto i (.trim c ids t.clock)) (fun w => w.goto i .idle)
  | .trim c ids now =>
    w.send t (Redis.zremrangebyscore (peersIndexKey F.p) (Double.round now))
      (fun _ w => w.goto i (.read c ids)) (fun w => w.goto i .idle)
  | .read c ids =>
    w.send t (Redis.mget (ids.map (peerKey F.p)))
      (fun values w => match readRegistrations F.p (ids.map (peerKey F.p)) values with
        | some found => w.goto i (.enter c ids found)
        | none => w.goto i .idle)
      (fun w => w.goto i .idle)
  | .enter c ids found => match w.holder (F.home i) with
    -- another task of the process is scanning
    | some _ => w
    | none => match (w.last (F.home i)).filter (fun sc => t.instant - sc.took < F.maxAge) with
      | some sc => F.concluded w i t c ids found sc
      | none => { w with holder := Function.update w.holder (F.home i) (some i) }.goto i
          (.scan c ids found 0 [])
  | .scan c ids found cursor keys =>
    if t.fault.isSome then (F.unlock w i).goto i .idle
    else
      (w.book i { w.books i with
        scanned := if cursor = 0 then w.redis.Live else (w.books i).scanned }).goto i
        (if t.reply.1 = 0 then .fetch c ids found (keys ++ t.reply.2)
          else .scan c ids found t.reply.1 (keys ++ t.reply.2))
  | .fetch c ids found keys =>
    w.send t (Redis.mget keys)
      (fun values w => match readRegistrations F.p keys values with
        | some rs =>
          let sc : PeerScan ι := ⟨t.instant, rs, fun j => (w.books j).enrolled⟩
          F.concluded (F.unlock { w with last := Function.update w.last (F.home i) (some sc) } i)
            i t c ids found sc
        | none => (F.unlock w i).goto i .idle)
      (fun w => (F.unlock w i).goto i .idle)
  | .invalidate seen =>
    if t.fault = some false then w.goto i (.lock true)
    else
      { w with
        redis := (invalidateIndex F.drv F.p w.redis).2
        books := fun j => { w.books j with doubts := seen :: (w.books j).doubts }
        stale := True }.goto i
        (.lock true)
  | .ask =>
    w.send t (Redis.existsKey (completeKey F.p))
      (fun n w => w.goto i (.told (decide (0 < n)))) (fun w => w.goto i (.lock false))
  | .told complete =>
    { w with ready := Function.update w.ready (F.home i) complete }.goto i (.lock false)
  | .lock unindexed => w.goto i (if t.held then .sweep unindexed else .idle)
  | .sweep unindexed =>
    -- the commands of the sweep are steps of their own
    w.goto i (if unindexed = false ∧ F.settled w i t = true ∧ w.ready (F.home i) = false then
      .backfill false t.clock 0 else .idle)
  | .backfill operator started cursor =>
    if t.fault.isSome then w.goto i .idle
    else
      let b := if cursor = 0 then (w.books i).begun w.redis else w.books i
      (w.book i { b with done := b.done ++ t.reply.2 }).goto i
        (if backfillBatch F.p t.reply.2 = [] then afterBatch operator started t.reply.1
          else .index operator started (backfillBatch F.p t.reply.2) t.reply.1)
  | .index operator started batch next =>
    w.send t (backfillLua (indexKey F.p) (expiryKey F.p) t.clock batch)
      (fun _ w => w.goto i (afterBatch operator started next)) (fun w => w.goto i .idle)
  | .forget c => match w.holder (F.home i) with
    | some _ => w
    | none =>
      ({ w with last := Function.update w.last (F.home i) none }.book i
        { w.books i with
          before := (w.books i).creators
          kept := fun k => IsDataKey F.p k ∧ w.redis.Live k
          enrolled := Registered F.p w.redis }).goto i (.range c)
  | .mark _ started =>
    if t.fault = some false then w.goto i .idle
    else
      { w with
        redis := (markIndexComplete F.drv F.p started w.redis).2
        stale := (w.books i).doubts ≠ [] }.goto i (if t.fault = none then .ready else .idle)
  | .ready => { w with ready := Function.update w.ready (F.home i) true }.goto i .idle

/-- What a step does to the server and the tasks. -/
def act (w : FleetWorld ι π) : FleetEvent ι → FleetWorld ι π
  | .kv e => { w with redis := ((kvSystem F.lua F.drv F.p).step w.redis e).2 }
  | .olderWrite _ key o => { w with redis := w.redis.put (fullKey F.p key) o }
  | .olderDelete key => { w with redis := w.redis.del (fullKey F.p key) }
  | .outside k o => { w with redis := w.redis.update k (some o) }
  | .task i t => F.taskStep w i t

/-- The older build that creates a data key. -/
def creator (w : FleetWorld ι π) : FleetEvent ι → Option String
  | .olderWrite id key _ => if w.redis.Live (fullKey F.p key) then none else some id
  | _ => none

/-- **The fleet.** -/
def system : System (FleetWorld ι π) (FleetEvent ι) Unit where
  step w e := ((), { F.act w e with
    books := fun i => ((F.act w e).books i).note F.p (F.creator w e) (F.act w e).redis })

/-- **The promise of `SCAN`**: it has returned every key that matches and
that has been there since its first step. -/
def ScanPromise (pattern : String) (since : String → Prop) (returned : List String) : Prop :=
  ∀ k, KeyMatch pattern k → since k → k ∈ returned

/-- **What is taken for granted of a step**: the server keeps its promise at
the last step of a scan, an older build's node id is its own, and the keys
of the store are written by nothing else. -/
def Promised (w : FleetWorld ι π) : FleetEvent ι → Prop
  | .kv (.markComplete _) => False
  | .kv .invalidate => False
  | .kv _ => True
  | .olderWrite id _ _ => F.older id
  | .olderDelete _ => True
  | .outside k o => Foreign F.p k ∧ k ≠ completeKey F.p
      ∧ (k = peersIndexKey F.p → ∀ id, F.older id → ¬ (w.redis.update k (some o)).Mem k id)
  | .task i t => t.fault = none → t.reply.1 = 0 → match w.stage i with
    | .backfill _ _ cursor => ScanPromise (dataPattern F.p)
        (fun k => w.redis.Live k ∧ (cursor = 0 ∨ (w.books i).since k))
        ((if cursor = 0 then [] else (w.books i).done) ++ t.reply.2)
    | .scan _ _ _ cursor keys => ScanPromise (peersPattern F.p)
        (fun k => w.redis.Live k ∧ (cursor = 0 ∨ (w.books i).scanned k)) (keys ++ t.reply.2)
    | _ => True

/-- **No current build leaves a key unlisted**: no counter on an absent key
is refused its lifetime. -/
def Tended (w : FleetWorld ι π) : FleetEvent ι → Prop
  | .kv e => Tidy F.lua F.p w.redis e
  | _ => True

/-- Tasks that have not begun, in a store with typed indexes where no older
build's id is in the sorted set. -/
structure Starts (w : FleetWorld ι π) : Prop where
  typed : IndexTyped F.p w.redis
  peers : ∀ id, F.older id → ¬ w.redis.Mem (peersIndexKey F.p) id
  stage : ∀ i, w.stage i = .idle
  holder : ∀ x, w.holder x = none
  books : ∀ i, w.books i = TaskBooks.blank
  stale : ¬ w.stale

end Fleet

end Steps
