import ClusterRedis.Glob
import ClusterRedis.KvScripts
import ClusterRedis.Runs

/-!
# The key/value store

The store's operations, each a call of one script, and the system they make
with the maintenance that runs beside them. Clients, replicas and the server
share one keyspace; a run is a list of events, and an event is whatever one
of them does in one step of the server:

* a client's operation, with the reading of that client's clock it sends;
* a maintenance script over a list of keys, read at some earlier time by
  whoever runs it – a prune's list comes from a listing, a sweep's from the
  expiry index, a backfill's from a scan;
* the marker of a complete index being set or deleted;
* time passing, which is also how keys expire.

What an operation can do to the server is said once (`call_change`).
-/

open Numerals

/-! ## Operations -/

/-- A signed 64-bit integer. -/
abbrev I64 := { n : ℤ // InI64 n }

theorem inI64_one : InI64 1 := by decide

/-- **An operation of the store**, with its arguments. -/
inductive KvOp where
  | get (key : String)
  | put (key : String) (value : List UInt8) (ttl : Option Duration)
  | putIfAbsent (key : String) (value : List UInt8) (ttl : Option Duration)
  | delete (key : String)
  | expire (key : String) (ttl : Option Duration)
  | incr (key : String) (delta : I64) (ttl : Option Duration)
  | incrFloor (key : String) (delta floor : I64) (ttl : Option Duration)

/-- The key an operation is on. -/
def KvOp.key : KvOp → String
  | get k | put k _ _ | putIfAbsent k _ _ | delete k | expire k _ | incr k _ _
  | incrFloor k _ _ _ => k

/-- The lifetime an operation is given. -/
def KvOp.ttl : KvOp → Option Duration
  | get _ | delete _ => none
  | put _ _ t | putIfAbsent _ _ t | expire _ t | incr _ _ t | incrFloor _ _ _ t => t

/-- A stored value, with the time it expires at. -/
structure Entry where
  bytes : List UInt8
  expiresAt : Option ℕ
  deriving DecidableEq

/-- The result of an operation. -/
inductive KvReply where
  | unit
  | bool (b : Bool)
  | int (n : ℤ)
  | entry (e : Option Entry)
  deriving DecidableEq

namespace RedisKv

/-- The lifetime a script is sent: `0` for none. -/
def ttlMs (ttl : Option Duration) : ℕ := ttl.elim 0 (fun d => clampMs d.asMillis)

section Calls

variable (lua : Lua) (drv : Driver) (p : String)

/-- The backend's error. -/
def redisErr (e : ScriptError) : ClusterError := .backendUnavailable ("redis: " ++ drv.display e)

/-- A counter script's error: with the counters' word a precondition, else
the backend's. -/
def incrErr (op key : String) (e : ScriptError) : ClusterError :=
  if Contains (drv.display e) incrPrecondition then
    .precondition ("redis " ++ op ++ " \x60" ++ key ++ "\x60: " ++ drv.display e)
  else redisErr drv e

/-- The entry of a value and its `PTTL`, to a client whose clock reads
`clock`. A key that expired between the two commands has no entry. -/
def entryOf (clock : ℕ) (bytes : Option (List UInt8)) (pttl : ℤ) : Option Entry :=
  bytes.bind (fun b =>
    if pttl = -2 then none
    else if 0 ≤ pttl then some ⟨b, some (clock + pttl.toNat)⟩
    else some ⟨b, none⟩)

/-- **Read a key**: `GET` and `PTTL` in one round trip. -/
def get (clock : ℕ) (key : String) : Call (Option Entry) :=
  Call.invoke (redisErr drv)
    (do
      let b ← Redis.get (fullKey p key)
      let ms ← Redis.pttl (fullKey p key)
      pure (entryOf clock b ms)) id

/-- **Store a value.** -/
def put (clock : ℕ) (key : String) (value : List UInt8) (ttl : Option Duration) : Call Unit :=
  Call.invoke (redisErr drv)
    (setLua (fullKey p key) (indexKey p) (expiryKey p) value (ttlMs ttl) clock false)
    (fun _ => ())

/-- **Store a value if there is none**, and say whether it was stored. -/
def putIfAbsent (clock : ℕ) (key : String) (value : List UInt8) (ttl : Option Duration) :
    Call Bool :=
  Call.invoke (redisErr drv)
    (setLua (fullKey p key) (indexKey p) (expiryKey p) value (ttlMs ttl) clock true)
    (fun stored => decide (stored = 1))

/-- **Delete a key**, and say whether there was one. -/
def delete (key : String) : Call Bool :=
  Call.invoke (redisErr drv) (delLua (fullKey p key) (indexKey p) (expiryKey p))
    (fun n => decide (0 < n))

/-- **Set or clear the lifetime of a key**, and say whether there was one. -/
def expire (clock : ℕ) (key : String) (ttl : Option Duration) : Call Bool :=
  Call.invoke (redisErr drv)
    (expireLua (fullKey p key) (indexKey p) (expiryKey p) (ttlMs ttl) clock)
    (fun updated => decide (updated = 1))

/-- **Add to a counter.** -/
def incr (clock : ℕ) (key : String) (delta : I64) (ttl : Option Duration) : Call ℤ :=
  Call.invoke (incrErr drv "incr" key)
    (incrLua (fullKey p key) (indexKey p) (expiryKey p) delta (ttlMs ttl) clock) id

/-- **Raise a counter to a floor, then add.** -/
def incrFloor (clock : ℕ) (key : String) (delta floor : I64) (ttl : Option Duration) : Call ℤ :=
  Call.invoke (incrErr drv "incr_floor" key)
    (incrFloorLua lua (fullKey p key) (indexKey p) (expiryKey p) delta (ttlMs ttl) clock floor) id

/-- An operation's result, as one type. -/
def reply {α : Type} (f : α → KvReply) (x : Call α) : Call KvReply := fun s =>
  ((x s).1.map f, (x s).2)

/-- **One operation**, by a client whose clock reads `clock`. -/
def call (clock : ℕ) : KvOp → Call KvReply
  | .get k => reply .entry (get drv p clock k)
  | .put k v t => reply (fun _ => .unit) (put drv p clock k v t)
  | .putIfAbsent k v t => reply .bool (putIfAbsent drv p clock k v t)
  | .delete k => reply .bool (delete drv p k)
  | .expire k t => reply .bool (expire drv p clock k t)
  | .incr k d t => reply .int (incr drv p clock k d t)
  | .incrFloor k d f t => reply .int (incrFloor lua drv p clock k d f t)

end Calls

/-! ## Maintenance -/

/-- **A key as a pattern that matches only itself.** -/
def globEscape (key : String) : String :=
  String.ofList (key.toList.flatMap (fun c => if Glob.specialChar c then ['\\', c] else [c]))

/-- Escaping characters is escaping bytes. -/
theorem utf8_globEscape (key : String) : utf8 (globEscape key) = Glob.escape (utf8 key) := by
  unfold utf8 globEscape Glob.escape
  rw [String.toList_ofList, List.flatMap_assoc, List.flatMap_assoc]
  refine List.flatMap_congr (fun c _ => ?_)
  have hc := Glob.escape_encodeChar c
  unfold Glob.escape at hc
  rw [hc]
  cases Glob.specialChar c with
  | true =>
    have hb : (String.utf8EncodeChar '\\').map UInt8.toNat = [Glob.bslash] := by decide
    rw [if_pos rfl, if_pos rfl, List.flatMap_cons, List.flatMap_singleton, hb]
    rfl
  | false => exact List.flatMap_singleton _ _

/-- A key matches a pattern. -/
def KeyMatch (pattern k : String) : Prop := Glob.globMatch (utf8 pattern) (utf8 k) = true

instance (pattern k : String) : Decidable (KeyMatch pattern k) :=
  inferInstanceAs (Decidable (_ = true))

/-- **An escaped string with a star behind it matches what starts with the
string.** -/
theorem keyMatch_globEscape {pre k : String} (h : pre ≠ "") :
    KeyMatch (globEscape pre ++ "*") k ↔ StartsWith pre k := by
  have hne : utf8 pre ≠ [] := fun he => h (utf8_injective (he.trans (by rfl)))
  rw [KeyMatch, utf8_append, utf8_globEscape, show utf8 "*" = [Glob.star] from rfl,
    Glob.globMatch_escape_star _ _ (Or.inl hne), decide_eq_true_iff, utf8_prefix_iff]
  rfl

/-- **An escaped string matches itself and nothing else.** -/
theorem keyMatch_globEscape_self {key k : String} : KeyMatch (globEscape key) k ↔ k = key := by
  rw [KeyMatch, utf8_globEscape, Glob.globMatch_escape, decide_eq_true_iff, eq_comm]
  exact utf8_injective.eq_iff

/-- The pattern of every data key. -/
def dataPattern (p : String) : String := if p = "" then "*" else globEscape p ++ ":*"

/-- **A scan for the data keys finds data keys.** -/
theorem keyMatch_dataPattern {p k : String} (hp : p ≠ "") :
    KeyMatch (dataPattern p) k ↔ IsDataKey p k := by
  have hpat : dataPattern p = globEscape (p ++ ":") ++ "*" := by
    refine String.toList_inj.mp ?_
    simp [dataPattern, hp, globEscape, Glob.specialChar]
  have hne : p ++ ":" ≠ "" := by
    intro h
    have := congrArg String.toList h
    simp at this
  rw [hpat, keyMatch_globEscape hne, isDataKey_iff hp]

/-- The keys of a scan's batch that a backfill indexes: the store's own
keys are left out. -/
def backfillBatch (p : String) (batch : List String) : List String :=
  batch.filter (fun k => decide (k ≠ indexKey p) && decide (k ≠ expiryKey p)
    && decide (k ≠ completeKey p))

/-- Record that the key index holds every live key, from a backfill that
started at a time. -/
def markIndexComplete (drv : Driver) (p : String) (startedAt : ℕ) : Call Unit :=
  Call.invoke (redisErr drv) (Redis.set (completeKey p) (ll2string startedAt) none false)
    (fun _ => ())

/-- Mark the key index incomplete. -/
def invalidateIndex (drv : Driver) (p : String) : Call Unit :=
  Call.invoke (redisErr drv) (Redis.delete (completeKey p)) (fun _ => ())

end RedisKv

/-! ## The system -/

/-- **One step of the server**: an operation, a script of the maintenance,
or time. -/
inductive KvEvent where
  | call (clock : ℕ) (op : KvOp)
  | prune (gone : List String)
  | sweep (clock : ℕ) (due : List String)
  | backfill (clock : ℕ) (batch : List String)
  | markComplete (startedAt : ℕ)
  | invalidate
  | tick (d : ℕ)

/-- **The store**, answering operations; maintenance and time have no
answer. -/
def kvSystem (lua : Lua) (drv : Driver) (p : String) :
    System Redis KvEvent (Option (Except ClusterError KvReply)) where
  step s
    | .call clock op => (some (RedisKv.call lua drv p clock op s).1,
        (RedisKv.call lua drv p clock op s).2)
    | .prune gone => (none, (pruneLua (indexKey p) (expiryKey p) gone s).2)
    | .sweep clock due => (none, (sweepLua (indexKey p) (expiryKey p) clock due s).2)
    | .backfill clock batch => (none,
        (backfillLua (indexKey p) (expiryKey p) clock (RedisKv.backfillBatch p batch) s).2)
    | .markComplete startedAt => (none, (RedisKv.markIndexComplete drv p startedAt s).2)
    | .invalidate => (none, (RedisKv.invalidateIndex drv p s).2)
    | .tick d => (none, s.tick d)

/-- **What the server promises of an event**: an operation's lifetime is one
the server accepts, and a backfill's batch matches the pattern it was
scanned with. -/
def Served (p : String) (s : Redis) : KvEvent → Prop
  | .call _ op => TtlOk s.now (RedisKv.ttlMs op.ttl)
  | .backfill _ batch => ∀ k ∈ batch, RedisKv.KeyMatch (RedisKv.dataPattern p) k
  | _ => True

instance (p : String) (s : Redis) : ∀ e, Decidable (Served p s e)
  | .call _ op => inferInstanceAs (Decidable (TtlOk s.now (RedisKv.ttlMs op.ttl)))
  | .backfill _ batch =>
    inferInstanceAs (Decidable (∀ k ∈ batch, RedisKv.KeyMatch (RedisKv.dataPattern p) k))
  | .prune _ => isTrue trivial
  | .sweep _ _ => isTrue trivial
  | .markComplete _ => isTrue trivial
  | .invalidate => isTrue trivial
  | .tick _ => isTrue trivial

/-! ## What an operation can do -/

/-- What becomes of a key's entry in the expiry index goes with what becomes
of its expiry. -/
def Due.Tracks (before after : Option ℕ) : Due → Prop
  | .at _ => after ≠ none
  | .clear => after = none
  | .keep => after = before

/-- **The changes an operation makes**: none, an object stored and indexed
at its key, or the key dropped. -/
inductive KvChange (p key : String) (s : Redis) : Redis → Prop
  | same : KvChange p key s s
  | store (o : Obj) (due : Due) (hlive : o.liveAt s.now = true)
      (hdue : due.Tracks ((s.lookup (fullKey p key)).bind Obj.expireAt) o.expireAt) :
      KvChange p key s (s.store (fullKey p key) (indexKey p) (expiryKey p) o due)
  | drop : KvChange p key s (s.drop (fullKey p key) (indexKey p) (expiryKey p))

theorem writeDue_tracks (clock now ttl : ℕ) (before : Option ℕ) :
    (writeDue clock ttl).Tracks before (deadline now ttl) := by
  unfold writeDue deadline
  split
  · simp [Due.Tracks]
  · rfl

theorem counterDue_tracks (clock : ℕ) (s : Redis) (data : String) (ttl : ℕ) :
    (counterDue clock ttl).Tracks ((s.lookup data).bind Obj.expireAt)
      (counterDeadline s data ttl) := by
  unfold counterDue counterDeadline
  split
  · simp [Due.Tracks]
  · rfl

/-- An expiry just set is not past. -/
theorem liveAt_deadline (v : Value) (now ttl : ℕ) :
    Obj.liveAt ⟨v, deadline now ttl⟩ now = true := by
  unfold deadline
  split
  · simp [Obj.liveAt]
  · rfl

theorem liveAt_counterDeadline (v : Value) (s : Redis) (data : String) (ttl : ℕ) :
    Obj.liveAt ⟨v, counterDeadline s data ttl⟩ s.now = true := by
  unfold counterDeadline
  split
  · simp [Obj.liveAt]
  · exact (Redis.liveAt_counted data 0 : (s.counted data 0).liveAt s.now = true)

section Change

variable {p : String} {s : Redis}

/-- A read changes nothing. -/
theorem RedisKv.call_get (lua : Lua) (drv : Driver) (clock : ℕ) (key : String) :
    (RedisKv.call lua drv p clock (.get key) s).2 = s := by
  simp only [RedisKv.call, RedisKv.reply, RedisKv.get, Call.invoke_snd]
  have hg : (Redis.get (fullKey p key) s).2 = s := get_snd
  cases hr : Redis.get (fullKey p key) s with
  | mk r t =>
    rw [hr] at hg
    subst hg
    cases r with
    | error e => rw [Script.bind_error hr]
    | ok b => rw [Script.bind_ok hr]; rfl

/-- A counter script, once it has its step, is one of these changes. -/
theorem incrTail_change (hp : p ≠ "") (h : IndexTyped p s) {key : String} {d : Option ℤ}
    {ttl clock : ℕ} (hok : TtlOk s.now ttl) :
    KvChange p key s
      (incrTail (fullKey p key) (indexKey p) (expiryKey p) d ttl clock s).2 := by
  cases hc : s.count (fullKey p key) d with
  | error e =>
    rw [incrTail_error hc]
    exact .same
  | ok n =>
    rw [incrTail_stored h.index h.expiry (fullKey_ne_indexKey hp key).symm
      (fullKey_ne_expiryKey hp key).symm hok hc]
    exact .store _ _ (liveAt_counterDeadline _ s _ _) (counterDue_tracks clock s _ _)

/-- **What an operation can do to the server**, when its lifetime is one the
server accepts. -/
theorem call_change (lua : Lua) (drv : Driver) (hp : p ≠ "") (h : IndexTyped p s) (clock : ℕ)
    (op : KvOp) (hok : TtlOk s.now (RedisKv.ttlMs op.ttl)) :
    KvChange p op.key s (RedisKv.call lua drv p clock op s).2 := by
  have hid : ∀ key, indexKey p ≠ fullKey p key := fun key => (fullKey_ne_indexKey hp key).symm
  have hed : ∀ key, expiryKey p ≠ fullKey p key := fun key => (fullKey_ne_expiryKey hp key).symm
  cases op with
  | get key =>
    rw [RedisKv.call_get]
    exact .same
  | put key v ttl =>
    replace hok : TtlOk s.now (RedisKv.ttlMs ttl) := hok
    simp only [RedisKv.call, RedisKv.reply, RedisKv.put, Call.invoke_snd, KvOp.key]
    rw [setLua_stored h.index h.expiry (hid key) (hed key) hok
      (fun hn => absurd hn Bool.false_ne_true)]
    exact .store _ _ (liveAt_deadline _ _ _) (writeDue_tracks _ _ _ _)
  | putIfAbsent key v ttl =>
    replace hok : TtlOk s.now (RedisKv.ttlMs ttl) := hok
    simp only [RedisKv.call, RedisKv.reply, RedisKv.putIfAbsent, Call.invoke_snd, KvOp.key]
    by_cases hl : s.Live (fullKey p key)
    · rw [setLua_held hok hl]
      exact .same
    · rw [setLua_stored h.index h.expiry (hid key) (hed key) hok (fun _ => hl)]
      exact .store _ _ (liveAt_deadline _ _ _) (writeDue_tracks _ _ _ _)
  | delete key =>
    simp only [RedisKv.call, RedisKv.reply, RedisKv.delete, Call.invoke_snd, KvOp.key]
    rw [delLua_run h.index h.expiry (hid key) (hed key)]
    exact .drop
  | expire key ttl =>
    replace hok : TtlOk s.now (RedisKv.ttlMs ttl) := hok
    simp only [RedisKv.call, RedisKv.reply, RedisKv.expire, Call.invoke_snd, KvOp.key]
    cases hl : s.lookup (fullKey p key) with
    | none =>
      rw [expireLua_absent (by rw [Redis.Live, hl]; simp)]
      exact .same
    | some o =>
      rw [expireLua_stored h.index h.expiry (hid key) (hed key) hok hl]
      exact .store _ _ (liveAt_deadline _ _ _) (writeDue_tracks _ _ _ _)
  | incr key d ttl =>
    simp only [RedisKv.call, RedisKv.reply, RedisKv.incr, Call.invoke_snd, KvOp.key]
    exact incrTail_change hp h hok
  | incrFloor key d f ttl =>
    simp only [RedisKv.call, RedisKv.reply, RedisKv.incrFloor, Call.invoke_snd, KvOp.key]
    cases ha : floorAmount lua s (fullKey p key) d f with
    | none =>
      obtain ⟨e, he, -⟩ := incrFloorLua_none (indexKey p) (expiryKey p) (RedisKv.ttlMs ttl) clock ha
      rw [he]
      exact .same
    | some a =>
      rw [incrFloorLua_some ha]
      exact incrTail_change hp h hok

end Change
