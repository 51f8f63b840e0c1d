import ClusterRedis.Client

/-!
# The scripts of the key/value store

Every write of the store is one script over three keys: the data key, the
key index and the expiry index. This module has the keys and the eight
scripts, and for each script what it computes in a store whose two indexes
are sorted sets without expiry (`IndexTyped`): the outcome, and the state
written as the changes it makes, in order.

The closed forms are what the rest of the development reads. They show
where the scripts differ. A write validates its expiry before it stores; a
counter stores first, so its expiry can still be refused after the value has
changed. And a counter that is given no expiry leaves the expiry index
alone, where a write clears it.
-/

open Numerals Script

/-! ## Keys -/

/-- A listing or a key starts with a string. -/
def StartsWith (pre s : String) : Prop := pre.toList <+: s.toList

instance (pre s : String) : Decidable (StartsWith pre s) :=
  inferInstanceAs (Decidable (pre.toList <+: s.toList))

/-- `str::strip_prefix`. -/
def stripStart (pre s : String) : Option String :=
  if StartsWith pre s then some (String.ofList (s.toList.drop pre.toList.length)) else none

/-- The key index: every data key, score `0`. -/
def indexKey (p : String) : String := p ++ "#kv-index"

/-- The expiry index: every data key with an expiry, scored by it. -/
def expiryKey (p : String) : String := p ++ "#kv-expiry"

/-- When the key index was last made complete. -/
def completeKey (p : String) : String := p ++ "#kv-index-complete"

/-- **The server key of a caller's key.** -/
def fullKey (p key : String) : String := if p = "" then key else p ++ ":" ++ key

/-- **The caller's key of a server key.** -/
def logicalKey (p full : String) : String :=
  if p = "" then full else (stripStart (p ++ ":") full).getD full

/-- A server key some caller's key maps to. -/
def IsDataKey (p k : String) : Prop := ∃ c, k = fullKey p c

theorem fullKey_of_ne {p : String} (hp : p ≠ "") (key : String) :
    fullKey p key = p ++ ":" ++ key := if_neg hp

theorem fullKey_injective (p : String) : Function.Injective (fullKey p) := by
  intro k l h
  unfold fullKey at h
  split at h
  · exact h
  · have := congrArg String.toList h
    simpa only [String.toList_append, List.append_assoc, List.append_cancel_left_eq,
      String.toList_inj] using this

/-- A key is under a string exactly when it is that string and more. -/
theorem startsWith_iff {pre s : String} : StartsWith pre s ↔ ∃ t, s = pre ++ t := by
  constructor
  · rintro ⟨t, ht⟩
    refine ⟨String.ofList t, String.toList_inj.mp ?_⟩
    rw [String.toList_append, String.toList_ofList, ht]
  · rintro ⟨t, rfl⟩
    exact ⟨t.toList, String.toList_append.symm⟩

theorem stripStart_append (pre t : String) : stripStart pre (pre ++ t) = some t := by
  rw [stripStart, if_pos (startsWith_iff.mpr ⟨t, rfl⟩), String.toList_append,
    List.drop_left, String.ofList_toList]

/-- **A caller's key is read back from its server key.** -/
@[simp] theorem logicalKey_fullKey (p key : String) : logicalKey p (fullKey p key) = key := by
  unfold logicalKey fullKey
  split
  · rfl
  · rw [stripStart_append, Option.getD_some]

/-- The data keys are the keys under the prefix and a colon. -/
theorem isDataKey_iff {p k : String} (hp : p ≠ "") : IsDataKey p k ↔ StartsWith (p ++ ":") k := by
  unfold IsDataKey
  rw [startsWith_iff]
  exact exists_congr (fun c => by rw [fullKey_of_ne hp])

/-- **The indexes are out of every data key's way**: behind the prefix a
data key has a colon and an index a hash sign. -/
theorem fullKey_ne_hash {p : String} (hp : p ≠ "") (key t : String) :
    fullKey p key ≠ p ++ ("#" ++ t) := by
  rw [fullKey_of_ne hp]
  intro h
  have := congrArg String.toList h
  simp at this

theorem fullKey_ne_indexKey {p : String} (hp : p ≠ "") (key : String) :
    fullKey p key ≠ indexKey p := fullKey_ne_hash hp key "kv-index"

theorem fullKey_ne_expiryKey {p : String} (hp : p ≠ "") (key : String) :
    fullKey p key ≠ expiryKey p := fullKey_ne_hash hp key "kv-expiry"

theorem fullKey_ne_completeKey {p : String} (hp : p ≠ "") (key : String) :
    fullKey p key ≠ completeKey p := fullKey_ne_hash hp key "kv-index-complete"

theorem indexKey_ne_expiryKey (p : String) : indexKey p ≠ expiryKey p := by
  intro h
  have := congrArg String.toList h
  simp [indexKey, expiryKey] at this

theorem completeKey_ne_indexKey (p : String) : completeKey p ≠ indexKey p := by
  intro h
  have := congrArg String.toList h
  simp [indexKey, completeKey] at this

theorem completeKey_ne_expiryKey (p : String) : completeKey p ≠ expiryKey p := by
  intro h
  have := congrArg String.toList h
  simp [expiryKey, completeKey] at this

/-! ## The scripts

Arguments are the keys and the values the client passes: times and counters
arrive as decimal text and are doubles inside. -/

/-- `tonumber(now) + ttl`, as a score. -/
def dueScore (now ttl : ℕ) : ℤ := Double.roundNat (Double.roundNat now + ttl)

/-- **Store a value**, with `nx` only when the key is absent. -/
def setLua (data idx exp : String) (value : List UInt8) (ttlArg now : ℕ) (nx : Bool) :
    Script ℕ := do
  let ttl := Double.roundNat ttlArg
  let ok ←
    if nx then
      if 0 < ttl then Redis.set data value (some ttl) true else Redis.set data value none true
    else if 0 < ttl then Redis.set data value (some ttl) false
    else Redis.set data value none false
  if nx && !ok then pure 0
  else do
    if 0 < ttl then Redis.zadd exp (dueScore now ttl) data else Redis.zrem exp data
    Redis.zadd idx 0 data
    pure 1

/-- **Delete a key.** -/
def delLua (data idx exp : String) : Script ℕ := do
  let n ← Redis.delete data
  Redis.zrem idx data
  Redis.zrem exp data
  pure n

/-- **Set or clear a live key's expiry.** -/
def expireLua (data idx exp : String) (ttlArg now : ℕ) : Script ℕ := do
  let n ← Redis.existsKey data
  if n = 0 then pure 0
  else do
    let ttl := Double.roundNat ttlArg
    if 0 < ttl then do
      let _ ← Redis.pexpire data ttl
      Redis.zadd exp (dueScore now ttl) data
    else do
      let _ ← Redis.persist data
      Redis.zrem exp data
    Redis.zadd idx 0 data
    pure 1

/-- What a counter script does once it has the step to add: add it, re-arm
the expiry, index the key. -/
def incrTail (data idx exp : String) (step : Option ℤ) (ttlArg now : ℕ) : Script ℤ := do
  let r ← pcall (luaReply (Redis.incrby data step))
  match r with
  | .error e => errorReply (incrPrecondition ++ ": " ++ e.text)
  | .ok ret => do
    let ttl := Double.roundNat ttlArg
    if 0 < ttl then do
      let _ ← Redis.pexpire data ttl
      Redis.zadd exp (dueScore now ttl) data
    else pure ()
    Redis.zadd idx 0 data
    pure ret

/-- **Add to a counter.** -/
def incrLua (data idx exp : String) (delta : ℤ) (ttlArg now : ℕ) : Script ℤ :=
  incrTail data idx exp (some delta) ttlArg now

/-- `string.format('%.0f', base - current + delta)`: the text of an integer,
or one `INCRBY` refuses. A value that is no integer makes `INCRBY` refuse
whatever the text. -/
def floorStep (current : LuaNumber) (floor delta : ℤ) : Option ℤ :=
  match current with
  | .int c =>
    let base := if c < floor then floor else c
    some (Double.round (Double.round (base - c) + delta))
  | _ => none

/-- The number a counter is at, as a script reads it: `0` when absent. -/
def Lua.current (lua : Lua) : Option (List UInt8) → Option LuaNumber
  | none => some (.int 0)
  | some b => lua.tonumber b

/-- **Raise a counter to a floor, then add.** -/
def incrFloorLua (lua : Lua) (data idx exp : String) (deltaArg : ℤ) (ttlArg now : ℕ)
    (floorArg : ℤ) : Script ℤ := do
  let raw ← Redis.get data
  let delta := Double.round deltaArg
  let floor := Double.round floorArg
  match lua.current raw with
  | none => errorReply (incrPrecondition ++ ": incr target holds a non-integer value")
  | some c =>
    if c.beyond || decide (Double.exact ≤ floor.natAbs)
        || decide (Double.exact ≤ delta.natAbs) then
      errorReply (incrPrecondition ++ ": incr_floor operand beyond 2^53")
    else incrTail data idx exp (floorStep c floor delta) ttlArg now

/-- **Drop the index entries of the keys that are gone.** -/
def pruneLua (idx exp : String) : List String → Script ℕ
  | [] => pure 0
  | k :: ks => do
    let n ← Redis.existsKey k
    if n = 0 then do
      Redis.zrem idx k
      Redis.zrem exp k
      let m ← pruneLua idx exp ks
      pure (m + 1)
    else pruneLua idx exp ks

/-- **Settle the keys the expiry index says are due.** -/
def sweepLua (idx exp : String) (now : ℕ) : List String → Script ℕ
  | [] => pure 0
  | k :: ks => do
    let pttl ← luaReply (Redis.pttl k)
    if pttl = -2 then do
      Redis.zrem idx k
      Redis.zrem exp k
      let m ← sweepLua idx exp now ks
      pure (m + 1)
    else if pttl = -1 then do
      Redis.zrem exp k
      sweepLua idx exp now ks
    else do
      Redis.zadd exp (dueScore now pttl.toNat) k
      sweepLua idx exp now ks

/-- **Index the live keys of a list.** -/
def backfillLua (idx exp : String) (now : ℕ) : List String → Script ℕ
  | [] => pure 0
  | k :: ks => do
    let pttl ← luaReply (Redis.pttl k)
    if pttl = -2 then backfillLua idx exp now ks
    else do
      Redis.zadd idx 0 k
      if 0 < pttl then Redis.zadd exp (dueScore now pttl.toNat) k else pure ()
      let m ← backfillLua idx exp now ks
      pure (m + 1)

/-! ## What the commands do on typed indexes -/

/-- **The two indexes are sorted sets without expiry, or absent.** -/
structure IndexTyped (p : String) (s : Redis) : Prop where
  index : s.ZKey (indexKey p)
  expiry : s.ZKey (expiryKey p)

namespace Redis

variable {s : Redis} {z m k : String} {x : ℤ}

theorem onZSet_run {α : Type} {f : Redis → α × Redis} (h : s.ZKey z) :
    onZSet z f s = (.ok (f s).1, (f s).2) := by
  unfold onZSet
  split
  · next b e hl =>
    obtain ⟨ms, hms⟩ := h _ hl
    exact absurd (congrArg Obj.value hms) (by simp)
  · rfl

/-- What a command on a sorted set replies, if it is not refused. -/
theorem onZSet_eq_ok {α : Type} {f : Redis → α × Redis} {a : α} (h : (onZSet z f s).1 = .ok a) :
    a = (f s).1 := by
  unfold onZSet at h
  split at h
  · exact absurd h (by simp [Script.raise])
  · exact (Except.ok.inj h).symm

theorem zadd_run (h : s.ZKey z) : zadd z x m s = (.ok (), s.zins z m x) := onZSet_run h

theorem zrem_run (h : s.ZKey z) : zrem z m s = (.ok (), s.zdel z m) := onZSet_run h

theorem ZKey.put {o : Obj} (h : s.ZKey z) (hne : z ≠ k) : (s.put k o).ZKey z :=
  h.congr (lookup_put_of_ne s hne)

theorem ZKey.del (h : s.ZKey z) (hne : z ≠ k) : (s.del k).ZKey z :=
  h.congr (lookup_del_of_ne s hne)

end Redis

/-! ## The changes of a script, as one change of state -/

/-- What a script does with a key's entry in the expiry index. -/
inductive Due where
  | at (x : ℤ)
  | clear
  | keep

/-- **Store an object and index it.** -/
def Redis.store (s : Redis) (data idx exp : String) (o : Obj) (due : Due) : Redis :=
  let t := s.put data o
  let u := match due with
    | .at x => t.zins exp data x
    | .clear => t.zdel exp data
    | .keep => t
  u.zins idx data 0

/-- Drop a key's entries from both indexes. -/
def Redis.unindex (s : Redis) (idx exp k : String) : Redis := (s.zdel idx k).zdel exp k

/-- Remove a key and its index entries. -/
def Redis.drop (s : Redis) (data idx exp : String) : Redis :=
  (if s.Live data then s.del data else s).unindex idx exp data

namespace Redis

variable (s : Redis) {data idx exp k m : String} {o : Obj} {due : Due}

@[simp] theorem store_now : (s.store data idx exp o due).now = s.now := by
  cases due with
  | «at» x => rfl
  | clear => exact zdel_now (s.put data o)
  | keep => rfl

@[simp] theorem unindex_now : (s.unindex idx exp k).now = s.now := by
  rw [unindex, zdel_now, zdel_now]

/-- A key that is neither the data key nor an index is untouched. -/
theorem lookup_store_of_ne (hk : k ≠ data) (hi : k ≠ idx) (he : k ≠ exp) :
    (s.store data idx exp o due).lookup k = s.lookup k := by
  unfold store
  cases due with
  | «at» x => rw [lookup_zins_of_ne _ hi, lookup_zins_of_ne _ he, lookup_put_of_ne _ hk]
  | clear => rw [lookup_zins_of_ne _ hi, lookup_zdel_of_ne _ he, lookup_put_of_ne _ hk]
  | keep => rw [lookup_zins_of_ne _ hi, lookup_put_of_ne _ hk]

/-- **The data key holds what was stored.** -/
theorem lookup_store_self (hi : data ≠ idx) (he : data ≠ exp) (ho : o.liveAt s.now = true) :
    (s.store data idx exp o due).lookup data = some o := by
  unfold store
  cases due with
  | «at» x => rw [lookup_zins_of_ne _ hi, lookup_zins_of_ne _ he, lookup_put_self _ ho]
  | clear => rw [lookup_zins_of_ne _ hi, lookup_zdel_of_ne _ he, lookup_put_self _ ho]
  | keep => rw [lookup_zins_of_ne _ hi, lookup_put_self _ ho]

/-- **The data key is in the key index**, with the members before it. -/
theorem mem_store_index (hi : idx ≠ data) (hie : idx ≠ exp) :
    (s.store data idx exp o due).Mem idx m ↔ m = data ∨ s.Mem idx m := by
  unfold store
  rw [mem_zins]
  refine or_congr_right ?_
  cases due with
  | «at» x => exact mem_congr ((lookup_zins_of_ne _ hie).trans (lookup_put_of_ne _ hi))
  | clear => exact mem_congr ((lookup_zdel_of_ne _ hie).trans (lookup_put_of_ne _ hi))
  | keep => exact mem_congr (lookup_put_of_ne _ hi)

/-- **The expiry index follows what the script does with it.** -/
theorem mem_store_expiry (he : exp ≠ data) (hie : exp ≠ idx) :
    (s.store data idx exp o due).Mem exp m ↔
      match due with
      | .at _ => m = data ∨ s.Mem exp m
      | .clear => m ≠ data ∧ s.Mem exp m
      | .keep => s.Mem exp m := by
  unfold store
  rw [mem_congr (lookup_zins_of_ne _ hie)]
  cases due with
  | «at» x =>
    rw [mem_zins]
    exact or_congr_right (mem_congr (lookup_put_of_ne _ he))
  | clear =>
    rw [mem_zdel]
    exact and_congr_right (fun _ => mem_congr (lookup_put_of_ne _ he))
  | keep => exact mem_congr (lookup_put_of_ne _ he)

theorem lookup_unindex_of_ne (hi : m ≠ idx) (he : m ≠ exp) :
    (s.unindex idx exp k).lookup m = s.lookup m := by
  rw [unindex, lookup_zdel_of_ne _ he, lookup_zdel_of_ne _ hi]

theorem mem_unindex_index (hie : idx ≠ exp) :
    (s.unindex idx exp k).Mem idx m ↔ m ≠ k ∧ s.Mem idx m := by
  rw [unindex, mem_congr (lookup_zdel_of_ne _ hie), mem_zdel]

theorem mem_unindex_expiry (hie : exp ≠ idx) :
    (s.unindex idx exp k).Mem exp m ↔ m ≠ k ∧ s.Mem exp m := by
  rw [unindex, mem_zdel]
  exact and_congr_right (fun _ => mem_congr (lookup_zdel_of_ne _ hie))

theorem ZKey.store {s : Redis} {z : String} (h : s.ZKey z) (hne : z ≠ data) :
    (s.store data idx exp o due).ZKey z := by
  unfold Redis.store
  cases due with
  | «at» x => exact ZKey.zins _ (ZKey.zins _ (h.put hne))
  | clear => exact ZKey.zins _ (ZKey.zdel _ (h.put hne))
  | keep => exact ZKey.zins _ (h.put hne)

theorem ZKey.unindex {s : Redis} {z : String} (h : s.ZKey z) :
    (s.unindex idx exp k).ZKey z := ZKey.zdel _ (ZKey.zdel _ h)

/-- What a removal leaves of the other keys, before it touches the indexes. -/
theorem lookup_removed_of_ne (hk : k ≠ data) :
    (if s.Live data then s.del data else s).lookup k = s.lookup k := by
  split
  · exact lookup_del_of_ne s hk
  · rfl

@[simp] theorem drop_now : (s.drop data idx exp).now = s.now := by
  rw [drop, unindex_now]
  split <;> rfl

theorem lookup_drop_self (hi : data ≠ idx) (he : data ≠ exp) :
    (s.drop data idx exp).lookup data = none := by
  rw [drop, lookup_unindex_of_ne _ hi he]
  split
  · exact lookup_del_self s
  · next hl => simpa [Live] using hl

theorem lookup_drop_of_ne (hk : k ≠ data) (hi : k ≠ idx) (he : k ≠ exp) :
    (s.drop data idx exp).lookup k = s.lookup k := by
  rw [drop, lookup_unindex_of_ne _ hi he, lookup_removed_of_ne s hk]

theorem mem_drop_index (hid : idx ≠ data) (hie : idx ≠ exp) :
    (s.drop data idx exp).Mem idx m ↔ m ≠ data ∧ s.Mem idx m := by
  rw [drop, mem_unindex_index _ hie, mem_congr (lookup_removed_of_ne s hid)]

theorem mem_drop_expiry (hed : exp ≠ data) (hie : exp ≠ idx) :
    (s.drop data idx exp).Mem exp m ↔ m ≠ data ∧ s.Mem exp m := by
  rw [drop, mem_unindex_expiry _ hie, mem_congr (lookup_removed_of_ne s hed)]

theorem ZKey.drop {s : Redis} {z : String} (h : s.ZKey z) (hne : z ≠ data) :
    (s.drop data idx exp).ZKey z :=
  ZKey.unindex (h.congr (lookup_removed_of_ne s hne))

/-- Storing what is there changes nothing. -/
theorem put_lookup {s : Redis} (h : s.lookup k = some o) : s.put k o = s := by
  have hdb : s.db k = some o := (Option.filter_eq_some_iff.mp h).1
  show Redis.mk (Function.update s.db k (some o)) s.now = s
  rw [← hdb, Function.update_eq_self]

/-- Storing twice is storing the second time. -/
theorem put_put (o' : Obj) : (s.put k o).put k o' = s.put k o' := by
  show Redis.mk (Function.update (Function.update s.db k (some o)) k (some o')) s.now = _
  rw [Function.update_idem]
  rfl

end Redis

/-! ## The scripts on typed indexes -/

section Run

variable {s : Redis} {data idx exp : String}

/-- A write whose expiry is refused changes nothing. -/
theorem setLua_refused {v : List UInt8} {ttl now : ℕ} {nx : Bool}
    (hpos : 0 < Double.roundNat ttl) (hbad : ¬ ExpireOk s.now (Double.roundNat ttl)) :
    setLua data idx exp v ttl now nx s
      = (.error (.command (expireError "set" (Double.roundNat ttl))), s) := by
  have hset : ∀ b : Bool, Redis.set data v (some (Double.roundNat ttl)) b s
      = (.error (.command (expireError "set" (Double.roundNat ttl))), s) := by
    intro b
    simp [Redis.set, hbad]
  cases nx with
  | true =>
    simp only [setLua, if_true, hpos]
    exact bind_error (hset true)
  | false =>
    simp only [setLua, if_true, hpos, Bool.false_eq_true, if_false]
    exact bind_error (hset false)

/-- The expiry a write gives its key. -/
def deadline (now ttl : ℕ) : Option ℕ := if 0 < ttl then some (now + ttl) else none

/-- What a write does with the expiry index. -/
def writeDue (now ttl : ℕ) : Due := if 0 < ttl then .at (dueScore now ttl) else .clear

/-- **A lifetime the server accepts, or none**, as `PEXPIRE` and `SET` are
modelled. -/
def TtlOk (now ttl : ℕ) : Prop := 0 < Double.roundNat ttl → ExpireOk now (Double.roundNat ttl)

instance (now ttl : ℕ) : Decidable (TtlOk now ttl) := inferInstanceAs (Decidable (_ → _))

/-- The `SET` of a write whose expiry is accepted. -/
theorem set_run {v : List UInt8} {t : ℕ} {nx : Bool} (hok : 0 < t → ExpireOk s.now t) :
    Redis.set data v (if 0 < t then some t else none) nx s
      = if nx && (s.lookup data).isSome then (.ok false, s)
        else (.ok true, s.put data ⟨.str v, deadline s.now t⟩) := by
  unfold Redis.set deadline
  by_cases ht : 0 < t
  · simp [ht, hok ht]
  · simp [ht]

/-- The one `SET` a write calls, whichever branch it is in. -/
theorem setLua_eq (v : List UInt8) (ttl now : ℕ) (nx : Bool) :
    setLua data idx exp v ttl now nx = (do
      let t := Double.roundNat ttl
      let ok ← Redis.set data v (if 0 < t then some t else none) nx
      if nx && !ok then pure 0
      else do
        if 0 < t then Redis.zadd exp (dueScore now t) data else Redis.zrem exp data
        Redis.zadd idx 0 data
        pure 1) := by
  unfold setLua
  cases nx with
  | true => by_cases ht : 0 < Double.roundNat ttl <;> simp only [ht, if_true, if_false]
  | false => by_cases ht : 0 < Double.roundNat ttl <;>
      simp only [ht, if_true, if_false, Bool.false_eq_true]

/-- A conditional write finds its key held. -/
theorem setLua_held {v : List UInt8} {ttl now : ℕ} (hok : TtlOk s.now ttl)
    (hl : s.Live data) : setLua data idx exp v ttl now true s = (.ok 0, s) := by
  have hl : (s.lookup data).isSome = true := hl
  rw [setLua_eq]
  refine (bind_ok (a := false) (t := s) ?_).trans rfl
  rw [set_run hok, hl]
  rfl

/-- **A write stores its value and indexes it.** -/
theorem setLua_stored {v : List UInt8} {ttl now : ℕ} {nx : Bool} (hi : s.ZKey idx)
    (he : s.ZKey exp) (hid : idx ≠ data) (hed : exp ≠ data) (hok : TtlOk s.now ttl)
    (hl : nx = true → ¬ s.Live data) :
    setLua data idx exp v ttl now nx s
      = (.ok 1, s.store data idx exp ⟨.str v, deadline s.now (Double.roundNat ttl)⟩
          (writeDue now (Double.roundNat ttl))) := by
  have hc : (nx && (s.lookup data).isSome) = false := by
    cases nx with
    | false => rfl
    | true => simpa [Redis.Live] using hl rfl
  have hset : Redis.set data v (if 0 < Double.roundNat ttl then some (Double.roundNat ttl)
      else none) nx s = (.ok true, s.put data ⟨.str v, deadline s.now (Double.roundNat ttl)⟩) := by
    rw [set_run hok, hc]
    rfl
  rw [setLua_eq, bind_ok hset]
  simp only [Bool.not_true, Bool.and_false, Bool.false_eq_true, if_false, Redis.store, writeDue]
  by_cases ht : 0 < Double.roundNat ttl
  · simp only [ht, if_true]
    rw [bind_ok (Redis.zadd_run (he.put hed)),
      bind_ok (Redis.zadd_run (Redis.ZKey.zins _ (hi.put hid)))]
    rfl
  · simp only [ht, if_false]
    rw [bind_ok (Redis.zrem_run (he.put hed)),
      bind_ok (Redis.zadd_run (Redis.ZKey.zdel _ (hi.put hid)))]
    rfl

/-- **A deletion removes the key and its entries**, and says whether there
was one. -/
theorem delLua_run (hi : s.ZKey idx) (he : s.ZKey exp) (hid : idx ≠ data) (hed : exp ≠ data) :
    delLua data idx exp s
      = (.ok (if s.Live data then 1 else 0), s.drop data idx exp) := by
  have hdel : Redis.delete data s
      = (.ok (if s.Live data then 1 else 0), if s.Live data then s.del data else s) := by
    by_cases hl : s.Live data
    · rw [if_pos hl, if_pos hl]
      exact if_pos hl
    · rw [if_neg hl, if_neg hl]
      exact if_neg hl
  have hi' := hi.congr (Redis.lookup_removed_of_ne s hid)
  have he' := he.congr (Redis.lookup_removed_of_ne s hed)
  rw [delLua, bind_ok hdel, bind_ok (Redis.zrem_run hi'),
    bind_ok (Redis.zrem_run (Redis.ZKey.zdel _ he'))]
  rfl

/-- An expiry for a key that is not there. -/
theorem expireLua_absent {ttl now : ℕ} (hl : ¬ s.Live data) :
    expireLua data idx exp ttl now s = (.ok 0, s) := by
  have hl : (s.lookup data).isSome = false := by simpa [Redis.Live] using hl
  have h : Redis.existsKey data s = (.ok 0, s) := by simp [Redis.existsKey, hl]
  rw [expireLua, bind_ok h]
  rfl

/-- `EXISTS` of a key that is there. -/
theorem existsKey_live (hl : s.Live data) : Redis.existsKey data s = (.ok 1, s) := by
  have hl : (s.lookup data).isSome = true := hl
  rw [Redis.existsKey, hl]
  rfl

/-- An expiry that is refused changes nothing: it is the first change the
script makes. -/
theorem expireLua_refused {ttl now : ℕ} (hl : s.Live data) (hpos : 0 < Double.roundNat ttl)
    (hbad : ¬ ExpireOk s.now (Double.roundNat ttl)) :
    expireLua data idx exp ttl now s
      = (.error (.command (expireError "pexpire" (Double.roundNat ttl))), s) := by
  rw [expireLua, bind_ok (existsKey_live hl)]
  simp only [hpos, if_true, one_ne_zero, if_false]
  exact bind_error (Redis.pexpire_refused hpos hbad)

/-- `PERSIST` of a key that is there, with or without an expiry. -/
theorem persist_run {o : Obj} (hl : s.lookup data = some o) :
    ∃ n, Redis.persist data s = (.ok n, s.put data { o with expireAt := none }) := by
  obtain ⟨v, e⟩ := o
  cases e with
  | none => exact ⟨0, by rw [Redis.persist, hl, Redis.put_lookup hl]⟩
  | some d => exact ⟨1, by rw [Redis.persist, hl]⟩

/-- **An expiry is set or cleared on the key, and the key is indexed.** -/
theorem expireLua_stored {o : Obj} {ttl now : ℕ} (hi : s.ZKey idx) (he : s.ZKey exp)
    (hid : idx ≠ data) (hed : exp ≠ data) (hok : TtlOk s.now ttl)
    (hl : s.lookup data = some o) :
    expireLua data idx exp ttl now s
      = (.ok 1, s.store data idx exp
          { o with expireAt := deadline s.now (Double.roundNat ttl) }
          (writeDue now (Double.roundNat ttl))) := by
  have hlive : s.Live data := by rw [Redis.Live, hl]; rfl
  rw [expireLua, bind_ok (existsKey_live hlive)]
  simp only [one_ne_zero, if_false, Redis.store, writeDue, deadline]
  by_cases ht : 0 < Double.roundNat ttl
  · simp only [ht, if_true]
    rw [bind_ok (Redis.pexpire_run hl (hok ht)), bind_ok (Redis.zadd_run (he.put hed)),
      bind_ok (Redis.zadd_run (Redis.ZKey.zins _ (hi.put hid)))]
    rfl
  · simp only [ht, if_false]
    obtain ⟨n, hn⟩ := persist_run hl
    rw [bind_ok hn, bind_ok (Redis.zrem_run (he.put hed)),
      bind_ok (Redis.zadd_run (Redis.ZKey.zdel _ (hi.put hid)))]
    rfl

/-! ### Counters -/

theorem Redis.incrby_error {k : String} {d : Option ℤ} {e : CmdError}
    (h : s.count k d = .error e) : Redis.incrby k d s = (.error (.command e), s) := by
  rw [Redis.incrby, h]
  rfl

theorem Redis.incrby_ok {k : String} {d : Option ℤ} {n : ℤ} (h : s.count k d = .ok n) :
    Redis.incrby k d s = (.ok n, s.put k (s.counted k n)) := by
  rw [Redis.incrby, h]

/-- **A counter that cannot count is left as it was**, with the message that
says it was a precondition. -/
theorem incrTail_error {d : Option ℤ} {ttl now : ℕ} {e : CmdError}
    (h : s.count data d = .error e) :
    incrTail data idx exp d ttl now s
      = (.error (.reply (incrPrecondition ++ ": " ++ e.text)), s) := by
  have hp : pcall (luaReply (Redis.incrby data d)) s = (.ok (.error (.command e)), s) := by
    rw [pcall_apply, luaReply, bind_error (Redis.incrby_error h)]
  rw [incrTail, bind_ok hp]
  rfl

theorem incrTail_pcall {d : Option ℤ} {n : ℤ} (h : s.count data d = .ok n) :
    pcall (luaReply (Redis.incrby data d)) s
      = (.ok (.ok (Double.round n)), s.put data (s.counted data n)) := by
  rw [pcall_apply, luaReply, bind_ok (Redis.incrby_ok h)]
  rfl

/-- **A counter whose expiry is refused has already counted**: the script
ends in an error, and the data key holds the new value. -/
theorem incrTail_refused {d : Option ℤ} {ttl now : ℕ} {n : ℤ} (h : s.count data d = .ok n)
    (hpos : 0 < Double.roundNat ttl) (hbad : ¬ ExpireOk s.now (Double.roundNat ttl)) :
    incrTail data idx exp d ttl now s
      = (.error (.command (expireError "pexpire" (Double.roundNat ttl))),
          s.put data (s.counted data n)) := by
  rw [incrTail, bind_ok (incrTail_pcall h)]
  simp only [hpos, if_true]
  exact bind_error (Redis.pexpire_refused hpos hbad)

/-- The expiry a counter gives its key: without a lifetime, the one it had. -/
def counterDeadline (s : Redis) (data : String) (ttl : ℕ) : Option ℕ :=
  if 0 < ttl then some (s.now + ttl) else (s.lookup data).bind Obj.expireAt

/-- What a counter does with the expiry index. -/
def counterDue (now ttl : ℕ) : Due := if 0 < ttl then .at (dueScore now ttl) else .keep

/-- **A counter counts and is indexed.** -/
theorem incrTail_stored {d : Option ℤ} {ttl now : ℕ} {n : ℤ} (hi : s.ZKey idx)
    (he : s.ZKey exp) (hid : idx ≠ data) (hed : exp ≠ data) (hok : TtlOk s.now ttl)
    (h : s.count data d = .ok n) :
    incrTail data idx exp d ttl now s
      = (.ok (Double.round n), s.store data idx exp
          ⟨.str (ll2string n), counterDeadline s data (Double.roundNat ttl)⟩
          (counterDue now (Double.roundNat ttl))) := by
  rw [incrTail, bind_ok (incrTail_pcall h)]
  simp only [Redis.store, counterDue, counterDeadline]
  by_cases ht : 0 < Double.roundNat ttl
  · simp only [ht, if_true]
    have hl : (s.put data (s.counted data n)).lookup data = some (s.counted data n) :=
      Redis.lookup_put_self s (Redis.liveAt_counted data n)
    have hp := Redis.pexpire_run hl (hok ht)
    rw [Redis.put_put] at hp
    rw [bind_ok hp, bind_ok (Redis.zadd_run (he.put hed)),
      bind_ok (Redis.zadd_run (Redis.ZKey.zins _ (hi.put hid)))]
    rfl
  · simp only [ht, if_false]
    rw [bind_ok (Redis.zadd_run (hi.put hid))]
    rfl

/-- `GET` only reads. -/
theorem get_snd : (Redis.get data s).2 = s := by
  unfold Redis.get
  split <;> rfl

/-- **The amount a floored counter adds**, when it does not refuse. -/
def floorAmount (lua : Lua) (s : Redis) (data : String) (delta floor : ℤ) : Option ℤ :=
  match (Redis.get data s).1 with
  | .error _ => none
  | .ok raw => match lua.current raw with
    | none => none
    | some c =>
      if c.beyond || decide (Double.exact ≤ (Double.round floor).natAbs)
          || decide (Double.exact ≤ (Double.round delta).natAbs) then none
      else floorStep c (Double.round floor) (Double.round delta)

/-- The step of a floored counter: what raises it to the floor, and the
delta. -/
theorem floorStep_int (c f d : ℤ) :
    floorStep (.int c) f d = some (Double.round (Double.round (max c f - c) + d)) := by
  have hbase : (if c < f then f else c) = max c f := by
    by_cases hcf : c < f
    · rw [if_pos hcf, max_eq_right hcf.le]
    · rw [if_neg hcf, max_eq_left (not_lt.mp hcf)]
  rw [← hbase]
  rfl

/-- A script reads a counter as the double nearest to it. -/
theorem counter_read (lua : Lua) {c : ℤ} (hc : s.counter data = .ok c) :
    ∃ raw, (Redis.get data s).1 = .ok raw ∧ lua.current raw = some (.int (Double.round c)) := by
  cases hl : s.lookup data with
  | none =>
    have h0 : (0 : ℤ) = c := by
      rw [Redis.counter, hl] at hc
      exact Except.ok.inj hc
    refine ⟨none, by rw [Redis.get_absent hl], ?_⟩
    rw [← h0]
    rfl
  | some o =>
    obtain ⟨hv, hi⟩ := Redis.lookup_of_counter hl hc
    obtain ⟨v, x⟩ := o
    obtain rfl : v = .str (ll2string c) := hv
    exact ⟨some (ll2string c), by rw [Redis.get_str hl], lua.tonumber_ll2string c hi⟩

/-- **The step of a floored counter at an integer.** -/
theorem floorAmount_of_counter (lua : Lua) {c : ℤ} (hc : s.counter data = .ok c) (d f : ℤ) :
    floorAmount lua s data d f
      = if (LuaNumber.int (Double.round c)).beyond
            || decide (Double.exact ≤ (Double.round f).natAbs)
            || decide (Double.exact ≤ (Double.round d).natAbs) then none
        else floorStep (.int (Double.round c)) (Double.round f) (Double.round d) := by
  obtain ⟨raw, hraw, hcur⟩ := counter_read lua hc
  unfold floorAmount
  rw [hraw]
  simp only [hcur]

/-- A message that starts with the counters' word contains it. -/
theorem contains_incrPrecondition (t : String) :
    Contains (incrPrecondition ++ t) incrPrecondition := by
  refine List.IsPrefix.isInfix ?_
  rw [String.toList_append]
  exact List.prefix_append _ _

/-- A floored counter with nothing to add refuses and changes nothing; it
says that a precondition failed unless the key is of another type. -/
theorem incrFloorLua_none {lua : Lua} {d f : ℤ} (idx exp : String) (ttl now : ℕ)
    (h : floorAmount lua s data d f = none) :
    ∃ e, incrFloorLua lua data idx exp d ttl now f s = (.error e, s)
      ∧ ((Redis.get data s).1 = .error e ∨ Contains e.text incrPrecondition) := by
  have hs : (Redis.get data s).2 = s := get_snd
  unfold floorAmount at h
  cases hg : Redis.get data s with
  | mk r t =>
    rw [hg] at hs h
    obtain rfl : t = s := hs
    cases r with
    | error e => exact ⟨e, bind_error hg, Or.inl rfl⟩
    | ok raw =>
      rw [incrFloorLua, bind_ok hg]
      cases hc : lua.current raw with
      | none => exact ⟨_, rfl, Or.inr (contains_incrPrecondition _)⟩
      | some c =>
        simp only [hc] at h
        by_cases hb : (c.beyond || decide (Double.exact ≤ (Double.round f).natAbs)
            || decide (Double.exact ≤ (Double.round d).natAbs)) = true
        · exact ⟨_, congrFun (if_pos hb) t, Or.inr (contains_incrPrecondition _)⟩
        · rw [if_neg hb] at h
          refine ⟨.reply (incrPrecondition ++ ": " ++ CmdError.notAnInteger.text),
            (congrFun (if_neg hb) t).trans ?_, Or.inr ?_⟩
          · rw [h]
            exact incrTail_error rfl
          · rw [ScriptError.text, String.append_assoc]
            exact contains_incrPrecondition _

/-- A floored counter with an amount to add counts by it. -/
theorem incrFloorLua_some {lua : Lua} {d f a : ℤ} {ttl now : ℕ}
    (h : floorAmount lua s data d f = some a) :
    incrFloorLua lua data idx exp d ttl now f s
      = incrTail data idx exp (some a) ttl now s := by
  have hs : (Redis.get data s).2 = s := get_snd
  unfold floorAmount at h
  cases hg : Redis.get data s with
  | mk r t =>
    rw [hg] at hs h
    obtain rfl : t = s := hs
    cases r with
    | error e => exact absurd h (by simp)
    | ok raw =>
      rw [incrFloorLua, bind_ok hg]
      cases hc : lua.current raw with
      | none =>
        simp only [hc] at h
        exact absurd h (by simp)
      | some c =>
        simp only [hc] at h
        by_cases hb : (c.beyond || decide (Double.exact ≤ (Double.round f).natAbs)
            || decide (Double.exact ≤ (Double.round d).natAbs)) = true
        · rw [if_pos hb] at h
          exact absurd h (by simp)
        · rw [if_neg hb] at h
          rw [← h]
          exact congrFun (if_neg hb) t

/-! ### Maintenance

A maintenance script takes its keys one at a time; what it does with one of
them is a change of state that depends on that key alone. -/

/-- What a prune does with a key. -/
def pruneKey (idx exp : String) (s : Redis) (k : String) : Redis :=
  if s.Live k then s else s.unindex idx exp k

/-- What a sweep does with a key. -/
def sweepKey (idx exp : String) (now : ℕ) (s : Redis) (k : String) : Redis :=
  match s.lookup k with
  | none => s.unindex idx exp k
  | some ⟨_, none⟩ => s.zdel exp k
  | some ⟨_, some _⟩ => s.zins exp k (dueScore now (Double.round (s.pttlReply k)).toNat)

/-- What a backfill does with a key. In its last millisecond a key is
indexed and not entered in the expiry index. -/
def backfillKey (idx exp : String) (now : ℕ) (s : Redis) (k : String) : Redis :=
  match s.lookup k with
  | none => s
  | some _ =>
    if 0 < s.pttlReply k then
      (s.zins idx k 0).zins exp k (dueScore now (Double.round (s.pttlReply k)).toNat)
    else s.zins idx k 0

/-- **Index sets that stay so.** What the maintenance scripts need of each
state they pass through. -/
def Redis.ZKeys (s : Redis) (idx exp : String) : Prop := s.ZKey idx ∧ s.ZKey exp

theorem Redis.ZKeys.prune (h : s.ZKeys idx exp) (k : String) :
    (pruneKey idx exp s k).ZKeys idx exp := by
  unfold pruneKey
  split
  · exact h
  · exact ⟨h.1.unindex, h.2.unindex⟩

theorem Redis.ZKeys.sweep (h : s.ZKeys idx exp) (now : ℕ) (k : String) :
    (sweepKey idx exp now s k).ZKeys idx exp := by
  unfold sweepKey
  split
  · exact ⟨h.1.unindex, h.2.unindex⟩
  · exact ⟨Redis.ZKey.zdel _ h.1, Redis.ZKey.zdel _ h.2⟩
  · exact ⟨Redis.ZKey.zins _ h.1, Redis.ZKey.zins _ h.2⟩

theorem Redis.ZKeys.backfill (h : s.ZKeys idx exp) (now : ℕ) (k : String) :
    (backfillKey idx exp now s k).ZKeys idx exp := by
  unfold backfillKey
  split
  · exact h
  · split
    · exact ⟨Redis.ZKey.zins _ (Redis.ZKey.zins _ h.1), Redis.ZKey.zins _ (Redis.ZKey.zins _ h.2)⟩
    · exact ⟨Redis.ZKey.zins _ h.1, Redis.ZKey.zins _ h.2⟩

/-- A key that is not there, as a script reads it. -/
theorem Redis.round_pttlReply_none {k : String} (h : s.lookup k = none) :
    Double.round (s.pttlReply k) = -2 := by
  have hr : s.pttlReply k = -2 := by rw [Redis.pttlReply, h]
  rw [hr]
  decide

/-- A key without expiry, as a script reads it. -/
theorem Redis.round_pttlReply_persistent {k : String} {v : Value}
    (h : s.lookup k = some ⟨v, none⟩) : Double.round (s.pttlReply k) = -1 := by
  have hr : s.pttlReply k = -1 := by rw [Redis.pttlReply, h]
  rw [hr]
  decide

/-- The time left of a key with an expiry, as a script reads it. -/
theorem Redis.round_pttlReply_nonneg {k : String} {v : Value} {d : ℕ}
    (h : s.lookup k = some ⟨v, some d⟩) : 0 ≤ Double.round (s.pttlReply k) := by
  have hd : s.now ≤ d := by simpa [Obj.liveAt] using Redis.liveAt_of_lookup h
  rw [Redis.pttlReply, h]
  exact Double.round_nonneg (by simpa using hd)

/-- Only an absent key reads as absent. -/
theorem Redis.round_pttlReply_ne {k : String} {o : Obj} (h : s.lookup k = some o) :
    Double.round (s.pttlReply k) ≠ -2 := by
  obtain ⟨v, e⟩ := o
  cases e with
  | none =>
    rw [Redis.round_pttlReply_persistent h]
    decide
  | some d =>
    have := Redis.round_pttlReply_nonneg h
    omega

/-- **A prune takes its keys in turn.** -/
theorem pruneLua_run (h : s.ZKeys idx exp) (ks : List String) :
    ∃ n, pruneLua idx exp ks s = (.ok n, ks.foldl (pruneKey idx exp) s) := by
  induction ks generalizing s with
  | nil => exact ⟨0, rfl⟩
  | cons k ks ih =>
    obtain ⟨n, hn⟩ := ih (h.prune k)
    rw [List.foldl_cons]
    by_cases hl : s.Live k
    · refine ⟨n, ?_⟩
      rw [pruneLua, bind_ok (existsKey_live hl)]
      rwa [pruneKey, if_pos hl] at hn ⊢
    · have hx : Redis.existsKey k s = (.ok 0, s) := by
        exact congrArg (fun n => (Except.ok n, s)) (if_neg hl)
      refine ⟨n + 1, ?_⟩
      rw [pruneLua, bind_ok hx]
      show (Redis.zrem idx k >>= fun _ => Redis.zrem exp k >>= fun _ =>
        pruneLua idx exp ks >>= fun m => pure (m + 1)) s = _
      rw [bind_ok (Redis.zrem_run h.1), bind_ok (Redis.zrem_run (Redis.ZKey.zdel _ h.2))]
      rw [pruneKey, if_neg hl] at hn ⊢
      exact bind_ok hn

/-- The reply of `PTTL` in a script: a negative one is exact. -/
theorem luaReply_pttl (k : String) :
    luaReply (Redis.pttl k) s = (.ok (Double.round (s.pttlReply k)), s) := rfl

/-- How many keys of a sweep are gone at their turn. -/
def sweepGone (idx exp : String) (now : ℕ) (s : Redis) : List String → ℕ
  | [] => 0
  | k :: ks => sweepGone idx exp now (sweepKey idx exp now s k) ks + if s.Live k then 0 else 1

/-- **A sweep takes its keys in turn**, and replies how many were gone. -/
theorem sweepLua_eq (h : s.ZKeys idx exp) (now : ℕ) (ks : List String) :
    sweepLua idx exp now ks s
      = (.ok (sweepGone idx exp now s ks), ks.foldl (sweepKey idx exp now) s) := by
  induction ks generalizing s with
  | nil => rfl
  | cons k ks ih =>
    have hn := ih (h.sweep now k)
    rw [List.foldl_cons, sweepGone]
    cases hl : s.lookup k with
    | none =>
      have hr := Redis.round_pttlReply_none hl
      rw [sweepLua, bind_ok (luaReply_pttl k), if_pos hr,
        bind_ok (Redis.zrem_run h.1), bind_ok (Redis.zrem_run (Redis.ZKey.zdel _ h.2)),
        if_neg (by rw [Redis.Live, hl]; exact Bool.false_ne_true)]
      simp only [sweepKey, hl] at hn ⊢
      exact bind_ok hn
    | some o =>
      rw [if_pos (by rw [Redis.Live, hl]; rfl), Nat.add_zero]
      obtain ⟨v, e⟩ := o
      cases e with
      | none =>
        have hr := Redis.round_pttlReply_persistent hl
        rw [sweepLua, bind_ok (luaReply_pttl k), hr, if_neg (by decide), if_pos rfl,
          bind_ok (Redis.zrem_run h.2)]
        simpa only [sweepKey, hl] using hn
      | some d =>
        -- a time left is not negative, so neither sentinel is read
        have hr := Redis.round_pttlReply_nonneg hl
        rw [sweepLua, bind_ok (luaReply_pttl k), if_neg (by omega), if_neg (by omega),
          bind_ok (Redis.zadd_run h.2)]
        simpa only [sweepKey, hl] using hn

theorem sweepLua_run (h : s.ZKeys idx exp) (now : ℕ) (ks : List String) :
    ∃ n, sweepLua idx exp now ks s = (.ok n, ks.foldl (sweepKey idx exp now) s) :=
  ⟨_, sweepLua_eq h now ks⟩

/-- **A backfill takes its keys in turn.** -/
theorem backfillLua_run (h : s.ZKeys idx exp) (now : ℕ) (ks : List String) :
    ∃ n, backfillLua idx exp now ks s = (.ok n, ks.foldl (backfillKey idx exp now) s) := by
  induction ks generalizing s with
  | nil => exact ⟨0, rfl⟩
  | cons k ks ih =>
    obtain ⟨n, hn⟩ := ih (h.backfill now k)
    rw [List.foldl_cons]
    cases hl : s.lookup k with
    | none =>
      have hr := Redis.round_pttlReply_none hl
      refine ⟨n, ?_⟩
      rw [backfillLua, bind_ok (luaReply_pttl k), if_pos hr]
      simpa only [backfillKey, hl] using hn
    | some o =>
      have hne : Double.round (s.pttlReply k) ≠ -2 := Redis.round_pttlReply_ne hl
      refine ⟨n + 1, ?_⟩
      rw [backfillLua, bind_ok (luaReply_pttl k), if_neg hne, bind_ok (Redis.zadd_run h.1)]
      simp only [backfillKey, hl] at hn ⊢
      by_cases hp : 0 < s.pttlReply k
      · rw [if_pos hp] at hn ⊢
        rw [if_pos (Double.round_pos.mpr hp),
          bind_ok (Redis.zadd_run (Redis.ZKey.zins _ h.2))]
        exact bind_ok hn
      · rw [if_neg hp] at hn ⊢
        rw [if_neg (fun h => hp (Double.round_pos.mp h))]
        exact bind_ok hn

/-- It writes nothing but the indexes. -/
theorem lookup_backfillKey {k m : String} {now : ℕ} (hi : m ≠ idx) (he : m ≠ exp) :
    (backfillKey idx exp now s k).lookup m = s.lookup m := by
  unfold backfillKey
  split
  · rfl
  · split
    · rw [Redis.lookup_zins_of_ne _ he, Redis.lookup_zins_of_ne _ hi]
    · exact Redis.lookup_zins_of_ne s hi

theorem lookup_backfillLua (h : s.ZKeys idx exp) (now : ℕ) (ks : List String) {m : String}
    (hi : m ≠ idx) (he : m ≠ exp) : (backfillLua idx exp now ks s).2.lookup m = s.lookup m := by
  obtain ⟨n, hn⟩ := backfillLua_run h now ks
  rw [hn]
  exact List.foldlRecOn (motive := fun t : Redis => t.lookup m = s.lookup m) ks _ rfl
    (fun t ht k _ => (lookup_backfillKey hi he).trans ht)

end Run
