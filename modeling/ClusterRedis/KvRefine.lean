import ClusterRedis.KvErrors

/-!
# The store is a map with lifetimes

To its callers the store is a plain map: a key has a value and, perhaps, a
deadline, and a key past its deadline is absent. `TtlMap` is that map, with
the operations a caller knows and nothing of scripts, indexes or prefixes;
`kvMap` makes a system of it that takes the same events as the store.

The store refines the map (`Sim`): the data keys of a reachable server are
the live entries of the map, under the keys their callers gave. Maintenance
events do nothing to the map, so the same relation says that they do nothing
a caller can see.

Two things keep this from holding as plainly as one would like. Without a
prefix the indexes are themselves keys a caller can name. And a lifetime
passes through a script as a double, so past `2 ^ 53` milliseconds the
deadline is that of the rounded lifetime; `kvMap` takes what becomes of a
lifetime as a parameter.
-/

open Numerals RedisKv

/-! ## The map -/

/-- **A map with deadlines**, and the time. -/
structure TtlMap where
  entries : String → Option Entry
  now : ℕ

namespace TtlMap

/-- The empty map. -/
def empty (t : ℕ) : TtlMap := ⟨fun _ => none, t⟩

/-- An entry is there up to and including its deadline. -/
def Fresh (e : Entry) (t : ℕ) : Bool := e.expiresAt.all (fun d => decide (t ≤ d))

/-- **The entry of a key**, absent past its deadline. -/
def find (m : TtlMap) (k : String) : Option Entry :=
  (m.entries k).filter (fun e => Fresh e m.now)

/-- Give a key an entry. -/
def set (m : TtlMap) (k : String) (e : Entry) : TtlMap :=
  { m with entries := Function.update m.entries k (some e) }

/-- Remove a key. -/
def erase (m : TtlMap) (k : String) : TtlMap :=
  { m with entries := Function.update m.entries k none }

theorem find_set_self (m : TtlMap) {k : String} {e : Entry} (h : Fresh e m.now = true) :
    (m.set k e).find k = some e := by
  simp [find, set, h]

theorem find_set_of_ne (m : TtlMap) {k k' : String} (e : Entry) (h : k' ≠ k) :
    (m.set k e).find k' = m.find k' := by
  simp [find, set, Function.update_of_ne h]

/-- Time only takes away: what is past its deadline by then. -/
theorem find_tick (m : TtlMap) (k : String) (d : ℕ) :
    TtlMap.find { m with now := m.now + d } k
      = (m.find k).filter (fun e => Fresh e (m.now + d)) := by
  unfold find
  rw [Option.filter_filter]
  congr 1
  funext e
  obtain ⟨b, x⟩ := e
  cases x with
  | none => rfl
  | some x =>
    simp only [Fresh, Option.all_some]
    by_cases hx : m.now + d ≤ x
    · simp [hx, le_trans (Nat.le_add_right m.now d) hx]
    · simp [hx]

theorem find_erase_self (m : TtlMap) (k : String) : (m.erase k).find k = none := by
  simp [find, erase]

theorem find_erase_of_ne (m : TtlMap) {k k' : String} (h : k' ≠ k) :
    (m.erase k).find k' = m.find k' := by
  simp [find, erase, Function.update_of_ne h]

end TtlMap

/-! ## The map's operations -/

/-- What a caller can tell of a result: the reply, or which kind of error. -/
inductive Outcome where
  | ok (r : KvReply)
  | precondition
  | unavailable
  deriving DecidableEq

/-- What a caller can tell of a call's result. -/
def outcome : Except ClusterError KvReply → Outcome
  | .ok r => .ok r
  | .error (.precondition _) => .precondition
  | .error _ => .unavailable

namespace TtlMap

/-- The deadline of a lifetime given now; `life` is what becomes of a count
of milliseconds. -/
def due (life : ℕ → ℕ) (m : TtlMap) (ttl : Option Duration) : Option ℕ :=
  if 0 < ttlMs ttl then some (m.now + life (ttlMs ttl)) else none

/-- The integer a key counts from: `0` when absent. -/
def current (m : TtlMap) (k : String) : Option ℤ :=
  match m.find k with
  | none => some 0
  | some e => string2ll e.bytes

/-- **Count**: replace the integer at a key by `f` of it, and keep the
deadline unless a lifetime is given. -/
def count (life : ℕ → ℕ) (m : TtlMap) (k : String) (f : ℤ → ℤ) (ttl : Option Duration) :
    Outcome × TtlMap :=
  match m.current k with
  | none => (.precondition, m)
  | some c =>
    if InI64 (f c) then
      (.ok (.int (f c)), m.set k ⟨ll2string (f c),
        if 0 < ttlMs ttl then m.due life ttl else (m.find k).bind Entry.expiresAt⟩)
    else (.precondition, m)

theorem count_none {life : ℕ → ℕ} {m : TtlMap} {k : String} {f : ℤ → ℤ} {ttl : Option Duration}
    (h : m.current k = none) : m.count life k f ttl = (.precondition, m) := by
  rw [count, h]

theorem count_some {life : ℕ → ℕ} {m : TtlMap} {k : String} {f : ℤ → ℤ} {ttl : Option Duration}
    {c : ℤ} (h : m.current k = some c) (hi : InI64 (f c)) :
    m.count life k f ttl = (.ok (.int (f c)), m.set k ⟨ll2string (f c),
      if 0 < ttlMs ttl then m.due life ttl else (m.find k).bind Entry.expiresAt⟩) := by
  rw [count, h]
  exact if_pos hi

/-- **The operations a caller knows.** -/
def call (life : ℕ → ℕ) (m : TtlMap) : KvOp → Outcome × TtlMap
  | .get k => (.ok (.entry (m.find k)), m)
  | .put k v ttl => (.ok .unit, m.set k ⟨v, m.due life ttl⟩)
  | .putIfAbsent k v ttl =>
    if (m.find k).isSome then (.ok (.bool false), m)
    else (.ok (.bool true), m.set k ⟨v, m.due life ttl⟩)
  | .delete k => (.ok (.bool (m.find k).isSome), m.erase k)
  | .expire k ttl =>
    match m.find k with
    | none => (.ok (.bool false), m)
    | some e => (.ok (.bool true), m.set k { e with expiresAt := m.due life ttl })
  | .incr k d ttl => m.count life k (· + d) ttl
  | .incrFloor k d f ttl => m.count life k (fun c => max c f + d) ttl

end TtlMap

/-- **The map as a system**, taking the events of the store. -/
def kvMap (life : ℕ → ℕ) : System TtlMap KvEvent (Option Outcome) where
  step m
    | .call _ op => (some (m.call life op).1, (m.call life op).2)
    | .tick d => (none, { m with now := m.now + d })
    | _ => (none, m)

/-! ## The store's side -/

/-- A number a double holds exactly. -/
def IsSmall (n : ℤ) : Prop := n.natAbs < Double.exact

instance (n : ℤ) : Decidable (IsSmall n) := inferInstanceAs (Decidable (_ < _))

theorem inI64_of_isSmall {n : ℤ} (h : IsSmall n) : InI64 n := by
  unfold IsSmall Double.exact at h
  unfold InI64
  omega

/-- **The counters stay small**: an operation's operands, and the values and
differences it computes with, are held exactly. -/
def SmallCounts (p : String) (s : Redis) : KvOp → Prop
  | .incr k d _ => IsSmall d ∧ ∀ c, s.counter (fullKey p k) = .ok c → IsSmall c ∧ IsSmall (c + d)
  | .incrFloor k d f _ => IsSmall d ∧ IsSmall f ∧ ∀ c, s.counter (fullKey p k) = .ok c →
      IsSmall c ∧ IsSmall (max c f - c) ∧ IsSmall (max c f - c + d) ∧ IsSmall (max c f + d)
  | _ => True

/-- **The runs the refinement is about**: one clock for clients and server,
lifetimes the server accepts, small counters, and backfills of what a scan
found. -/
def OneClock (p : String) (s : Redis) (e : KvEvent) : Prop :=
  Served p s e ∧ match e with
    | .call clock op => clock = s.now ∧ SmallCounts p s op
    | _ => True

/-- The object an entry is kept as. -/
def Entry.toObj (e : Entry) : Obj := ⟨.str e.bytes, e.expiresAt⟩

/-- **What a caller's key holds**, read off the server. -/
def contents (p : String) (s : Redis) (key : String) : Option Entry :=
  match s.lookup (fullKey p key) with
  | some ⟨.str b, e⟩ => some ⟨b, e⟩
  | _ => none

/-- The keys an event may change. -/
def KvEvent.MayChange : KvEvent → String → Prop
  | .call _ op, key => key = op.key
  | .tick _, _ => True
  | _, _ => False

/-- An event is an operation, time, or a script that may change no key. -/
theorem KvEvent.kinds (e : KvEvent) :
    (∃ clock op, e = .call clock op) ∨ (∃ d, e = .tick d) ∨ ∀ key, ¬ e.MayChange key := by
  cases e with
  | call clock op => exact Or.inl ⟨clock, op, rfl⟩
  | tick d => exact Or.inr (Or.inl ⟨d, rfl⟩)
  | prune gone => exact Or.inr (Or.inr (fun _ h => h))
  | sweep clock due => exact Or.inr (Or.inr (fun _ h => h))
  | backfill clock batch => exact Or.inr (Or.inr (fun _ h => h))
  | markComplete startedAt => exact Or.inr (Or.inr (fun _ h => h))
  | invalidate => exact Or.inr (Or.inr (fun _ h => h))

/-- **The store refines the map.** -/
structure RefinesMap (life : ℕ → ℕ) (p : String) (lua : Lua) (drv : Driver) : Prop where
  /-- Over every run, the results are the map's. -/
  results : ∀ t es, (kvSystem lua drv p).Along (OneClock p) (Redis.empty t) es →
    ((kvSystem lua drv p).answers (Redis.empty t) es).map (Option.map outcome)
      = (kvMap life).answers (TtlMap.empty t) es
  /-- After every run, the keys hold what the map holds. -/
  holds : ∀ t es, (kvSystem lua drv p).Along (OneClock p) (Redis.empty t) es →
    contents p ((kvSystem lua drv p).final (Redis.empty t) es)
      = ((kvMap life).final (TtlMap.empty t) es).find
  /-- At every step, an operation changes no key but its own, and
  maintenance changes none. -/
  frame : ∀ t es e, (kvSystem lua drv p).Along (OneClock p) (Redis.empty t) (es ++ [e]) →
    ∀ key, ¬ e.MayChange key →
      contents p ((kvSystem lua drv p).final (Redis.empty t) (es ++ [e])) key
        = contents p ((kvSystem lua drv p).final (Redis.empty t) es) key

/-! ## Maintenance -/

/-- **The data keys are as they were**, and the indexes still sorted sets. -/
structure KeepsData (p : String) (s t : Redis) : Prop where
  typed : IndexTyped p t
  now : t.now = s.now
  data : ∀ key, t.lookup (fullKey p key) = s.lookup (fullKey p key)

namespace KeepsData

variable {p : String} {s t u : Redis}

theorem refl (h : IndexTyped p s) : KeepsData p s s := ⟨h, rfl, fun _ => rfl⟩

theorem trans (h : KeepsData p s t) (h' : KeepsData p t u) : KeepsData p s u :=
  ⟨h'.typed, h'.now.trans h.now, fun key => (h'.data key).trans (h.data key)⟩

theorem unindex (hp : p ≠ "") (h : IndexTyped p s) (k : String) :
    KeepsData p s (s.unindex (indexKey p) (expiryKey p) k) where
  typed := ⟨h.index.unindex, h.expiry.unindex⟩
  now := Redis.unindex_now s
  data key :=
    Redis.lookup_unindex_of_ne s (fullKey_ne_indexKey hp key) (fullKey_ne_expiryKey hp key)

theorem zins {z : String} (h : IndexTyped p s) (hz : ∀ key, fullKey p key ≠ z) (k : String)
    (x : ℤ) :
    KeepsData p s (s.zins z k x) where
  typed := ⟨Redis.ZKey.zins s h.index, Redis.ZKey.zins s h.expiry⟩
  now := rfl
  data key := Redis.lookup_zins_of_ne s (hz key)

theorem zdel {z : String} (h : IndexTyped p s) (hz : ∀ key, fullKey p key ≠ z) (k : String) :
    KeepsData p s (s.zdel z k) where
  typed := ⟨Redis.ZKey.zdel s h.index, Redis.ZKey.zdel s h.expiry⟩
  now := Redis.zdel_now s
  data key := Redis.lookup_zdel_of_ne s (hz key)

/-- A script that takes its keys in turn leaves the data keys when every
turn does. -/
theorem foldl {f : Redis → String → Redis} (hf : ∀ t k, IndexTyped p t → KeepsData p t (f t k))
    (h : IndexTyped p s) (ks : List String) : KeepsData p s (ks.foldl f s) :=
  List.foldlRecOn (motive := KeepsData p s) ks f (refl h)
    (fun t ht k _ => ht.trans (hf t k ht.typed))

/-- **A maintenance script leaves the data keys**, whatever its keys. -/
theorem maintenance (lua : Lua) (drv : Driver) (hp : p ≠ "") (h : IndexTyped p s) {e : KvEvent}
    (he : ∀ key, ¬ e.MayChange key) : KeepsData p s ((kvSystem lua drv p).step s e).2 := by
  have hzs : s.ZKeys (indexKey p) (expiryKey p) := ⟨h.index, h.expiry⟩
  cases e with
  | call clock op => exact absurd rfl (he op.key)
  | tick d => exact absurd trivial (he "")
  | prune gone =>
    obtain ⟨n, hn⟩ := pruneLua_run hzs gone
    show KeepsData p s (pruneLua _ _ gone s).2
    rw [hn]
    refine foldl (fun t k ht => ?_) h gone
    unfold pruneKey
    split
    · exact refl ht
    · exact unindex hp ht k
  | sweep clock due =>
    obtain ⟨n, hn⟩ := sweepLua_run hzs clock due
    show KeepsData p s (sweepLua _ _ clock due s).2
    rw [hn]
    refine foldl (fun t k ht => ?_) h due
    unfold sweepKey
    split
    · exact unindex hp ht k
    · exact zdel ht (fullKey_ne_expiryKey hp) k
    · exact zins ht (fullKey_ne_expiryKey hp) k _
  | backfill clock batch =>
    obtain ⟨n, hn⟩ := backfillLua_run hzs clock (backfillBatch p batch)
    show KeepsData p s (backfillLua _ _ clock _ s).2
    rw [hn]
    refine foldl (fun t k ht => ?_) h (backfillBatch p batch)
    unfold backfillKey
    split
    · exact refl ht
    · have hlist := zins ht (fullKey_ne_indexKey hp) k 0
      split
      · exact hlist.trans (zins hlist.typed (fullKey_ne_expiryKey hp) k _)
      · exact hlist
  | markComplete startedAt =>
    exact ⟨⟨h.index.put (completeKey_ne_indexKey p).symm,
      h.expiry.put (completeKey_ne_expiryKey p).symm⟩, rfl,
      fun key => Redis.lookup_put_of_ne s (fullKey_ne_completeKey hp key)⟩
  | invalidate =>
    have hrun : ((kvSystem lua drv p).step s .invalidate).2
        = if s.Live (completeKey p) then s.del (completeKey p) else s := by
      show (invalidateIndex drv p s).2 = _
      rw [invalidateIndex, Call.invoke_snd]
      by_cases hl : s.Live (completeKey p)
      · rw [if_pos hl]
        exact congrArg Prod.snd (if_pos hl)
      · rw [if_neg hl]
        exact congrArg Prod.snd (if_neg hl)
    rw [hrun]
    split
    · exact ⟨⟨h.index.del (completeKey_ne_indexKey p).symm,
        h.expiry.del (completeKey_ne_expiryKey p).symm⟩, rfl,
        fun key => Redis.lookup_del_of_ne s (fullKey_ne_completeKey hp key)⟩
    · exact refl h

end KeepsData

/-! ## The simulation -/

/-- **The simulation relation.** -/
structure Sim (p : String) (s : Redis) (m : TtlMap) : Prop where
  typed : IndexTyped p s
  now : m.now = s.now
  data : ∀ key, s.lookup (fullKey p key) = (m.find key).map Entry.toObj

namespace Sim

variable {p : String} {s : Redis} {m : TtlMap}

theorem contents_eq (h : Sim p s m) : contents p s = m.find := by
  funext key
  unfold contents
  rw [h.data key]
  cases m.find key with
  | none => rfl
  | some e => rfl

theorem live_iff (h : Sim p s m) (key : String) :
    s.Live (fullKey p key) ↔ (m.find key).isSome = true := by
  rw [Redis.Live, h.data key, Option.isSome_map]

/-- **An entry stored on both sides.** -/
theorem store (hp : p ≠ "") (h : Sim p s m) (key : String) (e : Entry) (due : Due)
    (he : TtlMap.Fresh e m.now = true) :
    Sim p (s.store (fullKey p key) (indexKey p) (expiryKey p) e.toObj due) (m.set key e) where
  typed := ⟨h.typed.index.store (fullKey_ne_indexKey hp key).symm,
    h.typed.expiry.store (fullKey_ne_expiryKey hp key).symm⟩
  now := h.now.trans (Redis.store_now s).symm
  data := by
    intro key'
    by_cases hk : key' = key
    · subst hk
      have hlive : e.toObj.liveAt s.now = true := h.now ▸ he
      rw [Redis.lookup_store_self s (fullKey_ne_indexKey hp key') (fullKey_ne_expiryKey hp key')
        hlive, m.find_set_self he]
      rfl
    · rw [Redis.lookup_store_of_ne s (fun he => hk (fullKey_injective p he))
        (fullKey_ne_indexKey hp key') (fullKey_ne_expiryKey hp key'), m.find_set_of_ne e hk,
        h.data key']

/-- **A key removed on both sides.** -/
theorem drop (hp : p ≠ "") (h : Sim p s m) (key : String) :
    Sim p (s.drop (fullKey p key) (indexKey p) (expiryKey p)) (m.erase key) where
  typed := ⟨h.typed.index.drop (fullKey_ne_indexKey hp key).symm,
    h.typed.expiry.drop (fullKey_ne_expiryKey hp key).symm⟩
  now := h.now.trans (Redis.drop_now s).symm
  data := by
    intro key'
    by_cases hk : key' = key
    · subst hk
      rw [Redis.lookup_drop_self s (fullKey_ne_indexKey hp key') (fullKey_ne_expiryKey hp key'),
        m.find_erase_self]
      rfl
    · rw [Redis.lookup_drop_of_ne s (fun he => hk (fullKey_injective p he))
        (fullKey_ne_indexKey hp key') (fullKey_ne_expiryKey hp key'), m.find_erase_of_ne hk,
        h.data key']

/-- **What leaves the data keys alone is nothing to the map.** -/
theorem congr {t : Redis} (h : Sim p s m) (hk : KeepsData p s t) : Sim p t m :=
  ⟨hk.typed, h.now.trans hk.now.symm, fun key => (hk.data key).trans (h.data key)⟩

/-- **Time passes on both sides.** -/
theorem tick (h : Sim p s m) (d : ℕ) : Sim p (s.tick d) { m with now := m.now + d } where
  typed := ⟨h.typed.index.congr (h.typed.index.lookup_tick d),
    h.typed.expiry.congr (h.typed.expiry.lookup_tick d)⟩
  now := congrArg (· + d) h.now
  data := by
    intro key
    rw [Redis.lookup_tick, h.data key, m.find_tick, ← h.now]
    cases m.find key with
    | none => rfl
    | some e =>
      have hf : e.toObj.liveAt (m.now + d) = TtlMap.Fresh e (m.now + d) := rfl
      rw [Option.map_some, Option.filter_some, Option.filter_some, hf]
      cases TtlMap.Fresh e (m.now + d) with
      | true => rfl
      | false => rfl

/-! ## The operations -/

/-- The deadline of a write is the map's. -/
theorem deadline_eq (h : Sim p s m) (ttl : Option Duration) :
    deadline s.now (Double.roundNat (ttlMs ttl)) = m.due Double.roundNat ttl := by
  unfold deadline TtlMap.due
  rw [h.now]
  by_cases ht : 0 < ttlMs ttl
  · rw [if_pos ht, if_pos (Double.roundNat_pos ht)]
  · have h0 : ttlMs ttl = 0 := Nat.eq_zero_of_not_pos ht
    rw [if_neg ht, h0, Double.roundNat_zero, if_neg (lt_irrefl 0)]

/-- A deadline just set is not past. -/
theorem fresh_due (m : TtlMap) (b : List UInt8) (ttl : Option Duration) (life : ℕ → ℕ) :
    TtlMap.Fresh ⟨b, m.due life ttl⟩ m.now = true := by
  unfold TtlMap.due TtlMap.Fresh
  split
  · simp
  · rfl

theorem counter_eq (h : Sim p s m) (key : String) :
    s.counter (fullKey p key) = match m.current key with
      | none => .error .notAnInteger
      | some c => .ok c := by
  unfold Redis.counter TtlMap.current
  rw [h.data key]
  cases m.find key with
  | none => rfl
  | some e =>
    simp only [Option.map_some, Entry.toObj]
    cases string2ll e.bytes with
    | none => rfl
    | some c => rfl

/-- **The end of a counter**, on both sides: the sum is stored, and the
deadline is the new one or the one it had. -/
theorem counted (hp : p ≠ "") (h : Sim p s m) {key : String} {a c : ℤ} {ttl : Option Duration}
    (clock : ℕ) (hok : TtlOk s.now (ttlMs ttl)) (ha : InI64 a) (hc : m.current key = some c)
    (hs : IsSmall (c + a)) :
    ∃ t, incrTail (fullKey p key) (indexKey p) (expiryKey p) (some a) (ttlMs ttl) clock s
        = (.ok (c + a), t)
      ∧ Sim p t (m.set key ⟨ll2string (c + a), if 0 < ttlMs ttl then m.due Double.roundNat ttl
          else (m.find key).bind Entry.expiresAt⟩) := by
  have hi := inI64_of_isSmall hs
  have hcount : s.count (fullKey p key) (some a) = .ok (c + a) :=
    Redis.count_eq_ok_iff.mpr ⟨ha, c, by rw [h.counter_eq, hc], hi, rfl⟩
  -- the deadline the script leaves is the one the map says
  have hdue : counterDeadline s (fullKey p key) (Double.roundNat (ttlMs ttl))
      = if 0 < ttlMs ttl then m.due Double.roundNat ttl
        else (m.find key).bind Entry.expiresAt := by
    unfold counterDeadline
    by_cases ht : 0 < ttlMs ttl
    · rw [if_pos (Double.roundNat_pos ht), if_pos ht, TtlMap.due, if_pos ht, h.now]
    · have h0 : ttlMs ttl = 0 := Nat.eq_zero_of_not_pos ht
      rw [if_neg ht, h0, Double.roundNat_zero, if_neg (lt_irrefl 0), h.data key]
      cases m.find key with
      | none => rfl
      | some e => rfl
  have hlive := liveAt_counterDeadline (.str (ll2string (c + a))) s (fullKey p key)
    (Double.roundNat (ttlMs ttl))
  rw [hdue] at hlive
  refine ⟨_, ?_, h.store hp key ⟨ll2string (c + a), _⟩ (counterDue clock
    (Double.roundNat (ttlMs ttl))) (h.now ▸ hlive)⟩
  rw [incrTail_stored h.typed.index h.typed.expiry (fullKey_ne_indexKey hp key).symm
    (fullKey_ne_expiryKey hp key).symm hok hcount, Double.round_of_lt hs, hdue]
  rfl

/-- A counter's error that contains the counters' word is a precondition. -/
theorem outcome_incrErr (drv : Driver) (op key : String) {e : ScriptError}
    (he : Contains e.text incrPrecondition) :
    outcome (.error (incrErr drv op key e)) = .precondition := by
  rw [incrErr, if_pos ((drv.contains_display e).mpr he)]
  rfl

theorem contains_incrTail_error (e : CmdError) :
    Contains (ScriptError.reply (incrPrecondition ++ ": " ++ e.text)).text incrPrecondition := by
  rw [ScriptError.text, String.append_assoc]
  exact contains_incrPrecondition _

/-- A counter on a text that is no integer. -/
theorem incrTail_notAnInteger (h : Sim p s m) {key : String} (a : ℤ) (ttl clock : ℕ)
    (hc : m.current key = none) : ∃ e,
      incrTail (fullKey p key) (indexKey p) (expiryKey p) (some a) ttl clock s = (.error e, s)
        ∧ Contains e.text incrPrecondition := by
  have hcount : ∃ e, s.count (fullKey p key) (some a) = .error e := by
    cases hr : s.count (fullKey p key) (some a) with
    | error e => exact ⟨e, rfl⟩
    | ok n =>
      obtain ⟨-, c, hc', -⟩ := Redis.count_eq_ok_iff.mp hr
      rw [h.counter_eq, hc] at hc'
      exact absurd hc' (by simp)
  obtain ⟨e, he⟩ := hcount
  exact ⟨_, incrTail_error he, contains_incrTail_error e⟩

/-- **The amount a floored counter adds**, when everything is small: what
raises it to the floor, and the delta. -/
theorem floorAmount_eq (lua : Lua) (h : Sim p s m) {key : String} {c d f : ℤ}
    (hc : m.current key = some c) (hcs : IsSmall c) (hd : IsSmall d) (hf : IsSmall f)
    (hb : IsSmall (max c f - c)) (hs : IsSmall (max c f - c + d)) :
    floorAmount lua s (fullKey p key) d f = some (max c f - c + d) := by
  have hcount : s.counter (fullKey p key) = .ok c := by rw [h.counter_eq, hc]
  rw [floorAmount_of_counter lua hcount, Double.round_of_lt hcs, Double.round_of_lt hd,
    Double.round_of_lt hf, if_neg]
  · rw [floorStep_int, Double.round_of_lt hb, Double.round_of_lt hs]
  · simp only [LuaNumber.beyond, Bool.or_eq_true, decide_eq_true_eq, not_or, not_le]
    exact ⟨⟨hcs, hf⟩, hd⟩

/-- What a caller sees of a call that succeeds, and of one that fails. -/
theorem of_ok {x : Call KvReply} {r : KvReply} {t : Redis} {y : Outcome × TtlMap}
    (hx : x s = (.ok r, t)) (hy : y.1 = .ok r) (ht : Sim p t y.2) :
    outcome (x s).1 = y.1 ∧ Sim p (x s).2 y.2 := by
  rw [hx, hy]
  exact ⟨rfl, ht⟩

theorem of_precondition (drv : Driver) {x : Call KvReply} {e : ScriptError} {op key : String}
    {y : TtlMap} (hx : x s = (.error (incrErr drv op key e), s))
    (he : Contains e.text incrPrecondition) (h : Sim p s y) :
    outcome (x s).1 = .precondition ∧ Sim p (x s).2 y := by
  rw [hx]
  exact ⟨outcome_incrErr drv op key he, h⟩

theorem get (drv : Driver) (h : Sim p s m) (key : String) :
    reply .entry (RedisKv.get drv p s.now key) s = (.ok (.entry (m.find key)), s) := by
  refine reply_of_ok _ _ id (a := m.find key) ?_
  have hd := h.data key
  cases hm : m.find key with
  | none =>
    have hl : s.lookup (fullKey p key) = none := by rw [hd, hm, Option.map_none]
    have hg : Redis.get (fullKey p key) s = (.ok none, s) := by rw [Redis.get, hl]
    rw [Script.bind_ok hg]
    rfl
  | some e =>
    have hl : s.lookup (fullKey p key) = some e.toObj := by rw [hd, hm, Option.map_some]
    have hg : Redis.get (fullKey p key) s = (.ok (some e.bytes), s) := by
      rw [Redis.get, hl]
      rfl
    rw [Script.bind_ok hg]
    show (Except.ok (entryOf s.now (some e.bytes) (s.pttlReply (fullKey p key))), s) = _
    have hfresh := Redis.liveAt_of_lookup hl
    obtain ⟨b, x⟩ := e
    rw [Redis.pttlReply, hl]
    cases x with
    | none => rfl
    | some d =>
      -- what is left is counted from the same clock
      have hle : s.now ≤ d := of_decide_eq_true hfresh
      have h2 : ¬ (d : ℤ) - s.now = -2 := by omega
      have h0 : (0 : ℤ) ≤ d - s.now := by omega
      have hsum : s.now + ((d : ℤ) - s.now).toNat = d := by omega
      simp only [Entry.toObj, entryOf, Option.bind_some, if_neg h2, if_pos h0, hsum]

/-- A read of a caller's key never fails. -/
theorem get_ne_error (h : Sim p s m) (key : String) (e : ScriptError) :
    (Redis.get (fullKey p key) s).1 ≠ .error e := by
  unfold Redis.get
  rw [h.data key]
  cases m.find key with
  | none => simp
  | some e => simp [Entry.toObj]

/-- A write, on both sides. -/
theorem put (hp : p ≠ "") (h : Sim p s m) {key : String} (v : List UInt8) {ttl : Option Duration}
    (clock : ℕ) {nx : Bool} (hok : TtlOk s.now (ttlMs ttl))
    (hl : nx = true → ¬ s.Live (fullKey p key)) :
    ∃ t, setLua (fullKey p key) (indexKey p) (expiryKey p) v (ttlMs ttl) clock nx s = (.ok 1, t)
      ∧ Sim p t (m.set key ⟨v, m.due Double.roundNat ttl⟩) := by
  refine ⟨_, setLua_stored h.typed.index h.typed.expiry (fullKey_ne_indexKey hp key).symm
    (fullKey_ne_expiryKey hp key).symm hok hl, ?_⟩
  rw [h.deadline_eq]
  exact h.store hp key ⟨v, _⟩ _ (fresh_due m v ttl _)

/-- An expiry, on both sides. -/
theorem expire (hp : p ≠ "") (h : Sim p s m) {key : String} {ttl : Option Duration} (clock : ℕ)
    {e : Entry} (hok : TtlOk s.now (ttlMs ttl)) (hm : m.find key = some e) :
    ∃ t, expireLua (fullKey p key) (indexKey p) (expiryKey p) (ttlMs ttl) clock s = (.ok 1, t)
      ∧ Sim p t (m.set key { e with expiresAt := m.due Double.roundNat ttl }) := by
  have hl : s.lookup (fullKey p key) = some e.toObj := by rw [h.data, hm, Option.map_some]
  refine ⟨_, expireLua_stored h.typed.index h.typed.expiry (fullKey_ne_indexKey hp key).symm
    (fullKey_ne_expiryKey hp key).symm hok hl, ?_⟩
  rw [h.deadline_eq]
  have hstore := h.store hp key ⟨e.bytes, m.due Double.roundNat ttl⟩
    (writeDue clock (Double.roundNat (ttlMs ttl))) (fresh_due m e.bytes ttl _)
  exact hstore

/-- **Every operation**: related states give results a caller cannot tell
apart, and stay related. -/
theorem call (lua : Lua) (drv : Driver) (hp : p ≠ "") (h : Sim p s m) {clock : ℕ} {op : KvOp}
    (hok : TtlOk s.now (ttlMs op.ttl)) (hclock : clock = s.now) (hsmall : SmallCounts p s op) :
    outcome (RedisKv.call lua drv p clock op s).1 = (m.call Double.roundNat op).1
      ∧ Sim p (RedisKv.call lua drv p clock op s).2 (m.call Double.roundNat op).2 := by
  cases op with
  | get key =>
    subst hclock
    exact of_ok (h.get drv key) rfl h
  | put key v ttl =>
    obtain ⟨t, hrun, ht⟩ := h.put hp v clock hok (fun hn => absurd hn Bool.false_ne_true)
    exact of_ok (reply_of_ok _ _ _ hrun) rfl ht
  | putIfAbsent key v ttl =>
    by_cases hl : s.Live (fullKey p key)
    · have hm : (m.call Double.roundNat (.putIfAbsent key v ttl)) = (.ok (.bool false), m) :=
        if_pos ((h.live_iff key).mp hl)
      rw [hm]
      exact of_ok (reply_of_ok _ _ _ (setLua_held hok hl)) rfl h
    · have hm : (m.call Double.roundNat (.putIfAbsent key v ttl))
          = (.ok (.bool true), m.set key ⟨v, m.due Double.roundNat ttl⟩) :=
        if_neg (fun hf => hl ((h.live_iff key).mpr hf))
      obtain ⟨t, hrun, ht⟩ := h.put hp v clock hok (fun _ => hl)
      rw [hm]
      exact of_ok (reply_of_ok _ _ _ hrun) rfl ht
  | delete key =>
    refine of_ok (reply_of_ok _ _ _ (delLua_run h.typed.index h.typed.expiry
      (fullKey_ne_indexKey hp key).symm (fullKey_ne_expiryKey hp key).symm)) ?_ (h.drop hp key)
    by_cases hl : s.Live (fullKey p key)
    · rw [if_pos hl]
      show Outcome.ok (.bool (m.find key).isSome) = _
      rw [(h.live_iff key).mp hl]
      rfl
    · rw [if_neg hl]
      show Outcome.ok (.bool (m.find key).isSome) = _
      rw [Bool.eq_false_iff.mpr (fun hf => hl ((h.live_iff key).mpr hf))]
      rfl
  | expire key ttl =>
    cases hm : m.find key with
    | none =>
      have hcall : (m.call Double.roundNat (.expire key ttl)) = (.ok (.bool false), m) := by
        rw [TtlMap.call, hm]
      have hl : ¬ s.Live (fullKey p key) := by
        rw [h.live_iff, hm]
        simp
      rw [hcall]
      exact of_ok (reply_of_ok _ _ _ (expireLua_absent hl)) rfl h
    | some e =>
      have hcall : (m.call Double.roundNat (.expire key ttl))
          = (.ok (.bool true), m.set key { e with expiresAt := m.due Double.roundNat ttl }) := by
        rw [TtlMap.call, hm]
      obtain ⟨t, hrun, ht⟩ := h.expire hp clock hok hm
      rw [hcall]
      exact of_ok (reply_of_ok _ _ _ hrun) rfl ht
  | incr key d ttl =>
    obtain ⟨-, hsmall⟩ := hsmall
    show _ = (m.count Double.roundNat key (· + d) ttl).1
      ∧ Sim p _ (m.count Double.roundNat key (· + d) ttl).2
    cases hc : m.current key with
    | none =>
      obtain ⟨e, hrun, he⟩ := h.incrTail_notAnInteger d (ttlMs ttl) clock hc
      rw [TtlMap.count_none hc]
      exact of_precondition drv (reply_of_error _ _ _ hrun) he h
    | some c =>
      obtain ⟨hcs, hs⟩ := hsmall c (by rw [h.counter_eq, hc])
      obtain ⟨t, hrun, ht⟩ := h.counted hp clock hok d.2 hc hs
      rw [TtlMap.count_some hc (inI64_of_isSmall hs)]
      exact of_ok (reply_of_ok _ _ _ hrun) rfl ht
  | incrFloor key d f ttl =>
    obtain ⟨hd, hf, hsmall⟩ := hsmall
    show _ = (m.count Double.roundNat key (fun c => max c f + d) ttl).1
      ∧ Sim p _ (m.count Double.roundNat key (fun c => max c f + d) ttl).2
    cases hc : m.current key with
    | none =>
      rw [TtlMap.count_none hc]
      cases ha : floorAmount lua s (fullKey p key) d f with
      | none =>
        obtain ⟨e, hrun, he⟩ := incrFloorLua_none (indexKey p) (expiryKey p) (ttlMs ttl) clock ha
        refine of_precondition drv (reply_of_error _ _ _ hrun) (he.resolve_left ?_) h
        exact h.get_ne_error key e
      | some a =>
        obtain ⟨e, hrun, he⟩ := h.incrTail_notAnInteger a (ttlMs ttl) clock hc
        exact of_precondition drv (reply_of_error _ _ _ ((incrFloorLua_some ha).trans hrun)) he h
    | some c =>
      obtain ⟨hcs, hb, hs, hr⟩ := hsmall c (by rw [h.counter_eq, hc])
      have ha := h.floorAmount_eq lua hc hcs hd hf hb hs
      have hsum : c + (max c f - c + d) = max c f + d := by omega
      obtain ⟨t, hrun, ht⟩ := h.counted hp clock hok (inI64_of_isSmall hs) hc (hsum ▸ hr)
      rw [hsum] at hrun ht
      rw [TtlMap.count_some hc (inI64_of_isSmall hr)]
      exact of_ok (reply_of_ok _ _ _ ((incrFloorLua_some ha).trans hrun)) rfl ht

/-! ## Maintenance -/

/-- **A maintenance script is nothing to the map**, whatever its keys. -/
theorem maintenance (lua : Lua) (drv : Driver) (hp : p ≠ "") (h : Sim p s m) {e : KvEvent}
    (he : ∀ key, ¬ e.MayChange key) : Sim p ((kvSystem lua drv p).step s e).2 m :=
  h.congr (KeepsData.maintenance lua drv hp h.typed he)

/-- An empty server is an empty map. -/
theorem empty (p : String) (t : ℕ) : Sim p (Redis.empty t) (TtlMap.empty t) :=
  ⟨(IndexInv.empty p t).toIndexTyped, rfl, fun _ => rfl⟩

/-- **Every event**: related states answer alike and stay related. -/
theorem step (lua : Lua) (drv : Driver) (hp : p ≠ "") (h : Sim p s m) {e : KvEvent}
    (he : OneClock p s e) :
    ((kvSystem lua drv p).step s e).1.map outcome = ((kvMap Double.roundNat).step m e).1
      ∧ Sim p ((kvSystem lua drv p).step s e).2 ((kvMap Double.roundNat).step m e).2 := by
  cases e with
  | call clock op =>
    obtain ⟨ho, hs⟩ := h.call lua drv hp he.1 he.2.1 he.2.2
    exact ⟨congrArg some ho, hs⟩
  | tick d => exact ⟨rfl, h.tick d⟩
  | prune gone => exact ⟨rfl, h.maintenance lua drv hp (fun _ hn => hn)⟩
  | sweep clock due => exact ⟨rfl, h.maintenance lua drv hp (fun _ hn => hn)⟩
  | backfill clock batch => exact ⟨rfl, h.maintenance lua drv hp (fun _ hn => hn)⟩
  | markComplete startedAt => exact ⟨rfl, h.maintenance lua drv hp (fun _ hn => hn)⟩
  | invalidate => exact ⟨rfl, h.maintenance lua drv hp (fun _ hn => hn)⟩

end Sim

/-- An operation of the map changes no key but its own. -/
theorem TtlMap.find_call_of_ne (life : ℕ → ℕ) (m : TtlMap) (op : KvOp) {key : String}
    (h : key ≠ op.key) : (m.call life op).2.find key = m.find key := by
  have hcount : ∀ k f ttl, key ≠ k → (m.count life k f ttl).2.find key = m.find key := by
    intro k f ttl hk
    unfold TtlMap.count
    split
    · rfl
    · split
      · exact m.find_set_of_ne _ hk
      · rfl
  cases op with
  | get k => rfl
  | put k v ttl => exact m.find_set_of_ne _ h
  | putIfAbsent k v ttl =>
    rw [TtlMap.call]
    split
    · rfl
    · exact m.find_set_of_ne _ h
  | delete k => exact m.find_erase_of_ne h
  | expire k ttl =>
    rw [TtlMap.call]
    split
    · rfl
    · exact m.find_set_of_ne _ h
  | incr k d ttl => exact hcount k _ ttl h
  | incrFloor k d f ttl => exact hcount k _ ttl h

/-- A step of the map changes only the keys its event may change. -/
theorem kvMap_find_of_not_mayChange (life : ℕ → ℕ) (m : TtlMap) (e : KvEvent) {key : String}
    (h : ¬ e.MayChange key) : ((kvMap life).step m e).2.find key = m.find key := by
  cases e with
  | call clock op => exact m.find_call_of_ne life op h
  | tick d => exact absurd trivial h
  | prune gone => rfl
  | sweep clock due => rfl
  | backfill clock batch => rfl
  | markComplete startedAt => rfl
  | invalidate => rfl

/-- **The store refines the map with lifetimes**, under every prefix the
configuration accepts; a lifetime counts as the double its milliseconds
round to. -/
theorem store_refines_map {p : String} (hp : p ≠ "") (lua : Lua) (drv : Driver) :
    RefinesMap Double.roundNat p lua drv := by
  have hsim : ∀ t es, (kvSystem lua drv p).Along (OneClock p) (Redis.empty t) es → _ :=
    fun t es hes => System.sim_final (kvSystem lua drv p) (kvMap Double.roundNat)
      (R := Sim p) (A := fun a b => a.map outcome = b)
      (fun s m e h he => h.step lua drv hp he) (Sim.empty p t) hes
  refine ⟨fun t es hes => ?_, fun t es hes => (hsim t es hes).2.contents_eq, ?_⟩
  · exact List.forall₂_eq_eq_eq ▸ List.forall₂_map_left_iff.mpr (hsim t es hes).1
  · intro t es e hes key hkey
    have hpre := ((kvSystem lua drv p).along_append _ es [e]).mp hes
    rw [congrFun (hsim t _ hes).2.contents_eq key, congrFun (hsim t _ hpre.1).2.contents_eq key,
      System.final_append]
    exact kvMap_find_of_not_mayChange _ _ e hkey

/-- **Of two claims on a key one wins**: a run of the store, answered by the
map. -/
theorem store_refines_map_two_claims :
    ((kvSystem Lua.integers Driver.plain "p").answers (Redis.empty 0)
        [.call 0 (.putIfAbsent "k" [1] none), .call 0 (.putIfAbsent "k" [2] none)]).map
          (Option.map outcome)
      = [some (.ok (.bool true)), some (.ok (.bool false))] := by
  refine ((store_refines_map (by decide) Lua.integers Driver.plain).results 0 _ ?_).trans
    (by decide)
  exact ⟨⟨by decide, rfl, trivial⟩, ⟨by decide, rfl, trivial⟩, trivial⟩

/-- **What keeps the store from being the plain map.** Without a prefix a
caller can name the key index, and a write to it fails; and a lifetime of
`2 ^ 53 + 1` milliseconds ends a millisecond early. -/
theorem plain_map_not_refined :
    ¬ RefinesMap id "" Lua.integers Driver.plain
      ∧ ¬ RefinesMap id "p" Lua.integers Driver.plain := by
  constructor
  · intro h
    have hr := h.results 0 [.call 0 (.put "#kv-index" [1] none)]
      ⟨⟨by decide, rfl, trivial⟩, trivial⟩
    exact absurd hr (by decide)
  · intro h
    have hr := h.results 0
      [.call 0 (.put "k" [1] (some (Duration.ofMillis (2 ^ 53 + 1) (by decide)))),
        .call 0 (.get "k")]
      ⟨⟨by decide, rfl, trivial⟩, ⟨by decide, rfl, trivial⟩, trivial⟩
    exact absurd hr (by decide)
