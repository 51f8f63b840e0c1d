import ClusterRedis.KvIndex

/-!
# What a failed operation leaves behind

A script is not a transaction: the commands before the one that raises stay
done. Whether an operation that returns an error has changed anything
therefore depends on what its script still calls after its first change.

For all operations but two nothing can fail by then. A write and an expiry
let the server judge the lifetime before anything is stored, and the
commands on the indexes cannot fail on sorted sets. A counter is the
exception: it adds first and sets the lifetime after, so a lifetime the
server refuses leaves the sum in place, without the lifetime, and – for a
key that was absent – without an entry in either index. `error_cases` says
so for every operation; `failed_call_clean_iff` turns it into the exact
condition under which a failed operation has changed nothing.
-/

open Numerals

namespace RedisKv

/-- **The amount an operation adds to a counter**; none for the operations
that add nothing, and when a floored counter refuses to. -/
def amount (lua : Lua) (p : String) (s : Redis) : KvOp → Option ℤ
  | .incr _ d _ => some d
  | .incrFloor k d f _ => floorAmount lua s (fullKey p k) d f
  | _ => none

/-- The counter at a key can take an amount. -/
def CanAdd (s : Redis) (k : String) (a : ℤ) : Prop :=
  InI64 a ∧ ∃ c, s.counter k = .ok c ∧ InI64 (c + a)

/-- **An operation whose sum is stored before its lifetime is refused**: it
adds to a counter that can take it, with a lifetime the server does not
accept, and the sum is a change. -/
def AddsThenFails (lua : Lua) (p : String) (s : Redis) (op : KvOp) : Prop :=
  ¬ TtlOk s.now (ttlMs op.ttl)
    ∧ ∃ a, amount lua p s op = some a ∧ CanAdd s (fullKey p op.key) a
      ∧ (a ≠ 0 ∨ ¬ s.Live (fullKey p op.key))

/-- The operation's key and both indexes are as they were. -/
def Untouched (p key : String) (s t : Redis) : Prop :=
  t.lookup (fullKey p key) = s.lookup (fullKey p key)
    ∧ t.lookup (indexKey p) = s.lookup (indexKey p)
    ∧ t.lookup (expiryKey p) = s.lookup (expiryKey p)

/-- **An operation that fails changes nothing.** -/
def FailsClean (lua : Lua) (drv : Driver) (p : String) (clock : ℕ) (op : KvOp) (s : Redis) :
    Prop :=
  ∀ e t, call lua drv p clock op s = (.error e, t) → Untouched p op.key s t

end RedisKv

open RedisKv

/-- A failed call is a failed script, in the state the script left. -/
theorem error_of_reply {α β : Type} {g : β → KvReply} {err : ScriptError → ClusterError}
    {x : Script α} {f : α → β} {s t : Redis} {e : ClusterError}
    (h : reply g (Call.invoke err x f) s = (.error e, t)) : ∃ e', x s = (.error e', t) := by
  cases hx : x s with
  | mk r u =>
    cases r with
    | ok a =>
      rw [reply, Call.invoke_ok hx] at h
      exact absurd (congrArg Prod.fst h) (by simp [Except.map])
    | error e' =>
      rw [reply, Call.invoke_error hx] at h
      exact ⟨e', congrArg (fun t => (Except.error e', t)) (congrArg Prod.snd h)⟩

/-- A script that fails makes its call fail. -/
theorem reply_of_error {α β : Type} (g : β → KvReply) (err : ScriptError → ClusterError)
    {x : Script α} (f : α → β) {s t : Redis} {e : ScriptError} (h : x s = (.error e, t)) :
    reply g (Call.invoke err x f) s = (.error (err e), t) := by
  rw [reply, Call.invoke_error h]
  rfl

/-- A script that succeeds makes its call succeed. -/
theorem reply_of_ok {α β : Type} (g : β → KvReply) (err : ScriptError → ClusterError)
    {x : Script α} (f : α → β) {s t : Redis} {a : α} (h : x s = (.ok a, t)) :
    reply g (Call.invoke err x f) s = (.ok (g (f a)), t) := by
  rw [reply, Call.invoke_ok h]
  rfl

section Cases

variable {p : String} {s t : Redis}

/-- A lifetime that is not accepted, in the terms the scripts read. -/
theorem not_ttlOk_iff {now ttl : ℕ} :
    ¬ TtlOk now ttl ↔ 0 < Double.roundNat ttl ∧ ¬ ExpireOk now (Double.roundNat ttl) := by
  unfold TtlOk
  exact Classical.not_imp

/-- A write fails before it stores. -/
theorem setLua_error (hp : p ≠ "") (h : IndexTyped p s) {key : String} {v : List UInt8}
    {ttl clock : ℕ} {nx : Bool} {e : ScriptError}
    (he : setLua (fullKey p key) (indexKey p) (expiryKey p) v ttl clock nx s = (.error e, t)) :
    t = s := by
  by_cases hok : TtlOk s.now ttl
  · by_cases hl : nx = true ∧ s.Live (fullKey p key)
    · rw [hl.1, setLua_held hok hl.2] at he
      exact absurd (congrArg Prod.fst he) (by simp)
    · rw [setLua_stored h.index h.expiry (fullKey_ne_indexKey hp key).symm
        (fullKey_ne_expiryKey hp key).symm hok (fun hn hl' => hl ⟨hn, hl'⟩)] at he
      exact absurd (congrArg Prod.fst he) (by simp)
  · obtain ⟨hpos, hbad⟩ := not_ttlOk_iff.mp hok
    rw [setLua_refused hpos hbad] at he
    exact (congrArg Prod.snd he).symm

/-- An expiry fails before it changes anything. -/
theorem expireLua_error (hp : p ≠ "") (h : IndexTyped p s) {key : String} {ttl clock : ℕ}
    {e : ScriptError}
    (he : expireLua (fullKey p key) (indexKey p) (expiryKey p) ttl clock s = (.error e, t)) :
    t = s := by
  by_cases hl : s.Live (fullKey p key)
  · by_cases hok : TtlOk s.now ttl
    · obtain ⟨o, ho⟩ := Option.isSome_iff_exists.mp hl
      rw [expireLua_stored h.index h.expiry (fullKey_ne_indexKey hp key).symm
        (fullKey_ne_expiryKey hp key).symm hok ho] at he
      exact absurd (congrArg Prod.fst he) (by simp)
    · obtain ⟨hpos, hbad⟩ := not_ttlOk_iff.mp hok
      rw [expireLua_refused hl hpos hbad] at he
      exact (congrArg Prod.snd he).symm
  · rw [expireLua_absent hl] at he
    exact absurd (congrArg Prod.fst he) (by simp)

/-- **A counter fails before it adds, or after.** -/
theorem incrTail_error_cases (hp : p ≠ "") (h : IndexTyped p s) {key : String} {a : ℤ}
    {ttl clock : ℕ} {e : ScriptError}
    (he : incrTail (fullKey p key) (indexKey p) (expiryKey p) (some a) ttl clock s
      = (.error e, t)) :
    t = s ∨ ¬ TtlOk s.now ttl ∧ ∃ n, s.count (fullKey p key) (some a) = .ok n
      ∧ t = s.put (fullKey p key) (s.counted (fullKey p key) n) := by
  cases hc : s.count (fullKey p key) (some a) with
  | error e' =>
    rw [incrTail_error hc] at he
    exact Or.inl (congrArg Prod.snd he).symm
  | ok n =>
    by_cases hok : TtlOk s.now ttl
    · rw [incrTail_stored h.index h.expiry (fullKey_ne_indexKey hp key).symm
        (fullKey_ne_expiryKey hp key).symm hok hc] at he
      exact absurd (congrArg Prod.fst he) (by simp)
    · obtain ⟨hpos, hbad⟩ := not_ttlOk_iff.mp hok
      rw [incrTail_refused hc hpos hbad] at he
      exact Or.inr ⟨hok, n, rfl, (congrArg Prod.snd he).symm⟩

/-- **Where an operation that fails leaves the server**: where it found it,
or with a sum stored whose lifetime was refused. -/
theorem error_cases (lua : Lua) (drv : Driver) (hp : p ≠ "") (h : IndexTyped p s) {clock : ℕ}
    {op : KvOp} {e : ClusterError} (he : call lua drv p clock op s = (.error e, t)) :
    t = s ∨ ¬ TtlOk s.now (ttlMs op.ttl) ∧ ∃ a n, amount lua p s op = some a
      ∧ s.count (fullKey p op.key) (some a) = .ok n
      ∧ t = s.put (fullKey p op.key) (s.counted (fullKey p op.key) n) := by
  cases op with
  | get key => exact Or.inl ((congrArg Prod.snd he).symm.trans (call_get lua drv clock key))
  | put key v ttl =>
    obtain ⟨e', he'⟩ := error_of_reply he
    exact Or.inl (setLua_error hp h he')
  | putIfAbsent key v ttl =>
    obtain ⟨e', he'⟩ := error_of_reply he
    exact Or.inl (setLua_error hp h he')
  | delete key =>
    obtain ⟨e', he'⟩ := error_of_reply he
    rw [delLua_run h.index h.expiry (fullKey_ne_indexKey hp key).symm
      (fullKey_ne_expiryKey hp key).symm] at he'
    exact absurd (congrArg Prod.fst he') (by simp)
  | expire key ttl =>
    obtain ⟨e', he'⟩ := error_of_reply he
    exact Or.inl (expireLua_error hp h he')
  | incr key d ttl =>
    obtain ⟨e', he'⟩ := error_of_reply he
    rcases incrTail_error_cases hp h he' with ht | ⟨hok, n, hn, ht⟩
    · exact Or.inl ht
    · exact Or.inr ⟨hok, d, n, rfl, hn, ht⟩
  | incrFloor key d f ttl =>
    obtain ⟨e', he'⟩ := error_of_reply he
    cases ha : floorAmount lua s (fullKey p key) d f with
    | none =>
      obtain ⟨e₀, h₀, -⟩ := incrFloorLua_none (indexKey p) (expiryKey p) (ttlMs ttl) clock ha
      exact Or.inl (congrArg Prod.snd (h₀.symm.trans he')).symm
    | some a =>
      rw [incrFloorLua_some ha] at he'
      rcases incrTail_error_cases hp h he' with ht | ⟨hok, n, hn, ht⟩
      · exact Or.inl ht
      · exact Or.inr ⟨hok, a, n, ha, hn, ht⟩

/-- Only the counters add, each its own amount. -/
theorem amount_cases {lua : Lua} {op : KvOp} {a : ℤ} (ha : amount lua p s op = some a) :
    (∃ key d ttl, op = .incr key d ttl ∧ d.1 = a)
      ∨ ∃ key d f ttl, op = .incrFloor key d f ttl
        ∧ floorAmount lua s (fullKey p key) d f = some a := by
  cases op with
  | incr key d ttl => exact Or.inl ⟨key, d, ttl, rfl, Option.some.inj ha⟩
  | incrFloor key d f ttl => exact Or.inr ⟨key, d, f, ttl, rfl, ha⟩
  | get key => cases ha
  | put key v ttl => cases ha
  | putIfAbsent key v ttl => cases ha
  | delete key => cases ha
  | expire key ttl => cases ha

/-- **An operation that adds and is refused its lifetime** fails with its
sum stored. -/
theorem call_adds_then_fails (lua : Lua) (drv : Driver) (clock : ℕ) {op : KvOp} {a n : ℤ}
    (hok : ¬ TtlOk s.now (ttlMs op.ttl)) (ha : amount lua p s op = some a)
    (hn : s.count (fullKey p op.key) (some a) = .ok n) :
    ∃ e, call lua drv p clock op s
      = (.error e, s.put (fullKey p op.key) (s.counted (fullKey p op.key) n)) := by
  obtain ⟨hpos, hbad⟩ := not_ttlOk_iff.mp hok
  rcases amount_cases ha with ⟨key, d, ttl, rfl, rfl⟩ | ⟨key, d, f, ttl, rfl, hf⟩
  · exact ⟨_, reply_of_error _ _ _ (incrTail_refused hn hpos hbad)⟩
  · exact ⟨_, reply_of_error _ _ _ ((incrFloorLua_some hf).trans (incrTail_refused hn hpos hbad))⟩

/-- A sum stored is a change, unless nothing was added to a counter that was
there. -/
theorem lookup_counted_eq_iff {k : String} {a n : ℤ} (hn : s.count k (some a) = .ok n) :
    (s.put k (s.counted k n)).lookup k = s.lookup k ↔ ¬ (a ≠ 0 ∨ ¬ s.Live k) := by
  obtain ⟨-, c, hc, hb, rfl⟩ := Redis.count_eq_ok_iff.mp hn
  rw [Redis.lookup_put_self s (Redis.liveAt_counted k _)]
  cases hl : s.lookup k with
  | none =>
    have hdead : ¬ s.Live k := by
      rw [Redis.Live, hl]
      simp
    simp [hdead]
  | some o =>
    obtain ⟨hv, hi⟩ := Redis.lookup_of_counter hl hc
    have hlive : s.Live k := by
      rw [Redis.Live, hl]
      rfl
    rw [not_or, not_not, not_not]
    constructor
    · intro he
      have hv' := congrArg Obj.value (Option.some.inj he)
      rw [hv] at hv'
      have hb' : ll2string (c + a) = ll2string c := Value.str.inj hv'
      have hca : c + a = c := by
        have := congrArg string2ll hb'
        rw [string2ll_ll2string hb, string2ll_ll2string hi] at this
        exact Option.some.inj this
      exact ⟨by omega, hlive⟩
    · rintro ⟨rfl, -⟩
      obtain ⟨v, x⟩ := o
      obtain rfl : v = .str (ll2string c) := hv
      rw [Redis.counted, hl, add_zero]
      rfl

/-- An operation that does not add before it fails changes nothing when it
does. -/
theorem failsClean_of_not (lua : Lua) (drv : Driver) (hp : p ≠ "") (h : IndexTyped p s)
    (clock : ℕ) {op : KvOp} (hgood : ¬ AddsThenFails lua p s op) :
    FailsClean lua drv p clock op s := by
  intro e t he
  rcases error_cases lua drv hp h he with rfl | ⟨hok, a, n, ha, hn, rfl⟩
  · exact ⟨rfl, rfl, rfl⟩
  · obtain ⟨hi, c, hc, hb, -⟩ := Redis.count_eq_ok_iff.mp hn
    refine ⟨(lookup_counted_eq_iff hn).mpr
      (fun hch => hgood ⟨hok, a, ha, ⟨hi, c, hc, hb⟩, hch⟩), ?_, ?_⟩
    · exact Redis.lookup_put_of_ne s (fullKey_ne_indexKey hp op.key).symm
    · exact Redis.lookup_put_of_ne s (fullKey_ne_expiryKey hp op.key).symm

end Cases

/-- **When a failed operation has changed nothing.** In a store whose
indexes are sorted sets, an operation that returns an error leaves its data
key and both indexes exactly as they were, if and only if it is not a
counter that adds first and is refused its lifetime after. -/
theorem failed_call_clean_iff (lua : Lua) (drv : Driver) {p : String} (hp : p ≠ "") {s : Redis}
    (h : IndexTyped p s) (clock : ℕ) (op : KvOp) :
    FailsClean lua drv p clock op s ↔ ¬ AddsThenFails lua p s op := by
  constructor
  · rintro hclean ⟨hok, a, ha, ⟨hi, c, hc, hb⟩, hch⟩
    have hn := Redis.count_eq_ok_iff.mpr ⟨hi, c, hc, hb, rfl⟩
    obtain ⟨e, he⟩ := call_adds_then_fails lua drv clock hok ha hn
    exact (lookup_counted_eq_iff hn).mp (hclean e _ he).1 hch
  · exact failsClean_of_not lua drv hp h clock

/-- A lifetime of `2 ^ 63` milliseconds, past what the server's clock holds. -/
def hugeTtl : Duration := Duration.ofMillis (2 ^ 63) (by decide)

/-- A write with that lifetime fails and changes nothing. -/
theorem put_hugeTtl_clean :
    FailsClean Lua.integers Driver.plain "p" 0 (.put "k" [1] (some hugeTtl)) (Redis.empty 0) := by
  refine (failed_call_clean_iff Lua.integers Driver.plain (by decide)
    (IndexInv.empty "p" 0).toIndexTyped 0 _).mpr ?_
  rintro ⟨-, a, ha, -⟩
  exact absurd ha (by simp [amount])

/-- **A counter with that lifetime fails and leaves its sum behind**, on a
key that was absent, with no lifetime and in no index. -/
theorem incr_hugeTtl_not_clean :
    ¬ FailsClean Lua.integers Driver.plain "p" 0
      (.incr "k" ⟨1, by decide⟩ (some hugeTtl)) (Redis.empty 0) := by
  intro h
  have hk := (h _ _ rfl).1
  exact absurd (congrArg Option.isSome hk) (by decide)
