import ClusterRedis.KvGaps
import ClusterRedis.KvRefine

/-!
# Counters that number things

Clients that share a counter number things with it: a call adds at least
one and answers the sum, and a floored call lifts the counter first. No two
calls may be given the same number, whichever clients make them.

Each call is one script, so a run is a dispenser in the sense of
`System.outputs_increase`: the level is the integer the key counts from, and
every call that answers takes the level to its answer. The arithmetic is
what needs care. A floored call computes the amount in doubles and gets the
sum back as a double, and both are exact only because the answer is: a
difference or a sum that had been rounded would have put the answer past
`2 ^ 53` (`floorAmount_exact`, `call_hands_out`).

The counter that stores its sum and is then refused its lifetime takes a
number it does not answer. The numbers answered still increase, but the key
no longer holds the last of them.
-/

open Numerals RedisKv

/-! ## Runs that count -/

/-- An operation that counts up, or one that leaves the value alone. -/
def KvOp.CountsUp : KvOp → Prop
  | .incr _ d _ => 1 ≤ d.1
  | .incrFloor _ d f _ => 1 ≤ d.1 ∧ 0 ≤ f.1
  | .get _ | .expire _ _ => True
  | .put _ _ _ | .putIfAbsent _ _ _ | .delete _ => False

/-- **A key is left to its counters**: no operation on it does anything but
count up, and it does not expire. Other keys and the maintenance are free. -/
def LeftToCount (p key : String) (s : Redis) : KvEvent → Prop
  | .call _ op => op.key = key → op.CountsUp
  | .tick d => s.Live (fullKey p key) → (s.tick d).Live (fullKey p key)
  | _ => True

/-- No operation on a key adds and is then refused its lifetime. -/
def NoneAddsThenFails (lua : Lua) (p key : String) (s : Redis) : KvEvent → Prop
  | .call _ op => op.key = key → ¬ AddsThenFails lua p s op
  | _ => True

/-- The number an operation on a key answered. -/
def numberOf (key : String) : KvEvent × Option (Except ClusterError KvReply) → Option ℤ
  | (.call _ op, some (.ok (.int n))) => if op.key = key then some n else none
  | _ => none

/-- **The numbers a run handed out** at a key, in the order of the calls. -/
def numbers (lua : Lua) (drv : Driver) (p key : String) (s : Redis) (es : List KvEvent) : List ℤ :=
  (kvSystem lua drv p).outputs (numberOf key) s es

/-- A floored call on a key is answered its floor and its delta, or more. -/
def AboveFloor (key : String) (x : KvEvent × Option (Except ClusterError KvReply)) : Prop :=
  ∀ clock d f ttl n, x = (.call clock (.incrFloor key d f ttl), some (.ok (.int n))) →
    f.1 + d.1 ≤ n

/-- **A counter hands out each number once.** -/
structure HandsOutOnce (lua : Lua) (drv : Driver) (p key : String) (s : Redis)
    (es : List KvEvent) : Prop where
  /-- Each number is greater than all that were handed out before it. -/
  increasing : (numbers lua drv p key s es).Pairwise (· < ·)
  /-- No floored call is answered less than its floor and its delta. -/
  floor : ∀ x ∈ (kvSystem lua drv p).trace s es, AboveFloor key x
  /-- The key holds the last number handed out. -/
  last : ∀ n, (numbers lua drv p key s es).getLast? = some n →
    (contents p ((kvSystem lua drv p).final s es) key).map Entry.bytes = some (ll2string n)

/-! ## The arithmetic -/

/-- **What a floored counter adds**, from a counter that is not negative:
one rounding, of what raises it to the floor plus the delta. -/
theorem floorAmount_round {lua : Lua} {s : Redis} {k : String} {c d f a : ℤ}
    (hc : s.counter k = .ok c) (h0 : 0 ≤ c) (ha : floorAmount lua s k d f = some a) :
    a = Double.round (max c f - c + d) := by
  rw [floorAmount_of_counter lua hc] at ha
  split at ha
  · exact absurd ha (by simp)
  next hb =>
    simp only [LuaNumber.beyond, Bool.or_eq_true, decide_eq_true_eq, not_or, not_le] at hb
    obtain ⟨⟨hcs, hfs⟩, hds⟩ := hb
    have hf := Double.round_eq_of_lt hfs
    rw [Double.round_eq_of_lt hcs, hf, Double.round_eq_of_lt hds, floorStep_int] at ha
    rw [hf] at hfs
    -- what is missing to the floor is at most the floor, so it is exact
    have hbase : Double.round (max c f - c) = max c f - c := by
      refine Double.round_of_lt (lt_of_le_of_lt ?_ hfs)
      omega
    rw [hbase] at ha
    exact (Option.some.inj ha).symm

/-- **A small sum was reached by an exact step.** -/
theorem floorAmount_exact {lua : Lua} {s : Redis} {k : String} {c d f a : ℤ}
    (hc : s.counter k = .ok c) (h0 : 0 ≤ c) (hd : 1 ≤ d) (ha : floorAmount lua s k d f = some a)
    (hlt : c + a < Double.exact) : a = max c f - c + d := by
  have hround := floorAmount_round hc h0 ha
  have hpos : 0 < Double.round (max c f - c + d) := Double.round_pos.mpr (by omega)
  rw [hround]
  refine Double.round_eq_of_lt ?_
  omega

/-! ## One call -/

section Call

variable {p : String} {s : Redis}

/-- An operation that counts up adds at least one. -/
theorem amount_pos {lua : Lua} {op : KvOp} {c a : ℤ} (hup : op.CountsUp)
    (hc : s.counter (fullKey p op.key) = .ok c) (h0 : 0 ≤ c) (ha : amount lua p s op = some a) :
    1 ≤ a := by
  rcases amount_cases ha with ⟨key, d, ttl, rfl, rfl⟩ | ⟨key, d, f, ttl, rfl, hf⟩
  · exact hup
  · obtain ⟨hd, -⟩ : 1 ≤ d.1 ∧ 0 ≤ f.1 := hup
    rw [floorAmount_round hc h0 hf]
    exact Double.round_pos.mpr (by omega)

/-- A counter that answers has counted, and answers what it counted, as the
double nearest to it. -/
theorem incrTail_answer (hp : p ≠ "") (h : IndexTyped p s) {key : String} {a n : ℤ}
    {ttl clock : ℕ}
    (hr : (incrTail (fullKey p key) (indexKey p) (expiryKey p) (some a) ttl clock s).1 = .ok n) :
    ∃ c, s.counter (fullKey p key) = .ok c ∧ n = Double.round (c + a)
      ∧ (incrTail (fullKey p key) (indexKey p) (expiryKey p) (some a) ttl clock s).2.counter
          (fullKey p key) = .ok (c + a) := by
  cases hcount : s.count (fullKey p key) (some a) with
  | error e =>
    rw [incrTail_error hcount] at hr
    exact absurd hr (by simp)
  | ok m =>
    obtain ⟨-, c, hc, hi, rfl⟩ := Redis.count_eq_ok_iff.mp hcount
    by_cases hok : TtlOk s.now ttl
    · rw [incrTail_stored h.index h.expiry (fullKey_ne_indexKey hp key).symm
        (fullKey_ne_expiryKey hp key).symm hok hcount] at hr ⊢
      refine ⟨c, hc, (Except.ok.inj hr).symm, ?_⟩
      rw [Redis.counter, Redis.lookup_store_self s (fullKey_ne_indexKey hp key)
        (fullKey_ne_expiryKey hp key) (liveAt_counterDeadline _ s _ _)]
      simp only [string2ll_ll2string hi]
    · obtain ⟨hpos, hbad⟩ := not_ttlOk_iff.mp hok
      rw [incrTail_refused hcount hpos hbad] at hr
      exact absurd hr (by simp)

/-- A call's answer is its script's. -/
theorem reply_fst {α β : Type} (g : β → KvReply) (err : ScriptError → ClusterError)
    {x : Script α} {f : α → β} {r : KvReply} (h : (reply g (Call.invoke err x f) s).1 = .ok r) :
    ∃ a, (x s).1 = .ok a ∧ r = g (f a) := by
  cases hx : x s with
  | mk y t =>
    cases y with
    | error e =>
      rw [reply_of_error g err f hx] at h
      exact absurd h (by simp)
    | ok a =>
      rw [reply_of_ok g err f hx] at h
      exact ⟨a, rfl, (Except.ok.inj h).symm⟩

/-- **A call that answers a number** answers what it counted, as the double
nearest to it. -/
theorem call_answer (lua : Lua) (drv : Driver) (hp : p ≠ "") (h : IndexTyped p s) {clock : ℕ}
    {op : KvOp} {n : ℤ} (hr : (call lua drv p clock op s).1 = .ok (.int n)) :
    ∃ c a, s.counter (fullKey p op.key) = .ok c ∧ amount lua p s op = some a
      ∧ n = Double.round (c + a)
      ∧ (call lua drv p clock op s).2.counter (fullKey p op.key) = .ok (c + a) := by
  cases op with
  | get key =>
    obtain ⟨a, -, ha⟩ := reply_fst _ _ hr
    cases ha
  | put key v ttl =>
    obtain ⟨a, -, ha⟩ := reply_fst _ _ hr
    cases ha
  | putIfAbsent key v ttl =>
    obtain ⟨a, -, ha⟩ := reply_fst _ _ hr
    cases ha
  | delete key =>
    obtain ⟨a, -, ha⟩ := reply_fst _ _ hr
    cases ha
  | expire key ttl =>
    obtain ⟨a, -, ha⟩ := reply_fst _ _ hr
    cases ha
  | incr key d ttl =>
    obtain ⟨m, hm, hnm⟩ := reply_fst _ _ hr
    obtain rfl : n = m := KvReply.int.inj hnm
    obtain ⟨c, hc, hn, hnext⟩ := incrTail_answer hp h hm
    refine ⟨c, d.1, hc, rfl, hn, ?_⟩
    simp only [call, reply, incr, Call.invoke_snd]
    exact hnext
  | incrFloor key d f ttl =>
    obtain ⟨m, hm, hnm⟩ := reply_fst _ _ hr
    obtain rfl : n = m := KvReply.int.inj hnm
    cases ha : floorAmount lua s (fullKey p key) d f with
    | none =>
      obtain ⟨e, he, -⟩ := incrFloorLua_none (indexKey p) (expiryKey p) (ttlMs ttl) clock ha
      rw [he] at hm
      cases hm
    | some a =>
      rw [incrFloorLua_some ha] at hm
      obtain ⟨c, hc, hn, hnext⟩ := incrTail_answer hp h hm
      refine ⟨c, a, hc, ha, hn, ?_⟩
      simp only [call, reply, incrFloor, Call.invoke_snd]
      rw [incrFloorLua_some ha]
      exact hnext

/-- **A small number is handed out exactly**: it is the sum, past what the
key held, and what the key holds next. -/
theorem call_hands_out (lua : Lua) (drv : Driver) (hp : p ≠ "") (h : IndexTyped p s) {clock : ℕ}
    {op : KvOp} (hup : op.CountsUp)
    (h0 : ∀ c, s.counter (fullKey p op.key) = .ok c → 0 ≤ c) {n : ℤ}
    (hr : (call lua drv p clock op s).1 = .ok (.int n)) (hn : n < Double.exact) :
    ∃ c a, s.counter (fullKey p op.key) = .ok c ∧ amount lua p s op = some a ∧ 1 ≤ a ∧ n = c + a
      ∧ (call lua drv p clock op s).2.counter (fullKey p op.key) = .ok n := by
  obtain ⟨c, a, hc, ha, hround, hnext⟩ := call_answer lua drv hp h hr
  have hpos := amount_pos hup hc (h0 c hc) ha
  have hc0 := h0 c hc
  have hexact : n = c + a := by
    rw [hround]
    refine Double.round_eq_of_lt ?_
    have := Double.round_nonneg (n := c + a) (by omega)
    omega
  exact ⟨c, a, hc, ha, hpos, hexact, hexact ▸ hnext⟩

/-- A lifetime set, cleared or refused leaves the integer. -/
theorem expire_counter (lua : Lua) (drv : Driver) (hp : p ≠ "") (h : IndexTyped p s) (clock : ℕ)
    (key : String) (ttl : Option Duration) :
    (call lua drv p clock (.expire key ttl) s).2.counter (fullKey p key)
      = s.counter (fullKey p key) := by
  simp only [call, reply, expire, Call.invoke_snd]
  cases hl : s.lookup (fullKey p key) with
  | none => rw [expireLua_absent (by rw [Redis.Live, hl]; simp)]
  | some o =>
    by_cases hok : TtlOk s.now (ttlMs ttl)
    · rw [expireLua_stored h.index h.expiry (fullKey_ne_indexKey hp key).symm
        (fullKey_ne_expiryKey hp key).symm hok hl, Redis.counter, Redis.counter, hl,
        Redis.lookup_store_self s (fullKey_ne_indexKey hp key) (fullKey_ne_expiryKey hp key)
          (liveAt_deadline _ _ _)]
      obtain ⟨v, x⟩ := o
      cases v with
      | str b => rfl
      | zset z => rfl
    · obtain ⟨hpos, hbad⟩ := not_ttlOk_iff.mp hok
      rw [expireLua_refused (by rw [Redis.Live, hl]; rfl) hpos hbad]

/-- **A call that answers no number leaves the integer**, when it counts up
or reads and does not fail halfway. -/
theorem call_quiet (lua : Lua) (drv : Driver) (hp : p ≠ "") (h : IndexTyped p s) {clock : ℕ}
    {op : KvOp} (hup : op.CountsUp) (hgood : ¬ AddsThenFails lua p s op)
    (hq : ∀ n, (call lua drv p clock op s).1 ≠ .ok (.int n)) :
    (call lua drv p clock op s).2.counter (fullKey p op.key)
      = s.counter (fullKey p op.key) := by
  cases hr : (call lua drv p clock op s).1 with
  | error e =>
    refine Redis.counter_congr ?_
    exact (failsClean_of_not lua drv hp h clock hgood e _ (Prod.ext hr rfl)).1
  | ok r =>
    cases op with
    | get key => rw [call_get]
    | expire key ttl => exact expire_counter lua drv hp h clock key ttl
    | incr key d ttl =>
      obtain ⟨m, -, rfl⟩ := reply_fst _ _ hr
      exact absurd hr (hq _)
    | incrFloor key d f ttl =>
      obtain ⟨m, -, rfl⟩ := reply_fst _ _ hr
      exact absurd hr (hq _)
    | put key v ttl => exact hup.elim
    | putIfAbsent key v ttl => exact hup.elim
    | delete key => exact hup.elim

/-- **A call leaves the keys it is not on.** -/
theorem call_lookup_of_ne (lua : Lua) (drv : Driver) (hp : p ≠ "") (h : IndexTyped p s)
    (clock : ℕ) {op : KvOp} {key : String} (hne : op.key ≠ key) :
    (call lua drv p clock op s).2.lookup (fullKey p key) = s.lookup (fullKey p key) := by
  have hk : fullKey p key ≠ fullKey p op.key := fun he => hne (fullKey_injective p he).symm
  have hi := fullKey_ne_indexKey hp key
  have he := fullKey_ne_expiryKey hp key
  by_cases hok : TtlOk s.now (ttlMs op.ttl)
  · have hch := call_change lua drv hp h clock op hok
    generalize (call lua drv p clock op s).2 = t at hch ⊢
    cases hch with
    | same => rfl
    | store o due => exact Redis.lookup_store_of_ne s hk hi he
    | drop => exact Redis.lookup_drop_of_ne s hk hi he
  · rcases call_refused lua drv clock op hok with hs | ⟨a, n, -, -, hs⟩
    · rw [hs]
    · rw [hs]
      exact Redis.lookup_put_of_ne s hk

end Call

/-! ## Runs -/

section Runs

variable {p key : String} {s : Redis}

/-- Every event keeps the indexes' type. -/
theorem IndexTyped.step (lua : Lua) (drv : Driver) (hp : p ≠ "") (h : IndexTyped p s)
    (e : KvEvent) : IndexTyped p ((kvSystem lua drv p).step s e).2 := by
  rcases e.kinds with ⟨clock, op, rfl⟩ | ⟨d, rfl⟩ | he
  · exact (Framed.step lua drv hp h (.call clock op) trivial).typed
  · exact (Framed.step lua drv hp h (.tick d) trivial).typed
  · exact (KeepsData.maintenance lua drv hp h he).typed

/-- A key that does not expire holds what it held. -/
theorem lookup_tick_of_kept {k : String} {d : ℕ} (hl : s.Live k → (s.tick d).Live k) :
    (s.tick d).lookup k = s.lookup k := by
  cases ht : (s.tick d).lookup k with
  | some o => exact (Redis.lookup_of_tick ht).symm
  | none =>
    cases hs : s.lookup k with
    | none => rfl
    | some o =>
      have := hl (by rw [Redis.Live, hs]; rfl)
      rw [Redis.Live, ht] at this
      cases this

/-- **What a key counts from**, `0` where it holds no integer. -/
def level (p key : String) (s : Redis) : ℤ :=
  match s.counter (fullKey p key) with
  | .ok c => c
  | .error _ => 0

theorem level_of_counter {c : ℤ} (hc : s.counter (fullKey p key) = .ok c) :
    level p key s = c := by
  rw [level, hc]

theorem level_congr {t : Redis} (h : t.counter (fullKey p key) = s.counter (fullKey p key)) :
    level p key t = level p key s := by
  rw [level, level, h]

/-- A positive level is the text a key holds. -/
theorem contents_of_level {n : ℤ} (hn : 0 < n) (h : level p key s = n) :
    (contents p s key).map Entry.bytes = some (ll2string n) := by
  cases hc : s.counter (fullKey p key) with
  | error e =>
    have h0 : level p key s = 0 := by rw [level, hc]
    omega
  | ok c =>
    obtain rfl : c = n := (level_of_counter hc).symm.trans h
    cases hl : s.lookup (fullKey p key) with
    | none =>
      rw [Redis.counter, hl] at hc
      obtain rfl : 0 = c := Except.ok.inj hc
      exact absurd hn (lt_irrefl _)
    | some o =>
      obtain ⟨hv, -⟩ := Redis.lookup_of_counter hl hc
      obtain ⟨v, x⟩ := o
      obtain rfl : v = .str (ll2string c) := hv
      rw [contents, hl]
      rfl

/-- **The invariant of a run that counts**: sound indexes, and a counter that
is not negative. -/
structure SoundCounter (p key : String) (s : Redis) : Prop where
  typed : IndexTyped p s
  nonneg : ∀ c, s.counter (fullKey p key) = .ok c → 0 ≤ c

theorem SoundCounter.level_nonneg (h : SoundCounter p key s) : 0 ≤ level p key s := by
  cases hc : s.counter (fullKey p key) with
  | error e => exact (by rw [level, hc] : level p key s = 0).ge
  | ok c => exact (level_of_counter hc).symm ▸ h.nonneg c hc

/-- **The guard of a run that counts**: the key is left to its counters, none
fails halfway, and the numbers are small. -/
def Counting (lua : Lua) (drv : Driver) (p key : String) (s : Redis) (e : KvEvent) : Prop :=
  LeftToCount p key s e ∧ NoneAddsThenFails lua p key s e
    ∧ ∀ n, numberOf key (e, ((kvSystem lua drv p).step s e).1) = some n → n < Double.exact

/-- A number an event answered is a call's on the key. -/
theorem numberOf_eq_some {e : KvEvent} {r : Option (Except ClusterError KvReply)} {n : ℤ}
    (h : numberOf key (e, r) = some n) :
    ∃ clock op, e = .call clock op ∧ op.key = key ∧ r = some (.ok (.int n)) := by
  unfold numberOf at h
  split at h
  · next clock op m heq =>
    obtain ⟨rfl, rfl⟩ := Prod.mk.inj heq
    split at h
    · next hk => exact ⟨clock, op, rfl, hk, by rw [Option.some.inj h]⟩
    · exact nomatch h
  · exact nomatch h

/-- **One step of a run that counts** leaves the level, or hands out a number
past it and takes it there. -/
theorem SoundCounter.step (lua : Lua) (drv : Driver) (hp : p ≠ "") (h : SoundCounter p key s)
    {e : KvEvent} (he : Counting lua drv p key s e) :
    SoundCounter p key ((kvSystem lua drv p).step s e).2
      ∧ System.Advances (level p key s) (level p key ((kvSystem lua drv p).step s e).2)
          (numberOf key (e, ((kvSystem lua drv p).step s e).1)) := by
  obtain ⟨hleft, hgood, hsmall⟩ := he
  have htyped := IndexTyped.step lua drv hp h.typed e
  cases hnum : numberOf key (e, ((kvSystem lua drv p).step s e).1) with
  | some n =>
    obtain ⟨clock, op, rfl, rfl, hr⟩ := numberOf_eq_some hnum
    obtain ⟨c, a, hc, -, hpos, rfl, hnext⟩ := call_hands_out lua drv hp h.typed (hleft rfl)
      h.nonneg (Option.some.inj hr) (hsmall n hnum)
    have h0 := h.nonneg c hc
    refine ⟨⟨htyped, fun c' hc' => ?_⟩, ?_, level_of_counter hnext⟩
    · obtain rfl : c + a = c' := Except.ok.inj (hnext.symm.trans hc')
      omega
    · rw [level_of_counter hc]
      omega
  | none =>
    have hsame : ((kvSystem lua drv p).step s e).2.counter (fullKey p key)
        = s.counter (fullKey p key) := by
      rcases e.kinds with ⟨clock, op, rfl⟩ | ⟨d, rfl⟩ | hm
      · by_cases hk : op.key = key
        · subst hk
          refine call_quiet lua drv hp h.typed (hleft rfl) (hgood rfl) (fun n hn => ?_)
          have hsome : numberOf op.key (.call clock op, some (.ok (.int n))) = some n := if_pos rfl
          have hstep : ((kvSystem lua drv p).step s (.call clock op)).1 = some (.ok (.int n)) :=
            congrArg some hn
          rw [hstep, hsome] at hnum
          exact nomatch hnum
        · exact Redis.counter_congr (call_lookup_of_ne lua drv hp h.typed clock hk)
      · exact Redis.counter_congr (lookup_tick_of_kept hleft)
      · exact Redis.counter_congr ((KeepsData.maintenance lua drv hp h.typed hm).data key)
    refine ⟨⟨htyped, fun c hc => h.nonneg c (hsame.symm.trans hc)⟩, level_congr hsame⟩

/-- **A floored number is the floor and the delta, or more.** -/
theorem SoundCounter.aboveFloor (lua : Lua) (drv : Driver) (hp : p ≠ "") (h : SoundCounter p key s)
    {e : KvEvent} (he : Counting lua drv p key s e) :
    AboveFloor key (e, ((kvSystem lua drv p).step s e).1) := by
  intro clock d f ttl n hx
  obtain ⟨rfl, hr⟩ := Prod.mk.inj hx
  have hnum : numberOf key (.call clock (.incrFloor key d f ttl), some (.ok (.int n))) = some n :=
    if_pos rfl
  have hn : n < Double.exact := he.2.2 n (by rw [hr]; exact hnum)
  have hup : (KvOp.incrFloor key d f ttl).CountsUp := he.1 rfl
  have hcall : (call lua drv p clock (.incrFloor key d f ttl) s).1 = .ok (.int n) :=
    Option.some.inj hr
  obtain ⟨c, a, hc, ha, -, rfl, -⟩ := call_hands_out lua drv hp h.typed hup h.nonneg hcall hn
  have hstep := floorAmount_exact hc (h.nonneg c hc) hup.1 ha hn
  omega

end Runs

/-- **Counters hand out each number once.** Over any run of any clients that
leaves a key to its counters, from a counter that is not negative, with all
numbers below `2 ^ 53`: when no operation on the key adds and is then
refused its lifetime, the numbers increase in the order of the calls, a
floored call is answered its floor and delta or more, and the key holds the
last number handed out. -/
theorem counters_hand_out_once (lua : Lua) (drv : Driver) {p : String} (hp : p ≠ "") {s : Redis}
    (h : IndexTyped p s) {key : String} (h0 : ∀ c, s.counter (fullKey p key) = .ok c → 0 ≤ c)
    {es : List KvEvent} (hleft : (kvSystem lua drv p).Along (LeftToCount p key) s es)
    (hsmall : ∀ n ∈ numbers lua drv p key s es, n < Double.exact)
    (hgood : (kvSystem lua drv p).Along (NoneAddsThenFails lua p key) s es) :
    HandsOutOnce lua drv p key s es := by
  have hs : SoundCounter p key s := ⟨h, h0⟩
  have hcount : (kvSystem lua drv p).Along (Counting lua drv p key) s es := by
    refine hleft.and (hgood.and (((kvSystem lua drv p).along_iff_trace
      (P := fun x => ∀ n, numberOf key x = some n → n < Double.exact)).mpr ?_))
    exact fun x hx n hn => hsmall n (List.mem_filterMap.mpr ⟨x, hx, hn⟩)
  obtain ⟨hinc, hpast, hlast⟩ := (kvSystem lua drv p).outputs_increase (numberOf key)
    (level p key) (fun _ _ ht he => ht.step lua drv hp he) hs hcount
  refine ⟨hinc, ?_, ?_⟩
  · refine ((kvSystem lua drv p).along_iff_trace (P := AboveFloor key)).mp ?_
    exact System.Along.of_inv (I := SoundCounter p key) (fun _ _ ht he => (ht.step lua drv hp he).1)
      (fun _ _ ht he => ht.aboveFloor lua drv hp he) hs hcount
  · intro n hn
    refine contents_of_level ?_ ?_
    · exact lt_of_le_of_lt hs.level_nonneg (hpast n (List.mem_of_getLast? hn))
    · exact hlast.trans (by rw [numbers] at hn; rw [hn, Option.getD_some])

/-- Two clients number things, and a floor lifts the counter between them. -/
theorem counters_hand_out_once_three :
    HandsOutOnce Lua.integers Driver.plain "p" "k" (Redis.empty 0)
      [.call 0 (.incr "k" ⟨1, inI64_one⟩ none),
        .call 5 (.incrFloor "k" ⟨1, inI64_one⟩ ⟨10, by decide⟩ none),
        .call 0 (.incr "k" ⟨1, inI64_one⟩ none)] := by
  refine counters_hand_out_once Lua.integers Driver.plain (by decide)
    (IndexInv.empty "p" 0).toIndexTyped (fun c hc => ?_) ?_ ?_ ?_
  · exact (Except.ok.inj hc).le
  · exact ⟨fun _ => le_refl 1, fun _ => ⟨le_refl 1, by decide⟩, fun _ => le_refl 1, trivial⟩
  · have hnum : numbers Lua.integers Driver.plain "p" "k" (Redis.empty 0)
        [.call 0 (.incr "k" ⟨1, inI64_one⟩ none),
          .call 5 (.incrFloor "k" ⟨1, inI64_one⟩ ⟨10, by decide⟩ none),
          .call 0 (.incr "k" ⟨1, inI64_one⟩ none)] = [1, 11, 12] := by decide
    rw [hnum]
    decide
  · exact ⟨fun _ h => h.1 (by decide), fun _ h => h.1 (by decide), fun _ h => h.1 (by decide),
      trivial⟩

/-- A second call with a lifetime of `2 ^ 63` milliseconds. -/
def lostNumber : List KvEvent :=
  [.call 0 (.incr "k" ⟨1, inI64_one⟩ none),
    .call 0 (.incr "k" ⟨1, inI64_one⟩ (some hugeTtl))]

/-- **A number can be taken and not handed out**: the second call of
`lostNumber` fails with its sum stored, so the key holds `2` when the last
number handed out is `1`. -/
theorem counter_holds_unanswered :
    (kvSystem Lua.integers Driver.plain "p").Along (LeftToCount "p" "k") (Redis.empty 0) lostNumber
      ∧ numbers Lua.integers Driver.plain "p" "k" (Redis.empty 0) lostNumber = [1]
      ∧ ¬ HandsOutOnce Lua.integers Driver.plain "p" "k" (Redis.empty 0) lostNumber := by
  have hnum : numbers Lua.integers Driver.plain "p" "k" (Redis.empty 0) lostNumber = [1] := by
    decide
  refine ⟨⟨fun _ => le_refl 1, fun _ => le_refl 1, trivial⟩, hnum, fun h => ?_⟩
  exact absurd (h.last 1 (by rw [hnum]; rfl)) (by decide)
