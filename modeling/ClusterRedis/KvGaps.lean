import ClusterRedis.KvErrors

/-!
# Keys the index misses

A store that builds without the key index have written holds keys that are
there and not listed (`Gap`). What matters for making the index complete is
that the current builds never add one: whatever an operation or a script of
theirs does, a key that is unlisted after it was unlisted before it
(`Tended`). This needs nothing of the index but its type, so it holds in the
middle of a backfill, next to older builds, and whatever the index misses
already.

The one exception is the counter that stores its sum and is then refused
its lifetime. On an absent key it leaves a key that no build will list
(`AppearsUnlisted`).
-/

open Numerals RedisKv

/-- **A key the index misses**: a data key that is there and not listed. -/
def Gap (p : String) (s : Redis) (k : String) : Prop :=
  IsDataKey p k ∧ s.Live k ∧ ¬ s.Mem (indexKey p) k

/-- **An operation that leaves its key unlisted**: it adds to a counter that
is absent, with a lifetime the server does not accept. -/
def AppearsUnlisted (lua : Lua) (p : String) (s : Redis) (op : KvOp) : Prop :=
  ¬ TtlOk s.now (ttlMs op.ttl) ∧ ¬ s.Live (fullKey p op.key)
    ∧ ∃ a, amount lua p s op = some a ∧ CanAdd s (fullKey p op.key) a

/-- A key that is no data key and no index. -/
def Foreign (p k : String) : Prop := ¬ IsDataKey p k ∧ k ≠ indexKey p ∧ k ≠ expiryKey p

/-- **A change of the store's own**: the indexes keep their type, and at a
key that is no data key and no index there is nothing new. -/
structure Framed (p : String) (s t : Redis) : Prop where
  typed : IndexTyped p t
  foreign : ∀ k, Foreign p k → ∀ o, t.lookup k = some o → s.lookup k = some o

/-- **A change that leaves no new gap**: what is unlisted after it was
unlisted before. -/
structure Tended (p : String) (s t : Redis) : Prop extends Framed p s t where
  gap : ∀ k, Gap p t k → Gap p s k

theorem Framed.live_of_foreign {p : String} {s t : Redis} (h : Framed p s t) {k : String}
    (hk : Foreign p k) (hl : t.Live k) : s.Live k := by
  obtain ⟨o, ho⟩ := Option.isSome_iff_exists.mp hl
  rw [Redis.Live, h.foreign k hk o ho]
  rfl

/-- A data key is stored, and no index touched. -/
theorem Framed.put {p : String} {s : Redis} (hp : p ≠ "") (h : IndexTyped p s) (key : String)
    (o : Obj) : Framed p s (s.put (fullKey p key) o) where
  typed := ⟨h.index.put (fullKey_ne_indexKey hp key).symm,
    h.expiry.put (fullKey_ne_expiryKey hp key).symm⟩
  foreign := fun k hk o' ho => by
    rwa [Redis.lookup_put_of_ne s (fun heq => hk.1 ⟨key, heq⟩)] at ho

namespace Tended

variable {p : String} {s t u : Redis}

theorem refl (h : IndexTyped p s) : Tended p s s := ⟨⟨h, fun _ _ _ ho => ho⟩, fun _ hk => hk⟩

theorem trans (h : Tended p s t) (h' : Tended p t u) : Tended p s u where
  typed := h'.typed
  foreign := fun k hf o ho => h.foreign k hf o (h'.foreign k hf o ho)
  gap := fun k hk => h.gap k (h'.gap k hk)

/-- A change that, at every data key that is there after it, finds it there
and listed as before. -/
theorem of_lookup (ht : IndexTyped p t) (hlive : ∀ k, IsDataKey p k → t.Live k → s.Live k)
    (hlisted : ∀ k, IsDataKey p k → t.Live k → s.Mem (indexKey p) k → t.Mem (indexKey p) k)
    (hf : ∀ k, Foreign p k → t.lookup k = s.lookup k) : Tended p s t where
  typed := ht
  gap := fun k ⟨hk, hl, hm⟩ => ⟨hk, hlive k hk hl, fun hm' => hm (hlisted k hk hl hm')⟩
  foreign := fun k hk _ ho => (hf k hk).symm.trans ho

/-! ## The changes -/

theorem store (hp : p ≠ "") (h : IndexTyped p s) (key : String) (o : Obj) (due : Due) :
    Tended p s (s.store (fullKey p key) (indexKey p) (expiryKey p) o due) := by
  have hi := fullKey_ne_indexKey hp key
  have he := fullKey_ne_expiryKey hp key
  refine ⟨⟨⟨h.index.store hi.symm, h.expiry.store he.symm⟩, ?_⟩, ?_⟩
  · intro k hk o' ho
    have hne : k ≠ fullKey p key := fun heq => hk.1 ⟨key, heq⟩
    rwa [Redis.lookup_store_of_ne s hne hk.2.1 hk.2.2] at ho
  · rintro k ⟨hk, hl, hm⟩
    rw [Redis.mem_store_index s hi.symm (indexKey_ne_expiryKey p), not_or] at hm
    rw [Redis.live_congr (Redis.lookup_store_of_ne s hm.1 (IndexInv.IsDataKey.ne_index hp hk)
      (IndexInv.IsDataKey.ne_expiry hp hk))] at hl
    exact ⟨hk, hl, hm.2⟩

theorem drop (hp : p ≠ "") (h : IndexTyped p s) (key : String) :
    Tended p s (s.drop (fullKey p key) (indexKey p) (expiryKey p)) := by
  have hi := fullKey_ne_indexKey hp key
  have he := fullKey_ne_expiryKey hp key
  have hother : ∀ k, IsDataKey p k →
      (s.drop (fullKey p key) (indexKey p) (expiryKey p)).Live k → k ≠ fullKey p key := by
    rintro k - hl rfl
    rw [Redis.Live, Redis.lookup_drop_self s hi he] at hl
    exact absurd hl (by simp)
  refine of_lookup ⟨h.index.drop hi.symm, h.expiry.drop he.symm⟩ ?_ ?_ ?_
  · intro k hk hl
    rwa [Redis.live_congr (Redis.lookup_drop_of_ne s (hother k hk hl)
      (IndexInv.IsDataKey.ne_index hp hk) (IndexInv.IsDataKey.ne_expiry hp hk))] at hl
  · intro k hk hl hm
    exact (Redis.mem_drop_index s hi.symm (indexKey_ne_expiryKey p)).mpr ⟨hother k hk hl, hm⟩
  · exact fun k hk => Redis.lookup_drop_of_ne s (fun heq => hk.1 ⟨key, heq⟩) hk.2.1 hk.2.2

/-- A data key is removed, and no index touched. -/
theorem del (hp : p ≠ "") (h : IndexTyped p s) (key : String) :
    Tended p s (s.del (fullKey p key)) := by
  have hi := fullKey_ne_indexKey hp key
  refine of_lookup ⟨h.index.del hi.symm, h.expiry.del (fullKey_ne_expiryKey hp key).symm⟩ ?_ ?_ ?_
  · intro k _ hl
    by_cases hk : k = fullKey p key
    · subst hk
      rw [Redis.Live, Redis.lookup_del_self] at hl
      exact absurd hl (by simp)
    · rwa [Redis.live_congr (Redis.lookup_del_of_ne s hk)] at hl
  · exact fun k _ _ hm => (Redis.mem_congr (Redis.lookup_del_of_ne s hi.symm)).mpr hm
  · exact fun k hk => Redis.lookup_del_of_ne s (fun heq => hk.1 ⟨key, heq⟩)

/-- A key that is gone may leave both indexes. -/
theorem unindex (hp : p ≠ "") (h : IndexTyped p s) {k : String} (hk : ¬ s.Live k) :
    Tended p s (s.unindex (indexKey p) (expiryKey p) k) := by
  have hsame : ∀ m, IsDataKey p m →
      (s.unindex (indexKey p) (expiryKey p) k).lookup m = s.lookup m := fun m hm =>
    Redis.lookup_unindex_of_ne s (IndexInv.IsDataKey.ne_index hp hm)
      (IndexInv.IsDataKey.ne_expiry hp hm)
  refine of_lookup ⟨h.index.unindex, h.expiry.unindex⟩ ?_ ?_ ?_
  · exact fun m hm hl => (Redis.live_congr (hsame m hm)).mp hl
  · intro m hm hl hmem
    refine (Redis.mem_unindex_index s (indexKey_ne_expiryKey p)).mpr ⟨?_, hmem⟩
    rintro rfl
    exact hk ((Redis.live_congr (hsame m hm)).mp hl)
  · exact fun m hm => Redis.lookup_unindex_of_ne s hm.2.1 hm.2.2

/-- A change of one key that is neither a data key nor the key index. -/
theorem at_key {z : String} (ht : IndexTyped p t) (hz : ¬ IsDataKey p z)
    (hzi : z ≠ indexKey p) (hzf : ¬ Foreign p z) (hl : ∀ k, k ≠ z → t.lookup k = s.lookup k) :
    Tended p s t := by
  have hdata : ∀ k, IsDataKey p k → t.lookup k = s.lookup k :=
    fun k hk => hl k (fun he => hz (he ▸ hk))
  refine of_lookup ht (fun k hk => (Redis.live_congr (hdata k hk)).mp) ?_ ?_
  · exact fun k _ _ hm => (Redis.mem_congr (hl _ hzi.symm)).mpr hm
  · exact fun k hk => hl k (fun he => hzf (he ▸ hk))

theorem not_isDataKey_expiry (hp : p ≠ "") : ¬ IsDataKey p (expiryKey p) :=
  fun h => IndexInv.IsDataKey.ne_expiry hp h rfl

theorem schedule (hp : p ≠ "") (h : IndexTyped p s) (k : String) (x : ℤ) :
    Tended p s (s.zins (expiryKey p) k x) :=
  at_key ⟨h.index.zins, h.expiry.zins⟩ (not_isDataKey_expiry hp) (indexKey_ne_expiryKey p).symm
    (fun hf => hf.2.2 rfl) (fun _ hk => Redis.lookup_zins_of_ne s hk)

theorem unschedule (hp : p ≠ "") (h : IndexTyped p s) (k : String) :
    Tended p s (s.zdel (expiryKey p) k) :=
  at_key ⟨h.index.zdel, h.expiry.zdel⟩ (not_isDataKey_expiry hp) (indexKey_ne_expiryKey p).symm
    (fun hf => hf.2.2 rfl) (fun _ hk => Redis.lookup_zdel_of_ne s hk)

theorem list (hp : p ≠ "") (h : IndexTyped p s) (k : String) (x : ℤ) :
    Tended p s (s.zins (indexKey p) k x) := by
  have hl : ∀ m, m ≠ indexKey p → (s.zins (indexKey p) k x).lookup m = s.lookup m :=
    fun m hm => Redis.lookup_zins_of_ne s hm
  refine of_lookup ⟨h.index.zins, h.expiry.zins⟩ ?_ ?_ (fun m hm => hl m hm.2.1)
  · exact fun m hm => (Redis.live_congr (hl m (IndexInv.IsDataKey.ne_index hp hm))).mp
  · exact fun m _ _ hm => (Redis.mem_zins s).mpr (Or.inr hm)

theorem completeKey_foreign (hp : p ≠ "") : Foreign p (completeKey p) :=
  ⟨fun hd => IndexInv.IsDataKey.ne_complete hp hd rfl, completeKey_ne_indexKey p,
    completeKey_ne_expiryKey p⟩

/-- The mark that the index is complete is taken back. -/
theorem unmarked (hp : p ≠ "") (h : IndexTyped p s) : Tended p s (s.del (completeKey p)) := by
  have hl : ∀ k, k ≠ completeKey p → (s.del (completeKey p)).lookup k = s.lookup k :=
    fun k hk => Redis.lookup_del_of_ne s hk
  have hdata : ∀ k, IsDataKey p k → (s.del (completeKey p)).lookup k = s.lookup k :=
    fun k hk => hl k (IndexInv.IsDataKey.ne_complete hp hk)
  refine ⟨⟨⟨h.index.del (completeKey_ne_indexKey p).symm,
    h.expiry.del (completeKey_ne_expiryKey p).symm⟩, fun k _ o ho => ?_⟩, ?_⟩
  · by_cases hk : k = completeKey p
    · rw [hk, Redis.lookup_del_self] at ho
      exact nomatch ho
    · rwa [hl k hk] at ho
  · rintro k ⟨hk, hlive, hm⟩
    rw [Redis.mem_congr (hl _ (completeKey_ne_indexKey p).symm)] at hm
    exact ⟨hk, (Redis.live_congr (hdata k hk)).mp hlive, hm⟩

/-- A sum stored at a counter that is there. -/
theorem counted (hp : p ≠ "") (h : IndexTyped p s) {key : String} (n : ℤ)
    (hl : s.Live (fullKey p key)) :
    Tended p s (s.put (fullKey p key) (s.counted (fullKey p key) n)) := by
  have hi := fullKey_ne_indexKey hp key
  have he := fullKey_ne_expiryKey hp key
  refine of_lookup ⟨h.index.put hi.symm, h.expiry.put he.symm⟩ ?_ ?_ ?_
  · intro k hk hlive
    by_cases hkk : k = fullKey p key
    · exact hkk ▸ hl
    · exact (Redis.live_congr (Redis.lookup_put_of_ne s hkk)).mp hlive
  · exact fun k _ _ hm => (Redis.mem_congr (Redis.lookup_put_of_ne s hi.symm)).mpr hm
  · exact fun k hk => Redis.lookup_put_of_ne s (fun heq => hk.1 ⟨key, heq⟩)

theorem tick (h : IndexTyped p s) (d : ℕ) : Tended p s (s.tick d) := by
  have hi := h.index.lookup_tick d
  have he := h.expiry.lookup_tick d
  refine ⟨⟨⟨h.index.congr hi, h.expiry.congr he⟩, fun k _ o ho => Redis.lookup_of_tick ho⟩, ?_⟩
  rintro k ⟨hk, hl, hm⟩
  rw [Redis.mem_congr hi] at hm
  exact ⟨hk, Redis.live_of_tick hl, hm⟩

/-! ## The scripts -/

/-- A script that takes its keys in turn leaves no new gap when no turn
does. -/
theorem foldl {f : Redis → String → Redis} (hf : ∀ t k, IndexTyped p t → Tended p t (f t k))
    (h : IndexTyped p s) (ks : List String) : Tended p s (ks.foldl f s) :=
  List.foldlRecOn (motive := Tended p s) ks f (refl h)
    (fun t ht k _ => ht.trans (hf t k ht.typed))

theorem prune (hp : p ≠ "") (h : IndexTyped p s) (ks : List String) :
    Tended p s (pruneLua (indexKey p) (expiryKey p) ks s).2 := by
  obtain ⟨n, hn⟩ := pruneLua_run ⟨h.index, h.expiry⟩ ks
  rw [hn]
  refine foldl (fun t k ht => ?_) h ks
  unfold pruneKey
  split
  · exact refl ht
  · next hl => exact unindex hp ht hl

theorem sweep (hp : p ≠ "") (h : IndexTyped p s) (clock : ℕ) (ks : List String) :
    Tended p s (sweepLua (indexKey p) (expiryKey p) clock ks s).2 := by
  obtain ⟨n, hn⟩ := sweepLua_run ⟨h.index, h.expiry⟩ clock ks
  rw [hn]
  refine foldl (fun t k ht => ?_) h ks
  unfold sweepKey
  split
  · next hl => exact unindex hp ht (by rw [Redis.Live, hl]; simp)
  · exact unschedule hp ht k
  · exact schedule hp ht k _

theorem backfilled (hp : p ≠ "") (h : IndexTyped p s) (clock : ℕ) (k : String) :
    Tended p s (backfillKey (indexKey p) (expiryKey p) clock s k) := by
  unfold backfillKey
  split
  · exact refl h
  · have hlist := list hp h k 0
    split
    · exact hlist.trans (schedule hp hlist.typed k _)
    · exact hlist

theorem backfill (hp : p ≠ "") (h : IndexTyped p s) (clock : ℕ) (ks : List String) :
    Tended p s (backfillLua (indexKey p) (expiryKey p) clock ks s).2 := by
  obtain ⟨n, hn⟩ := backfillLua_run ⟨h.index, h.expiry⟩ clock ks
  rw [hn]
  exact foldl (fun t k ht => backfilled hp ht clock k) h ks

theorem change (hp : p ≠ "") (h : IndexTyped p s) {key : String} (hc : KvChange p key s t) :
    Tended p s t := by
  cases hc with
  | same => exact refl h
  | store o due => exact store hp h key o due
  | drop => exact drop hp h key

end Tended

/-! ## The operations -/

section Operations

variable {p : String} {s : Redis}

/-- **What an operation with a refused lifetime does**: nothing, or it
leaves its sum. -/
theorem call_refused (lua : Lua) (drv : Driver) (clock : ℕ) (op : KvOp)
    (hok : ¬ TtlOk s.now (ttlMs op.ttl)) :
    (call lua drv p clock op s).2 = s ∨ ∃ a n, amount lua p s op = some a
      ∧ s.count (fullKey p op.key) (some a) = .ok n
      ∧ (call lua drv p clock op s).2
        = s.put (fullKey p op.key) (s.counted (fullKey p op.key) n) := by
  obtain ⟨hpos, hbad⟩ := not_ttlOk_iff.mp hok
  have hadd : ∀ (a : ℤ), amount lua p s op = some a →
      (call lua drv p clock op s).2
        = (incrTail (fullKey p op.key) (indexKey p) (expiryKey p) (some a) (ttlMs op.ttl)
            clock s).2 →
      (call lua drv p clock op s).2 = s ∨ ∃ a n, amount lua p s op = some a
        ∧ s.count (fullKey p op.key) (some a) = .ok n
        ∧ (call lua drv p clock op s).2
          = s.put (fullKey p op.key) (s.counted (fullKey p op.key) n) := by
    intro a ha hcall
    cases hc : s.count (fullKey p op.key) (some a) with
    | error e =>
      rw [incrTail_error hc] at hcall
      exact Or.inl hcall
    | ok n =>
      rw [incrTail_refused hc hpos hbad] at hcall
      exact Or.inr ⟨a, n, ha, hc, hcall⟩
  cases op with
  | get key => exact absurd hpos (show ¬ 0 < Double.roundNat 0 by decide)
  | delete key => exact absurd hpos (show ¬ 0 < Double.roundNat 0 by decide)
  | put key v ttl =>
    left
    simp only [call, reply, put, Call.invoke_snd]
    exact congrArg Prod.snd (setLua_refused hpos hbad)
  | putIfAbsent key v ttl =>
    left
    simp only [call, reply, putIfAbsent, Call.invoke_snd]
    exact congrArg Prod.snd (setLua_refused hpos hbad)
  | expire key ttl =>
    left
    simp only [call, reply, expire, Call.invoke_snd]
    by_cases hl : s.Live (fullKey p key)
    · exact congrArg Prod.snd (expireLua_refused hl hpos hbad)
    · exact congrArg Prod.snd (expireLua_absent hl)
  | incr key d ttl =>
    refine hadd d rfl ?_
    simp only [call, reply, incr, Call.invoke_snd]
    rfl
  | incrFloor key d f ttl =>
    cases ha : floorAmount lua s (fullKey p key) d f with
    | none =>
      left
      simp only [call, reply, incrFloor, Call.invoke_snd]
      obtain ⟨e, he, -⟩ := incrFloorLua_none (indexKey p) (expiryKey p) (ttlMs ttl) clock ha
      rw [he]
    | some a =>
      refine hadd a ha ?_
      simp only [call, reply, incrFloor, Call.invoke_snd]
      rw [incrFloorLua_some ha]
      rfl

/-- **The current builds leave no gap**, but for the counter that is refused
its lifetime. -/
theorem Tended.call (lua : Lua) (drv : Driver) (hp : p ≠ "") (h : IndexTyped p s) (clock : ℕ)
    (op : KvOp) (hop : ¬ AppearsUnlisted lua p s op) :
    Tended p s (RedisKv.call lua drv p clock op s).2 := by
  by_cases hok : TtlOk s.now (ttlMs op.ttl)
  · exact Tended.change hp h (call_change lua drv hp h clock op hok)
  · rcases call_refused lua drv clock op hok with hs | ⟨a, n, ha, hn, hs⟩
    · rw [hs]
      exact Tended.refl h
    · obtain ⟨hi, c, hc, hb, -⟩ := Redis.count_eq_ok_iff.mp hn
      have hl : s.Live (fullKey p op.key) := by
        by_contra hdead
        exact hop ⟨hok, hdead, a, ha, hi, c, hc, hb⟩
      rw [hs]
      exact Tended.counted hp h n hl

/-- An event of the store that leaves no key unlisted. -/
def Tidy (lua : Lua) (p : String) (s : Redis) : KvEvent → Prop
  | .call _ op => ¬ AppearsUnlisted lua p s op
  | _ => True

/-- The index is not marked complete. -/
def Unmarking : KvEvent → Prop
  | .markComplete _ => False
  | _ => True

/-- **Every event of the store that is tidy leaves no gap.** -/
theorem Tended.step (lua : Lua) (drv : Driver) (hp : p ≠ "") (h : IndexTyped p s) (e : KvEvent)
    (hm : Unmarking e) (he : Tidy lua p s e) : Tended p s ((kvSystem lua drv p).step s e).2 := by
  cases e with
  | call clock op => exact Tended.call lua drv hp h clock op he
  | prune gone => exact Tended.prune hp h gone
  | sweep clock due => exact Tended.sweep hp h clock due
  | backfill clock batch => exact Tended.backfill hp h clock _
  | markComplete startedAt => exact hm.elim
  | invalidate =>
    show Tended p s (RedisKv.invalidateIndex drv p s).2
    rw [RedisKv.invalidateIndex, Call.invoke_snd]
    unfold Redis.delete
    split
    · exact Tended.unmarked hp h
    · exact Tended.refl h
  | tick d => exact Tended.tick h d

/-- Every event of the store, tidy or not, is a change of its own. -/
theorem Framed.step (lua : Lua) (drv : Driver) (hp : p ≠ "") (h : IndexTyped p s) (e : KvEvent)
    (hm : Unmarking e) : Framed p s ((kvSystem lua drv p).step s e).2 := by
  by_cases he : Tidy lua p s e
  · exact (Tended.step lua drv hp h e hm he).toFramed
  · cases e with
    | call clock op =>
      have hok := (not_not.mp he).1
      show Framed p s (RedisKv.call lua drv p clock op s).2
      rcases call_refused lua drv clock op hok with hs | ⟨a, n, -, -, hs⟩
      · rw [hs]
        exact (Tended.refl h).toFramed
      · rw [hs]
        exact Framed.put hp h _ _
    | prune gone => exact absurd trivial he
    | sweep clock due => exact absurd trivial he
    | backfill clock batch => exact absurd trivial he
    | markComplete startedAt => exact absurd trivial he
    | invalidate => exact absurd trivial he
    | tick d => exact absurd trivial he

end Operations

/-- **A key that is there when a backfill takes it is listed.** -/
theorem not_gap_of_backfill {p : String} (hp : p ≠ "") {s : Redis} (h : IndexTyped p s) (clock : ℕ)
    {ks : List String} {k : String} (hk : k ∈ ks) :
    ¬ Gap p (backfillLua (indexKey p) (expiryKey p) clock ks s).2 k := by
  obtain ⟨n, hn⟩ := backfillLua_run ⟨h.index, h.expiry⟩ clock ks
  rw [hn]
  clear hn
  induction ks generalizing s with
  | nil => exact absurd hk (List.not_mem_nil)
  | cons x ks ih =>
    have hx := Tended.backfilled hp h clock x
    rcases List.mem_cons.mp hk with rfl | hk
    · -- the key's own turn lists it, and no later turn leaves a new gap
      intro hgap
      have hrest := Tended.foldl (fun t y ht => Tended.backfilled hp ht clock y) hx.typed ks
      obtain ⟨hd, hl, hm⟩ := hrest.gap k hgap
      revert hl hm
      unfold backfillKey
      split
      · next hnone => exact fun hl => absurd hl (by rw [Redis.Live, hnone]; simp)
      · split
        · intro _ hm
          refine hm ((Redis.mem_congr (Redis.lookup_zins_of_ne _ (indexKey_ne_expiryKey p))).mpr ?_)
          exact (Redis.mem_zins s).mpr (Or.inl rfl)
        · exact fun _ hm => hm ((Redis.mem_zins s).mpr (Or.inl rfl))
    · exact ih hx.typed hk
