import ClusterRedis.Completion

/-!
# An operator's completion

`complete_key_index` looks for builds that keep no index before its backfill
and not after it, so an older build that joins while the backfill runs is not
seen. What can be missing at the mark is told key by key. A key is *owed* to
a completion from the moment an older build creates it, while the backfill
runs, until something lists it – a scan returns it and its batch is written,
or a current build writes it – or it is gone (`Fleet.owe`).

At the mark of an operator's completion whatever is unlisted is owed to it
(`Fleet.Told`), so when nothing is, the index is complete
(`Fleet.operator_completion_lists`). Nothing is needed of the look before the
backfill, nor of the prefix of the registrations' pattern.
-/

open RedisKv Numerals

variable {ι π : Type}

/-! ## What lists a key -/

/-- The operations that list a key that is there. -/
def KvOp.indexes : KvOp → Bool
  | put _ _ _ | expire _ _ | incr _ _ _ | incrFloor _ _ _ _ => true
  | get _ | putIfAbsent _ _ _ | delete _ => false

section Operations

variable {p : String} {s : Redis} {key : String}

theorem not_gap_store (hp : p ≠ "") (o : Obj) (due : Due) :
    ¬ Gap p (s.store (fullKey p key) (indexKey p) (expiryKey p) o due) (fullKey p key) :=
  fun hk => hk.2.2 ((Redis.mem_store_index s (fullKey_ne_indexKey hp key).symm
    (indexKey_ne_expiryKey p)).mpr (Or.inl rfl))

theorem not_gap_incrTail (hp : p ≠ "") (h : IndexTyped p s) {a : Option ℤ} {ttl clock : ℕ} {n : ℤ}
    (hn : (incrTail (fullKey p key) (indexKey p) (expiryKey p) a ttl clock s).1 = .ok n) :
    ¬ Gap p (incrTail (fullKey p key) (indexKey p) (expiryKey p) a ttl clock s).2
      (fullKey p key) := by
  cases hc : s.count (fullKey p key) a with
  | error e =>
    rw [incrTail_error hc] at hn
    exact nomatch hn
  | ok m =>
    by_cases hok : TtlOk s.now ttl
    · rw [incrTail_stored h.index h.expiry (fullKey_ne_indexKey hp key).symm
        (fullKey_ne_expiryKey hp key).symm hok hc]
      exact not_gap_store hp _ _
    · obtain ⟨hpos, hbad⟩ := not_ttlOk_iff.mp hok
      rw [incrTail_refused hc hpos hbad] at hn
      exact nomatch hn

/-- A call that succeeds has run a script that succeeds. -/
theorem script_ok {α β : Type} {g : β → KvReply} {err : ScriptError → ClusterError}
    {x : Script α} {f : α → β} {r : KvReply}
    (h : (reply g (Call.invoke err x f) s).1 = .ok r) : ∃ a, (x s).1 = .ok a := by
  cases hx : x s with
  | mk v t =>
    cases v with
    | ok a => exact ⟨a, rfl⟩
    | error e =>
      rw [reply_of_error g err f hx] at h
      exact nomatch h

/-- **An operation of a current build that succeeds lists its key**, if it is
one that lists a key that is there. -/
theorem not_gap_call (lua : Lua) (drv : Driver) (hp : p ≠ "") (h : IndexTyped p s) (clock : ℕ)
    {op : KvOp} (hop : op.indexes = true) {r : KvReply}
    (hr : (RedisKv.call lua drv p clock op s).1 = .ok r) :
    ¬ Gap p (RedisKv.call lua drv p clock op s).2 (fullKey p op.key) := by
  cases op with
  | get key => exact absurd hop Bool.false_ne_true
  | putIfAbsent key v ttl => exact absurd hop Bool.false_ne_true
  | delete key => exact absurd hop Bool.false_ne_true
  | put key v ttl =>
    obtain ⟨n, hn⟩ := script_ok hr
    simp only [call, reply, put, Call.invoke_snd, KvOp.key]
    by_cases hok : TtlOk s.now (ttlMs ttl)
    · rw [setLua_stored h.index h.expiry (fullKey_ne_indexKey hp key).symm
        (fullKey_ne_expiryKey hp key).symm hok (fun hn => absurd hn Bool.false_ne_true)]
      exact not_gap_store hp _ _
    · obtain ⟨hpos, hbad⟩ := not_ttlOk_iff.mp hok
      rw [setLua_refused hpos hbad] at hn
      cases hn
  | expire key ttl =>
    obtain ⟨n, hn⟩ := script_ok hr
    simp only [call, reply, expire, Call.invoke_snd, KvOp.key]
    cases hl : s.lookup (fullKey p key) with
    | none =>
      have hdead : ¬ s.Live (fullKey p key) := by rw [Redis.Live, hl]; simp
      rw [expireLua_absent hdead]
      exact fun hk => hdead hk.2.1
    | some o =>
      by_cases hok : TtlOk s.now (ttlMs ttl)
      · rw [expireLua_stored h.index h.expiry (fullKey_ne_indexKey hp key).symm
          (fullKey_ne_expiryKey hp key).symm hok hl]
        exact not_gap_store hp _ _
      · obtain ⟨hpos, hbad⟩ := not_ttlOk_iff.mp hok
        rw [expireLua_refused (by rw [Redis.Live, hl]; rfl) hpos hbad] at hn
        cases hn
  | incr key d ttl =>
    obtain ⟨n, hn⟩ := script_ok hr
    simp only [call, reply, incr, Call.invoke_snd, KvOp.key]
    exact not_gap_incrTail hp h hn
  | incrFloor key d f ttl =>
    obtain ⟨n, hn⟩ := script_ok hr
    simp only [call, reply, incrFloor, Call.invoke_snd, KvOp.key]
    cases ha : floorAmount lua s (fullKey p key) d f with
    | none =>
      obtain ⟨e, he, -⟩ := incrFloorLua_none (indexKey p) (expiryKey p) (ttlMs ttl) clock ha
      rw [he] at hn
      cases hn
    | some a =>
      rw [incrFloorLua_some ha] at hn ⊢
      exact not_gap_incrTail hp h hn

end Operations

/-! ## What is owed -/

namespace Fleet

variable {F : Fleet ι π} {w : FleetWorld ι π} {i : ι} {e : FleetEvent ι} {k : String}

/-- **A step lists a key**: it writes a batch of a backfill with it, or a
current build writes it. -/
def Lists (F : Fleet ι π) (w : FleetWorld ι π) (k : String) : FleetEvent ι → Prop
  | .kv (.call clock op) => op.indexes = true ∧ fullKey F.p op.key = k
      ∧ ∃ r, (RedisKv.call F.lua F.drv F.p clock op w.redis).1 = .ok r
  | .kv (.backfill _ batch) => k ∈ backfillBatch F.p batch
  | .task i t => t.fault ≠ some false ∧ match w.stage i with
    | .index _ _ batch _ => k ∈ batch
    | _ => False
  | _ => False

/-- **An older build creates a key**, and the index does not list it. -/
def Creates (F : Fleet ι π) (w : FleetWorld ι π) (k : String) : FleetEvent ι → Prop
  | .olderWrite _ key _ => fullKey F.p key = k ∧ ¬ w.redis.Live k
      ∧ ¬ w.redis.Mem (indexKey F.p) k
  | _ => False

/-- **The backfill of a task begins**: the first step of its scan is answered. -/
def Begins (w : FleetWorld ι π) (i : ι) : FleetEvent ι → Prop
  | .task j t => j = i ∧ t.fault = none ∧ ∃ op started, w.stage j = .backfill op started 0
  | _ => False

variable [DecidableEq ι] [DecidableEq π]

/-- **What is owed to each task's completion after a step**: the keys that
older builds have created since its backfill began, that are still there and
that nothing has listed since. -/
def owe (F : Fleet ι π) (w : FleetWorld ι π) (e : FleetEvent ι) (owed : ι → String → Prop)
    (i : ι) (k : String) : Prop :=
  (owed i k ∧ ¬ Begins w i e ∨ F.Creates w k e) ∧ (F.act w e).redis.Live k ∧ ¬ F.Lists w k e

/-- The fleet, with what is owed. -/
def owing (F : Fleet ι π) : System (FleetWorld ι π × (ι → String → Prop)) (FleetEvent ι) Unit :=
  F.system.recording F.owe

/-- What is listed is not unlisted. -/
theorem not_gap_of_lists (hp : F.p ≠ "") (h : IndexTyped F.p w.redis) (hl : F.Lists w k e) :
    ¬ Gap F.p (F.act w e).redis k := by
  cases e with
  | kv e =>
    cases e with
    | call clock op =>
      obtain ⟨hop, rfl, r, hr⟩ := hl
      exact not_gap_call F.lua F.drv hp h clock hop hr
    | backfill clock batch => exact not_gap_of_backfill hp h clock hl
    | _ => exact hl.elim
  | task i t =>
    obtain ⟨hf, hm⟩ := hl
    show ¬ Gap F.p (F.taskStep w i t).redis k
    unfold taskStep
    cases hst : w.stage i with
    | index op started batch next =>
      rw [hst] at hm
      have hback := not_gap_of_backfill hp h t.clock (k := k) hm
      -- the command ran, whatever became of its reply
      dsimp only [FleetWorld.send]
      split
      · next hfault => exact absurd hfault hf
      · exact hback
      · split <;> exact hback
    | _ => rw [hst] at hm; exact hm.elim
  | _ => exact hl.elim

/-- **A key that is unlisted after a step** was unlisted before it, or an
older build has created it. -/
theorem gap_or_creates (hp : F.p ≠ "") (h : IndexTyped F.p w.redis) (he : F.Sound w e)
    (hk : Gap F.p (F.act w e).redis k) : Gap F.p w.redis k ∨ F.Creates w k e := by
  refine (gap_of_act hp h he.1 he.2 hk).imp_right ?_
  rintro ⟨hdead, id, hid⟩
  cases e with
  | olderWrite id' key o =>
    have hkey : fullKey F.p key = k := by
      by_contra hne
      exact hdead ((Redis.live_congr (Redis.lookup_put_of_ne _ (Ne.symm hne))).mp hk.2.1)
    refine ⟨hkey, hdead, fun hm => hk.2.2 ?_⟩
    exact (Redis.mem_congr (Redis.lookup_put_of_ne _ (fullKey_ne_indexKey hp key).symm)).mpr hm
  | _ => exact nomatch hid

/-- **What is told of the unlisted keys**: during a backfill, each was there
when its scan began and has not been returned, or has been returned in the
batch at hand, or is owed; at the mark of an operator's completion, each is
owed. -/
def Told (p : String) (s : Redis) (b : TaskBooks) (owed : String → Prop) : Stage → Prop
  | .backfill _ _ cursor => cursor ≠ 0 → ∀ k, Gap p s k → owed k ∨ b.since k ∧ k ∉ b.done
  | .index _ _ batch next =>
      (∀ k, Gap p s k → owed k ∨ b.since k ∧ k ∉ b.done ∨ k ∈ batch)
      ∧ (next = 0 → ∀ k, IsDataKey p k → b.since k → k ∈ b.done)
  | .mark op _ => op = true → ∀ k, Gap p s k → owed k
  | _ => True

omit [DecidableEq ι] [DecidableEq π] in
/-- What is told stays true of a task that does not act. -/
theorem Told.kept {p : String} {s s' : Redis} {b b' : TaskBooks} {owed owed' : String → Prop}
    {st : Stage} (h : Told p s b owed st) (hs : ∀ k, s'.Live k → b.since k → b'.since k)
    (hs' : ∀ k, b'.since k → b.since k) (hd : b'.done = b.done)
    (hgap : ∀ k, Gap p s' k → owed' k ∨ Gap p s k ∧ (owed k → owed' k)) :
    Told p s' b' owed' st := by
  cases st with
  | backfill op started cursor =>
    intro hc k hk
    rcases hgap k hk with ho | ⟨hold, ho⟩
    · exact Or.inl ho
    · rw [hd]
      exact (h hc k hold).imp ho (fun hr => ⟨hs k hk.2.1 hr.1, hr.2⟩)
  | index op started batch next =>
    refine ⟨fun k hk => ?_, fun hn k hdata hk => ?_⟩
    · rcases hgap k hk with ho | ⟨hold, ho⟩
      · exact Or.inl ho
      · rw [hd]
        exact (h.1 k hold).imp ho (Or.imp_left (fun hr => ⟨hs k hk.2.1 hr.1, hr.2⟩))
    · rw [hd]
      exact h.2 hn k hdata (hs' k hk)
  | mark op started =>
    intro hop k hk
    rcases hgap k hk with ho | ⟨hold, ho⟩
    · exact ho
    · exact ho (h hop k hold)
  | _ => exact trivial

/-- An older build writes only while it is registered. -/
def WritesRegistered (F : Fleet ι π) (w : FleetWorld ι π) : FleetEvent ι → Prop
  | .olderWrite id _ _ => Registered F.p w.redis id
  | _ => True

end Fleet
