import ClusterRedis.Config
import ClusterRedis.LeaseExpiry

/-!
# What an acquisition hands over

A lifetime is a duration, then milliseconds in 64 bits, then an expiry on the
server's clock, and then a date. Each of these has a limit of its own, and
the last is met when the key is set: a sum that has no date is a panic, and
what was set is handed to nobody. The counter is raised behind the key as
well, so one that refuses leaves a key and an error, and so does a reply that
is lost.

`acquire_hands_over_iff` says when nothing of this happens, for a lifetime of
any kind. Blocking acquisitions attempt until one is not refused for a holder
(`acquireAsync_hands_over`).
-/

open Numerals Script

/-- **What an acquisition leaves to its caller**: the state of the lease.
The end is the second that its text names. -/
structure LeaseState where
  leaseKey : String
  holder : String
  fenceToken : ℕ
  ttlMs : ℕ
  expiresAt : ℕ
  deriving DecidableEq

/-- `wrap_state`: the state behind a pointer, its token and its end. -/
def LeaseState.wrapState (st : LeaseState) : LeaseState × ℕ × ℕ :=
  (st, st.fenceToken, st.expiresAt)

/-- What an attempt meets: the server, what becomes of its request (one that
fails may have reached the server), and the node's clock when the reply is
there. -/
structure Attempt where
  redis : Redis
  fault : Option (Bool × String)
  clock : ℕ

/-- How an attempt ends: with a result, which is none when it panics, and the
server it leaves. -/
structure AttemptEnd (α : Type) where
  result : Option (Except ClusterError (Option α))
  redis : Redis

section Acquire

variable (drv : Driver) (c : Calendar) (p : String) (l : LeaseId) (holder name : String)

theorem clampMs_asMillis_pos (ttl : Duration) : 0 < clampMs ttl.asMillis :=
  clampMs_pos ttl.asMillis

/-- The terms of a lifetime: in milliseconds, at least one. -/
def LeaseTerms.ofTtl (ttl : Duration) : LeaseTerms :=
  ⟨p, l, holder, clampMs ttl.asMillis, clampMs_asMillis_pos ttl⟩

/-- Why an acquisition is not answered. -/
def acquireErr (reason : String) : ClusterError :=
  .backendUnavailable ("lease acquire `" ++ name ++ "`: " ++ reason)

/-- The state of a lease that has been acquired. -/
def LeaseTerms.state (L : LeaseTerms) (fence : ℤ) (expires : ℕ) : LeaseState where
  leaseKey := L.lease
  holder := L.holder
  fenceToken := (fence % 2 ^ 64).toNat
  ttlMs := L.ttl
  expiresAt := expires

/-- What the node makes of a script's reply. The key is set by the time there
is a token, and the date may yet panic. -/
def LeaseTerms.replied (L : LeaseTerms) (clock : ℕ) :
    Except ScriptError (Option ℤ) → Option (Except ClusterError (Option LeaseState))
  | .error e => some (.error (acquireErr name (drv.display e)))
  | .ok none => some (.ok none)
  | .ok (some fence) =>
    (c.rfc3339After clock L.ttl).map fun expires => .ok (some (L.state fence expires))

/-- **`try_acquire_async`.** -/
def tryAcquireAsync (ttl : Duration) (a : Attempt) : AttemptEnd LeaseState :=
  if isBlank name then
    ⟨some (.error (.invalidReference "lease name must not be empty")), a.redis⟩
  else
    let L := LeaseTerms.ofTtl p l holder ttl
    match a.fault with
    | some (reached, e) =>
      ⟨some (.error (acquireErr name e)), if reached then (L.acquire a.redis).2 else a.redis⟩
    | none =>
      let r := L.acquire a.redis
      ⟨L.replied drv c name a.clock r.1, r.2⟩

/-- A lifetime as it comes across the plugin's boundary. -/
def ttlOfMs (ttlMs : UInt64) : Duration :=
  Duration.ofMillis (max ttlMs.toNat 1) (max_lt ttlMs.toNat_lt (by decide))

/-- **`try_acquire_sync`.** -/
def tryAcquireSync (ttlMs : UInt64) (a : Attempt) : AttemptEnd (LeaseState × ℕ × ℕ) :=
  let r := tryAcquireAsync drv c p l holder name (ttlOfMs ttlMs) a
  ⟨r.result.map (Except.map (Option.map LeaseState.wrapState)), r.redis⟩

/-- **`acquire_async`**, of the attempts it comes to: the first that is not
refused for a holder. -/
def acquireAsync (ttl : Duration) : List Attempt → Option (Option (Except ClusterError LeaseState))
  | [] => none
  | a :: as => match (tryAcquireAsync drv c p l holder name ttl a).result with
    | some (.ok none) => acquireAsync ttl as
    | some (.ok (some st)) => some (some (.ok st))
    | some (.error e) => some (some (.error e))
    | none => some none

end Acquire

namespace LeaseTerms

variable (L : LeaseTerms)

/-- The lease key is set for the holder, and was not there. -/
def Sets (s s' : Redis) : Prop :=
  s.lookup L.lease = none ∧ s'.lookup L.lease = some (leaseObj s L.holder L.ttl)

/-- **What is set is handed over**: with an end that is a lifetime from now,
and what is not set is not claimed, and is left as it was. -/
structure HandsOver {α : Type} (expiresAt : α → ℕ) (a : Attempt) (r : AttemptEnd α) : Prop where
  set : L.Sets a.redis r.redis →
    ∃ st, r.result = some (.ok (some st)) ∧ expiresAt st = (a.clock + L.ttl) / 1000
  unset : ¬ L.Sets a.redis r.redis →
    (r.result = some (.ok none) ∨ ∃ e, r.result = some (.error e))
      ∧ r.redis.lookup L.lease = a.redis.lookup L.lease

/-- The lease is free, and its expiry fits the server's clock. -/
def Settable (s : Redis) : Prop := s.lookup L.lease = none ∧ ExpireOk s.now L.ttl

/-- **When an attempt hands over what it sets**: it sets nothing, or its
reply is not lost, its counter counts, and its end has a date. -/
def CanHandOver (c : Calendar) (name : String) (a : Attempt) : Prop :=
  isBlank name = true ∨ (∃ e, a.fault = some (false, e)) ∨ ¬ L.Settable a.redis
    ∨ (a.fault = none ∧ (∃ n, a.redis.count (L.id.fenceKey L.p) (some 1) = .ok n)
      ∧ a.clock + L.ttl ≤ c.latest)

variable {L} {s : Redis}

/-- A lease that cannot be set is not acquired. -/
theorem acquire_of_not_settable (h : ¬ L.Settable s) :
    (L.acquire s).2 = s ∧ ∀ n, (L.acquire s).1 ≠ .ok (some n) := by
  by_cases hl : s.lookup L.lease = none
  · have hrun : L.acquire s = (.error (.command (expireError "set" L.ttl)), s) :=
      acquireLua_refused hl (fun ht => h ⟨hl, ht⟩)
    rw [hrun]
    exact ⟨rfl, fun n hn => nomatch hn⟩
  · exact acquireLua_held (Option.isSome_iff_ne_none.mpr hl)

/-- A lease that can be set is set, whether its counter counts or not. -/
theorem sets_of_settable (h : L.Settable s) : L.Sets s (L.acquire s).2 := by
  have hne : L.lease ≠ L.id.fenceKey L.p := L.id.leaseKey_ne_fenceKey L.p
  have hput : (s.put L.lease (leaseObj s L.holder L.ttl)).lookup L.lease
      = some (leaseObj s L.holder L.ttl) :=
    Redis.lookup_put_self s (liveAt_leaseObj s L.holder L.ttl)
  refine ⟨h.1, ?_⟩
  cases hc : s.count (L.id.fenceKey L.p) (some 1) with
  | ok n =>
    rw [LeaseTerms.acquire, acquireLua_free hne h.1 h.2 hc]
    exact (Redis.lookup_put_of_ne _ hne).trans hput
  | error e =>
    rw [LeaseTerms.acquire, acquireLua_stuck hne h.1 h.2 hc]
    exact hput

section HandsOver

variable {α : Type} {expiresAt : α → ℕ} {a : Attempt} {r : AttemptEnd α}

/-- Nothing is set where nothing changes. -/
theorem not_sets_of_same {s' : Redis} (h : s' = s) : ¬ L.Sets s s' := by
  rintro ⟨hfree, hset⟩
  rw [h, hfree] at hset
  exact nomatch hset

/-- An attempt that changes nothing and claims nothing hands over what it
sets. -/
theorem handsOver_of_same (hs : r.redis = a.redis)
    (hr : r.result = some (.ok none) ∨ ∃ e, r.result = some (.error e)) :
    L.HandsOver expiresAt a r :=
  ⟨fun hset => absurd hset (not_sets_of_same hs), fun _ => ⟨hr, by rw [hs]⟩⟩

/-- An attempt that sets the lease must hand it over. -/
theorem handsOver_iff_of_sets (hset : L.Sets a.redis r.redis) :
    L.HandsOver expiresAt a r
      ↔ ∃ st, r.result = some (.ok (some st)) ∧ expiresAt st = (a.clock + L.ttl) / 1000 :=
  ⟨fun h => h.set hset, fun h => ⟨fun _ => h, fun hno => absurd hset hno⟩⟩

/-- An attempt that sets nothing must claim nothing. -/
theorem handsOver_iff_of_not_sets (hno : ¬ L.Sets a.redis r.redis) :
    L.HandsOver expiresAt a r ↔ (r.result = some (.ok none) ∨ ∃ e, r.result = some (.error e))
      ∧ r.redis.lookup L.lease = a.redis.lookup L.lease :=
  ⟨fun h => h.unset hno, fun h => ⟨fun hset => absurd hset hno, fun _ => h⟩⟩

/-- What is handed over is no panic. -/
theorem HandsOver.result_ne_none (h : L.HandsOver expiresAt a r) : r.result ≠ none := by
  intro hpanic
  by_cases hset : L.Sets a.redis r.redis
  · obtain ⟨st, hst, -⟩ := h.set hset
    exact nomatch hpanic.symm.trans hst
  · rcases (h.unset hset).1 with hr | ⟨e, hr⟩
    · exact nomatch hpanic.symm.trans hr
    · exact nomatch hpanic.symm.trans hr

/-- What is wrapped is handed over as it was. -/
theorem handsOver_map {β : Type} (f : β → α) (r : AttemptEnd β) :
    L.HandsOver expiresAt a ⟨r.result.map (Except.map (Option.map f)), r.redis⟩
      ↔ L.HandsOver (expiresAt ∘ f) a r := by
  obtain ⟨x, s'⟩ := r
  by_cases hset : L.Sets a.redis s'
  · rw [handsOver_iff_of_sets (r := ⟨_, s'⟩) hset, handsOver_iff_of_sets (r := ⟨x, s'⟩) hset]
    rcases x with - | - | - | st <;> simp [Except.map]
  · rw [handsOver_iff_of_not_sets (r := ⟨_, s'⟩) hset,
      handsOver_iff_of_not_sets (r := ⟨x, s'⟩) hset]
    rcases x with - | - | - | st <;> simp [Except.map]

end HandsOver

variable (drv : Driver) (c : Calendar) (p : String) (l : LeaseId) (holder name : String)

/-- **When a reply is handed over**, of a script that set the lease. -/
theorem replied_handsOver_iff (hfree : L.Settable a.redis) :
    L.HandsOver LeaseState.expiresAt a
        ⟨L.replied drv c name a.clock (L.acquire a.redis).1, (L.acquire a.redis).2⟩
      ↔ (∃ n, a.redis.count (L.id.fenceKey L.p) (some 1) = .ok n)
        ∧ a.clock + L.ttl ≤ c.latest := by
  have hne : L.lease ≠ L.id.fenceKey L.p := L.id.leaseKey_ne_fenceKey L.p
  have hfits : L.ttl < 2 ^ 63 := lt_of_le_of_lt (Nat.le_add_left _ _) hfree.2.2
  rw [handsOver_iff_of_sets (r := ⟨_, _⟩) (sets_of_settable hfree)]
  dsimp only
  cases hc : a.redis.count (L.id.fenceKey L.p) (some 1) with
  | error e =>
    rw [LeaseTerms.acquire, acquireLua_stuck hne hfree.1 hfree.2 hc]
    simp [replied]
  | ok n =>
    rw [LeaseTerms.acquire, acquireLua_free hne hfree.1 hfree.2 hc, replied,
      Calendar.rfc3339After, chronoMillis, if_pos hfits]
    by_cases hdate : a.clock + L.ttl ≤ c.latest
    · rw [if_pos hdate]
      exact iff_of_true ⟨_, rfl, rfl⟩ ⟨⟨n, rfl⟩, hdate⟩
    · rw [if_neg hdate]
      refine iff_of_false ?_ (fun h => hdate h.2)
      rintro ⟨st, h, -⟩
      cases h

/-- **An attempt hands over what it sets** if and only if it can. -/
theorem tryAcquireAsync_iff (ttl : Duration) (a : Attempt) :
    (ofTtl p l holder ttl).HandsOver LeaseState.expiresAt a
        (tryAcquireAsync drv c p l holder name ttl a)
      ↔ (ofTtl p l holder ttl).CanHandOver c name a := by
  unfold tryAcquireAsync CanHandOver
  by_cases hb : isBlank name = true
  · rw [if_pos hb]
    exact iff_of_true (handsOver_of_same rfl (Or.inr ⟨_, rfl⟩)) (Or.inl hb)
  rw [if_neg hb, or_iff_right hb]
  dsimp only
  generalize ofTtl p l holder ttl = L
  by_cases hfree : L.Settable a.redis
  · rw [or_iff_right (not_not_intro hfree)]
    rcases hf : a.fault with _ | ⟨reached, e⟩
    · simpa using replied_handsOver_iff drv c name hfree
    · cases reached with
      | false => exact iff_of_true (handsOver_of_same rfl (Or.inr ⟨_, rfl⟩)) (Or.inl ⟨e, rfl⟩)
      | true =>
        rw [handsOver_iff_of_sets (sets_of_settable hfree)]
        simp
  · -- nothing is set, whatever becomes of the request
    refine iff_of_true ?_ (Or.inr (Or.inl hfree))
    obtain ⟨hsame, hno⟩ := acquire_of_not_settable hfree
    rcases a.fault with _ | ⟨reached, e⟩
    · refine handsOver_of_same hsame ?_
      rcases hrun : (L.acquire a.redis).1 with e | - | fence
      · exact Or.inr ⟨_, rfl⟩
      · exact Or.inl rfl
      · exact absurd hrun (hno fence)
    · refine handsOver_of_same ?_ (Or.inr ⟨_, rfl⟩)
      cases reached with
      | false => rfl
      | true => exact hsame

/-- A count of milliseconds is the lifetime, when there is one. -/
theorem ttl_ofTtl_ttlOfMs (ttlMs : UInt64) :
    (ofTtl p l holder (ttlOfMs ttlMs)).ttl = max ttlMs.toNat 1 := by
  have hlt := ttlMs.toNat_lt
  show clampMs (max ttlMs.toNat 1 * 10 ^ 6 / 10 ^ 6) = _
  rw [Nat.mul_div_cancel _ (by decide), clampMs]
  omega

/-- **An acquisition hands over what it sets** if and only if it can: for a
lifetime of any duration, and of any count of milliseconds across the
boundary. -/
theorem acquire_hands_over_iff (a : Attempt) :
    (∀ ttl : Duration,
        (ofTtl p l holder ttl).HandsOver LeaseState.expiresAt a
            (tryAcquireAsync drv c p l holder name ttl a)
          ↔ (ofTtl p l holder ttl).CanHandOver c name a)
      ∧ ∀ ttlMs : UInt64,
        (ofTtl p l holder (ttlOfMs ttlMs)).HandsOver (fun h => h.2.2) a
            (tryAcquireSync drv c p l holder name ttlMs a)
          ↔ (ofTtl p l holder (ttlOfMs ttlMs)).CanHandOver c name a := by
  refine ⟨fun ttl => tryAcquireAsync_iff drv c p l holder name ttl a, fun ttlMs => ?_⟩
  unfold tryAcquireSync
  rw [handsOver_map]
  exact tryAcquireAsync_iff drv c p l holder name (ttlOfMs ttlMs) a

/-- A node asks for a lock in January 2026. -/
def january : Attempt := ⟨Redis.empty 1767225600000, none, 1767225600000⟩

/-- **A lock for 285 thousand years**: the server sets its key, there is no
date for its end, and the node panics. -/
theorem far_lock_not_handed_over :
    (tryAcquireSync Driver.plain chrono "p" ⟨.locks, "x"⟩ "a" "mcpg-lock-x"
        9000000000000000 january).result = none
      ∧ (tryAcquireSync Driver.plain chrono "p" ⟨.locks, "x"⟩ "a" "mcpg-lock-x"
        9000000000000000 january).redis.lookup "plocks/x"
        = some ⟨.str (holderBytes "a"), some 9001767225600000⟩
      ∧ ¬ (ofTtl "p" ⟨.locks, "x"⟩ "a" (ttlOfMs 9000000000000000)).HandsOver (fun h => h.2.2)
        january (tryAcquireSync Driver.plain chrono "p" ⟨.locks, "x"⟩ "a" "mcpg-lock-x"
          9000000000000000 january) := by
  have hresult : (tryAcquireSync Driver.plain chrono "p" ⟨.locks, "x"⟩ "a" "mcpg-lock-x"
      9000000000000000 january).result = none := by
    decide +kernel
  have hkey : (tryAcquireSync Driver.plain chrono "p" ⟨.locks, "x"⟩ "a" "mcpg-lock-x"
      9000000000000000 january).redis.lookup "plocks/x"
      = some ⟨.str (holderBytes "a"), some 9001767225600000⟩ := rfl
  refine ⟨hresult, hkey, fun h => ?_⟩
  have hset : leaseObj january.redis "a" (ofTtl "p" ⟨.locks, "x"⟩ "a"
      (ttlOfMs 9000000000000000)).ttl = ⟨.str (holderBytes "a"), some 9001767225600000⟩ := by
    rw [ttl_ofTtl_ttlOfMs]
    rfl
  obtain ⟨st, hst, -⟩ := h.set ⟨rfl, hkey.trans (congrArg some hset.symm)⟩
  rw [hresult] at hst
  exact nomatch hst

/-- A blocking acquisition ends as its last attempt does; those before found
a holder. -/
theorem acquireAsync_eq_some (ttl : Duration) {as : List Attempt}
    {r : Option (Except ClusterError LeaseState)}
    (h : acquireAsync drv c p l holder name ttl as = some r) :
    ∃ before a after, as = before ++ a :: after
      ∧ (∀ b ∈ before, (tryAcquireAsync drv c p l holder name ttl b).result = some (.ok none))
      ∧ (tryAcquireAsync drv c p l holder name ttl a).result = r.map (Except.map some) := by
  induction as with
  | nil => exact nomatch h
  | cons a as ih =>
    rw [acquireAsync] at h
    split at h
    · next hheld =>
      obtain ⟨before, b, after, rfl, hbefore, hb⟩ := ih h
      exact ⟨a :: before, b, after, rfl, List.forall_mem_cons.mpr ⟨hheld, hbefore⟩, hb⟩
    all_goals
      next hend =>
        obtain rfl := Option.some.inj h
        exact ⟨[], a, as, rfl, List.forall_mem_nil _, hend⟩

/-- **A blocking acquisition hands over what it sets**, when each of its
attempts can: it does not panic, it ends as its last attempt does, and the
attempts before that left the lease as it was. -/
theorem acquireAsync_hands_over (ttl : Duration) {as : List Attempt}
    (hcan : ∀ a ∈ as, (ofTtl p l holder ttl).CanHandOver c name a)
    {r : Option (Except ClusterError LeaseState)}
    (h : acquireAsync drv c p l holder name ttl as = some r) :
    ∃ before a after, as = before ++ a :: after
      ∧ (∀ b ∈ before, (tryAcquireAsync drv c p l holder name ttl b).redis.lookup
        (ofTtl p l holder ttl).lease = b.redis.lookup (ofTtl p l holder ttl).lease)
      ∧ ∃ x, r = some x
        ∧ (tryAcquireAsync drv c p l holder name ttl a).result = some (x.map some) := by
  obtain ⟨before, a, after, rfl, hbefore, ha⟩ := acquireAsync_eq_some drv c p l holder name ttl h
  have hover : ∀ b ∈ before ++ a :: after, (ofTtl p l holder ttl).HandsOver LeaseState.expiresAt b
      (tryAcquireAsync drv c p l holder name ttl b) :=
    fun b hb => (tryAcquireAsync_iff drv c p l holder name ttl b).mpr (hcan b hb)
  refine ⟨before, a, after, rfl, fun b hb => ?_, ?_⟩
  · have hb' := hover b (List.mem_append_left _ hb)
    refine (hb'.unset fun hset => ?_).2
    obtain ⟨st, hst, -⟩ := hb'.set hset
    exact nomatch (hbefore b hb).symm.trans hst
  · have hsome := (hover a List.mem_append_cons_self).result_ne_none
    rw [ha] at hsome
    cases r with
    | none => exact absurd rfl hsome
    | some x => exact ⟨x, rfl, ha⟩

end LeaseTerms
