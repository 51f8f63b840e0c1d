import ClusterRedis.LeaseTask

/-!
# When a lease is first renewed

The renewal task sleeps for a share of the lifetime that is left by a
percentage: `ttl × (100 - pct) / 100`, in the durations of the standard
library. These are whole seconds and nanoseconds, each multiplied and divided
with a carry from the one to the other. A product that does not fit is the
longest duration there is, and a quotient that is zero is replaced by a
hundred milliseconds, which is more than a short lifetime.

Neither happens. The carries make seconds and nanoseconds one count
(`nanos_of_checkedMul`, `nanos_div`), a lifetime in milliseconds leaves room
for the product, and a millisecond is enough nanoseconds for the quotient.
-/

open Numerals

/-! ## Products and quotients of durations -/

namespace Duration

variable (d : Duration) (n : ℕ)

/-- The whole seconds. -/
def secs : ℕ := d.nanos / 10 ^ 9

/-- The nanoseconds behind them. -/
def subsecNanos : ℕ := d.nanos % 10 ^ 9

/-- `Duration::new`, of nanoseconds that do not make a second. -/
def ofParts (secs subsec : ℕ) (hs : secs < 2 ^ 64) (hn : subsec < 10 ^ 9) : Duration :=
  ⟨secs * 10 ^ 9 + subsec, by omega⟩

/-- `Duration::MAX`. -/
def longest : Duration := ⟨2 ^ 64 * 10 ^ 9 - 1, by decide⟩

/-- **`checked_mul`**: seconds and nanoseconds are multiplied, and the
nanoseconds carried over. -/
def checkedMul : Option Duration :=
  let totalNanos := d.subsecNanos * n
  let extraSecs := totalNanos / 10 ^ 9
  if hmul : d.secs * n < 2 ^ 64 then
    if hadd : d.secs * n + extraSecs < 2 ^ 64 then
      some (ofParts (d.secs * n + extraSecs) (totalNanos % 10 ^ 9) hadd
        (Nat.mod_lt _ (Nat.pow_pos (by decide))))
    else none
  else none

/-- `saturating_mul`. -/
def saturatingMul : Duration := (d.checkedMul n).getD longest

theorem secs_lt : d.secs < 2 ^ 64 := Nat.div_lt_of_lt_mul (by have := d.lt; omega)

/-- The whole count in its parts. -/
theorem secs_add_subsecNanos : d.secs * 10 ^ 9 + d.subsecNanos = d.nanos :=
  Nat.div_add_mod' d.nanos (10 ^ 9)

/-- **A product counts what it should.** -/
theorem nanos_of_checkedMul {e : Duration} (h : d.checkedMul n = some e) :
    e.nanos = d.nanos * n := by
  simp only [checkedMul] at h
  split at h
  · split at h
    · obtain rfl := Option.some.inj h
      show (d.secs * n + d.subsecNanos * n / 10 ^ 9) * 10 ^ 9 + d.subsecNanos * n % 10 ^ 9 = _
      calc
        _ = d.secs * n * 10 ^ 9
            + (d.subsecNanos * n / 10 ^ 9 * 10 ^ 9 + d.subsecNanos * n % 10 ^ 9) := by ring
        _ = d.secs * n * 10 ^ 9 + d.subsecNanos * n := by rw [Nat.div_add_mod']
        _ = (d.secs * 10 ^ 9 + d.subsecNanos) * n := by ring
        _ = d.nanos * n := by rw [secs_add_subsecNanos]
    · exact absurd h (by simp)
  · exact absurd h (by simp)

/-- **A product that fits is not refused**: neither of its two checks
fails. -/
theorem checkedMul_isSome (h : d.nanos * n < 2 ^ 64 * 10 ^ 9) : (d.checkedMul n).isSome := by
  have htotal : d.secs * n * 10 ^ 9 + d.subsecNanos * n = d.nanos * n := by
    rw [← secs_add_subsecNanos]
    ring
  have hadd : d.secs * n + d.subsecNanos * n / 10 ^ 9 < 2 ^ 64 := by
    refine Nat.lt_of_mul_lt_mul_right (a := 10 ^ 9) ?_
    have := Nat.div_mul_le_self (d.subsecNanos * n) (10 ^ 9)
    rw [Nat.add_mul]
    omega
  rw [checkedMul, dif_pos (lt_of_le_of_lt (Nat.le_add_right _ _) hadd), dif_pos hadd]
  rfl

/-- What the remainders of seconds and nanoseconds make together. -/
theorem div_parts (secs subsec : ℕ) (hn : 0 < n) :
    secs / n * 10 ^ 9 + (subsec / n + (secs % n * 10 ^ 9 + subsec % n) / n)
      = (secs * 10 ^ 9 + subsec) / n := by
  have hsplit : secs * 10 ^ 9 + subsec
      = n * (secs / n * 10 ^ 9 + subsec / n) + (secs % n * 10 ^ 9 + subsec % n) := by
    conv_lhs => rw [← Nat.div_add_mod secs n, ← Nat.div_add_mod subsec n]
    ring
  rw [hsplit, Nat.mul_add_div hn, Nat.add_assoc]

/-- The nanoseconds of a quotient do not make a second. -/
theorem div_subsec_lt (hn : 0 < n) :
    d.subsecNanos / n + (d.secs % n * 10 ^ 9 + d.subsecNanos % n) / n < 10 ^ 9 := by
  have hsub : d.subsecNanos < 10 ^ 9 := Nat.mod_lt _ (Nat.pow_pos (by decide))
  have hrem : d.secs % n < n := Nat.mod_lt _ hn
  have hparts := div_parts n (d.secs % n) d.subsecNanos hn
  rw [Nat.div_eq_of_lt hrem, Nat.mod_mod, Nat.zero_mul, Nat.zero_add] at hparts
  rw [hparts]
  refine Nat.div_lt_of_lt_mul ?_
  have hle : (d.secs % n + 1) * 10 ^ 9 ≤ n * 10 ^ 9 := Nat.mul_le_mul_right _ hrem
  rw [Nat.add_mul] at hle
  omega

/-- **`Duration / n`**: seconds and nanoseconds are divided, and what is left
of both is divided once more. -/
def div (hn : 0 < n) : Duration :=
  ofParts (d.secs / n) (d.subsecNanos / n + (d.secs % n * 10 ^ 9 + d.subsecNanos % n) / n)
    (lt_of_le_of_lt (Nat.div_le_self _ _) d.secs_lt) (d.div_subsec_lt n hn)

/-- **A quotient counts what it should**, cut off. -/
theorem nanos_div (hn : 0 < n) : (d.div n hn).nanos = d.nanos / n :=
  (div_parts n d.secs d.subsecNanos hn).trans (congrArg (· / n) d.secs_add_subsecNanos)

end Duration

theorem clampMs_lt (n : ℕ) : clampMs n < 2 ^ 64 := by
  unfold clampMs
  omega

/-! ## The delay -/

namespace LeaseTerms

/-- The percentage as it is used. -/
def renewPercent (percent : ℕ) : ℕ := max 1 (min percent 99)

/-- A lifetime as the server is sent it. -/
def lifetime (ttl : Duration) : Duration :=
  Duration.ofMillis (clampMs ttl.asMillis) (clampMs_lt _)

/-- The share of a lifetime that is left by a percentage. -/
def renewalShare (ttl : Duration) (percent : ℕ) : Duration :=
  ((lifetime ttl).saturatingMul (100 - renewPercent percent)).div 100 (by decide)

/-- **What the renewal task sleeps for.** -/
def renewalDelay (ttl : Duration) (percent : ℕ) : Duration :=
  if (renewalShare ttl percent).nanos = 0 then Duration.ofMillis 100 (by decide)
  else renewalShare ttl percent

variable (ttl : Duration) (percent : ℕ)

theorem renewPercent_mem : 1 ≤ renewPercent percent ∧ renewPercent percent ≤ 99 := by
  unfold renewPercent
  omega

/-- **The product fits**: a lifetime in milliseconds is far from the longest
duration. -/
theorem lifetime_checkedMul : ∃ product,
    (lifetime ttl).checkedMul (100 - renewPercent percent) = some product
      ∧ product.nanos = clampMs ttl.asMillis * 10 ^ 6 * (100 - renewPercent percent) := by
  have hms := clampMs_lt ttl.asMillis
  have hpct : 100 - renewPercent percent ≤ 99 := by
    have := renewPercent_mem percent
    omega
  have hfits : (lifetime ttl).nanos * (100 - renewPercent percent) < 2 ^ 64 * 10 ^ 9 := by
    show clampMs ttl.asMillis * 10 ^ 6 * (100 - renewPercent percent) < _
    calc
      _ ≤ clampMs ttl.asMillis * 10 ^ 6 * 99 := Nat.mul_le_mul_left _ hpct
      _ < 2 ^ 64 * 10 ^ 9 := by omega
  obtain ⟨product, hproduct⟩ :=
    Option.isSome_iff_exists.mp (Duration.checkedMul_isSome _ _ hfits)
  exact ⟨product, hproduct, Duration.nanos_of_checkedMul _ _ hproduct⟩

/-- **The share in nanoseconds**: nothing is cut off. -/
theorem nanos_renewalShare : (renewalShare ttl percent).nanos
    = clampMs ttl.asMillis * 10 ^ 4 * (100 - renewPercent percent) := by
  obtain ⟨product, hproduct, hnanos⟩ := lifetime_checkedMul ttl percent
  rw [renewalShare, Duration.nanos_div, Duration.saturatingMul, hproduct, Option.getD_some,
    hnanos]
  refine Nat.div_eq_of_eq_mul_right (by decide) ?_
  ring

theorem renewalShare_pos : 0 < (renewalShare ttl percent).nanos := by
  have hpct := renewPercent_mem percent
  rw [nanos_renewalShare]
  exact Nat.mul_pos (Nat.mul_pos (clampMs_pos _) (by decide)) (by omega)

theorem renewalShare_lt :
    (renewalShare ttl percent).nanos < clampMs ttl.asMillis * 10 ^ 6 := by
  have hms := clampMs_pos ttl.asMillis
  have hpct : 100 - renewPercent percent ≤ 99 := by
    have := renewPercent_mem percent
    omega
  rw [nanos_renewalShare]
  calc
    _ ≤ clampMs ttl.asMillis * 10 ^ 4 * 99 := Nat.mul_le_mul_left _ hpct
    _ < clampMs ttl.asMillis * 10 ^ 6 := by omega

/-- **The task does not sleep for the replacement.** -/
theorem renewalDelay_eq : renewalDelay ttl percent = renewalShare ttl percent :=
  if_neg (Nat.pos_iff_ne_zero.mp (renewalShare_pos ttl percent))

section Awake

variable {L : LeaseTerms} {s s' : Redis} {token : ℤ}

/-- The key of a lease that has just been acquired is the holder's for a
lifetime. -/
theorem heldBy_tick_of_acquired (ha : L.acquire s = (.ok (some token), s')) {d : ℕ}
    (hd : d ≤ L.ttl) : (s'.tick d).HeldBy L.lease L.holder := by
  have hne : L.lease ≠ L.id.fenceKey L.p := L.id.leaseKey_ne_fenceKey L.p
  rcases acquireLua_cases hne L.holder L.ttl s with ⟨-, hno⟩ | ⟨-, n, -, hok⟩ | ⟨-, e, -, hbad⟩
  · exact absurd (congrArg Prod.fst ha) (hno token)
  · obtain rfl : s' = (s.put L.lease (leaseObj s L.holder L.ttl)).put (L.id.fenceKey L.p)
        (s.counted (L.id.fenceKey L.p) n) := congrArg Prod.snd (ha.symm.trans hok)
    refine ⟨some (s.now + L.ttl), ?_⟩
    rw [Redis.lookup_tick, Redis.lookup_put_of_ne _ hne,
      Redis.lookup_put_self _ (liveAt_leaseObj _ _ _)]
    exact Option.filter_some_pos (decide_eq_true (Nat.add_le_add_left hd s.now))
  · exact absurd (congrArg Prod.fst (ha.symm.trans hbad)) (by simp)

/-- The task wakes up, and the lease is not released. -/
theorem renewing_of_wake (s : Redis) (d : ℕ) :
    (L.system.final (LeaseLife.acquired s) [.tick d, .wake]).task = .renewing
      ∧ (L.system.final (LeaseLife.acquired s) [.tick d, .wake]).redis = s.tick d := by
  refine ⟨rfl, ?_⟩
  obtain ⟨b, hb⟩ := ((L.act (L.system.final (LeaseLife.acquired s) [.tick d]) .wake).2).settle_eq
  show (L.act (L.system.final (LeaseLife.acquired s) [.tick d]) .wake).2.settle.redis = _
  rw [hb]
  rfl

end Awake

/-- **A renewal is due before the lease expires**, for every lifetime and
every percentage: the product does not saturate, the replacement is not
taken, and the task sleeps for more than nothing and for less than the
lifetime the server was sent. When the task of a lease that was acquired for
that lifetime wakes before it is over – after its delay, whatever the timer
rounds it up to and however long the reply took – it sends its renewal while
the key is the holder's. -/
theorem renewal_due_before_expiry (ttl : Duration) (percent : ℕ) :
    (∃ product, (lifetime ttl).checkedMul (100 - renewPercent percent) = some product
        ∧ renewalDelay ttl percent = product.div 100 (by decide))
      ∧ 0 < (renewalDelay ttl percent).nanos
      ∧ (renewalDelay ttl percent).nanos < clampMs ttl.asMillis * 10 ^ 6
      ∧ ∀ (L : LeaseTerms) (s s' : Redis) (token : ℤ) (d : ℕ), L.ttl = clampMs ttl.asMillis →
        L.acquire s = (.ok (some token), s') → d ≤ clampMs ttl.asMillis →
        (L.system.final (LeaseLife.acquired s') [.tick d, .wake]).task = .renewing
          ∧ (L.system.final (LeaseLife.acquired s') [.tick d, .wake]).redis.HeldBy
            L.lease L.holder := by
  have hlt := renewalShare_lt ttl percent
  refine ⟨?_, ?_, ?_, ?_⟩
  · obtain ⟨product, hproduct, -⟩ := lifetime_checkedMul ttl percent
    refine ⟨product, hproduct, ?_⟩
    rw [renewalDelay_eq, renewalShare, Duration.saturatingMul, hproduct, Option.getD_some]
  · rw [renewalDelay_eq]
    exact renewalShare_pos ttl percent
  · rw [renewalDelay_eq]
    exact hlt
  · intro L s s' token d httl ha hd
    obtain ⟨htask, hredis⟩ := renewing_of_wake (L := L) s' d
    refine ⟨htask, ?_⟩
    rw [hredis]
    exact heldBy_tick_of_acquired ha (hd.trans (le_of_eq httl.symm))

/-- A lock for ten milliseconds, renewed when half of them are left. -/
theorem renewal_due_sample :
    (sample.system.final sampled [.tick 5, .wake]).task = .renewing
      ∧ (sample.system.final sampled [.tick 5, .wake]).redis.HeldBy sample.lease sample.holder := by
  have hms : clampMs (Duration.ofMillis 10 (by decide)).asMillis = 10 := by decide
  have ha : sample.acquire (Redis.empty 0)
      = (.ok (some 1), (sample.acquire (Redis.empty 0)).2) := rfl
  refine (renewal_due_before_expiry (Duration.ofMillis 10 (by decide)) 50).2.2.2 sample _ _ 1 5
    hms.symm ha ?_
  rw [hms]
  decide

end LeaseTerms
