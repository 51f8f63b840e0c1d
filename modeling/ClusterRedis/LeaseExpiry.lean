import ClusterRedis.LeaseTask

/-!
# The reported end of a lease

The server counts a lease's lifetime from when the script runs. The node
reports an end of its own: when it processes the reply it takes its clock,
adds the lifetime, and prints the sum to the second. Between the script and
the reply lies a delay, which the report adds; printing takes away what is
past the last full second. Which of the two wins is an equation in the
milliseconds (`report_within_iff`).

Node and server have one clock here. An instant is its milliseconds, a
report the second its text names.
-/

open Numerals Script

/-- **The calendar** that adds and prints: the last instant it has a date
for. Past it the addition panics. -/
structure Calendar where
  latest : ℕ

/-- The time a lifetime of so many milliseconds takes: one that does not fit
is none. -/
def chronoMillis (ttl : ℕ) : ℕ := if ttl < 2 ^ 63 then ttl else 0

/-- **`rfc3339_after`**: the second that the text names, a lifetime from
now. -/
def Calendar.rfc3339After (c : Calendar) (now ttl : ℕ) : Option ℕ :=
  if now + chronoMillis ttl ≤ c.latest then some ((now + chronoMillis ttl) / 1000) else none

/-- What gives a lease a lifetime: an acquisition, or a renewal by an owner
or by the task. -/
inductive Grant where
  | acquire
  | renew
  deriving DecidableEq

namespace LeaseTerms

variable (c : Calendar) (L : LeaseTerms)

/-- Its script, and whether the reply is taken as a lifetime. -/
def grant : Grant → Script Bool
  | .acquire => do
    let fence ← L.acquire
    pure fence.isSome
  | .renew => do
    let updated ← renewLua L.lease L.holder L.ttl
    pure (decide (updated ≠ 0))

/-- **What is reported**: after the script, by a node that processes its
reply some time later. -/
def reports (g : Grant) (s : Redis) (delay : ℕ) : Option ℕ :=
  match (L.grant g s).1 with
  | .ok true => c.rfc3339After (s.now + delay) L.ttl
  | _ => none

/-- **No more is reported than is granted**: the lease key is the holder's,
and expires no earlier than at the second that is reported. -/
def ReportsWithin (g : Grant) (s : Redis) (delay : ℕ) : Prop :=
  ∀ sec, L.reports c g s delay = some sec →
    ∃ e, (L.grant g s).2.lookup L.lease = some ⟨.str (holderBytes L.holder), some e⟩
      ∧ sec * 1000 ≤ e

/-- **A lifetime is there to be given**: to an acquisition when the lease is
free and its counter counts, to a renewal when the lease is the holder's,
and to either when the end fits the server's clock. -/
def Granted (s : Redis) : Grant → Prop
  | .acquire => s.lookup L.lease = none ∧ ∃ n, s.count (L.id.fenceKey L.p) (some 1) = .ok n
  | .renew => s.HeldBy L.lease L.holder

variable {L} {s : Redis}

section Granting

/-- A lifetime that is given runs from when the script does. -/
theorem grant_given (hfit : s.now + L.ttl < 2 ^ 63) {g : Grant} (hg : L.Granted s g) :
    (L.grant g s).1 = .ok true ∧ (L.grant g s).2.lookup L.lease
      = some (leaseObj s L.holder L.ttl) := by
  have hput : (s.put L.lease (leaseObj s L.holder L.ttl)).lookup L.lease
      = some (leaseObj s L.holder L.ttl) :=
    Redis.lookup_put_self s (liveAt_leaseObj s L.holder L.ttl)
  have hne : L.lease ≠ L.id.fenceKey L.p := L.id.leaseKey_ne_fenceKey L.p
  cases g with
  | acquire =>
    obtain ⟨hfree, n, hn⟩ := hg
    have hrun : L.grant .acquire s = (.ok true,
        (s.put L.lease (leaseObj s L.holder L.ttl)).put (L.id.fenceKey L.p)
          (s.counted (L.id.fenceKey L.p) n)) :=
      bind_ok (acquireLua_free hne hfree ⟨L.ttl_pos, hfit⟩ hn)
    rw [hrun]
    refine ⟨rfl, ?_⟩
    show Redis.lookup _ L.lease = _
    rw [Redis.lookup_put_of_ne _ hne, hput]
  | renew =>
    have hrun : L.grant .renew s = (.ok true, s.put L.lease (leaseObj s L.holder L.ttl)) :=
      bind_ok (renewLua_held hg ⟨L.ttl_pos, hfit⟩)
    rw [hrun]
    exact ⟨rfl, hput⟩

/-- A lifetime is given on a script's reply. -/
theorem reply_of_given {α : Type} {x : Script α} {f : α → Bool}
    (h : ((do let a ← x; pure (f a)) s : Except ScriptError Bool × Redis).1 = .ok true) :
    ∃ a, (x s).1 = .ok a ∧ f a = true := by
  cases hx : x s with
  | mk r t =>
    cases r with
    | ok a =>
      rw [bind_ok hx] at h
      exact ⟨a, rfl, Except.ok.inj h⟩
    | error e =>
      rw [bind_error hx] at h
      exact nomatch h

/-- What is given was there to be given. -/
theorem granted_of_given {g : Grant} (h : (L.grant g s).1 = .ok true) :
    L.Granted s g ∧ s.now + L.ttl < 2 ^ 63 := by
  cases g with
  | acquire =>
    obtain ⟨fence, hfence, hsome⟩ := reply_of_given h
    obtain ⟨n, rfl⟩ := Option.isSome_iff_exists.mp hsome
    have hfree : s.lookup L.lease = none := by
      by_contra hl
      exact (acquireLua_held (Option.isSome_iff_ne_none.mpr hl)).2 n hfence
    have hfit : ExpireOk s.now L.ttl := by
      by_contra hbad
      rw [LeaseTerms.acquire, acquireLua_refused hfree hbad] at hfence
      exact nomatch hfence
    rcases acquireLua_cases (L.id.leaseKey_ne_fenceKey L.p) L.holder L.ttl s with
      ⟨-, hno⟩ | ⟨-, m, hm, -⟩ | ⟨-, e, -, hrun⟩
    · exact absurd hfence (hno n)
    · exact ⟨⟨hfree, m, hm⟩, hfit.2⟩
    · exact nomatch hfence.symm.trans (congrArg Prod.fst hrun)
  | renew =>
    obtain ⟨updated, hup, hne⟩ := reply_of_given h
    rcases renewLua_cases L.lease L.holder L.ttl_pos s with ⟨-, hquiet⟩ | ⟨hheld, hset⟩
    · exact absurd (hquiet updated hup) (of_decide_eq_true hne)
    · refine ⟨hheld, ?_⟩
      by_contra hbig
      have hrun := renewLua_refused hheld L.ttl_pos (fun hok => hbig hok.2)
      exact nomatch congrArg Prod.fst (hset.symm.trans hrun)

end Granting

/-- Printed to the second, a sum that came too late is within what it was to
be when the lateness stays within the second. -/
theorem div_mul_le_iff (x d : ℕ) : (x + d) / 1000 * 1000 ≤ x ↔ x % 1000 + d < 1000 := by
  omega

/-- **A lease reports no more than is granted** if and only if no lifetime
was there to be given, or there is no date to report, or the reply is
processed in the second, of the lifetime's end, in which its script ran. -/
theorem report_within_iff (g : Grant) (s : Redis) (delay : ℕ) :
    L.ReportsWithin c g s delay ↔ ¬ L.Granted s g ∨ 2 ^ 63 ≤ s.now + L.ttl
      ∨ c.latest < s.now + delay + L.ttl ∨ (s.now + L.ttl) % 1000 + delay < 1000 := by
  by_cases hg : L.Granted s g ∧ s.now + L.ttl < 2 ^ 63
  swap
  · -- nothing is given, so nothing is reported
    have hnone : L.reports c g s delay = none := by
      unfold reports
      split
      · next h => exact absurd (granted_of_given h) hg
      · rfl
    refine iff_of_true (fun sec hsec => nomatch hnone.symm.trans hsec) ?_
    rcases not_and_or.mp hg with h | h
    · exact Or.inl h
    · exact Or.inr (Or.inl (Nat.not_lt.mp h))
  obtain ⟨hgiven, hkey⟩ := grant_given hg.2 hg.1
  have hfits : L.ttl < 2 ^ 63 := lt_of_le_of_lt (Nat.le_add_left _ _) hg.2
  have hrep : L.reports c g s delay = c.rfc3339After (s.now + delay) L.ttl := by
    rw [reports, hgiven]
  rw [or_iff_right (not_not_intro hg.1), or_iff_right (Nat.not_le.mpr hg.2), ReportsWithin, hrep,
    Calendar.rfc3339After, chronoMillis, if_pos hfits]
  by_cases hlate : s.now + delay + L.ttl ≤ c.latest
  · rw [if_pos hlate, or_iff_right (Nat.not_lt.mpr hlate), ← div_mul_le_iff, Nat.add_right_comm]
    constructor
    · intro h
      obtain ⟨e, he, hle⟩ := h _ rfl
      have hend : some (s.now + L.ttl) = some e :=
        (Obj.mk.inj (Option.some.inj (hkey.symm.trans he))).2
      rwa [← Option.some.inj hend] at hle
    · intro h sec hsec
      rw [← Option.some.inj hsec]
      exact ⟨_, hkey, h⟩
  · rw [if_neg hlate]
    exact iff_of_true (fun sec hsec => nomatch hsec) (Or.inl (Nat.not_le.mp hlate))

/-- The calendar's last date is in the year 262142. -/
def chrono : Calendar := ⟨8210266876799999⟩

/-- A lock for a second and a half. -/
def briefLock : LeaseTerms := ⟨"p", ⟨.locks, "x"⟩, "a", 1500, by decide⟩

/-- **A reply that takes 600 milliseconds**: the key lives until 1500, and
the second that is reported is 2. -/
theorem report_past_grant :
    briefLock.reports chrono .acquire (Redis.empty 0) 600 = some 2
      ∧ (briefLock.grant .acquire (Redis.empty 0)).2.lookup briefLock.lease
        = some ⟨.str (holderBytes "a"), some 1500⟩
      ∧ ¬ briefLock.ReportsWithin chrono .acquire (Redis.empty 0) 600 := by
  have hgiven : (briefLock.grant .acquire (Redis.empty 0)).1 = .ok true := rfl
  have hrep : briefLock.reports chrono .acquire (Redis.empty 0) 600 = some 2 := by
    rw [reports, hgiven]
    show chrono.rfc3339After (0 + 600) 1500 = some 2
    simp [Calendar.rfc3339After, chronoMillis, chrono]
  have hkey : (briefLock.grant .acquire (Redis.empty 0)).2.lookup briefLock.lease
      = some ⟨.str (holderBytes "a"), some 1500⟩ := rfl
  refine ⟨hrep, hkey, fun h => ?_⟩
  obtain ⟨e, he, hle⟩ := h 2 hrep
  have hend : some 1500 = some e := (Obj.mk.inj (Option.some.inj (hkey.symm.trans he))).2
  rw [← Option.some.inj hend] at hle
  exact absurd hle (by decide)

end LeaseTerms
