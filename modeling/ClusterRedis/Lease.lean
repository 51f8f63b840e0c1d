import ClusterRedis.Client

/-!
# Leases

A lease is a key that holds its holder's name and expires, and beside it a
counter that is raised at every acquisition and whose value is the fence
token of that acquisition. The three scripts compare the key's value with
the holder and with nothing else: neither the token nor anything that tells
two acquisitions of one holder apart reaches the server.

This module has the keys, the scripts and, for each script, every way it
can end with the state it leaves. An acquisition can end in one way its
caller does not expect: the key is set, and then the counter refuses.
-/

open Numerals Script

/-! ## Keys -/

/-- What a lease is for. -/
inductive LeaseKind where
  | locks
  | leadership
  deriving DecidableEq

/-- The kind as the keys spell it. -/
def LeaseKind.text : LeaseKind → String
  | locks => "locks"
  | leadership => "leadership"

/-- **A lease**: a kind and a name. -/
structure LeaseId where
  kind : LeaseKind
  name : String
  deriving DecidableEq

namespace LeaseId

/-- The lease key. -/
def leaseKey (p : String) (l : LeaseId) : String := p ++ l.kind.text ++ "/" ++ l.name

/-- The fence counter. -/
def fenceKey (p : String) (l : LeaseId) : String := p ++ l.kind.text ++ "/" ++ l.name ++ ":fence"

theorem fenceKey_eq (p : String) (l : LeaseId) : l.fenceKey p = l.leaseKey p ++ ":fence" := rfl

theorem leaseKey_ne_fenceKey (p : String) (l : LeaseId) : l.leaseKey p ≠ l.fenceKey p := by
  intro h
  have := congrArg (fun s => s.toList.length) h
  simp [fenceKey_eq] at this

end LeaseId

/-- The bytes a holder's name is stored as. -/
def holderBytes (holder : String) : List UInt8 := holder.toList.flatMap String.utf8EncodeChar

theorem holderBytes_injective : Function.Injective holderBytes := by
  intro a b h
  refine utf8_injective ?_
  rw [utf8_eq_map, utf8_eq_map]
  exact congrArg (List.map UInt8.toNat) h

/-! ## Scripts -/

/-- **Acquire**: set the key if there is none, and raise the counter. -/
def acquireLua (lease fence holder : String) (ttl : ℕ) : Script (Option ℤ) := do
  let held ← Redis.get lease
  match held with
  | none => do
    let _ ← Redis.set lease (holderBytes holder) (some ttl) false
    let token ← luaReply (Redis.incrby fence (some 1))
    pure (some token)
  | some _ => pure none

/-- **Renew**: extend the key if it is the holder's. -/
def renewLua (lease holder : String) (ttl : ℕ) : Script ℕ := do
  let held ← Redis.get lease
  if held = some (holderBytes holder) then Redis.pexpire lease ttl else pure 0

/-- **Release**: delete the key if it is the holder's. -/
def releaseLua (lease holder : String) : Script ℕ := do
  let held ← Redis.get lease
  if held = some (holderBytes holder) then Redis.delete lease else pure 0

/-- What a lease key holds for a holder, from now on. -/
def leaseObj (s : Redis) (holder : String) (ttl : ℕ) : Obj :=
  ⟨.str (holderBytes holder), some (s.now + ttl)⟩

theorem liveAt_leaseObj (s : Redis) (holder : String) (ttl : ℕ) :
    (leaseObj s holder ttl).liveAt s.now = true :=
  decide_eq_true (Nat.le_add_right s.now ttl)

/-- The key is the holder's. -/
def Redis.HeldBy (s : Redis) (lease holder : String) : Prop :=
  ∃ e, s.lookup lease = some ⟨.str (holderBytes holder), e⟩

section Run

variable {s : Redis} {lease fence holder : String} {ttl : ℕ}

/-- A free lease whose expiry the server refuses. -/
theorem acquireLua_refused (hl : s.lookup lease = none) (ht : ¬ ExpireOk s.now ttl) :
    acquireLua lease fence holder ttl s = (.error (.command (expireError "set" ttl)), s) := by
  have hset : Redis.set lease (holderBytes holder) (some ttl) false s
      = (.error (.command (expireError "set" ttl)), s) := by
    simp [Redis.set, ht]
  rw [acquireLua, bind_ok (Redis.get_absent hl)]
  exact bind_error hset

/-- The counter is not the lease key. -/
theorem counter_put_of_ne (hne : lease ≠ fence) (o : Obj) :
    (s.put lease o).counter fence = s.counter fence := by
  unfold Redis.counter
  rw [Redis.lookup_put_of_ne s hne.symm]

theorem count_put_of_ne (hne : lease ≠ fence) (o : Obj) (d : Option ℤ) :
    (s.put lease o).count fence d = s.count fence d := by
  unfold Redis.count
  rw [counter_put_of_ne hne]

theorem acquireLua_set (hl : s.lookup lease = none) (ht : ExpireOk s.now ttl) :
    acquireLua lease fence holder ttl s = (do
      let token ← luaReply (Redis.incrby fence (some 1))
      pure (some token)) (s.put lease (leaseObj s holder ttl)) := by
  have hset : Redis.set lease (holderBytes holder) (some ttl) false s
      = (.ok true, s.put lease (leaseObj s holder ttl)) := by
    simp [Redis.set, ht, leaseObj]
  rw [acquireLua, bind_ok (Redis.get_absent hl)]
  exact bind_ok hset

/-- **A free lease is acquired**: the key is set and the counter raised. -/
theorem acquireLua_free {n : ℤ} (hne : lease ≠ fence) (hl : s.lookup lease = none)
    (ht : ExpireOk s.now ttl) (hc : s.count fence (some 1) = .ok n) :
    acquireLua lease fence holder ttl s
      = (.ok (some (Double.round n)),
          (s.put lease (leaseObj s holder ttl)).put fence (s.counted fence n)) := by
  have hinc : Redis.incrby fence (some 1) (s.put lease (leaseObj s holder ttl))
      = (.ok n, (s.put lease (leaseObj s holder ttl)).put fence (s.counted fence n)) := by
    rw [Redis.incrby, count_put_of_ne hne, hc]
    show (Except.ok n, _) = _
    rw [Redis.counted, Redis.counted, Redis.lookup_put_of_ne s hne.symm]
  have hrep : luaReply (Redis.incrby fence (some 1)) (s.put lease (leaseObj s holder ttl))
      = (.ok (Double.round n), (s.put lease (leaseObj s holder ttl)).put fence
          (s.counted fence n)) := bind_ok hinc
  rw [acquireLua_set hl ht]
  exact bind_ok hrep

/-- **A free lease whose counter refuses is set all the same**, and its
caller gets an error. -/
theorem acquireLua_stuck {e : CmdError} (hne : lease ≠ fence) (hl : s.lookup lease = none)
    (ht : ExpireOk s.now ttl) (hc : s.count fence (some 1) = .error e) :
    acquireLua lease fence holder ttl s
      = (.error (.command e), s.put lease (leaseObj s holder ttl)) := by
  have hinc : Redis.incrby fence (some 1) (s.put lease (leaseObj s holder ttl))
      = (.error (.command e), s.put lease (leaseObj s holder ttl)) := by
    rw [Redis.incrby, count_put_of_ne hne, hc]
    rfl
  have hrep : luaReply (Redis.incrby fence (some 1)) (s.put lease (leaseObj s holder ttl))
      = (.error (.command e), s.put lease (leaseObj s holder ttl)) := bind_error hinc
  rw [acquireLua_set hl ht]
  exact bind_error hrep

/-- A lease that is there is not acquired. -/
theorem acquireLua_held (hl : s.Live lease) :
    (acquireLua lease fence holder ttl s).2 = s
      ∧ ∀ n, (acquireLua lease fence holder ttl s).1 ≠ .ok (some n) := by
  obtain ⟨⟨v, e⟩, ho⟩ := Option.isSome_iff_exists.mp hl
  cases v with
  | str b =>
    rw [acquireLua, bind_ok (Redis.get_str ho)]
    exact ⟨rfl, fun n => by simp⟩
  | zset z =>
    rw [acquireLua, bind_error (Redis.get_zset ho)]
    exact ⟨rfl, fun n => by simp⟩

/-- **How an acquisition ends**: nothing changed and nothing acquired; or
the lease was free and is set, with a token; or it was free and is set, and
the counter refused. -/
theorem acquireLua_cases (hne : lease ≠ fence) (holder : String) (ttl : ℕ) (s : Redis) :
    ((acquireLua lease fence holder ttl s).2 = s
        ∧ ∀ n, (acquireLua lease fence holder ttl s).1 ≠ .ok (some n))
      ∨ (s.lookup lease = none ∧ ∃ n, s.count fence (some 1) = .ok n
        ∧ acquireLua lease fence holder ttl s = (.ok (some (Double.round n)),
          (s.put lease (leaseObj s holder ttl)).put fence (s.counted fence n)))
      ∨ (s.lookup lease = none ∧ ∃ e, s.count fence (some 1) = .error e
        ∧ acquireLua lease fence holder ttl s
          = (.error (.command e), s.put lease (leaseObj s holder ttl))) := by
  by_cases hl : s.Live lease
  · exact Or.inl (acquireLua_held hl)
  · have hnone : s.lookup lease = none := by simpa [Redis.Live] using hl
    by_cases ht : ExpireOk s.now ttl
    · cases hc : s.count fence (some 1) with
      | ok n => exact Or.inr (Or.inl ⟨hnone, n, rfl, acquireLua_free hne hnone ht hc⟩)
      | error e => exact Or.inr (Or.inr ⟨hnone, e, rfl, acquireLua_stuck hne hnone ht hc⟩)
    · rw [acquireLua_refused hnone ht]
      exact Or.inl ⟨rfl, fun n => by simp⟩

/-- The replies of a compare-and-act script that did not act. -/
def quiet : Set (Except ScriptError ℕ) := {r | ∀ n, r = .ok n → n = 0}

/-- A compare-and-act script does nothing to a key that is not the
holder's. -/
theorem casLua_not_held {x : Script ℕ} (h : ¬ s.HeldBy lease holder) :
    ((do
        let held ← Redis.get lease
        if held = some (holderBytes holder) then x else pure 0 : Script ℕ) s).2 = s
      ∧ ((do
        let held ← Redis.get lease
        if held = some (holderBytes holder) then x else pure 0 : Script ℕ) s).1 ∈ quiet := by
  have hzero : (pure 0 : Script ℕ) s = (.ok 0, s) := rfl
  cases hl : s.lookup lease with
  | none =>
    rw [bind_ok (Redis.get_absent hl), if_neg (by simp), hzero]
    exact ⟨rfl, by simp [quiet]⟩
  | some o =>
    obtain ⟨v, e⟩ := o
    cases v with
    | zset z =>
      rw [bind_error (Redis.get_zset hl)]
      exact ⟨rfl, by simp [quiet]⟩
    | str b =>
      have hb : some b ≠ some (holderBytes holder) := by
        intro hb
        exact h ⟨e, by rw [hl, Option.some.inj hb]⟩
      rw [bind_ok (Redis.get_str hl), if_neg hb, hzero]
      exact ⟨rfl, by simp [quiet]⟩

/-- A compare-and-act script acts on a key that is the holder's. -/
theorem casLua_held {x : Script ℕ} (h : s.HeldBy lease holder) :
    (do
      let held ← Redis.get lease
      if held = some (holderBytes holder) then x else pure 0 : Script ℕ) s = x s := by
  obtain ⟨e, hl⟩ := h
  rw [bind_ok (Redis.get_str hl), if_pos rfl]

/-- A renewal of the holder's key. -/
theorem renewLua_held (h : s.HeldBy lease holder) (hok : ExpireOk s.now ttl) :
    renewLua lease holder ttl s = (.ok 1, s.put lease (leaseObj s holder ttl)) := by
  obtain ⟨e, hl⟩ := h
  exact (casLua_held ⟨e, hl⟩).trans (Redis.pexpire_run hl hok)

/-- A renewal past the end of the server's clock. -/
theorem renewLua_refused (h : s.HeldBy lease holder) (hpos : 0 < ttl)
    (hbad : ¬ ExpireOk s.now ttl) :
    renewLua lease holder ttl s = (.error (.command (expireError "pexpire" ttl)), s) :=
  (casLua_held h).trans (Redis.pexpire_refused hpos hbad)

/-- A release of the holder's key. -/
theorem releaseLua_held (h : s.HeldBy lease holder) :
    releaseLua lease holder s = (.ok 1, s.del lease) := by
  obtain ⟨e, hl⟩ := h
  refine (casLua_held ⟨e, hl⟩).trans ?_
  rw [Redis.delete, hl]
  rfl

/-- **How a renewal ends**: nothing changed and not renewed; or the key was
the holder's, and expires a lifetime from now. -/
theorem renewLua_cases (lease holder : String) {ttl : ℕ} (ht : 0 < ttl) (s : Redis) :
    ((renewLua lease holder ttl s).2 = s ∧ (renewLua lease holder ttl s).1 ∈ quiet)
      ∨ (s.HeldBy lease holder
        ∧ renewLua lease holder ttl s = (.ok 1, s.put lease (leaseObj s holder ttl))) := by
  by_cases h : s.HeldBy lease holder
  · by_cases hok : ExpireOk s.now ttl
    · exact Or.inr ⟨h, renewLua_held h hok⟩
    · rw [renewLua_refused h ht hok]
      exact Or.inl ⟨rfl, fun n hn => absurd hn (by simp)⟩
  · exact Or.inl (casLua_not_held h)

/-- **How a release ends**: nothing changed and not released; or the key was
the holder's, and is gone. -/
theorem releaseLua_cases (lease holder : String) (s : Redis) :
    ((releaseLua lease holder s).2 = s ∧ (releaseLua lease holder s).1 ∈ quiet)
      ∨ (s.HeldBy lease holder ∧ releaseLua lease holder s = (.ok 1, s.del lease)) := by
  by_cases h : s.HeldBy lease holder
  · exact Or.inr ⟨h, releaseLua_held h⟩
  · exact Or.inl (casLua_not_held h)

end Run
