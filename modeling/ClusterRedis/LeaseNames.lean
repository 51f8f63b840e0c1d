import Mathlib.Order.CompletePartialOrder
import ClusterRedis.Footprint
import ClusterRedis.LeaseExclusion

/-!
# Leases of different names

All leases of a deployment are keys of one server: a lease has its key and,
beside it, its counter, whose key is the lease key with `:fence` after it.
Names are arbitrary, so the counter of a lease `x` is also the key of the
lease of the same kind called `x:fence` (`LeaseId.shadow`).

Whether two leases can get in each other's way is decided by that one case.
Otherwise their four keys are different; scripts stay within the keys of
their own lease, so every run gives each of the two what it would give it
alone (`leases_independent_iff`).
-/

open Numerals LeaseWorld

/-! ## Keys -/

namespace LeaseId

variable {p : String} {l l' : LeaseId}

/-- **The lease whose key is this one's counter.** -/
def shadow (l : LeaseId) : LeaseId := ⟨l.kind, l.name ++ ":fence"⟩

theorem leaseKey_shadow (p : String) (l : LeaseId) : l.shadow.leaseKey p = l.fenceKey p := by
  simp only [leaseKey, fenceKey, shadow, String.append_assoc]

/-- A lease key tells its kind and its name. -/
theorem leaseKey_injective (p : String) : Function.Injective (leaseKey p) := by
  rintro ⟨k, n⟩ ⟨k', n'⟩ h
  have hl := congrArg String.toList h
  simp only [leaseKey, String.toList_append, List.append_assoc, List.append_cancel_left_eq] at hl
  cases k with
  | locks =>
    cases k' with
    | locks =>
      have hn : n.toList = n'.toList := by simpa [LeaseKind.text] using hl
      rw [String.ext hn]
    | leadership => exact absurd hl (by simp [LeaseKind.text])
  | leadership =>
    cases k' with
    | locks => exact absurd hl (by simp [LeaseKind.text])
    | leadership =>
      have hn : n.toList = n'.toList := by simpa [LeaseKind.text] using hl
      rw [String.ext hn]

theorem fenceKey_injective (p : String) : Function.Injective (fenceKey p) := by
  intro l l' h
  rw [← leaseKey_shadow, ← leaseKey_shadow] at h
  have hs := leaseKey_injective p h
  obtain ⟨k, n⟩ := l
  obtain ⟨k', n'⟩ := l'
  have hk : k = k' := congrArg LeaseId.kind hs
  have hn : n ++ ":fence" = n' ++ ":fence" := congrArg LeaseId.name hs
  have hn' := congrArg String.toList hn
  rw [String.toList_append, String.toList_append, List.append_cancel_right_eq] at hn'
  rw [hk, String.ext hn']

/-- The keys of a lease. -/
def keys (p : String) (l : LeaseId) : Set String := {l.leaseKey p, l.fenceKey p}

/-- **Leases share a key only where one is the other's shadow.** -/
theorem disjoint_keys (hne : l ≠ l') (h : l' ≠ l.shadow) (h' : l ≠ l'.shadow) :
    Disjoint (l.keys p) (l'.keys p) := by
  refine Set.disjoint_left.mpr ?_
  rintro k (rfl | rfl) (hk | hk)
  · exact hne (leaseKey_injective p hk)
  · rw [← leaseKey_shadow] at hk
    exact h' (leaseKey_injective p hk)
  · rw [← leaseKey_shadow] at hk
    exact h (leaseKey_injective p hk).symm
  · exact hne (fenceKey_injective p hk)

end LeaseId

/-! ## One lease's step -/

section Step

variable {lease fence : String} {w v : LeaseWorld}

theorem acquireLua_within (lease fence holder : String) (ttl : ℕ) :
    Script.Within {lease, fence} (acquireLua lease fence holder ttl) := by
  refine (Script.Within.get (by simp)).bind (fun held => ?_)
  match held with
  | none =>
    refine (Script.Within.set (by simp) _ _ _).bind (fun _ => ?_)
    refine Script.Within.bind ?_ (fun _ => Script.Within.pure _)
    exact (Script.Within.incrby (by simp) _).bind (fun _ => Script.Within.pure _)
  | some _ => exact Script.Within.pure _

theorem script_within (lease fence : String) (h : Handle) (kind : CallKind) :
    Script.Within {lease, fence} (script lease h kind) := by
  cases kind with
  | renew =>
    refine (Script.Within.get (by simp)).bind (fun held => ?_)
    split
    · exact Script.Within.pexpire (by simp) _
    · exact Script.Within.pure _
  | release =>
    refine (Script.Within.get (by simp)).bind (fun held => ?_)
    split
    · exact Script.Within.delete (by simp)
    · exact Script.Within.pure _

theorem Redis.AgreeOn.tick {K : Set String} {s t : Redis} (h : s.AgreeOn K t) (d : ℕ) :
    (s.tick d).AgreeOn K (t.tick d) := by
  refine ⟨congrArg (· + d) h.now, fun k hk => ?_⟩
  rw [Redis.lookup_tick, Redis.lookup_tick, h.lookup k hk, h.now]

/-- **Two worlds look the same to a lease**: the same in hand, and servers
that agree on its keys. -/
structure LeaseWorld.Same (K : Set String) (w v : LeaseWorld) : Prop where
  books : w.toLeaseBooks = v.toLeaseBooks
  redis : w.redis.AgreeOn K v.redis

theorem runAcquire_redis (w : LeaseWorld) (k : ℕ) (a : Acquire) :
    (w.runAcquire lease fence k a).redis = (acquireLua lease fence a.node a.ttl w.redis).2 := by
  unfold runAcquire
  split
  · next hs => rw [hs]
  · next hs => rw [hs]

theorem same_runAcquire (h : w.Same {lease, fence} v) (k : ℕ) (a : Acquire) :
    (w.runAcquire lease fence k a).Same {lease, fence} (v.runAcquire lease fence k a) := by
  obtain ⟨b, s⟩ := w
  obtain ⟨b', t⟩ := v
  obtain rfl : b = b' := h.books
  obtain ⟨hr, hag⟩ := (acquireLua_within lease fence a.node a.ttl).locality s t h.redis
  have hnew : ∀ token, newHandle ⟨b, s⟩ a token = newHandle ⟨b, t⟩ a token := by
    intro token
    show Handle.mk _ _ _ _ _ s.now s.now _ = Handle.mk _ _ _ _ _ t.now t.now _
    rw [h.redis.now]
  unfold runAcquire
  dsimp only
  match hs : acquireLua lease fence a.node a.ttl s, ht : acquireLua lease fence a.node a.ttl t with
  | (.ok (some n), s'), (r, t') =>
    rw [hs, ht] at hr hag
    obtain rfl : Except.ok (some n) = r := hr
    exact ⟨by dsimp only; rw [hnew], hag⟩
  | (.ok none, s'), (r, t') =>
    rw [hs, ht] at hr hag
    obtain rfl : Except.ok none = r := hr
    exact ⟨rfl, hag⟩
  | (.error e, s'), (r, t') =>
    rw [hs, ht] at hr hag
    obtain rfl : Except.error e = r := hr
    exact ⟨rfl, hag⟩

theorem same_runCall (h : w.Same {lease, fence} v) (c : ℕ) (h₀ : Handle) (call : LeaseCall) :
    (w.runCall lease c h₀ call).Same {lease, fence} (v.runCall lease c h₀ call) := by
  obtain ⟨b, s⟩ := w
  obtain ⟨b', t⟩ := v
  obtain rfl : b = b' := h.books
  obtain ⟨hr, hag⟩ := (script_within lease fence h₀ call.kind).locality s t h.redis
  refine ⟨?_, hag⟩
  unfold runCall
  dsimp only
  rw [hr, h.redis.now]

theorem same_startCall {K : Set String} (h : w.Same K v) (i : ℕ) (kind : CallKind) :
    (w.startCall i kind).1 = (v.startCall i kind).1
      ∧ (w.startCall i kind).2.Same K (v.startCall i kind).2 := by
  obtain ⟨b, s⟩ := w
  obtain ⟨b', t⟩ := v
  obtain rfl : b = b' := h.books
  unfold startCall
  dsimp only
  match b.handles[i]? with
  | none => exact ⟨rfl, h⟩
  | some h₀ =>
    dsimp only
    split
    · exact ⟨rfl, h⟩
    · cases kind with
      | renew => exact ⟨rfl, rfl, h.redis⟩
      | release => exact ⟨rfl, rfl, h.redis⟩

/-- **A step of a lease sees its own keys only.** -/
theorem step_same (h : w.Same {lease, fence} v) (e : LeaseEvent) :
    ((leaseSystem lease fence).step w e).1 = ((leaseSystem lease fence).step v e).1
      ∧ ((leaseSystem lease fence).step w e).2.Same {lease, fence}
        ((leaseSystem lease fence).step v e).2 := by
  obtain ⟨b, s⟩ := w
  obtain ⟨b', t⟩ := v
  obtain rfl : b = b' := h.books
  have hag := h.redis
  cases e with
  | tick d => exact ⟨rfl, rfl, hag.tick d⟩
  | acquire node ttl => exact ⟨rfl, rfl, hag⟩
  | acquireRun k =>
    simp only [leaseSystem]
    cases b.acquires[k]? with
    | none => exact ⟨rfl, h⟩
    | some a =>
      dsimp only
      split
      · exact ⟨rfl, same_runAcquire h k a⟩
      · exact ⟨rfl, h⟩
  | acquireReturn k lost =>
    simp only [leaseSystem]
    cases b.acquires[k]? with
    | none => exact ⟨rfl, h⟩
    | some a =>
      refine ⟨rfl, ?_⟩
      unfold returnAcquire
      dsimp only
      split
      · split
        · exact ⟨rfl, hag⟩
        · exact ⟨rfl, hag⟩
      · exact ⟨rfl, hag⟩
  | renew i => exact same_startCall h i .renew
  | release i => exact same_startCall h i .release
  | callRun c =>
    simp only [leaseSystem]
    cases b.calls[c]? with
    | none => exact ⟨rfl, h⟩
    | some call =>
      dsimp only
      cases b.handles[call.handle]? with
      | none => exact ⟨rfl, h⟩
      | some h₀ =>
        dsimp only
        split
        · exact ⟨rfl, same_runCall h c h₀ call⟩
        · exact ⟨rfl, h⟩
  | callReturn c =>
    simp only [leaseSystem]
    cases b.calls[c]? with
    | none => exact ⟨rfl, h⟩
    | some call =>
      dsimp only
      unfold returnCall
      dsimp only
      split
      · exact ⟨rfl, rfl, hag⟩
      · split
        · exact ⟨rfl, rfl, hag⟩
        · exact ⟨rfl, rfl, hag⟩
      · exact ⟨rfl, rfl, hag⟩
  | callAbort c => exact ⟨rfl, rfl, hag⟩

/-- The clock moves. -/
def LeaseEvent.isTick : LeaseEvent → Bool
  | .tick _ => true
  | _ => false

/-- **A step of a lease changes its own keys only.** -/
theorem change_frame {e : LeaseEvent} (hc : Change lease fence w e v) (he : e.isTick = false) :
    v.redis.now = w.redis.now
      ∧ ∀ k ∉ ({lease, fence} : Set String), v.redis.lookup k = w.redis.lookup k := by
  have hkey : ∀ k ∉ ({lease, fence} : Set String), k ≠ lease ∧ k ≠ fence :=
    fun k hk => ⟨fun h => hk (Or.inl h), fun h => hk (Or.inr h)⟩
  cases hc with
  | books hb =>
    rw [hb.redis]
    exact ⟨rfl, fun _ _ => rfl⟩
  | tick d => exact absurd he (by simp [LeaseEvent.isTick])
  | start node ttl => exact ⟨rfl, fun _ _ => rfl⟩
  | acquired hk hwait hfree hn =>
    refine ⟨rfl, fun k hk => ?_⟩
    rw [Redis.lookup_put_of_ne _ (hkey k hk).2, Redis.lookup_put_of_ne _ (hkey k hk).1]
  | stuck hk hwait hfree he => exact ⟨rfl, fun k hk => Redis.lookup_put_of_ne _ (hkey k hk).1⟩
  | renewed hc hh held => exact ⟨rfl, fun k hk => Redis.lookup_put_of_ne _ (hkey k hk).1⟩
  | deleted hc hh held => exact ⟨rfl, fun k hk => Redis.lookup_del_of_ne _ (hkey k hk).1⟩

end Step

/-! ## All leases -/

/-- **The server, and what the nodes have in hand of every lease.** -/
structure Leases where
  redis : Redis
  books : LeaseId → LeaseBooks

namespace Leases

/-- Nobody has asked for any lease yet. -/
def start (s : Redis) : Leases := ⟨s, fun _ => LeaseBooks.none⟩

/-- One lease of them. -/
def world (W : Leases) (l : LeaseId) : LeaseWorld := ⟨W.books l, W.redis⟩

/-- One lease of them has moved. -/
def moved (W : Leases) (l : LeaseId) (w : LeaseWorld) : Leases :=
  ⟨w.redis, Function.update W.books l w.toLeaseBooks⟩

end Leases

/-- **All leases on one server.** Time passes for all of them, whichever
lease the step is noted with. -/
def leasesSystem (p : String) : System Leases (LeaseId × LeaseEvent) (Option LeaseReply) where
  step W x :=
    let r := (x.1.system p).step (W.world x.1) x.2
    (r.1, W.moved x.1 r.2)

/-- The steps a lease takes part in: its own, and time. -/
def LeaseId.concerns (l : LeaseId) (x : LeaseId × LeaseEvent) : Bool :=
  x.2.isTick || decide (x.1 = l)

/-- **A lease is independent of another**: what the second's steps do to the
first's keys, what the first gets in any run of the two, and what follows for
its tokens and its failed acquisitions in a run from an empty server. -/
structure LeaseId.Independent (p : String) (l l' : LeaseId) : Prop where
  /-- No step of the other changes a key of this one. -/
  untouched : ∀ (W : Leases) (e : LeaseEvent), e.isTick = false → ∀ k ∈ l.keys p,
    ((leasesSystem p).step W (l', e)).2.redis.lookup k = W.redis.lookup k
  /-- **Results, handles and tokens are those of the run with the other's
  steps removed.** -/
  alone : ∀ (W : Leases) (es : List (LeaseId × LeaseEvent)),
    (∀ x ∈ es, x.1 = l ∨ x.1 = l') →
      ((leasesSystem p).trace W es).filter (fun x => l.concerns x.1)
          = (leasesSystem p).trace W (es.filter l.concerns)
        ∧ ((leasesSystem p).final W es).books l
          = ((leasesSystem p).final W (es.filter l.concerns)).books l
  /-- Tokens increase, as long as they are exact. -/
  tokens : ∀ (t : ℕ) (es : List (LeaseId × LeaseEvent)), (∀ x ∈ es, x.1 = l ∨ x.1 = l') →
    ((((leasesSystem p).final (Leases.start (Redis.empty t)) es).books l).handles.map
      Handle.token).Pairwise (fun a b => a < Double.exact → a < b)
  /-- An acquisition whose script fails leaves no lease key behind, as long
  as the counter can count. -/
  absent : ∀ (t : ℕ) (es : List (LeaseId × LeaseEvent)), (∀ x ∈ es, x.1 = l ∨ x.1 = l') →
    ∀ (node : String) (ttl : ℕ) (e : ScriptError) (s : Redis),
      ((leasesSystem p).final (Leases.start (Redis.empty t)) es).redis.counter (l.fenceKey p)
        ≠ .ok (2 ^ 63 - 1) →
      acquireLua (l.leaseKey p) (l.fenceKey p) node ttl
        ((leasesSystem p).final (Leases.start (Redis.empty t)) es).redis = (.error e, s) →
      s.lookup (l.leaseKey p) = none

namespace LeaseId

variable {p : String} {l l' : LeaseId} {W V : Leases}

/-- Two states look the same to a lease. -/
def SameFor (p : String) (l : LeaseId) (W V : Leases) : Prop :=
  (W.world l).Same (l.keys p) (V.world l)

theorem sameFor_moved {w v : LeaseWorld} (h : w.Same (l.keys p) v) :
    l.SameFor p (W.moved l w) (V.moved l v) :=
  ⟨by simp [Leases.moved, Leases.world, h.books], h.redis⟩

/-- A step of the lease itself, or of time. -/
theorem sameFor_step (h : l.SameFor p W V) {x : LeaseId × LeaseEvent} (hx : l.concerns x = true) :
    ((leasesSystem p).step W x).1 = ((leasesSystem p).step V x).1
      ∧ l.SameFor p ((leasesSystem p).step W x).2 ((leasesSystem p).step V x).2 := by
  obtain ⟨m, e⟩ := x
  by_cases hm : m = l
  · subst hm
    obtain ⟨hr, hs⟩ := step_same h e
    exact ⟨hr, sameFor_moved hs⟩
  · -- another lease's event that concerns this one is a tick
    cases e with
    | tick d =>
      have hbooks : ∀ W : Leases, Function.update W.books m (W.books m) l = W.books l := by
        intro W
        rw [Function.update_eq_self]
      refine ⟨rfl, ?_, h.redis.tick d⟩
      exact (hbooks W).trans (h.books.trans (hbooks V).symm)
    | _ => exact absurd hx (by simp [concerns, LeaseEvent.isTick, hm])

/-- A step of a lease with other keys. -/
theorem sameFor_other (hd : Disjoint (l.keys p) (l'.keys p)) (hne : l ≠ l')
    (h : l.SameFor p W V) {e : LeaseEvent} (he : e.isTick = false) :
    l.SameFor p ((leasesSystem p).step W (l', e)).2 V := by
  obtain ⟨hnow, hlook⟩ := change_frame (step_change (l'.leaseKey_ne_fenceKey p) (W.world l') e) he
  refine ⟨?_, hnow.trans h.redis.now, fun k hk => ?_⟩
  · exact (Function.update_of_ne hne _ _).trans h.books
  · exact (hlook k (Set.disjoint_left.mp hd hk)).trans (h.redis.lookup k hk)

end LeaseId

/-! ## A lease on its own keys -/

/-- **What a lease's keys hold** when nothing but its own scripts has written
them. -/
structure OwnKeys (lease fence : String) (w : LeaseWorld) : Prop where
  tokens : TokenInv fence w
  counter : ∃ c, w.redis.counter fence = .ok c
  lease : ∀ o, w.redis.lookup lease = some o → ∃ b, o.value = .str b

namespace OwnKeys

variable {lease fence : String} {w w' : LeaseWorld}

theorem start (lease fence : String) (t : ℕ) :
    OwnKeys lease fence (LeaseWorld.start (Redis.empty t)) where
  tokens := by
    refine TokenInv.start (fun o ho => absurd ho (by simp [Redis.empty, Redis.lookup])) ?_
    intro c hc
    rw [← Except.ok.inj (show Except.ok 0 = Except.ok c from hc)]
  counter := ⟨0, rfl⟩
  lease := fun o ho => absurd ho (by simp [LeaseWorld.start, Redis.empty, Redis.lookup])

/-- Keys and tokens as they were. -/
theorem congr (h : OwnKeys lease fence w) (hb : w'.toLeaseBooks = w.toLeaseBooks)
    (hl : ∀ k ∈ ({lease, fence} : Set String), w'.redis.lookup k = w.redis.lookup k) :
    OwnKeys lease fence w' where
  tokens := h.tokens.congr (hl fence (by simp)) (congrArg (fun b => b.handles.map Handle.token) hb)
  counter := by
    rw [Redis.counter_congr (hl fence (by simp))]
    exact h.counter
  lease := by
    rw [hl lease (by simp)]
    exact h.lease

theorem change (hne : lease ≠ fence) (h : OwnKeys lease fence w) {e : LeaseEvent}
    (hc : Change lease fence w e w') : OwnKeys lease fence w' := by
  have htok := h.tokens.change hne hc
  have hset : ∀ (s : Redis) (node : String) (ttl : ℕ),
      s.lookup lease = some (leaseObj w.redis node ttl) →
      ∀ o, s.lookup lease = some o → ∃ b, o.value = .str b := by
    intro s node ttl hs o ho
    exact ⟨_, congrArg Obj.value (Option.some.inj (ho.symm.trans hs))⟩
  have hput : ∀ (node : String) (ttl : ℕ),
      (w.redis.put lease (leaseObj w.redis node ttl)).lookup lease
        = some (leaseObj w.redis node ttl) :=
    fun node ttl => Redis.lookup_put_self _ (liveAt_leaseObj _ _ _)
  cases hc with
  | books hb => exact ⟨htok, by rw [hb.redis]; exact h.counter, by rw [hb.redis]; exact h.lease⟩
  | tick d =>
    refine ⟨htok, ?_, fun o ho => h.lease o (Redis.lookup_of_tick ho)⟩
    rw [Redis.counter_congr (h.tokens.lookup_tick d)]
    exact h.counter
  | start node ttl => exact ⟨htok, h.counter, h.lease⟩
  | @acquired k a n hk hwait hfree hn =>
    obtain ⟨-, c, -, hi, rfl⟩ := Redis.count_eq_ok_iff.mp hn
    refine ⟨htok, ⟨c + 1, Redis.counter_counted hi (Redis.lookup_put_self _
      (Redis.liveAt_counted fence _))⟩, hset _ a.node a.ttl ?_⟩
    rw [Redis.lookup_put_of_ne _ hne, hput]
  | @stuck k a e' hk hwait hfree he =>
    refine ⟨htok, ?_, hset _ a.node a.ttl (hput _ _)⟩
    rw [Redis.counter_congr (Redis.lookup_put_of_ne _ hne.symm)]
    exact h.counter
  | @renewed c call h₀ hcall hh held =>
    refine ⟨htok, ?_, hset _ h₀.node h₀.ttl (hput _ _)⟩
    rw [Redis.counter_congr (Redis.lookup_put_of_ne _ hne.symm)]
    exact h.counter
  | @deleted c call h₀ hcall hh held =>
    refine ⟨htok, ?_, fun o ho => absurd ho (by simp [Redis.lookup_del_self])⟩
    rw [Redis.counter_congr (Redis.lookup_del_of_ne _ hne.symm)]
    exact h.counter

/-- **A failed acquisition leaves no key**, as long as the counter can
count. -/
theorem absent (hne : lease ≠ fence) (h : OwnKeys lease fence w)
    (hmax : w.redis.counter fence ≠ .ok (2 ^ 63 - 1)) {node : String} {ttl : ℕ}
    {e : ScriptError} {s : Redis}
    (hrun : acquireLua lease fence node ttl w.redis = (.error e, s)) : s.lookup lease = none := by
  cases hl : w.redis.lookup lease with
  | some o =>
    obtain ⟨v, d⟩ := o
    obtain ⟨b, rfl⟩ := h.lease _ hl
    rw [acquireLua, Script.bind_ok (Redis.get_str hl)] at hrun
    cases hrun
  | none =>
    obtain ⟨c, hc⟩ := h.counter
    by_cases ht : ExpireOk w.redis.now ttl
    · have hcount : w.redis.count fence (some 1) = .ok (c + 1) := by
        have hi := Redis.inI64_of_counter hc
        have hlt : c ≠ 2 ^ 63 - 1 := fun he => hmax (he ▸ hc)
        refine Redis.count_eq_ok_iff.mpr ⟨by decide, c, hc, ?_, rfl⟩
        have h1 := hi.1
        have h2 := hi.2
        constructor <;> omega
      rw [acquireLua_free hne hl ht hcount] at hrun
      cases hrun
    · rw [acquireLua_refused hl ht] at hrun
      obtain rfl : w.redis = s := congrArg Prod.snd hrun
      exact hl

end OwnKeys

/-! ## Independence -/

namespace LeaseId

variable {p : String} {l l' : LeaseId}

theorem ownKeys_step (hd : Disjoint (l.keys p) (l'.keys p)) (hne : l ≠ l') {W : Leases}
    (h : OwnKeys (l.leaseKey p) (l.fenceKey p) (W.world l)) {x : LeaseId × LeaseEvent}
    (hx : x.1 = l ∨ x.1 = l') :
    OwnKeys (l.leaseKey p) (l.fenceKey p) (((leasesSystem p).step W x).2.world l) := by
  obtain ⟨m, e⟩ := x
  have hself := l.leaseKey_ne_fenceKey p
  rcases hx with rfl | rfl
  · have hstep := h.change hself (step_change hself (W.world m) e)
    refine hstep.congr ?_ (fun _ _ => rfl)
    simp [leasesSystem, Leases.moved, Leases.world, LeaseId.system]
  · have hbooks : (((leasesSystem p).step W (m, e)).2.world l).toLeaseBooks = W.books l :=
      Function.update_of_ne hne _ _
    by_cases he : e.isTick = true
    · cases e with
      | tick d => exact (h.change hself (.tick d)).congr hbooks (fun _ _ => rfl)
      | _ => exact absurd he (by simp [LeaseEvent.isTick])
    · have hframe := change_frame (step_change (m.leaseKey_ne_fenceKey p) (W.world m) e)
        (by simpa using he)
      exact h.congr hbooks (fun k hk => hframe.2 k (Set.disjoint_left.mp hd hk))

/-- **Leases with no key in common are independent.** -/
theorem Independent.of_disjoint (hne : l ≠ l') (hd : Disjoint (l.keys p) (l'.keys p)) :
    l.Independent p l' := by
  have hown : ∀ (t : ℕ) (es : List (LeaseId × LeaseEvent)), (∀ x ∈ es, x.1 = l ∨ x.1 = l') →
      OwnKeys (l.leaseKey p) (l.fenceKey p)
        (((leasesSystem p).final (Leases.start (Redis.empty t)) es).world l) := by
    intro t es hes
    exact (leasesSystem p).inv_final
      (I := fun W => OwnKeys (l.leaseKey p) (l.fenceKey p) (W.world l))
      (fun W x h hx => ownKeys_step hd hne h hx) (OwnKeys.start _ _ t)
      ((leasesSystem p).along_of_mem hes)
  refine ⟨?_, ?_, ?_, ?_⟩
  · intro W e he k hk
    exact (change_frame (step_change (l'.leaseKey_ne_fenceKey p) (W.world l') e) he).2 k
      (Set.disjoint_left.mp hd hk)
  · intro W es hes
    obtain ⟨htrace, hsame⟩ := (leasesSystem p).trace_filter (R := l.SameFor p)
      (P := fun x => x.1 = l ∨ x.1 = l') l.concerns
      (fun W V x _ h hx => sameFor_step h hx)
      (fun W V x hP h hx => by
        obtain ⟨m, e⟩ := x
        simp only [concerns, Bool.or_eq_false_iff, decide_eq_false_iff_not] at hx
        obtain rfl : m = l' := hP.resolve_left hx.2
        exact sameFor_other hd hne h hx.1)
      (s := W) (t := W) ⟨rfl, rfl, fun _ _ => rfl⟩ hes
    exact ⟨htrace, hsame.books⟩
  · exact fun t es hes => (hown t es hes).tokens.increasing_exact
  · intro t es hes node ttl e s hmax hrun
    exact (hown t es hes).absent (l.leaseKey_ne_fenceKey p) hmax hrun

/-- **A lease is not independent of its shadow**: an acquisition of the
shadow writes the counter. -/
theorem not_independent_shadow (p : String) (l : LeaseId) : ¬ l.Independent p l.shadow := by
  intro h
  -- the shadow's script is about to run on an empty server
  let w : LeaseWorld := ⟨⟨[], [⟨"n", 1, Nat.one_pos, none⟩], []⟩, Redis.empty 0⟩
  have hkept := h.untouched ⟨Redis.empty 0, fun _ => w.toLeaseBooks⟩ (.acquireRun 0) rfl
    (l.fenceKey p) (Or.inr rfl)
  have hrun : acquireLua (l.shadow.leaseKey p) (l.shadow.fenceKey p) "n" 1 (Redis.empty 0) = _ :=
    acquireLua_free (l.shadow.leaseKey_ne_fenceKey p) rfl (by decide) (n := 1) rfl
  have hstep : (w.runAcquire (l.shadow.leaseKey p) (l.shadow.fenceKey p) 0
      ⟨"n", 1, Nat.one_pos, none⟩).redis.lookup (l.fenceKey p) = none := hkept
  rw [runAcquire_redis, show w.redis = Redis.empty 0 from rfl, hrun, ← leaseKey_shadow p l,
    Redis.lookup_put_of_ne _ (l.shadow.leaseKey_ne_fenceKey p),
    Redis.lookup_put_self _ (liveAt_leaseObj _ _ _)] at hstep
  exact nomatch hstep

/-- **Two leases are independent exactly when neither is the other's
shadow**, that is, called as the other with `:fence` after it. -/
theorem leases_independent_iff (p : String) {l l' : LeaseId} (hne : l ≠ l') :
    (l.Independent p l' ∧ l'.Independent p l) ↔ (l' ≠ l.shadow ∧ l ≠ l'.shadow) := by
  constructor
  · rintro ⟨h, h'⟩
    refine ⟨?_, ?_⟩
    · rintro rfl
      exact not_independent_shadow p l h
    · rintro rfl
      exact not_independent_shadow p l' h'
  · rintro ⟨h, h'⟩
    have hd := disjoint_keys (p := p) hne h h'
    exact ⟨Independent.of_disjoint hne hd, Independent.of_disjoint hne.symm hd.symm⟩

theorem leases_independent_alpha_beta :
    (⟨.locks, "alpha"⟩ : LeaseId).Independent "mcpg:" ⟨.locks, "beta"⟩
      ∧ (⟨.locks, "beta"⟩ : LeaseId).Independent "mcpg:" ⟨.locks, "alpha"⟩ :=
  (leases_independent_iff "mcpg:" (l := ⟨.locks, "alpha"⟩) (by decide)).mpr ⟨by decide, by decide⟩

end LeaseId

/-- A lock and the lock that is called as its counter. -/
def lockX : LeaseId := ⟨.locks, "x"⟩

/-- A node called `1` takes the lock `x:fence`, another takes `x` twice, the
second time when `x:fence` has lapsed. -/
def shadowedRun : List (LeaseId × LeaseEvent) :=
  [(lockX.shadow, .acquire "1" tenMs), (lockX.shadow, .acquireRun 0), (lockX, .acquire "b" tenMs),
    (lockX, .acquireRun 0), (lockX, .acquireReturn 0 false), (lockX, .release 0),
    (lockX, .callRun 0), (lockX, .callReturn 0), (lockX, .tick 11), (lockX, .acquire "b" tenMs),
    (lockX, .acquireRun 0)]

/-- A node takes the lock `x:fence`; then another's acquisition of `x`
runs. -/
def stuckRun : List (LeaseId × LeaseEvent) :=
  [(lockX.shadow, .acquire "a" tenMs), (lockX.shadow, .acquireRun 0), (lockX, .acquire "b" tenMs)]

/-- **The lock `x:fence` is the counter of the lock `x`**: its lapse takes the
tokens of `x` back from 2 to 1, while alone they are 1 and 2; and while it is
held an acquisition of `x` fails and leaves the key of `x` set. -/
theorem shadow_interferes :
    ((((leasesSystem "mcpg:").final (Leases.start (Redis.empty 0)) shadowedRun).books
        lockX).handles.map Handle.token = [2, 1]
      ∧ (((leasesSystem "mcpg:").final (Leases.start (Redis.empty 0))
        (shadowedRun.filter lockX.concerns)).books lockX).handles.map Handle.token = [1, 2])
      ∧ (acquireLua (lockX.leaseKey "mcpg:") (lockX.fenceKey "mcpg:") "b" 10
          ((leasesSystem "mcpg:").final (Leases.start (Redis.empty 0)) stuckRun).redis).1
        = .error (.command .notAnInteger)
      ∧ (((leasesSystem "mcpg:").final (Leases.start (Redis.empty 0))
          (stuckRun ++ [(lockX, .acquireRun 0)])).redis.lookup (lockX.leaseKey "mcpg:")).isSome
        = true := by
  refine ⟨⟨by decide, by decide⟩, rfl, by decide⟩
