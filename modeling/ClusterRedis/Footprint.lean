import Mathlib.Data.Set.Basic
import ClusterRedis.Commands

/-!
# What a script reads and writes

A script stays *within* a set of keys when it leaves every other key as it
was, and replies and leaves the keys of the set according to those keys
alone. Both halves are kept by sequencing, so the footprint of a script is
read off its commands, and of a command off the one key it names
(`Script.Within.of_onKey`).

Two scripts whose footprints do not meet can be told apart by no run: that
is how leases of different names are shown not to interfere.
-/

variable {α β : Type} {K : Set String}

/-- **Two states agree on keys**, and on the time. -/
structure Redis.AgreeOn (K : Set String) (s t : Redis) : Prop where
  now : s.now = t.now
  lookup : ∀ k ∈ K, s.lookup k = t.lookup k

/-- **A script stays within keys.** -/
structure Script.Within (K : Set String) (x : Script α) : Prop where
  now : ∀ s, (x s).2.now = s.now
  frame : ∀ s, ∀ k ∉ K, (x s).2.lookup k = s.lookup k
  locality : ∀ s t, s.AgreeOn K t → (x s).1 = (x t).1 ∧ (x s).2.AgreeOn K (x t).2

/-- What a command makes of its key: nothing, or it deletes or writes it. -/
def Redis.update (s : Redis) (k : String) : Option (Option Obj) → Redis
  | none => s
  | some none => s.del k
  | some (some o) => s.put k o

theorem Redis.lookup_update_of_ne (s : Redis) {k k' : String} (u : Option (Option Obj))
    (h : k' ≠ k) : (s.update k u).lookup k' = s.lookup k' := by
  rcases u with - | - | o
  · rfl
  · exact Redis.lookup_del_of_ne s h
  · exact Redis.lookup_put_of_ne s h

theorem Redis.AgreeOn.update {s t : Redis} (h : s.AgreeOn K t) (k : String)
    (u : Option (Option Obj)) : (s.update k u).AgreeOn K (t.update k u) := by
  have hput : ∀ (s : Redis) (o : Obj), (s.put k o).lookup k = (some o).filter (·.liveAt s.now) := by
    intro s o
    simp [Redis.put, Redis.lookup]
  cases u with
  | none => exact h
  | some v =>
    refine ⟨by cases v <;> exact h.now, fun k' hk' => ?_⟩
    cases v with
    | none =>
      show (s.del k).lookup k' = (t.del k).lookup k'
      by_cases hkk : k' = k
      · rw [hkk, Redis.lookup_del_self, Redis.lookup_del_self]
      · rw [Redis.lookup_del_of_ne _ hkk, Redis.lookup_del_of_ne _ hkk]
        exact h.lookup k' hk'
    | some o =>
      show (s.put k o).lookup k' = (t.put k o).lookup k'
      by_cases hkk : k' = k
      · rw [hkk, hput, hput, h.now]
      · rw [Redis.lookup_put_of_ne _ hkk, Redis.lookup_put_of_ne _ hkk]
        exact h.lookup k' hk'

namespace Script.Within

/-- **A command that reads and writes one key of the set stays within it**:
from the time and what the key holds it has a reply and an update of the
key. -/
theorem of_onKey {k : String} (hk : k ∈ K) {x : Script α}
    (h : ∀ s t : Redis, s.now = t.now → s.lookup k = t.lookup k →
      ∃ r u, x s = (r, s.update k u) ∧ x t = (r, t.update k u)) : Within K x where
  now := by
    intro s
    obtain ⟨r, u, hx, -⟩ := h s s rfl rfl
    rw [hx]
    match u with
    | none => rfl
    | some none => rfl
    | some (some o) => rfl
  frame := by
    intro s k' hk'
    have hkk : k' ≠ k := fun he => hk' (he ▸ hk)
    obtain ⟨r, u, hx, -⟩ := h s s rfl rfl
    rw [hx]
    match u with
    | none => rfl
    | some none => exact Redis.lookup_del_of_ne _ hkk
    | some (some o) => exact Redis.lookup_put_of_ne _ hkk
  locality := by
    intro s t hst
    obtain ⟨r, u, hs, ht⟩ := h s t hst.now (hst.lookup k hk)
    rw [hs, ht]
    exact ⟨rfl, hst.update k u⟩

theorem pure (a : α) : Within K (Pure.pure a : Script α) where
  now := fun _ => rfl
  frame := fun _ _ _ => rfl
  locality := fun _ _ h => ⟨rfl, h⟩

/-- **Sequencing stays within.** -/
theorem bind {x : Script α} {f : α → Script β} (hx : Within K x) (hf : ∀ a, Within K (f a)) :
    Within K (x >>= f) where
  now := by
    intro s
    rw [Script.bind_apply]
    have hnow := hx.now s
    match hxs : x s with
    | (.error e, t) => rwa [hxs] at hnow
    | (.ok a, t) =>
      rw [hxs] at hnow
      exact ((hf a).now t).trans hnow
  frame := by
    intro s k hk
    rw [Script.bind_apply]
    have hfr := hx.frame s k hk
    match hxs : x s with
    | (.error e, t) => rwa [hxs] at hfr
    | (.ok a, t) =>
      rw [hxs] at hfr
      exact ((hf a).frame t k hk).trans hfr
  locality := by
    intro s t hst
    obtain ⟨hr, hag⟩ := hx.locality s t hst
    rw [Script.bind_apply, Script.bind_apply]
    match hxs : x s, hxt : x t with
    | (.error e, s'), (.error e', t') =>
      rw [hxs, hxt] at hr hag
      exact ⟨congrArg Except.error (Except.error.inj hr), hag⟩
    | (.ok a, s'), (.ok a', t') =>
      rw [hxs, hxt] at hr hag
      obtain rfl := Except.ok.inj hr
      exact (hf a).locality s' t' hag
    | (.error e, s'), (.ok a', t') =>
      rw [hxs, hxt] at hr
      exact nomatch hr
    | (.ok a, s'), (.error e', t') =>
      rw [hxs, hxt] at hr
      exact nomatch hr

/-! ## Commands -/

theorem get {k : String} (hk : k ∈ K) : Within K (Redis.get k) := by
  refine of_onKey hk (fun s t _ hl => ?_)
  unfold Redis.get
  rw [hl]
  match t.lookup k with
  | none => exact ⟨_, none, rfl, rfl⟩
  | some ⟨.str b, _⟩ => exact ⟨_, none, rfl, rfl⟩
  | some ⟨.zset _, _⟩ => exact ⟨_, none, rfl, rfl⟩

theorem set {k : String} (hk : k ∈ K) (v : List UInt8) (px : Option ℕ) (nx : Bool) :
    Within K (Redis.set k v px nx) := by
  refine of_onKey hk (fun s t hn hl => ?_)
  unfold Redis.set
  rw [hl, hn]
  split
  · exact ⟨_, none, rfl, rfl⟩
  · split
    · exact ⟨_, none, rfl, rfl⟩
    · exact ⟨_, some (some _), rfl, rfl⟩

theorem delete {k : String} (hk : k ∈ K) : Within K (Redis.delete k) := by
  refine of_onKey hk (fun s t _ hl => ?_)
  unfold Redis.delete
  rw [hl]
  split
  · exact ⟨_, some none, rfl, rfl⟩
  · exact ⟨_, none, rfl, rfl⟩

theorem pexpire {k : String} (hk : k ∈ K) (ttl : ℕ) : Within K (Redis.pexpire k ttl) := by
  refine of_onKey hk (fun s t hn hl => ?_)
  unfold Redis.pexpire
  rw [hl, hn]
  split
  · exact ⟨_, none, rfl, rfl⟩
  · match t.lookup k with
    | none => exact ⟨_, none, rfl, rfl⟩
    | some o =>
      by_cases ht : ttl = 0
      · exact ⟨_, some none, if_pos ht, if_pos ht⟩
      · exact ⟨_, some (some _), if_neg ht, if_neg ht⟩

theorem incrby {k : String} (hk : k ∈ K) (delta : Option ℤ) : Within K (Redis.incrby k delta) := by
  refine of_onKey hk (fun s t _ hl => ?_)
  have hcount : s.count k delta = t.count k delta := by
    unfold Redis.count
    rw [Redis.counter_congr hl]
  unfold Redis.incrby Redis.counted
  rw [hcount, hl]
  match t.count k delta with
  | .error e => exact ⟨_, none, rfl, rfl⟩
  | .ok n => exact ⟨_, some (some _), rfl, rfl⟩

end Script.Within
