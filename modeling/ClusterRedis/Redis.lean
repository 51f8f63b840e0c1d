import Mathlib.Data.List.AList
import ClusterRedis.ByteOrder
import ClusterRedis.Numerals

/-!
# A Redis server

The server is a keyspace of typed values, each with an optional expiry, and
a clock in milliseconds. A key past its expiry is absent to every command
(`Redis.lookup`), whether or not the server has reclaimed it yet; in its
last millisecond it is still there and its remaining time reads `0`.

A script runs alone and with the clock frozen. What it is not is a
transaction: a command that raises an error ends the script and the commands
before it stay done. `Script` is a state and error monad with exactly that
order – the error is returned beside the state, not instead of it.

The store is read through two views. `lookup` gives the object at a key,
`score` the score of a member in a sorted set. Every state change a command
makes is one of four – `put`, `del`, `zins`, `zdel` – and each has its
lemma for each view, so a script's effect is read off the changes it makes.
-/

/-! ## The keyspace -/

/-- A sorted set: its members with their scores. -/
abbrev ZSet := AList (fun _ : String => ℤ)

/-- The value at a key. -/
inductive Value where
  | str (b : List UInt8)
  | zset (z : ZSet)

/-- **What a key holds**: a value, and when it expires (server time). -/
structure Obj where
  value : Value
  expireAt : Option ℕ

/-- **The server**: the keyspace and the clock. -/
structure Redis where
  db : String → Option Obj
  now : ℕ

/-- An object is there up to and including its expiry. -/
def Obj.liveAt (o : Obj) (t : ℕ) : Bool := o.expireAt.all (fun d => decide (t ≤ d))

namespace Redis

/-- The empty server at time `t`. -/
def empty (t : ℕ) : Redis := ⟨fun _ => none, t⟩

/-- **The object at a key**, absent once expired. -/
def lookup (s : Redis) (k : String) : Option Obj :=
  (s.db k).filter (fun o => o.liveAt s.now)

/-- The key is there. -/
def Live (s : Redis) (k : String) : Prop := (s.lookup k).isSome = true

instance (s : Redis) (k : String) : Decidable (s.Live k) :=
  inferInstanceAs (Decidable (_ = true))

/-- The sorted set at a key; an absent key is an empty one. -/
def zmembers (s : Redis) (z : String) : ZSet :=
  match s.lookup z with
  | some ⟨.zset m, _⟩ => m
  | _ => ∅

/-- **The score of a member** of the sorted set at a key. -/
def score (s : Redis) (z m : String) : Option ℤ := (s.zmembers z).lookup m

/-- The member is in the sorted set at the key. -/
def Mem (s : Redis) (z m : String) : Prop := (s.score z m).isSome = true

instance (s : Redis) (z m : String) : Decidable (s.Mem z m) :=
  inferInstanceAs (Decidable (_ = true))

/-- **The key is absent or a sorted set without expiry**: what the commands
on sorted sets need in order not to fail. -/
def ZKey (s : Redis) (z : String) : Prop :=
  ∀ o, s.lookup z = some o → ∃ m, o = ⟨.zset m, none⟩

/-! ## The four changes -/

/-- Store an object. -/
def put (s : Redis) (k : String) (o : Obj) : Redis :=
  { s with db := Function.update s.db k (some o) }

/-- Remove a key. -/
def del (s : Redis) (k : String) : Redis :=
  { s with db := Function.update s.db k none }

/-- Add a member to the sorted set at a key, or move its score. -/
def zins (s : Redis) (z m : String) (x : ℤ) : Redis :=
  s.put z ⟨.zset ((s.zmembers z).insert m x), (s.lookup z).bind Obj.expireAt⟩

/-- Remove a member from the sorted set at a key; the last member takes the
key with it. -/
def zdel (s : Redis) (z m : String) : Redis :=
  match s.lookup z with
  | some ⟨.zset ms, e⟩ =>
    if (ms.erase m).entries.isEmpty then s.del z else s.put z ⟨.zset (ms.erase m), e⟩
  | _ => s

/-- The clock moves on. -/
def tick (s : Redis) (d : ℕ) : Redis := { s with now := s.now + d }

variable (s : Redis) {k k' z z' m m' : String} {o : Obj} {x : ℤ}

@[simp] theorem put_now : (s.put k o).now = s.now := rfl

@[simp] theorem del_now : (s.del k).now = s.now := rfl

@[simp] theorem zins_now : (s.zins z m x).now = s.now := rfl

@[simp] theorem zdel_now : (s.zdel z m).now = s.now := by
  unfold zdel
  split
  · split <;> rfl
  · rfl

theorem lookup_put_self (h : o.liveAt s.now = true) : (s.put k o).lookup k = some o := by
  simp [lookup, put, h]

@[simp] theorem lookup_put_of_ne (h : k' ≠ k) : (s.put k o).lookup k' = s.lookup k' := by
  simp [lookup, put, Function.update_of_ne h]

@[simp] theorem lookup_del_self : (s.del k).lookup k = none := by
  simp [lookup, del]

@[simp] theorem lookup_del_of_ne (h : k' ≠ k) : (s.del k).lookup k' = s.lookup k' := by
  simp [lookup, del, Function.update_of_ne h]

@[simp] theorem lookup_zins_of_ne (h : k ≠ z) : (s.zins z m x).lookup k = s.lookup k :=
  lookup_put_of_ne s h

@[simp] theorem lookup_zdel_of_ne (h : k ≠ z) : (s.zdel z m).lookup k = s.lookup k := by
  unfold zdel
  split
  · split
    · exact lookup_del_of_ne s h
    · exact lookup_put_of_ne s h
  · rfl

/-- A lookup finds only what is there. -/
theorem liveAt_of_lookup {s : Redis} (h : s.lookup k = some o) : o.liveAt s.now = true :=
  (Option.filter_eq_some_iff.mp h).2

/-- The sorted set at a key is read off the object there. -/
theorem zmembers_congr {s t : Redis} (h : s.lookup z = t.lookup z) :
    s.zmembers z = t.zmembers z := by
  unfold zmembers
  rw [h]

theorem score_congr {s t : Redis} (h : s.lookup z = t.lookup z) :
    s.score z m = t.score z m := by
  unfold score
  rw [zmembers_congr h]

/-- A member with its score. -/
theorem mem_keys_iff {s : Redis} {z m : String} :
    m ∈ (s.zmembers z).keys ↔ ∃ x, s.score z m = some x := by
  rw [← AList.mem_keys, ← AList.lookup_isSome]
  exact Option.isSome_iff_exists

/-- The object a sorted set becomes when a member is added is there. -/
theorem liveAt_zins :
    Obj.liveAt ⟨.zset ((s.zmembers z).insert m x), (s.lookup z).bind Obj.expireAt⟩ s.now
      = true := by
  cases h : s.lookup z with
  | none => rfl
  | some o =>
    show o.liveAt s.now = true
    exact liveAt_of_lookup h

/-- **Adding a member** sets its score and no other. -/
theorem score_zins : (s.zins z m x).score z m' = if m' = m then some x else s.score z m' := by
  have h : (s.zins z m x).zmembers z = (s.zmembers z).insert m x := by
    rw [zmembers, zins, lookup_put_self s (liveAt_zins s)]
  rw [score, h]
  split
  · next he => rw [he, AList.lookup_insert]
  · next he => rw [AList.lookup_insert_ne he]; rfl

/-- An emptied sorted set has no entries. -/
theorem eq_empty_of_entries {l : ZSet} (h : l.entries.isEmpty = true) : l = ∅ :=
  AList.ext (List.isEmpty_iff.mp h)

/-- **Removing a member** takes its score and no other. -/
theorem score_zdel : (s.zdel z m).score z m' = if m' = m then none else s.score z m' := by
  have key : ∀ ms : ZSet, AList.lookup m' (ms.erase m)
      = if m' = m then none else AList.lookup m' ms := by
    intro ms
    split
    · next he => rw [he, AList.lookup_erase]
    · next he => rw [AList.lookup_erase_ne he]
  unfold zdel
  split
  · next ms e hl =>
    have hz : s.zmembers z = ms := by rw [zmembers, hl]
    split
    · next hem =>
      have : (s.del z).zmembers z = ∅ := by rw [zmembers, lookup_del_self]
      rw [score, this, score, hz, ← key ms, eq_empty_of_entries hem]
    · have : (s.put z ⟨.zset (ms.erase m), e⟩).zmembers z = ms.erase m := by
        rw [zmembers, lookup_put_self s (o := ⟨.zset (ms.erase m), e⟩)
          (liveAt_of_lookup hl : Obj.liveAt ⟨_, e⟩ _ = _)]
      rw [score, this, key ms, score, hz]
  · next hl =>
    have hz : s.score z m' = none := by
      unfold score zmembers
      split
      · next hl' => exact absurd hl' (hl _ _)
      · rfl
    rw [hz, ite_self]

/-- **A member added is there, with the members before it.** -/
theorem mem_zins : (s.zins z m x).Mem z m' ↔ m' = m ∨ s.Mem z m' := by
  unfold Mem
  rw [score_zins]
  split
  · next he => simp [he]
  · next he => simp [he]

/-- **A member removed is gone, and only it.** -/
theorem mem_zdel : (s.zdel z m).Mem z m' ↔ m' ≠ m ∧ s.Mem z m' := by
  unfold Mem
  rw [score_zdel]
  split
  · next he => simp [he]
  · next he => simp [he]

theorem live_congr {s t : Redis} (h : s.lookup k = t.lookup k) : s.Live k ↔ t.Live k := by
  unfold Live
  rw [h]

/-- The only key that has been stored is the only one that is there. -/
theorem eq_of_live_put {t : ℕ} {k k' : String} {o : Obj} (h : ((empty t).put k o).Live k') :
    k' = k := by
  by_contra hne
  rw [live_congr (lookup_put_of_ne _ hne)] at h
  exact Bool.false_ne_true h

theorem mem_congr {s t : Redis} (h : s.lookup z = t.lookup z) : s.Mem z m ↔ t.Mem z m := by
  unfold Mem
  rw [score_congr h]

theorem ZKey.congr {s t : Redis} (hs : s.ZKey z) (h : t.lookup z = s.lookup z) : t.ZKey z :=
  fun o ho => hs o (h ▸ ho)

/-- A sorted set without expiry keeps having none. -/
theorem ZKey.zins (h : s.ZKey z) : (s.zins z' m x).ZKey z := by
  by_cases hz : z = z'
  · subst hz
    intro o ho
    rw [Redis.zins, lookup_put_self s (liveAt_zins s)] at ho
    refine ⟨(s.zmembers z).insert m x, (Option.some.inj ho).symm.trans ?_⟩
    cases hl : s.lookup z with
    | none => rfl
    | some o' =>
      obtain ⟨ms, rfl⟩ := h o' hl
      rfl
  · exact h.congr (lookup_zins_of_ne s hz)

theorem ZKey.zdel (h : s.ZKey z) : (s.zdel z' m).ZKey z := by
  by_cases hz : z = z'
  · subst hz
    intro o ho
    unfold Redis.zdel at ho
    split at ho
    · next ms e hl =>
      obtain ⟨ms', he⟩ := h _ hl
      split at ho
      · rw [lookup_del_self] at ho
        exact absurd ho (by simp)
      · rw [lookup_put_self s (o := ⟨.zset (ms.erase m), e⟩)
          (liveAt_of_lookup hl : Obj.liveAt ⟨_, e⟩ _ = _)] at ho
        obtain rfl : e = none := congrArg Obj.expireAt he
        exact ⟨_, (Option.some.inj ho).symm⟩
    · exact h o ho
  · exact h.congr (lookup_zdel_of_ne s hz)

/-! ## Time -/

/-- What is there later was there before. -/
theorem liveAt_mono {t t' : ℕ} (h : t ≤ t') (ho : o.liveAt t' = true) : o.liveAt t = true := by
  obtain ⟨v, e⟩ := o
  cases e with
  | none => rfl
  | some x => exact decide_eq_true (h.trans (of_decide_eq_true ho))

/-- **Time only takes away**: what is past its expiry by then. -/
theorem lookup_tick (d : ℕ) :
    (s.tick d).lookup k = (s.lookup k).filter (fun o => o.liveAt (s.now + d)) := by
  unfold lookup tick
  rw [Option.filter_filter]
  congr 1
  funext o
  by_cases ho : o.liveAt (s.now + d) = true
  · simp [ho, liveAt_mono (Nat.le_add_right s.now d) ho]
  · simp [ho]

/-- Nothing appears as time passes. -/
theorem lookup_of_tick {s : Redis} {d : ℕ} (h : (s.tick d).lookup k = some o) :
    s.lookup k = some o := by
  rw [lookup_tick] at h
  exact (Option.filter_eq_some_iff.mp h).1

theorem live_of_tick {s : Redis} {d : ℕ} (h : (s.tick d).Live k) : s.Live k := by
  obtain ⟨o, ho⟩ := Option.isSome_iff_exists.mp h
  rw [Live, lookup_of_tick ho]
  rfl

/-- What has no expiry stays. -/
theorem lookup_tick_of_persistent {s : Redis} (h : s.lookup k = some o) (ho : o.expireAt = none)
    (d : ℕ) : (s.tick d).lookup k = some o := by
  rw [lookup_tick, h, Option.filter_some_pos]
  rw [Obj.liveAt, ho]
  rfl

/-- A sorted set without expiry is not touched by time. -/
theorem ZKey.lookup_tick {s : Redis} (h : s.ZKey z) (d : ℕ) :
    (s.tick d).lookup z = s.lookup z := by
  cases hl : s.lookup z with
  | none => rw [Redis.lookup_tick, hl, Option.filter_none]
  | some o =>
    obtain ⟨m, rfl⟩ := h o hl
    exact lookup_tick_of_persistent hl rfl d

end Redis
