import ClusterRedis.Conn
import ClusterRedis.Counters

/-!
# The sweep

A sweep reads the expiry index up to the time by its clock, a batch of keys
at a time, and settles each: a key that is gone is taken out of both
indexes, one that has no expiry out of the expiry index, and one that has is
entered again, by the time it has left. It reads on while its batches are
full.

What it has settled when it stops is all that was due (`sweep_settles_due`).
A batch is read from what the batches before left, and a key that is settled
is not due any more: it has no entry, or one that is past the clock. The
second is a sum of doubles, and a time that far off can be one that they do
not hold; the entry then is the nearest that they do.
-/

open Numerals RedisKv

/-- How many keys a sweep takes at a time. -/
def SWEEP_BATCH : ℕ := 1000

/-- `ZRANGEBYSCORE key -inf max LIMIT 0 count`. -/
def Redis.zrangebyscoreTo (z : String) (hi : ℤ) (count : ℕ) : Script (List String) :=
  onZSet z (fun s =>
    ((((s.zmembers z).keys.filter (fun m => decide ((s.score z m).getD 0 ≤ hi))).insertionSort
      (s.scoreLe z)).take count, s))

/-- **The loop of a sweep**, for as many iterations as there is fuel; none
when it runs out. -/
def sweepFrom (drv : Driver) (p : String) : (fuel gone : ℕ) → Client (Option ℕ)
  | 0, _ => pure none
  | fuel + 1, gone => do
    let now ← Client.readClock
    let due ← Client.exec (redisErr drv)
      (Redis.zrangebyscoreTo (expiryKey p) (Double.round now) SWEEP_BATCH)
    if due = [] then pure (some gone)
    else do
      let removed ← Client.exec (redisErr drv) (sweepLua (indexKey p) (expiryKey p) now due)
      if due.length < SWEEP_BATCH then pure (some (gone + removed))
      else sweepFrom drv p fuel (gone + removed)

/-- **`sweep`.** -/
def sweep (drv : Driver) (p : String) (fuel : ℕ) : Client (Option ℕ) := sweepFrom drv p fuel 0

/-! ## What is due, and what becomes of it -/

section Due

variable (p : String) (now : ℕ) (s : Redis)

/-- **The keys that are due** by a clock. -/
def dueKeys : List String :=
  (s.zmembers (expiryKey p)).keys.filter
    (fun k => decide ((s.score (expiryKey p) k).getD 0 ≤ Double.round now))

/-- `now + PTTL`, as a script adds them. -/
def movedScore (k : String) : ℤ := dueScore now (Double.round (s.pttlReply k)).toNat

/-- The score a key that was due is left. -/
def sweptScore (k : String) : Option ℤ :=
  match s.lookup k with
  | some ⟨_, some _⟩ => some (movedScore now s k)
  | _ => none

/-- **Some keys are settled**, and nothing else is changed. -/
structure Swept (done : List String) (t : Redis) : Prop where
  zkeys : t.ZKeys (indexKey p) (expiryKey p)
  time : t.now = s.now
  keys : ∀ k, k ≠ indexKey p → k ≠ expiryKey p → t.lookup k = s.lookup k
  expiry : ∀ k, t.score (expiryKey p) k
    = if k ∈ done then sweptScore now s k else s.score (expiryKey p) k
  index : ∀ k, t.score (indexKey p) k
    = if k ∈ done ∧ ¬ s.Live k then none else s.score (indexKey p) k

/-- **The expiry index does not list the indexes.** -/
structure Apart : Prop extends IndexTyped p s where
  index_out : ¬ s.Mem (expiryKey p) (indexKey p)
  expiry_out : ¬ s.Mem (expiryKey p) (expiryKey p)

/-- **Every live key that is due has time left**, as doubles add it. -/
def TimeLeft : Prop := ∀ k ∈ dueKeys p now s, ∀ x, sweptScore now s k = some x →
  Double.round now < x

end Due

section Swept

variable {p : String} {now : ℕ} {s t : Redis} {done : List String} {k : String}

theorem mem_dueKeys : k ∈ dueKeys p now s
    ↔ ∃ x, s.score (expiryKey p) k = some x ∧ x ≤ Double.round now := by
  rw [dueKeys, List.mem_filter, Redis.mem_keys_iff]
  constructor
  · rintro ⟨⟨x, hx⟩, hle⟩
    rw [hx] at hle
    exact ⟨x, hx, of_decide_eq_true hle⟩
  · rintro ⟨x, hx, hle⟩
    rw [hx]
    exact ⟨⟨x, rfl⟩, decide_eq_true hle⟩

theorem nodup_dueKeys (p : String) (now : ℕ) (s : Redis) : (dueKeys p now s).Nodup :=
  (s.zmembers (expiryKey p)).keys_nodup.filter _

theorem Apart.ne_of_due (h : Apart p s) (hk : k ∈ dueKeys p now s) :
    k ≠ indexKey p ∧ k ≠ expiryKey p := by
  obtain ⟨x, hx, -⟩ := mem_dueKeys.mp hk
  have hmem : s.Mem (expiryKey p) k := by
    rw [Redis.Mem, hx]
    rfl
  exact ⟨fun he => h.index_out (he ▸ hmem), fun he => h.expiry_out (he ▸ hmem)⟩

/-! ## One key -/

theorem sweepKey_now (idx exp : String) : (sweepKey idx exp now t k).now = t.now := by
  unfold sweepKey
  split
  · exact Redis.unindex_now t
  · exact Redis.zdel_now t
  · rfl

theorem lookup_sweepKey {idx exp m : String} (hi : m ≠ idx) (he : m ≠ exp) :
    (sweepKey idx exp now t k).lookup m = t.lookup m := by
  unfold sweepKey
  split
  · exact Redis.lookup_unindex_of_ne t hi he
  · exact Redis.lookup_zdel_of_ne t he
  · exact Redis.lookup_zins_of_ne t he

/-- What a key leaves in the expiry index. -/
theorem expiry_sweepKey {idx exp : String} (hie : idx ≠ exp) (m : String) :
    (sweepKey idx exp now t k).score exp m
      = if m = k then sweptScore now t k else t.score exp m := by
  unfold sweepKey sweptScore
  cases t.lookup k with
  | none =>
    show ((t.zdel idx k).zdel exp k).score exp m = _
    rw [Redis.score_zdel, Redis.score_congr (Redis.lookup_zdel_of_ne t hie.symm)]
  | some o =>
    obtain ⟨v, e⟩ := o
    cases e with
    | none => exact Redis.score_zdel t
    | some d => exact Redis.score_zins t

/-- What a key leaves in the key index. -/
theorem index_sweepKey {idx exp : String} (hie : idx ≠ exp) (m : String) :
    (sweepKey idx exp now t k).score idx m
      = if m = k ∧ ¬ t.Live k then none else t.score idx m := by
  cases hl : t.lookup k with
  | none =>
    have hgone : ¬ t.Live k := by
      rw [Redis.Live, hl]
      exact Bool.false_ne_true
    have hkey : sweepKey idx exp now t k = (t.zdel idx k).zdel exp k := by
      rw [sweepKey, hl]
      rfl
    rw [hkey, Redis.score_congr (Redis.lookup_zdel_of_ne _ hie), Redis.score_zdel]
    exact if_congr (and_iff_left hgone).symm rfl rfl
  | some o =>
    have hlive : t.Live k := by
      rw [Redis.Live, hl]
      rfl
    have hsame : (sweepKey idx exp now t k).lookup idx = t.lookup idx := by
      obtain ⟨v, e⟩ := o
      rw [sweepKey, hl]
      cases e with
      | none => exact Redis.lookup_zdel_of_ne t hie
      | some d => exact Redis.lookup_zins_of_ne t hie
    rw [if_neg (fun h => h.2 hlive)]
    exact Redis.score_congr hsame

/-- **A key that is gone is not listed** once it has been swept. -/
theorem not_mem_index_sweepKeys {idx exp m : String} (hie : idx ≠ exp) (hi : m ≠ idx)
    (he : m ≠ exp) {ks : List String} {t : Redis} (hgone : ¬ t.Live m)
    (hin : m ∈ ks ∨ ¬ t.Mem idx m) : ¬ (ks.foldl (sweepKey idx exp now) t).Mem idx m := by
  induction ks generalizing t with
  | nil => exact hin.resolve_left List.not_mem_nil
  | cons k ks ih =>
    rw [List.foldl_cons]
    refine ih (fun hl => hgone ((Redis.live_congr (lookup_sweepKey hi he)).mp hl)) ?_
    rw [Redis.Mem, index_sweepKey hie]
    by_cases hm : m = k
    · subst hm
      rw [if_pos ⟨rfl, hgone⟩]
      exact Or.inr Bool.false_ne_true
    · rw [if_neg (fun h => hm h.1)]
      exact hin.imp_left (fun h => (List.mem_cons.mp h).resolve_left hm)

/-- What a key is left, by the keyspace it is looked up in. -/
theorem sweptScore_congr (hl : t.lookup k = s.lookup k) (hnow : t.now = s.now) :
    sweptScore now t k = sweptScore now s k := by
  have hpttl : t.pttlReply k = s.pttlReply k := by
    rw [Redis.pttlReply, Redis.pttlReply, hl, hnow]
  rw [sweptScore, sweptScore, movedScore, movedScore, hl, hpttl]

namespace Swept

theorem refl (h : s.ZKeys (indexKey p) (expiryKey p)) : Swept p now s [] s where
  zkeys := h
  time := rfl
  keys := fun _ _ _ => rfl
  expiry := fun _ => (if_neg List.not_mem_nil).symm
  index := fun _ => (if_neg (fun h => List.not_mem_nil h.1)).symm

/-- **One key more.** -/
theorem snoc (h : Swept p now s done t) (hi : k ≠ indexKey p) (he : k ≠ expiryKey p) :
    Swept p now s (done ++ [k]) (sweepKey (indexKey p) (expiryKey p) now t k) where
  zkeys := h.zkeys.sweep now k
  time := (sweepKey_now _ _).trans h.time
  keys := fun m hmi hme => (lookup_sweepKey hmi hme).trans (h.keys m hmi hme)
  expiry := by
    intro m
    rw [expiry_sweepKey (indexKey_ne_expiryKey p), h.expiry,
      sweptScore_congr (h.keys k hi he) h.time]
    by_cases hm : m = k
    · rw [if_pos hm, if_pos (by simp [hm]), hm]
    · rw [if_neg hm]
      exact if_congr (by simp [hm]) rfl rfl
  index := by
    intro m
    have hlive : t.Live k ↔ s.Live k := Redis.live_congr (h.keys k hi he)
    rw [index_sweepKey (indexKey_ne_expiryKey p), h.index]
    by_cases hm : m = k ∧ ¬ t.Live k
    · obtain ⟨rfl, hdead⟩ := hm
      rw [if_pos ⟨rfl, hdead⟩, if_pos ⟨by simp, fun hl => hdead (hlive.mpr hl)⟩]
    · rw [if_neg hm]
      refine if_congr ?_ rfl rfl
      rw [List.mem_append, List.mem_singleton]
      constructor
      · exact fun hd => ⟨Or.inl hd.1, hd.2⟩
      · rintro ⟨hd | rfl, hdead⟩
        · exact ⟨hd, hdead⟩
        · exact absurd ⟨rfl, fun hl => hdead (hlive.mp hl)⟩ hm

/-- **A batch of keys**, with how many of them are gone. -/
theorem append (h : Swept p now s done t) {ks : List String}
    (hks : ∀ k ∈ ks, k ≠ indexKey p ∧ k ≠ expiryKey p) :
    Swept p now s (done ++ ks) (ks.foldl (sweepKey (indexKey p) (expiryKey p) now) t)
      ∧ sweepGone (indexKey p) (expiryKey p) now t ks
        = ks.countP (fun k => !decide (s.Live k)) := by
  induction ks generalizing t done with
  | nil => exact ⟨(List.append_nil done).symm ▸ h, rfl⟩
  | cons k ks ih =>
    obtain ⟨hi, he⟩ := hks k List.mem_cons_self
    obtain ⟨hswept, hgone⟩ := ih (h.snoc hi he) (fun m hm => hks m (List.mem_cons_of_mem k hm))
    rw [List.append_assoc, List.singleton_append] at hswept
    refine ⟨hswept, ?_⟩
    rw [sweepGone, hgone, List.countP_cons]
    by_cases hl : s.Live k
    · rw [if_pos ((Redis.live_congr (h.keys k hi he)).mpr hl), if_neg (by simp [hl])]
    · rw [if_neg (fun hlive => hl ((Redis.live_congr (h.keys k hi he)).mp hlive)),
        if_pos (by simp [hl])]

/-- **What is left is due**: of what was, what is not settled. -/
theorem mem_dueKeys_iff (h : Swept p now s done t) (hdone : ∀ k ∈ done, k ∈ dueKeys p now s)
    (hleft : TimeLeft p now s) (k : String) :
    k ∈ dueKeys p now t ↔ k ∈ dueKeys p now s ∧ k ∉ done := by
  rw [mem_dueKeys, h.expiry]
  by_cases hk : k ∈ done
  · rw [if_pos hk]
    refine iff_of_false ?_ (fun hd => hd.2 hk)
    rintro ⟨x, hx, hle⟩
    exact Int.not_lt.mpr hle (hleft k (hdone k hk) x hx)
  · rw [if_neg hk, ← mem_dueKeys]
    exact (and_iff_left hk).symm

end Swept

end Swept

/-! ## The loop -/

section Loop

variable (drv : Driver) {p : String} {now : ℕ} {s : Redis} {c : Conn}

/-- **How far a sweep is**: what it has settled was due, and each once. -/
structure SweptSoFar (p : String) (now : ℕ) (s : Redis) (done : List String) (t : Redis) :
    Prop extends Swept p now s done t where
  nodup : done.Nodup
  due : ∀ k ∈ done, k ∈ dueKeys p now s

/-- **A batch** is the due keys that are first, each once; and all of them,
when it is not full. -/
theorem exists_batch {t : Redis} (h : t.ZKeys (indexKey p) (expiryKey p)) (count : ℕ) :
    ∃ batch, Redis.zrangebyscoreTo (expiryKey p) (Double.round now) count t = (.ok batch, t)
      ∧ batch.Nodup ∧ (∀ k ∈ batch, k ∈ dueKeys p now t)
      ∧ batch.length = min count (dueKeys p now t).length := by
  have hperm := List.perm_insertionSort (t.scoreLe (expiryKey p)) (dueKeys p now t)
  refine ⟨((dueKeys p now t).insertionSort (t.scoreLe (expiryKey p))).take count,
    Redis.onZSet_run h.2, ?_, ?_, ?_⟩
  · exact (hperm.nodup_iff.mpr (nodup_dueKeys p now t)).sublist (List.take_sublist count _)
  · exact fun k hk => hperm.mem_iff.mp (List.mem_of_mem_take hk)
  · rw [List.length_take, hperm.length_eq]

namespace SweptSoFar

variable {done : List String} {t : Redis}

/-- What is settled and what is left are what was due. -/
theorem perm (h : SweptSoFar p now s done t) (hleft : TimeLeft p now s) :
    (done ++ dueKeys p now t).Perm (dueKeys p now s) := by
  have hmem := h.mem_dueKeys_iff h.due hleft
  refine (List.perm_ext_iff_of_nodup ?_ (nodup_dueKeys p now s)).mpr (fun k => ?_)
  · refine List.nodup_append'.mpr ⟨h.nodup, nodup_dueKeys p now t, ?_⟩
    exact fun k hk hd => ((hmem k).mp hd).2 hk
  · rw [List.mem_append, hmem]
    constructor
    · rintro (hk | hk)
      · exact h.due k hk
      · exact hk.1
    · intro hk
      by_cases hd : k ∈ done
      · exact Or.inl hd
      · exact Or.inr ⟨hk, hd⟩

/-- **A batch is settled.** -/
theorem batch (h : SweptSoFar p now s done t) (hs : Apart p s) (hleft : TimeLeft p now s)
    {ks : List String} (hks : ks.Nodup) (hdue : ∀ k ∈ ks, k ∈ dueKeys p now t) :
    SweptSoFar p now s (done ++ ks) (ks.foldl (sweepKey (indexKey p) (expiryKey p) now) t)
      ∧ sweepLua (indexKey p) (expiryKey p) now ks t
        = (.ok (ks.countP (fun k => !decide (s.Live k))),
          ks.foldl (sweepKey (indexKey p) (expiryKey p) now) t) := by
  have hmem := h.mem_dueKeys_iff h.due hleft
  have hapart : ∀ k ∈ ks, k ≠ indexKey p ∧ k ≠ expiryKey p :=
    fun k hk => hs.ne_of_due ((hmem k).mp (hdue k hk)).1
  obtain ⟨hswept, hgone⟩ := h.append hapart
  refine ⟨⟨hswept, ?_, ?_⟩, ?_⟩
  · refine List.nodup_append'.mpr ⟨h.nodup, hks, ?_⟩
    exact fun k hk hd => ((hmem k).mp (hdue k hd)).2 hk
  · intro k hk
    rcases List.mem_append.mp hk with hk | hk
    · exact h.due k hk
    · exact ((hmem k).mp (hdue k hk)).1
  · rw [sweepLua_eq h.zkeys, hgone]

theorem length_left (h : SweptSoFar p now s done t) (hleft : TimeLeft p now s) :
    done.length + (dueKeys p now t).length = (dueKeys p now s).length := by
  rw [← List.length_append]
  exact (h.perm hleft).length_eq

/-- **Nothing is left**: all that was due is settled. -/
theorem perm_of_none_left (h : SweptSoFar p now s done t) (hleft : TimeLeft p now s)
    (hnone : dueKeys p now t = []) : done.Perm (dueKeys p now s) := by
  have hperm := h.perm hleft
  rwa [hnone, List.append_nil] at hperm

/-- A batch that is not full leaves nothing. -/
theorem none_left (h : SweptSoFar p now s done t) (hleft : TimeLeft p now s) {ks : List String}
    {u : Redis} (hu : SweptSoFar p now s (done ++ ks) u)
    (hks : ks.length = (dueKeys p now t).length) : dueKeys p now u = [] := by
  have hbefore := h.length_left hleft
  have hafter := hu.length_left hleft
  rw [List.length_append] at hafter
  refine List.length_eq_zero_iff.mp ?_
  omega

end SweptSoFar

/-- **The loop settles what is due**: from any point of it, with fuel for
the batches that are left. -/
theorem sweepFrom_run (hs : Apart p s) (hleft : TimeLeft p now s) {fuel : ℕ} {done : List String}
    (ho : c.others = []) (hclock : c.clock s.now = now) (h : SweptSoFar p now s done c.redis)
    (hfuel : (dueKeys p now s).length < done.length + fuel * SWEEP_BATCH) :
    ∃ d all, sweepFrom drv p fuel (done.countP (fun k => !decide (s.Live k))) c
        = (.ok (some (all.countP (fun k => !decide (s.Live k)))), d)
      ∧ SweptSoFar p now s all d.redis ∧ dueKeys p now d.redis = [] := by
  induction fuel generalizing done c with
  | zero =>
    have hlen := h.length_left hleft
    omega
  | succ fuel ih =>
    have hread : Client.readClock c = (.ok now, c) := by
      rw [← hclock, ← h.time]
      rfl
    obtain ⟨batch, hrun, hnodup, hdue, hlen⟩ := @exists_batch p now c.redis h.zkeys SWEEP_BATCH
    have hexec := @Client.exec_alone_ok _ (redisErr drv) _ _ _ _ ho hrun
    rw [sweepFrom, Client.bind_ok hread, Client.bind_ok hexec]
    by_cases hnil : batch = []
    · subst hnil
      have hnone : dueKeys p now c.redis = [] := by
        refine List.length_eq_zero_iff.mp ?_
        rw [List.length_nil, SWEEP_BATCH] at hlen
        omega
      exact ⟨_, done, rfl, h, hnone⟩
    · obtain ⟨hnext, hsweep⟩ := h.batch hs hleft hnodup hdue
      have hsettle := @Client.exec_alone_ok _ (redisErr drv) _
        { c with seen := c.seen ++ [c.redis] } _ _ ho hsweep
      rw [if_neg hnil, Client.bind_ok hsettle]
      by_cases hshort : batch.length < SWEEP_BATCH
      · rw [if_pos hshort, ← List.countP_append]
        refine ⟨_, done ++ batch, rfl, hnext, h.none_left hleft hnext ?_⟩
        omega
      · rw [if_neg hshort, ← List.countP_append]
        refine ih ho hclock hnext ?_
        rw [List.length_append]
        rw [Nat.add_mul, Nat.one_mul] at hfuel
        omega

/-- **What a sweep leaves**: nothing that is due; of what was, no entry of a
key that is gone, none in the expiry index of a key that has no expiry, and
the score by the time left of one that has; and everything else as it was. -/
structure SweepSettles (p : String) (now : ℕ) (s t : Redis) : Prop where
  none_due : ∀ k x, t.score (expiryKey p) k = some x → Double.round now < x
  gone : ∀ k ∈ dueKeys p now s, ¬ s.Live k →
    t.score (indexKey p) k = none ∧ t.score (expiryKey p) k = none
  persistent : ∀ k ∈ dueKeys p now s, ∀ v, s.lookup k = some ⟨v, none⟩ →
    t.score (indexKey p) k = s.score (indexKey p) k ∧ t.score (expiryKey p) k = none
  moved : ∀ k ∈ dueKeys p now s, ∀ v d, s.lookup k = some ⟨v, some d⟩ →
    t.score (indexKey p) k = s.score (indexKey p) k
      ∧ t.score (expiryKey p) k = some (movedScore now s k)
  others : ∀ k, k ∉ dueKeys p now s → t.score (indexKey p) k = s.score (indexKey p) k
    ∧ t.score (expiryKey p) k = s.score (expiryKey p) k
  keys : ∀ k, k ≠ indexKey p → k ≠ expiryKey p → t.lookup k = s.lookup k

theorem sweepSettles_of_none_left {all : List String} {t : Redis}
    (h : SweptSoFar p now s all t) (hleft : TimeLeft p now s) (hnone : dueKeys p now t = []) :
    SweepSettles p now s t := by
  have hall : ∀ k, k ∈ all ↔ k ∈ dueKeys p now s := fun k =>
    (h.perm_of_none_left hleft hnone).mem_iff
  have hexpiry : ∀ k, t.score (expiryKey p) k
      = if k ∈ dueKeys p now s then sweptScore now s k else s.score (expiryKey p) k := by
    intro k
    rw [h.expiry]
    exact if_congr (hall k) rfl rfl
  have hindex : ∀ k, s.Live k → t.score (indexKey p) k = s.score (indexKey p) k := by
    intro k hl
    rw [h.index]
    exact if_neg (fun hd => hd.2 hl)
  refine ⟨fun k x hx => ?_, fun k hk hdead => ?_, fun k hk v hv => ?_, fun k hk v d hv => ?_,
    fun k hk => ?_, h.keys⟩
  · by_contra hle
    have hk : k ∈ dueKeys p now t := mem_dueKeys.mpr ⟨x, hx, Int.not_lt.mp hle⟩
    rw [hnone] at hk
    exact List.not_mem_nil hk
  · have hl : s.lookup k = none := by simpa [Redis.Live] using hdead
    constructor
    · rw [h.index, if_pos ⟨(hall k).mpr hk, hdead⟩]
    · rw [hexpiry, if_pos hk, sweptScore, hl]
  · have hl : s.Live k := by
      rw [Redis.Live, hv]
      rfl
    refine ⟨hindex k hl, ?_⟩
    rw [hexpiry, if_pos hk, sweptScore, hv]
  · have hl : s.Live k := by
      rw [Redis.Live, hv]
      rfl
    refine ⟨hindex k hl, ?_⟩
    rw [hexpiry, if_pos hk, sweptScore, hv]
  · constructor
    · rw [h.index, if_neg (fun hd => hk ((hall k).mp hd.1))]
    · rw [hexpiry, if_neg hk]

end Loop

/-! ## The states of a store -/

/-- A key that expires is no index. -/
theorem Redis.ZKey.ne_of_expiring {s : Redis} {z k : String} {v : Value} {d : ℕ} (h : s.ZKey z)
    (hk : s.lookup k = some ⟨v, some d⟩) : k ≠ z := by
  rintro rfl
  obtain ⟨ms, hms⟩ := h _ hk
  exact absurd (congrArg Obj.expireAt hms) (by simp)

namespace Apart

variable {p : String} {s t : Redis}

theorem empty (p : String) (t : ℕ) : Apart p (Redis.empty t) := by
  have hnone : ∀ z m, ¬ (Redis.empty t).Mem z m := fun z m h =>
    absurd h (by simp [Redis.Mem, Redis.score, Redis.zmembers, Redis.lookup, Redis.empty])
  exact ⟨(IndexInv.empty p t).toIndexTyped, hnone _ _, hnone _ _⟩

/-- A change that enters no index in the expiry index. -/
theorem of_members (h : Apart p s) (ht : IndexTyped p t)
    (hm : ∀ m, t.Mem (expiryKey p) m →
      s.Mem (expiryKey p) m ∨ m ≠ indexKey p ∧ m ≠ expiryKey p) : Apart p t where
  toIndexTyped := ht
  index_out := fun hi => (hm _ hi).elim h.index_out (fun hne => hne.1 rfl)
  expiry_out := fun he => (hm _ he).elim h.expiry_out (fun hne => hne.2 rfl)

theorem congr (h : Apart p s) (ht : IndexTyped p t)
    (he : t.lookup (expiryKey p) = s.lookup (expiryKey p)) : Apart p t :=
  h.of_members ht (fun _ hm => Or.inl ((Redis.mem_congr he).mp hm))

/-- A key with an expiry is entered. -/
theorem schedule (h : Apart p s) {k : String} {v : Value} {d : ℕ}
    (hk : s.lookup k = some ⟨v, some d⟩) (x : ℤ) : Apart p (s.zins (expiryKey p) k x) := by
  refine h.of_members ⟨Redis.ZKey.zins s h.index, Redis.ZKey.zins s h.expiry⟩ (fun m hm => ?_)
  rcases (Redis.mem_zins s).mp hm with rfl | hm
  · exact Or.inr ⟨h.index.ne_of_expiring hk, h.expiry.ne_of_expiring hk⟩
  · exact Or.inl hm

theorem unindex (h : Apart p s) (k : String) :
    Apart p (s.unindex (indexKey p) (expiryKey p) k) :=
  h.of_members ⟨h.index.unindex, h.expiry.unindex⟩ (fun _ hm =>
    Or.inl ((Redis.mem_unindex_expiry s (indexKey_ne_expiryKey p).symm).mp hm).2)

theorem change (hp : p ≠ "") (h : Apart p s) (ht : IndexTyped p t) {key : String}
    (hc : KvChange p key s t) : Apart p t := by
  have he := (fullKey_ne_expiryKey hp key).symm
  have hie := (indexKey_ne_expiryKey p).symm
  refine h.of_members ht (fun m hm => ?_)
  cases hc with
  | same => exact Or.inl hm
  | store o due =>
    have hdata : m = fullKey p key ∨ s.Mem (expiryKey p) m := by
      rw [Redis.mem_store_expiry s he hie] at hm
      cases due with
      | «at» x => exact hm
      | clear => exact Or.inr hm.2
      | keep => exact Or.inr hm
    rcases hdata with rfl | hm
    · exact Or.inr ⟨fullKey_ne_indexKey hp key, he.symm⟩
    · exact Or.inl hm
  | drop => exact Or.inl ((Redis.mem_drop_expiry s he hie).mp hm).2

theorem sweep (h : Apart p s) (clock : ℕ) (ks : List String) :
    Apart p (sweepLua (indexKey p) (expiryKey p) clock ks s).2 := by
  rw [sweepLua_eq ⟨h.index, h.expiry⟩]
  refine List.foldlRecOn (motive := Apart p) ks _ h (fun t ht k _ => ?_)
  unfold sweepKey
  split
  · exact ht.unindex k
  · exact ht.of_members ⟨Redis.ZKey.zdel t ht.index, Redis.ZKey.zdel t ht.expiry⟩
      (fun m hm => Or.inl ((Redis.mem_zdel t).mp hm).2)
  · next hl => exact ht.schedule hl _

theorem prune (h : Apart p s) (ks : List String) :
    Apart p (pruneLua (indexKey p) (expiryKey p) ks s).2 := by
  obtain ⟨n, hn⟩ := pruneLua_run ⟨h.index, h.expiry⟩ ks
  rw [hn]
  refine List.foldlRecOn (motive := Apart p) ks _ h (fun t ht k _ => ?_)
  unfold pruneKey
  split
  · exact ht
  · exact ht.unindex k

theorem backfill (h : Apart p s) (clock : ℕ) (ks : List String) :
    Apart p (backfillLua (indexKey p) (expiryKey p) clock ks s).2 := by
  obtain ⟨n, hn⟩ := backfillLua_run ⟨h.index, h.expiry⟩ clock ks
  rw [hn]
  refine List.foldlRecOn (motive := Apart p) ks _ h (fun t ht k _ => ?_)
  have hlist : Apart p (t.zins (indexKey p) k 0) :=
    ht.congr ⟨Redis.ZKey.zins t ht.index, Redis.ZKey.zins t ht.expiry⟩
      (Redis.lookup_zins_of_ne t (indexKey_ne_expiryKey p).symm)
  unfold backfillKey
  split
  · exact ht
  · next o hl =>
    split
    · next hpos =>
      -- only a key with an expiry has time left
      obtain ⟨v, e⟩ := o
      cases e with
      | none =>
        rw [Redis.pttlReply, hl] at hpos
        replace hpos : (0 : ℤ) < -1 := hpos
        exact absurd hpos (by decide)
      | some d =>
        exact hlist.schedule
          ((Redis.lookup_zins_of_ne t (ht.index.ne_of_expiring hl)).trans hl) _
    · exact hlist

/-- **Every event keeps the indexes apart.** -/
theorem step (lua : Lua) (drv : Driver) (hp : p ≠ "") (e : KvEvent) (h : Apart p s)
    (he : Served p s e) : Apart p ((kvSystem lua drv p).step s e).2 := by
  have ht := h.toIndexTyped.step lua drv hp e
  cases e with
  | call clock op => exact h.change hp ht (call_change lua drv hp h.toIndexTyped clock op he)
  | prune gone => exact h.prune gone
  | sweep clock due => exact h.sweep clock due
  | backfill clock batch => exact h.backfill clock _
  | markComplete startedAt =>
    exact h.congr ht (Redis.lookup_put_of_ne s (completeKey_ne_expiryKey p).symm)
  | invalidate =>
    refine h.congr ht ?_
    show ((RedisKv.invalidateIndex drv p s).2).lookup _ = _
    rw [RedisKv.invalidateIndex, Call.invoke_snd]
    unfold Redis.delete
    split
    · exact Redis.lookup_del_of_ne s (completeKey_ne_expiryKey p).symm
    · rfl
  | tick d => exact h.congr ht (h.expiry.lookup_tick d)

/-- **In every state of a store** the expiry index does not list the
indexes. -/
theorem of_run (lua : Lua) (drv : Driver) (hp : p ≠ "") (t : ℕ) {es : List KvEvent}
    (hes : (kvSystem lua drv p).Along (Served p) (Redis.empty t) es) :
    Apart p ((kvSystem lua drv p).final (Redis.empty t) es) :=
  System.inv_final (kvSystem lua drv p) (I := Apart p)
    (fun _ e hs he => hs.step lua drv hp e he) (empty p t) hes

end Apart

/-! ## The sums of a sweep -/

section Sums

variable {p : String} {now : ℕ} {s : Redis}

theorem movedScore_eq (k : String) :
    movedScore now s k = Double.roundNat (Double.roundNat now
      + (Double.round (s.pttlReply k)).toNat) := rfl

/-- A sum that a double holds is exact. -/
theorem movedScore_of_lt {k : String} (h : 0 ≤ s.pttlReply k)
    (hlt : now + s.pttlReply k < 2 ^ 53) : movedScore now s k = now + s.pttlReply k := by
  have hexact : Double.exact = 2 ^ 53 := rfl
  have hnow : Double.roundNat now = now := Double.roundNat_of_lt (by omega)
  have hpttl : Double.round (s.pttlReply k) = s.pttlReply k := Double.round_of_lt (by omega)
  rw [movedScore_eq, hpttl, hnow, Double.roundNat_of_lt (by omega), Nat.cast_add,
    Int.toNat_of_nonneg h]

/-- **For a clock that a double holds, the sum is past it** exactly when
there is time left. -/
theorem lt_movedScore_iff (hnow : now < 2 ^ 53) {k : String} (h : 0 ≤ s.pttlReply k) :
    Double.round now < movedScore now s k ↔ 1 ≤ s.pttlReply k := by
  have hexact : Double.exact = 2 ^ 53 := rfl
  have hclock : Double.round now = now := Double.round_of_lt (by omega)
  have hround : Double.roundNat now = now := Double.roundNat_of_lt hnow
  rw [hclock]
  constructor
  · intro hlt
    by_contra hno
    have hzero : s.pttlReply k = 0 := by omega
    rw [movedScore_of_lt h (by omega), hzero, add_zero] at hlt
    exact lt_irrefl _ hlt
  · intro hpos
    have hr : 0 < Double.round (s.pttlReply k) := Double.round_pos.mpr hpos
    rw [movedScore_eq, hround]
    by_cases hlt : now + (Double.round (s.pttlReply k)).toNat < Double.exact
    · rw [Double.roundNat_of_lt hlt]
      omega
    · have hge := Double.exact_le_roundNat (Nat.not_lt.mp hlt)
      omega

theorem timeLeft_iff (hnow : now < 2 ^ 53) : TimeLeft p now s ↔ ∀ k ∈ dueKeys p now s, ∀ v d,
    s.lookup k = some ⟨v, some d⟩ → 1 ≤ s.pttlReply k := by
  refine forall₂_congr (fun k _ => ?_)
  cases hl : s.lookup k with
  | none =>
    rw [sweptScore, hl]
    simp
  | some o =>
    obtain ⟨v, e⟩ := o
    cases e with
    | none =>
      rw [sweptScore, hl]
      simp
    | some d =>
      have hle : s.now ≤ d := by simpa [Obj.liveAt] using Redis.liveAt_of_lookup hl
      have hpttl : 0 ≤ s.pttlReply k := by
        rw [Redis.pttlReply, hl]
        show (0 : ℤ) ≤ d - s.now
        omega
      have hscore : sweptScore now s k = some (movedScore now s k) := by
        rw [sweptScore, hl]
      rw [hscore, ← lt_movedScore_iff hnow hpttl]
      constructor
      · exact fun h _ _ _ => h _ rfl
      · intro h x hx
        rw [← Option.some.inj hx]
        exact h v d rfl

end Sums

/-- **A sweep settles exactly what is due**, where nobody else comes
between: it stops, and returns how many of the due keys are gone. That a
live key has time left is, for a clock that a double holds, that its `PTTL`
is positive; and the sum it is scored by is exact when a double holds it. -/
theorem sweep_settles_due (drv : Driver) (p : String) (c : Conn) (ho : c.others = [])
    (hs : Apart p c.redis) :
    (TimeLeft p (c.clock c.redis.now) c.redis →
      ∀ fuel, (dueKeys p (c.clock c.redis.now) c.redis).length < fuel * SWEEP_BATCH →
        ∃ d, sweep drv p fuel c = (.ok (some ((dueKeys p (c.clock c.redis.now) c.redis).countP
            (fun k => !decide (c.redis.Live k)))), d)
          ∧ SweepSettles p (c.clock c.redis.now) c.redis d.redis)
      ∧ (c.clock c.redis.now < 2 ^ 53 → (TimeLeft p (c.clock c.redis.now) c.redis
        ↔ ∀ k ∈ dueKeys p (c.clock c.redis.now) c.redis, ∀ v d,
          c.redis.lookup k = some ⟨v, some d⟩ → 1 ≤ c.redis.pttlReply k))
      ∧ ∀ k, 0 ≤ c.redis.pttlReply k → c.clock c.redis.now + c.redis.pttlReply k < 2 ^ 53 →
        movedScore (c.clock c.redis.now) c.redis k
          = c.clock c.redis.now + c.redis.pttlReply k := by
  refine ⟨fun hleft fuel hfuel => ?_, timeLeft_iff, fun k => movedScore_of_lt⟩
  have hstart : SweptSoFar p (c.clock c.redis.now) c.redis [] c.redis :=
    ⟨Swept.refl ⟨hs.index, hs.expiry⟩, List.nodup_nil, fun k hk => absurd hk List.not_mem_nil⟩
  obtain ⟨d, all, hrun, hall, hnone⟩ := sweepFrom_run drv hs hleft ho rfl hstart
    (by rwa [List.length_nil, Nat.zero_add])
  refine ⟨d, ?_, sweepSettles_of_none_left hall hleft hnone⟩
  rw [← (hall.perm_of_none_left hleft hnone).countP_eq]
  exact hrun

/-- A server with two keys that are due, one of them gone, and one alive for
a time. -/
def dueTwo (left : ℕ) : Redis :=
  (((Redis.empty 0).put "p:b" ⟨.str [], some left⟩).zins (expiryKey "p") "p:a" 1).zins
    (expiryKey "p") "p:b" 1

/-- The client of such a server, whose clock reads one. -/
def sweeper (left : ℕ) : Conn := ⟨dueTwo left, [], [], fun _ => 1, [], []⟩

theorem apart_dueTwo (left : ℕ) : Apart "p" (dueTwo left) := by
  have hzkey : ∀ z, z ≠ "p:b" → (dueTwo left).ZKey z := by
    intro z hz
    refine Redis.ZKey.zins _ (Redis.ZKey.zins _ (Redis.ZKey.put ?_ hz))
    exact fun o ho => absurd ho (by simp [Redis.lookup, Redis.empty])
  have hscore : ∀ m, m ≠ "p:a" → m ≠ "p:b" → ¬ (dueTwo left).Mem (expiryKey "p") m := by
    intro m ha hb
    rw [dueTwo, Redis.mem_zins, Redis.mem_zins,
      Redis.mem_congr (Redis.lookup_put_of_ne _ (by decide))]
    rintro (h | h | h)
    · exact hb h
    · exact ha h
    · exact absurd h (by simp [Redis.Mem, Redis.score, Redis.zmembers, Redis.lookup, Redis.empty])
  exact ⟨⟨hzkey _ (by decide), hzkey _ (by decide)⟩, hscore _ (by decide) (by decide),
    hscore _ (by decide) (by decide)⟩

/-- A sweep of two keys that are due. -/
theorem sweep_settles_two :
    ∃ d, sweep Driver.plain "p" 1 (sweeper 10) = (.ok (some 1), d)
      ∧ SweepSettles "p" 1 (dueTwo 10) d.redis := by
  have hsettles := sweep_settles_due Driver.plain "p" (sweeper 10) rfl (apart_dueTwo 10)
  have hdue : dueKeys "p" 1 (dueTwo 10) = ["p:b", "p:a"] := by decide +kernel
  have hcount : (dueKeys "p" 1 (dueTwo 10)).countP (fun k => !decide ((dueTwo 10).Live k)) = 1 := by
    decide +kernel
  have hgone : (dueTwo 10).lookup "p:a" = none := by
    rw [← Option.not_isSome_iff_eq_none]
    decide +kernel
  have hpttl : 1 ≤ (dueTwo 10).pttlReply "p:b" := by decide +kernel
  have hleft : TimeLeft "p" 1 (dueTwo 10) := by
    refine (hsettles.2.1 (by decide)).mpr (fun k hk v d hv => ?_)
    replace hk : k ∈ dueKeys "p" 1 (dueTwo 10) := hk
    rw [hdue, List.mem_cons, List.mem_singleton] at hk
    rcases hk with rfl | rfl
    · exact hpttl
    · exact absurd (hgone.symm.trans hv) (by simp)
  have hfuel : (dueKeys "p" 1 (dueTwo 10)).length < 1 * SWEEP_BATCH := by
    rw [hdue]
    decide
  obtain ⟨d, hrun, hd⟩ := hsettles.1 hleft 1 hfuel
  refine ⟨d, hrun.trans ?_, hd⟩
  exact congrArg (fun n => (Except.ok (some n), d)) hcount

/-- **A time left that is too long**: one millisecond more is not held by a
double, and the key is entered for the millisecond before. -/
theorem sweep_rounds_score :
    (sweep Driver.plain "p" 1 (sweeper (2 ^ 53)) ).1 = .ok (some 1)
      ∧ (dueTwo (2 ^ 53)).pttlReply "p:b" = 2 ^ 53
      ∧ (sweep Driver.plain "p" 1 (sweeper (2 ^ 53))).2.redis.score (expiryKey "p") "p:b"
        = some (2 ^ 53)
      ∧ (2 ^ 53 : ℤ) ≠ 1 + 2 ^ 53 := by
  decide +kernel
