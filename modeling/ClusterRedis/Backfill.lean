import ClusterRedis.Sweep

/-!
# What a backfill leaves

A backfill scans for the data keys and sends each batch that it gets to a
script, which lists the keys that are there and enters those with a time
left in the expiry index. A key in its last millisecond is there and has no
time left: it is listed and not entered.

With nobody else acting, what a key holds and when it expires stays as it
was, so a run is followed by what the scan has returned and the scripts have
listed (`Backfilling`). Every live key is listed in the end. That those
which expire can be swept then is lost exactly when the script meets a key
for the first time in its last millisecond (`backfill_sweepable_iff`): no
sweep finds a key that is not entered, and its listing stays.
-/

open Numerals RedisKv

/-- **Where a backfill stands.** -/
inductive BackfillStage where
  /-- The next step of its scan, -/
  | scan (cursor : UInt64)
  /-- or a batch to index; -/
  | index (batch : List String) (next : UInt64)
  /-- and the end. -/
  | returned (r : Except ClusterError ℕ)

/-- **A backfill and its server**: how many keys it has indexed, and beside
them the keys that its scan has returned. -/
structure BackfillWorld where
  redis : Redis
  stage : BackfillStage
  indexed : ℕ
  found : List String

/-- **A step**: time, or a command and how it ends. -/
inductive BackfillEvent where
  | tick (d : ℕ)
  /-- A reply to the scan. -/
  | scan (reply : UInt64 × List String)
  /-- The script, at a time by the client's clock. -/
  | index (clock : ℕ)
  /-- The connection is lost, before the script ran or after. -/
  | lost (ran : Bool) (clock : ℕ) (e : ClusterError)

namespace BackfillWorld

variable (drv : Driver) (p : String)

/-- A backfill that begins. -/
def start (s : Redis) : BackfillWorld := ⟨s, .scan 0, 0, []⟩

/-- After a batch: the next step of the scan, or the end. -/
def afterBatch (next : UInt64) (n : ℕ) : BackfillStage :=
  if next = 0 then .returned (.ok n) else .scan next

/-- The scan is replied. -/
def scanned (w : BackfillWorld) (reply : UInt64 × List String) : BackfillWorld :=
  match w.stage with
  | .scan _ =>
    { w with
      found := w.found ++ backfillBatch p reply.2
      stage := if backfillBatch p reply.2 = [] then afterBatch reply.1 w.indexed
        else .index (backfillBatch p reply.2) reply.1 }
  | _ => w

/-- The script is run, and its reply received. -/
def indexBatch (w : BackfillWorld) (clock : ℕ) : BackfillWorld :=
  match w.stage with
  | .index batch next => match backfillLua (indexKey p) (expiryKey p) clock batch w.redis with
    | (.ok n, t) =>
      { w with redis := t, indexed := w.indexed + n, stage := afterBatch next (w.indexed + n) }
    | (.error e, t) => { w with redis := t, stage := .returned (.error (redisErr drv e)) }
  | _ => w

/-- A command fails. -/
def lose (w : BackfillWorld) (ran : Bool) (clock : ℕ) (e : ClusterError) : BackfillWorld :=
  match w.stage with
  | .scan _ => { w with stage := .returned (.error e) }
  | .index batch _ =>
    { w with
      redis := if ran then (backfillLua (indexKey p) (expiryKey p) clock batch w.redis).2
        else w.redis
      stage := .returned (.error e) }
  | .returned _ => w

/-- **`backfill_index`**, with nobody else acting. -/
def system : System BackfillWorld BackfillEvent Unit where
  step w
    | .tick d => ((), { w with redis := w.redis.tick d })
    | .scan reply => ((), w.scanned p reply)
    | .index clock => ((), w.indexBatch drv p clock)
    | .lost ran clock e => ((), w.lose p ran clock e)

/-- **A backfill after a run of it.** -/
abbrev after (s : Redis) (es : List BackfillEvent) : BackfillWorld :=
  (system drv p).final (start s) es

/-- **The promise of `SCAN`**: it returns keys that match, and with its last
step it has returned every one that has been there throughout. With nobody
else acting, these are the ones that are there now. -/
def Promised (w : BackfillWorld) : BackfillEvent → Prop
  | .scan reply => match w.stage with
    | .scan _ => (∀ k ∈ reply.2, KeyMatch (dataPattern p) k)
        ∧ (reply.1 = 0 → ∀ k, KeyMatch (dataPattern p) k → w.redis.Live k →
          k ∈ w.found ++ reply.2)
    | _ => True
  | _ => True

/-- **No key is met first in its last millisecond**: when a script may run,
the keys of its batch that have no time left are in one of the indexes. -/
def NotLast (w : BackfillWorld) : BackfillEvent → Prop
  | .tick _ => True
  | .scan _ => True
  | .index _ | .lost _ _ _ => match w.stage with
    | .index batch _ => ∀ k ∈ batch, w.redis.pttlReply k = 0 →
        w.redis.Mem (indexKey p) k ∨ w.redis.Mem (expiryKey p) k
    | _ => True

end BackfillWorld

/-- **The listed keys can be swept**: between the states before a backfill
and after it. A key that was listed by it was there when it was listed, as
it was before. -/
structure LeavesSweepable (p : String) (s t : Redis) : Prop where
  /-- A live data key is listed. -/
  listed : ∀ k, IsDataKey p k → t.Live k → t.Mem (indexKey p) k
  /-- A key with an expiry that it listed is in the expiry index; -/
  entered : ∀ k v d, ¬ s.Mem (indexKey p) k → t.Mem (indexKey p) k →
    s.lookup k = some ⟨v, some d⟩ → t.Mem (expiryKey p) k
  /-- and once it is gone, it is due by every clock from some time on, and
  a sweep's script drops its listing. -/
  dropped : ∀ k v d, ¬ s.Mem (indexKey p) k → t.Mem (indexKey p) k →
    s.lookup k = some ⟨v, some d⟩ → ∀ n, ¬ (t.tick n).Live k →
    ∃ x, ∀ now : ℕ, x ≤ Double.round now → k ∈ dueKeys p now (t.tick n)
      ∧ ∀ due, k ∈ due →
        ¬ (sweepLua (indexKey p) (expiryKey p) now due (t.tick n)).2.Mem (indexKey p) k

/-! ## One key -/

namespace Redis

variable {t : Redis} {k : String}

/-- A time left is a key's that expires. -/
theorem expiring_of_pttlReply (h : 0 ≤ t.pttlReply k) : ∃ v d, t.lookup k = some ⟨v, some d⟩ := by
  rw [pttlReply] at h
  cases hl : t.lookup k with
  | none =>
    rw [hl] at h
    replace h : (0 : ℤ) ≤ -2 := h
    omega
  | some o =>
    obtain ⟨v, e⟩ := o
    cases e with
    | none =>
      rw [hl] at h
      replace h : (0 : ℤ) ≤ -1 := h
      omega
    | some d => exact ⟨v, d, rfl⟩

/-- The time left of a key with an expiry. -/
theorem pttlReply_of_lookup {v : Value} {d : ℕ} (h : t.lookup k = some ⟨v, some d⟩) :
    t.pttlReply k = d - t.now ∧ 0 ≤ t.pttlReply k := by
  have hle : t.now ≤ d := by simpa [Obj.liveAt] using liveAt_of_lookup h
  have hpttl : t.pttlReply k = d - t.now := by rw [pttlReply, h]
  exact ⟨hpttl, by omega⟩

/-- What has no time left gets none. -/
theorem pttlReply_tick_le (h : t.pttlReply k ≤ 0) (n : ℕ) : (t.tick n).pttlReply k ≤ 0 := by
  by_contra hpos
  obtain ⟨v, d, hl⟩ := expiring_of_pttlReply (not_le.mp hpos).le
  have hafter := (pttlReply_of_lookup hl).1
  have hbefore := (pttlReply_of_lookup (lookup_of_tick hl)).1
  have hnow : (t.tick n).now = t.now + n := rfl
  omega

end Redis

section Key

variable {s t : Redis} {idx exp k m : String} {now : ℕ}

theorem backfillKey_now : (backfillKey idx exp now t k).now = t.now := by
  unfold backfillKey
  split
  · rfl
  · split <;> rfl

/-- **A key is listed if it is there.** -/
theorem mem_index_backfillKey (hie : idx ≠ exp) :
    (backfillKey idx exp now t k).Mem idx m ↔ t.Mem idx m ∨ m = k ∧ t.Live k := by
  unfold backfillKey
  split
  · next hl =>
    have hgone : ¬ t.Live k := by
      rw [Redis.Live, hl]
      exact Bool.false_ne_true
    exact (or_iff_left (fun h => hgone h.2)).symm
  · next o hl =>
    have hlive : t.Live k := by
      rw [Redis.Live, hl]
      rfl
    have hlist : (t.zins idx k 0).Mem idx m ↔ t.Mem idx m ∨ m = k ∧ t.Live k := by
      rw [Redis.mem_zins, or_comm, and_iff_left hlive]
    split
    · rw [Redis.mem_congr (Redis.lookup_zins_of_ne _ hie)]
      exact hlist
    · exact hlist

/-- **And entered if it has time left.** -/
theorem mem_expiry_backfillKey (hie : idx ≠ exp) :
    (backfillKey idx exp now t k).Mem exp m ↔ t.Mem exp m ∨ m = k ∧ 0 < t.pttlReply k := by
  have hother : (t.zins idx k 0).Mem exp m ↔ t.Mem exp m :=
    Redis.mem_congr (Redis.lookup_zins_of_ne t hie.symm)
  unfold backfillKey
  split
  · next hl =>
    have hgone : t.pttlReply k = -2 := by rw [Redis.pttlReply, hl]
    refine (or_iff_left (fun h => ?_)).symm
    omega
  · next o hl =>
    split
    · next hpos =>
      rw [Redis.mem_zins, hother, or_comm, and_iff_left hpos]
    · next hpos =>
      rw [hother]
      exact (or_iff_left (fun h => hpos h.2)).symm

end Key

/-- **A batch is indexed**, and nothing else is changed. -/
structure BatchIndexed (p : String) (t : Redis) (ks : List String) (u : Redis) : Prop where
  typed : IndexTyped p u
  time : u.now = t.now
  keys : ∀ m, m ≠ indexKey p → m ≠ expiryKey p → u.lookup m = t.lookup m
  listed : ∀ m, u.Mem (indexKey p) m ↔ t.Mem (indexKey p) m ∨ m ∈ ks ∧ t.Live m
  entered : ∀ m, u.Mem (expiryKey p) m ↔ t.Mem (expiryKey p) m ∨ m ∈ ks ∧ 0 < t.pttlReply m

namespace BatchIndexed

variable {p : String} {t u : Redis} {ks : List String}

theorem pttlReply (h : BatchIndexed p t ks u) {m : String} (hi : m ≠ indexKey p)
    (he : m ≠ expiryKey p) : u.pttlReply m = t.pttlReply m := by
  rw [Redis.pttlReply, Redis.pttlReply, h.keys m hi he, h.time]

theorem nil (h : IndexTyped p t) : BatchIndexed p t [] t :=
  ⟨h, rfl, fun _ _ _ => rfl, fun _ => by simp, fun _ => by simp⟩

/-- **One key more.** -/
theorem snoc (h : BatchIndexed p t ks u) (now : ℕ) {k : String} (hi : k ≠ indexKey p)
    (he : k ≠ expiryKey p) :
    BatchIndexed p t (ks ++ [k]) (backfillKey (indexKey p) (expiryKey p) now u k) where
  typed := by
    have hzkeys : u.ZKeys (indexKey p) (expiryKey p) := ⟨h.typed.index, h.typed.expiry⟩
    exact ⟨(hzkeys.backfill now k).1, (hzkeys.backfill now k).2⟩
  time := backfillKey_now.trans h.time
  keys := fun m hmi hme => (lookup_backfillKey hmi hme).trans (h.keys m hmi hme)
  listed := by
    intro m
    rw [mem_index_backfillKey (indexKey_ne_expiryKey p), h.listed,
      Redis.live_congr (h.keys k hi he), List.mem_append, List.mem_singleton, or_and_right,
      or_assoc]
    refine or_congr_right (or_congr_right (and_congr_right (fun hm => ?_)))
    rw [hm]
  entered := by
    intro m
    rw [mem_expiry_backfillKey (indexKey_ne_expiryKey p), h.entered, h.pttlReply hi he,
      List.mem_append, List.mem_singleton, or_and_right, or_assoc]
    refine or_congr_right (or_congr_right (and_congr_right (fun hm => ?_)))
    rw [hm]

theorem append (h : BatchIndexed p t ks u) (now : ℕ) {ls : List String}
    (hls : ∀ k ∈ ls, k ≠ indexKey p ∧ k ≠ expiryKey p) :
    BatchIndexed p t (ks ++ ls) (ls.foldl (backfillKey (indexKey p) (expiryKey p) now) u) := by
  induction ls generalizing ks u with
  | nil => exact (List.append_nil ks).symm ▸ h
  | cons k ls ih =>
    obtain ⟨hi, he⟩ := hls k List.mem_cons_self
    have hrest := ih (h.snoc now hi he) (fun m hm => hls m (List.mem_cons_of_mem k hm))
    rwa [List.append_assoc, List.singleton_append] at hrest

end BatchIndexed

/-- **What the script does**: it replies a number, and its batch is
indexed. -/
theorem backfillLua_indexes {p : String} {t : Redis} (hp : p ≠ "") (h : IndexTyped p t)
    {ks : List String} (hks : ∀ k ∈ ks, IsDataKey p k) (now : ℕ) :
    ∃ n u, backfillLua (indexKey p) (expiryKey p) now ks t = (.ok n, u)
      ∧ BatchIndexed p t ks u := by
  obtain ⟨n, hn⟩ := backfillLua_run ⟨h.index, h.expiry⟩ now ks
  exact ⟨n, _, hn, (BatchIndexed.nil h).append now (fun k hk =>
    ⟨IndexInv.IsDataKey.ne_index hp (hks k hk), IndexInv.IsDataKey.ne_expiry hp (hks k hk)⟩)⟩

/-! ## What holds of a backfill -/

/-- What the scan has returned is listed, but for what a batch holds; and
with its end it has returned all there is. -/
def BackfillWorld.Covers (p : String) (w : BackfillWorld) : Prop :=
  match w.stage with
  | .scan _ => ∀ k ∈ w.found, w.redis.Live k → w.redis.Mem (indexKey p) k
  | .index batch next => (∀ k ∈ w.found, w.redis.Live k → w.redis.Mem (indexKey p) k ∨ k ∈ batch)
      ∧ (next = 0 → ∀ k, IsDataKey p k → w.redis.Live k → k ∈ w.found)
  | .returned (.ok _) => ∀ k, IsDataKey p k → w.redis.Live k → w.redis.Mem (indexKey p) k
  | .returned (.error _) => True

/-- **A backfill and the state that it began in.** -/
structure Backfilling (p : String) (s : Redis) (w : BackfillWorld) : Prop where
  typed : IndexTyped p w.redis
  /-- Nobody has written a key. -/
  since : ∀ k o, IsDataKey p k → w.redis.lookup k = some o → s.lookup k = some o
  kept : ∀ k, s.Mem (indexKey p) k → w.redis.Mem (indexKey p) k
  listed : ∀ k, w.redis.Mem (indexKey p) k → s.Mem (indexKey p) k ∨ IsDataKey p k
  found : ∀ k ∈ w.found, IsDataKey p k
  batch : ∀ b next, w.stage = .index b next → ∀ k ∈ b, IsDataKey p k
  covers : w.Covers p

/-- **What it has listed can be swept.** -/
def EnteredListed (p : String) (s t : Redis) : Prop :=
  ∀ k v d, ¬ s.Mem (indexKey p) k → t.Mem (indexKey p) k → s.lookup k = some ⟨v, some d⟩ →
    t.Mem (expiryKey p) k

/-- **A key is stranded**: listed by the backfill, with an expiry, and
neither entered nor with time left. -/
structure Stranded (p : String) (s : Redis) (k : String) (t : Redis) : Prop where
  data : IsDataKey p k
  unlisted : ¬ s.Mem (indexKey p) k
  expires : ∃ v d, s.lookup k = some ⟨v, some d⟩
  listed : t.Mem (indexKey p) k
  out : ¬ t.Mem (expiryKey p) k
  last : t.pttlReply k ≤ 0

namespace Backfilling

variable {drv : Driver} {p : String} {s : Redis} {w : BackfillWorld}

theorem start (h : IndexTyped p s) : Backfilling p s (BackfillWorld.start s) where
  typed := h
  since := fun _ _ _ ho => ho
  kept := fun _ hk => hk
  listed := fun _ hk => Or.inl hk
  found := fun _ hk => absurd hk List.not_mem_nil
  batch := by
    intro b next hst
    cases hst
  covers := fun _ hk => absurd hk List.not_mem_nil

/-- Time passes. -/
theorem tick (h : Backfilling p s w) (d : ℕ) :
    Backfilling p s { w with redis := w.redis.tick d } := by
  have hindex := h.typed.index.lookup_tick d
  have hexpiry := h.typed.expiry.lookup_tick d
  have hmem : ∀ k, (w.redis.tick d).Mem (indexKey p) k ↔ w.redis.Mem (indexKey p) k :=
    fun k => Redis.mem_congr hindex
  refine ⟨⟨h.typed.index.congr hindex, h.typed.expiry.congr hexpiry⟩, ?_, ?_, ?_, h.found, h.batch,
    ?_⟩
  · exact fun k o hk ho => h.since k o hk (Redis.lookup_of_tick ho)
  · exact fun k hk => (hmem k).mpr (h.kept k hk)
  · exact fun k hk => h.listed k ((hmem k).mp hk)
  · have hcovers := h.covers
    unfold BackfillWorld.Covers at hcovers ⊢
    simp only [hmem]
    cases hst : w.stage with
    | scan cursor =>
      rw [hst] at hcovers
      exact fun k hk hl => hcovers k hk (Redis.live_of_tick hl)
    | index b next =>
      rw [hst] at hcovers
      exact ⟨fun k hk hl => hcovers.1 k hk (Redis.live_of_tick hl),
        fun hnext k hk hl => hcovers.2 hnext k hk (Redis.live_of_tick hl)⟩
    | returned r =>
      rw [hst] at hcovers
      cases r with
      | ok n => exact fun k hk hl => hcovers k hk (Redis.live_of_tick hl)
      | error e => trivial

/-- A reply of the scan. -/
theorem scanned (hp : p ≠ "") (h : Backfilling p s w) {reply : UInt64 × List String}
    (hr : BackfillWorld.Promised p w (.scan reply)) :
    Backfilling p s (w.scanned p reply) := by
  unfold BackfillWorld.scanned
  unfold BackfillWorld.Promised at hr
  split
  · next cursor hst =>
    rw [hst] at hr
    obtain ⟨hmatch, hall⟩ := hr
    have hcovers := h.covers
    rw [BackfillWorld.Covers, hst] at hcovers
    have hdata : ∀ k ∈ backfillBatch p reply.2, IsDataKey p k := fun k hk =>
      (keyMatch_dataPattern hp).mp (hmatch k (List.mem_of_mem_filter hk))
    have hbatch : ∀ k ∈ reply.2, k ∈ backfillBatch p reply.2 := by
      intro k hk
      have hd := (keyMatch_dataPattern hp).mp (hmatch k hk)
      refine List.mem_filter.mpr ⟨hk, ?_⟩
      simp [IndexInv.IsDataKey.ne_index hp hd, IndexInv.IsDataKey.ne_expiry hp hd,
        IndexInv.IsDataKey.ne_complete hp hd]
    have hwhole : reply.1 = 0 → ∀ k, IsDataKey p k → w.redis.Live k →
        k ∈ w.found ++ backfillBatch p reply.2 := by
      intro hend k hk hl
      rcases List.mem_append.mp (hall hend k ((keyMatch_dataPattern hp).mpr hk) hl) with hf | hf
      · exact List.mem_append_left _ hf
      · exact List.mem_append_right _ (hbatch k hf)
    refine ⟨h.typed, h.since, h.kept, h.listed, fun k hk => ?_, fun b next hst' => ?_, ?_⟩
    · exact (List.mem_append.mp hk).elim (h.found k) (hdata k)
    · by_cases hnil : backfillBatch p reply.2 = []
      · replace hst' : (if backfillBatch p reply.2 = [] then
            BackfillWorld.afterBatch reply.1 w.indexed else _) = _ := hst'
        rw [if_pos hnil, BackfillWorld.afterBatch] at hst'
        split at hst'
        · cases hst'
        · cases hst'
      · replace hst' : (if backfillBatch p reply.2 = [] then _ else
            BackfillStage.index (backfillBatch p reply.2) reply.1) = _ := hst'
        rw [if_neg hnil] at hst'
        obtain ⟨rfl, -⟩ := BackfillStage.index.inj hst'
        exact hdata
    · show BackfillWorld.Covers p ⟨w.redis, _, w.indexed, _⟩
      by_cases hnil : backfillBatch p reply.2 = []
      · rw [hnil, List.append_nil] at hwhole ⊢
        rw [if_pos rfl, BackfillWorld.afterBatch]
        by_cases hend : reply.1 = 0
        · rw [if_pos hend]
          exact fun k hk hl => hcovers k (hwhole hend k hk hl) hl
        · rw [if_neg hend]
          exact hcovers
      · rw [if_neg hnil]
        refine ⟨fun k hk hl => ?_, hwhole⟩
        rcases List.mem_append.mp hk with hk | hk
        · exact Or.inl (hcovers k hk hl)
        · exact Or.inr hk
  · exact h

/-- A batch is indexed, and the backfill goes on or ends. -/
theorem indexes (hp : p ≠ "") (h : Backfilling p s w) {b : List String} {next : UInt64}
    (hst : w.stage = .index b next) {u : Redis} (hu : BatchIndexed p w.redis b u)
    {st : BackfillStage} {n : ℕ}
    (hstage : st = BackfillWorld.afterBatch next n ∨ ∃ e, st = .returned (.error e)) (m : ℕ) :
    Backfilling p s ⟨u, st, m, w.found⟩ := by
  have hsame : ∀ k, IsDataKey p k → u.lookup k = w.redis.lookup k := fun k hk =>
    hu.keys k (IndexInv.IsDataKey.ne_index hp hk) (IndexInv.IsDataKey.ne_expiry hp hk)
  have hcovers := h.covers
  rw [BackfillWorld.Covers, hst] at hcovers
  have hlisted : ∀ k ∈ w.found, u.Live k → u.Mem (indexKey p) k := by
    intro k hk hl
    have hl : w.redis.Live k := (Redis.live_congr (hsame k (h.found k hk))).mp hl
    exact (hu.listed k).mpr ((hcovers.1 k hk hl).imp_right (fun hb => ⟨hb, hl⟩))
  refine ⟨hu.typed, ?_, ?_, ?_, h.found, ?_, ?_⟩
  · intro k o hk ho
    exact h.since k o hk ((hsame k hk).symm.trans ho)
  · exact fun k hk => (hu.listed k).mpr (Or.inl (h.kept k hk))
  · intro k hk
    rcases (hu.listed k).mp hk with hk | hk
    · exact h.listed k hk
    · exact Or.inr (h.batch b next hst k hk.1)
  · intro b' next' hst'
    replace hst' : st = .index b' next' := hst'
    rcases hstage with rfl | ⟨e, rfl⟩
    · rw [BackfillWorld.afterBatch] at hst'
      split at hst'
      · cases hst'
      · cases hst'
    · cases hst'
  · rcases hstage with rfl | ⟨e, rfl⟩
    · unfold BackfillWorld.Covers BackfillWorld.afterBatch
      by_cases hend : next = 0
      · rw [if_pos hend]
        intro k hk hl
        exact hlisted k (hcovers.2 hend k hk ((Redis.live_congr (hsame k hk)).mp hl)) hl
      · rw [if_neg hend]
        exact hlisted
    · trivial

/-- The command that failed has run, or has not. -/
theorem lose (hp : p ≠ "") (h : Backfilling p s w) (ran : Bool) (clock : ℕ) (e : ClusterError) :
    Backfilling p s (w.lose p ran clock e) := by
  unfold BackfillWorld.lose
  have hfailed : ∀ m, Backfilling p s ⟨w.redis, .returned (.error e), m, w.found⟩ := fun m =>
    ⟨h.typed, h.since, h.kept, h.listed, h.found, (fun _ _ hst => by cases hst), trivial⟩
  split
  · exact hfailed w.indexed
  · next b next hst =>
    cases ran with
    | false => exact hfailed w.indexed
    | true =>
      obtain ⟨n, u, hrun, hu⟩ := backfillLua_indexes hp h.typed (h.batch b next hst) clock
      rw [hrun]
      exact h.indexes (n := 0) hp hst hu (Or.inr ⟨e, rfl⟩) w.indexed
  · exact h

variable (drv) in
/-- What the script makes of a batch. -/
theorem indexBatch_eq (hp : p ≠ "") (h : Backfilling p s w) {b : List String} {next : UInt64}
    (hst : w.stage = .index b next) (clock : ℕ) :
    ∃ n u, w.indexBatch drv p clock
        = ⟨u, BackfillWorld.afterBatch next (w.indexed + n), w.indexed + n, w.found⟩
      ∧ BatchIndexed p w.redis b u := by
  obtain ⟨n, u, hrun, hu⟩ := backfillLua_indexes hp h.typed (h.batch b next hst) clock
  refine ⟨n, u, ?_, hu⟩
  simp only [BackfillWorld.indexBatch, hst, hrun]

theorem indexBatch_of_ne {clock : ℕ} (hst : ∀ b next, w.stage ≠ .index b next) :
    w.indexBatch drv p clock = w := by
  unfold BackfillWorld.indexBatch
  split
  · next b next he => exact absurd he (hst b next)
  · rfl

/-- The script has run. -/
theorem indexBatch (hp : p ≠ "") (h : Backfilling p s w) (clock : ℕ) :
    Backfilling p s (w.indexBatch drv p clock) := by
  by_cases hst : ∃ b next, w.stage = .index b next
  · obtain ⟨b, next, hst⟩ := hst
    obtain ⟨n, u, heq, hu⟩ := h.indexBatch_eq drv hp hst clock
    rw [heq]
    exact h.indexes hp hst hu (Or.inl rfl) (w.indexed + n)
  · rwa [indexBatch_of_ne (fun b next he => hst ⟨b, next, he⟩)]

/-- **Every step keeps it.** -/
theorem step (hp : p ≠ "") (h : Backfilling p s w) {e : BackfillEvent}
    (he : BackfillWorld.Promised p w e) :
    Backfilling p s ((BackfillWorld.system drv p).step w e).2 := by
  cases e with
  | tick d => exact h.tick d
  | scan reply => exact h.scanned hp he
  | index clock => exact h.indexBatch hp clock
  | lost ran clock e => exact h.lose hp ran clock e

variable (drv) in
/-- **What a step does to the server**: nothing, time passes, or the script
runs on a batch. -/
theorem step_redis (hp : p ≠ "") (h : Backfilling p s w) (e : BackfillEvent) :
    ((BackfillWorld.system drv p).step w e).2.redis = w.redis
      ∨ (∃ d, ((BackfillWorld.system drv p).step w e).2.redis = w.redis.tick d)
      ∨ ∃ b next, w.stage = .index b next
        ∧ (BackfillWorld.NotLast p w e ↔ ∀ k ∈ b, w.redis.pttlReply k = 0 →
          w.redis.Mem (indexKey p) k ∨ w.redis.Mem (expiryKey p) k)
        ∧ BatchIndexed p w.redis b ((BackfillWorld.system drv p).step w e).2.redis := by
  cases e with
  | tick d => exact Or.inr (Or.inl ⟨d, rfl⟩)
  | scan reply =>
    refine Or.inl ?_
    show (w.scanned p reply).redis = w.redis
    unfold BackfillWorld.scanned
    split <;> rfl
  | index clock =>
    show (w.indexBatch drv p clock).redis = w.redis ∨ _
    by_cases hst : ∃ b next, w.stage = .index b next
    · obtain ⟨b, next, hst⟩ := hst
      obtain ⟨n, u, heq, hu⟩ := h.indexBatch_eq drv hp hst clock
      refine Or.inr (Or.inr ⟨b, next, hst, ?_, ?_⟩)
      · simp only [BackfillWorld.NotLast, hst]
      · show BatchIndexed p w.redis b (w.indexBatch drv p clock).redis
        rw [heq]
        exact hu
    · rw [indexBatch_of_ne (fun b next he => hst ⟨b, next, he⟩)]
      exact Or.inl rfl
  | lost ran clock e =>
    show (w.lose p ran clock e).redis = w.redis ∨ _
    cases hst : w.stage with
    | index b next =>
      cases ran with
      | false =>
        refine Or.inl ?_
        simp only [BackfillWorld.lose, hst]
        rfl
      | true =>
        obtain ⟨n, u, hrun, hu⟩ := backfillLua_indexes hp h.typed (h.batch b next hst) clock
        refine Or.inr (Or.inr ⟨b, next, rfl, ?_, ?_⟩)
        · simp only [BackfillWorld.NotLast, hst]
        · show BatchIndexed p w.redis b (w.lose p true clock e).redis
          simp only [BackfillWorld.lose, hst, hrun]
          exact hu
    | scan cursor =>
      refine Or.inl ?_
      simp only [BackfillWorld.lose, hst]
    | returned r =>
      refine Or.inl ?_
      simp only [BackfillWorld.lose, hst]

/-- Memberships do not pass with time. -/
theorem mem_tick {t : Redis} {z : String} (hz : t.ZKey z) (d : ℕ) (k : String) :
    (t.tick d).Mem z k ↔ t.Mem z k := Redis.mem_congr (hz.lookup_tick d)

/-- **A step that meets no key first in its last millisecond** leaves what is
listed entered. -/
theorem entered_step (hp : p ≠ "") (h : Backfilling p s w) {e : BackfillEvent}
    (he : BackfillWorld.NotLast p w e) (hin : EnteredListed p s w.redis) :
    EnteredListed p s ((BackfillWorld.system drv p).step w e).2.redis := by
  rcases h.step_redis drv hp e with hsame | ⟨n, htick⟩ | ⟨b, next, hst, hlast, hu⟩
  · rwa [hsame]
  · rw [htick]
    intro k v d hs hk hl
    rw [mem_tick h.typed.index] at hk
    rw [mem_tick h.typed.expiry]
    exact hin k v d hs hk hl
  · intro k v d hs hk hl
    rw [hu.entered]
    rcases (hu.listed k).mp hk with hk | ⟨hkb, hlive⟩
    · exact Or.inl (hin k v d hs hk hl)
    · obtain ⟨o, ho⟩ := Option.isSome_iff_exists.mp hlive
      obtain rfl : o = ⟨v, some d⟩ :=
        Option.some.inj ((h.since k o (h.batch b next hst k hkb) ho).symm.trans hl)
      have hleft := (Redis.pttlReply_of_lookup ho).2
      by_cases hzero : w.redis.pttlReply k = 0
      · rcases hlast.mp he k hkb hzero with hm | hm
        · exact Or.inl (hin k v d hs hm hl)
        · exact Or.inl hm
      · exact Or.inr ⟨hkb, by omega⟩

/-- **Stranded once, stranded for good.** -/
theorem stranded_step (hp : p ≠ "") (h : Backfilling p s w) (e : BackfillEvent) {k : String}
    (hk : Stranded p s k w.redis) :
    Stranded p s k ((BackfillWorld.system drv p).step w e).2.redis := by
  rcases h.step_redis drv hp e with hsame | ⟨n, htick⟩ | ⟨b, next, hst, -, hu⟩
  · rwa [hsame]
  · rw [htick]
    refine ⟨hk.data, hk.unlisted, hk.expires, (mem_tick h.typed.index n k).mpr hk.listed,
      fun hm => hk.out ((mem_tick h.typed.expiry n k).mp hm),
      Redis.pttlReply_tick_le hk.last n⟩
  · have hpttl := hu.pttlReply (IndexInv.IsDataKey.ne_index hp hk.data)
      (IndexInv.IsDataKey.ne_expiry hp hk.data)
    refine ⟨hk.data, hk.unlisted, hk.expires, (hu.listed k).mpr (Or.inl hk.listed),
      fun hm => ?_, hpttl.le.trans hk.last⟩
    rcases (hu.entered k).mp hm with hm | hm
    · exact hk.out hm
    · exact absurd hm.2 (Int.not_lt.mpr hk.last)

/-- A backfill that has failed stays so. -/
theorem failed_step {e' : ClusterError} (hst : w.stage = .returned (.error e'))
    (e : BackfillEvent) :
    ((BackfillWorld.system drv p).step w e).2.stage = .returned (.error e') := by
  cases e with
  | tick d => exact hst
  | scan reply =>
    show (w.scanned p reply).stage = _
    simp only [BackfillWorld.scanned, hst]
  | index clock =>
    show (w.indexBatch drv p clock).stage = _
    simp only [BackfillWorld.indexBatch, hst]
  | lost ran clock e =>
    show (w.lose p ran clock e).stage = _
    simp only [BackfillWorld.lose, hst]

/-- **A key that is met first in its last millisecond is stranded**, or the
backfill has failed. -/
theorem stranded_of_last (hp : p ≠ "") (h : Backfilling p s w) {e : BackfillEvent}
    (he : ¬ BackfillWorld.NotLast p w e) :
    (∃ k, Stranded p s k ((BackfillWorld.system drv p).step w e).2.redis)
      ∨ ∃ e', ((BackfillWorld.system drv p).step w e).2.stage = .returned (.error e') := by
  cases e with
  | tick d => exact absurd trivial he
  | scan reply => exact absurd trivial he
  | index clock =>
    cases hst : w.stage with
    | index b next =>
      obtain ⟨n, u, heq, hu⟩ := h.indexBatch_eq drv hp hst clock
      simp only [BackfillWorld.NotLast, hst] at he
      push Not at he
      obtain ⟨k, hkb, hzero, hindex, hexpiry⟩ := he
      have hdata := h.batch b next hst k hkb
      have hpttl := hu.pttlReply (IndexInv.IsDataKey.ne_index hp hdata)
        (IndexInv.IsDataKey.ne_expiry hp hdata)
      obtain ⟨v, d, hl⟩ := Redis.expiring_of_pttlReply hzero.ge
      have hlive : w.redis.Live k := by
        rw [Redis.Live, hl]
        rfl
      refine Or.inl ⟨k, ?_⟩
      show Stranded p s k (w.indexBatch drv p clock).redis
      rw [heq]
      refine ⟨hdata, fun hm => hindex (h.kept k hm), ⟨v, d, h.since k _ hdata hl⟩,
        (hu.listed k).mpr (Or.inr ⟨hkb, hlive⟩), fun hm => ?_, (hpttl.trans hzero).le⟩
      rcases (hu.entered k).mp hm with hm | hm
      · exact hexpiry hm
      · omega
    | scan cursor => exact absurd (by simp only [BackfillWorld.NotLast, hst]) he
    | returned r => exact absurd (by simp only [BackfillWorld.NotLast, hst]) he
  | lost ran clock e =>
    refine Or.inr ⟨e, ?_⟩
    show (w.lose p ran clock e).stage = _
    unfold BackfillWorld.NotLast at he
    cases hst : w.stage with
    | index b next => simp only [BackfillWorld.lose, hst]
    | scan cursor => simp only [BackfillWorld.lose, hst]
    | returned r =>
      rw [hst] at he
      exact absurd trivial he

/-- **A run in which a key is met first in its last millisecond** ends with
a key that is stranded, if it does not fail. -/
theorem stranded_of_run (hp : p ≠ "") (h : Backfilling p s w) {es : List BackfillEvent}
    (hes : (BackfillWorld.system drv p).Along (BackfillWorld.Promised p) w es)
    (hno : ¬ (BackfillWorld.system drv p).Along (BackfillWorld.NotLast p) w es) :
    (∃ k, Stranded p s k ((BackfillWorld.system drv p).final w es).redis)
      ∨ ∃ e, ((BackfillWorld.system drv p).final w es).stage = .returned (.error e) := by
  induction es generalizing w with
  | nil => exact absurd trivial hno
  | cons e es ih =>
    by_cases he : BackfillWorld.NotLast p w e
    · exact ih (h.step hp hes.1) hes.2 (fun hrest => hno ⟨he, hrest⟩)
    · -- from here on the key is stranded, or the failure stays
      have hstuck := (BackfillWorld.system drv p).inv_final
        (I := fun v => Backfilling p s v
          ∧ ((∃ k, Stranded p s k v.redis) ∨ ∃ e, v.stage = .returned (.error e)))
        (fun v e' hv he' => ⟨hv.1.step hp he', hv.2.imp
          (fun ⟨k, hk⟩ => ⟨k, hv.1.stranded_step hp e' hk⟩)
          (fun ⟨e, hst⟩ => ⟨e, failed_step hst e'⟩)⟩)
        ⟨h.step hp hes.1, h.stranded_of_last hp he⟩ hes.2
      exact hstuck.2

/-- **A run that meets no key first in its last millisecond** leaves what
it has listed entered. -/
theorem entered_of_run (hp : p ≠ "") (hs : IndexTyped p s) {es : List BackfillEvent}
    (hes : (BackfillWorld.system drv p).Along (BackfillWorld.Promised p)
      (BackfillWorld.start s) es)
    (hlast : (BackfillWorld.system drv p).Along (BackfillWorld.NotLast p)
      (BackfillWorld.start s) es) :
    EnteredListed p s ((BackfillWorld.system drv p).final (BackfillWorld.start s) es).redis :=
  ((BackfillWorld.system drv p).inv_final
    (I := fun v => Backfilling p s v ∧ EnteredListed p s v.redis)
    (fun _ _ hv he => ⟨hv.1.step hp he.1, hv.1.entered_step hp he.2 hv.2⟩)
    ⟨start hs, fun _ _ _ hno hk _ => absurd hk hno⟩ (hes.and hlast)).2

theorem of_run (hp : p ≠ "") (hs : IndexTyped p s) {es : List BackfillEvent}
    (hes : (BackfillWorld.system drv p).Along (BackfillWorld.Promised p)
      (BackfillWorld.start s) es) :
    Backfilling p s ((BackfillWorld.system drv p).final (BackfillWorld.start s) es) :=
  (BackfillWorld.system drv p).inv_final (fun _ _ hv he => hv.step hp he) (start hs) hes

/-- What has been entered is swept once it is gone. -/
theorem leavesSweepable (hp : p ≠ "") (h : Backfilling p s w) {n : ℕ}
    (hst : w.stage = .returned (.ok n)) (hin : EnteredListed p s w.redis) :
    LeavesSweepable p s w.redis where
  listed := by
    have hcovers := h.covers
    rwa [BackfillWorld.Covers, hst] at hcovers
  entered := hin
  dropped := by
    intro k v d hs hk hl m hgone
    have hdata := (h.listed k hk).resolve_left hs
    have hmem := (mem_tick h.typed.expiry m k).mpr (hin k v d hs hk hl)
    obtain ⟨x, hx⟩ := Option.isSome_iff_exists.mp hmem
    have hzkeys : (w.redis.tick m).ZKeys (indexKey p) (expiryKey p) :=
      ⟨h.typed.index.congr (h.typed.index.lookup_tick m),
        h.typed.expiry.congr (h.typed.expiry.lookup_tick m)⟩
    refine ⟨x, fun now hdue => ⟨mem_dueKeys.mpr ⟨x, hx, hdue⟩, fun due hin' => ?_⟩⟩
    rw [sweepLua_eq hzkeys]
    exact not_mem_index_sweepKeys (indexKey_ne_expiryKey p) (IndexInv.IsDataKey.ne_index hp hdata)
      (IndexInv.IsDataKey.ne_expiry hp hdata) hgone (Or.inl hin')

end Backfilling

/-- **A backfill leaves what it has listed sweepable exactly when it met no
key first in its last millisecond**: in every run of it that returns, with
whatever the indexes held before, nobody else acting, and time passing
between its commands. Whether or not, every live data key is listed. -/
theorem backfill_sweepable_iff (drv : Driver) {p : String} (hp : p ≠ "") {s : Redis}
    (hs : IndexTyped p s) {es : List BackfillEvent}
    (hes : (BackfillWorld.system drv p).Along (BackfillWorld.Promised p)
      (BackfillWorld.start s) es) {n : ℕ}
    (hn : (BackfillWorld.after drv p s es).stage = .returned (.ok n)) :
    (LeavesSweepable p s (BackfillWorld.after drv p s es).redis
        ↔ (BackfillWorld.system drv p).Along (BackfillWorld.NotLast p) (BackfillWorld.start s) es)
      ∧ ∀ k, IsDataKey p k → (BackfillWorld.after drv p s es).redis.Live k →
        (BackfillWorld.after drv p s es).redis.Mem (indexKey p) k := by
  have hfinal : Backfilling p s (BackfillWorld.after drv p s es) := Backfilling.of_run hp hs hes
  refine ⟨⟨fun h => ?_, fun hlast => ?_⟩, ?_⟩
  · by_contra hno
    rcases (Backfilling.start hs).stranded_of_run hp hes hno with ⟨k, hk⟩ | ⟨e, he⟩
    · obtain ⟨v, d, hl⟩ := hk.expires
      exact hk.out (h.entered k v d hk.unlisted hk.listed hl)
    · exact absurd (hn.symm.trans he) (by simp)
  · exact hfinal.leavesSweepable hp hn (Backfilling.entered_of_run hp hs hes hlast)
  · have hcovers := hfinal.covers
    rwa [BackfillWorld.Covers, hn] at hcovers

/-- A key that an older build wrote, for ten milliseconds. -/
def unlistedKey : Redis := (Redis.empty 0).put "p:k" ⟨.str [], some 10⟩

/-- A backfill of it, that begins when some of its time has passed. -/
def backfillAt (t : ℕ) : List BackfillEvent := [.tick t, .scan (0, ["p:k"]), .index t]

theorem promised_backfillAt (t : ℕ) :
    (BackfillWorld.system Driver.plain "p").Along (BackfillWorld.Promised "p")
      (BackfillWorld.start unlistedKey) (backfillAt t) := by
  refine ⟨trivial, ⟨fun k hk => ?_, fun _ k _ hl => ?_⟩, trivial, trivial⟩
  · rw [List.mem_singleton.mp hk]
    decide +kernel
  · exact List.mem_singleton.mpr (Redis.eq_of_live_put (Redis.live_of_tick hl))

theorem typed_unlistedKey : IndexTyped "p" unlistedKey := by
  have hnone : ∀ z, z ≠ "p:k" → unlistedKey.ZKey z := by
    intro z hz
    refine Redis.ZKey.put ?_ hz
    exact fun o ho => absurd ho (by simp [Redis.lookup, Redis.empty])
  exact ⟨hnone _ (by decide), hnone _ (by decide)⟩

/-- A backfill that meets the key with time left. -/
theorem backfill_sweepable_in_time :
    LeavesSweepable "p" unlistedKey
      (BackfillWorld.after Driver.plain "p" unlistedKey (backfillAt 3)).redis := by
  have hleft : (unlistedKey.tick 3).pttlReply "p:k" ≠ 0 := by decide +kernel
  refine (backfill_sweepable_iff Driver.plain (by decide) typed_unlistedKey (n := 1)
    (promised_backfillAt 3) rfl).1.mpr ⟨trivial, trivial, fun k hk hzero => ?_, trivial⟩
  replace hk : k ∈ ["p:k"] := hk
  rw [List.mem_singleton.mp hk] at hzero
  exact absurd hzero hleft

/-- **A backfill that meets the key in its last millisecond** lists it, and
does not enter it; and when it is gone, it is listed still, and no sweep
finds it by any clock. -/
theorem backfill_strands_key :
    (BackfillWorld.after Driver.plain "p" unlistedKey (backfillAt 10)).stage = .returned (.ok 1)
      ∧ (unlistedKey.tick 10).pttlReply "p:k" = 0
      ∧ ¬ ((BackfillWorld.after Driver.plain "p" unlistedKey (backfillAt 10)).redis.tick 1).Live
        "p:k"
      ∧ ((BackfillWorld.after Driver.plain "p" unlistedKey (backfillAt 10)).redis.tick 1).Mem
        (indexKey "p") "p:k"
      ∧ (∀ now, dueKeys "p" now
        ((BackfillWorld.after Driver.plain "p" unlistedKey (backfillAt 10)).redis.tick 1) = [])
      ∧ ¬ LeavesSweepable "p" unlistedKey
        (BackfillWorld.after Driver.plain "p" unlistedKey (backfillAt 10)).redis := by
  have hlisted : (BackfillWorld.after Driver.plain "p" unlistedKey (backfillAt 10)).redis.Mem
      (indexKey "p") "p:k" := by decide +kernel
  have hout : ¬ (BackfillWorld.after Driver.plain "p" unlistedKey (backfillAt 10)).redis.Mem
      (expiryKey "p") "p:k" := by decide +kernel
  have hnew : ¬ unlistedKey.Mem (indexKey "p") "p:k" := by decide +kernel
  have hempty : (((BackfillWorld.after Driver.plain "p" unlistedKey (backfillAt 10)).redis.tick
      1).zmembers (expiryKey "p")).keys = [] := by decide +kernel
  refine ⟨rfl, by decide +kernel, by decide +kernel, by decide +kernel, fun now => ?_, fun h => ?_⟩
  · rw [dueKeys, hempty]
    rfl
  · exact hout (h.entered "p:k" _ _ hnew hlisted (Redis.lookup_put_self _ (by decide)))
