import ClusterRedis.Maintenance

/-!
# The fresh look at the registrations

A completion of the key index looks for builds that do not keep it, by a
scan of the registrations that is not the remembered one. What the look is
good for is `InOrder.passed`: a task that goes on to the mark has missed no
older build that was registered from the moment it forgot the last scan to
the end of the scan it used.

The scan it uses began after the last one was forgotten, because to forget
takes the lock under which a scan runs (`Arranged.lock`). A node registered
from then to the end of the scan is there throughout the scan, so the scan
returns its key (`Arranged.scans`) and its registration is found; and no
older build's id is in the sorted set, which would hide it.
-/

open RedisKv Numerals

variable {ι π : Type} {α : Type}

/-! ## What commands leave of the server -/

namespace Redis

variable {s : Redis} {z : String}

theorem mem_of_zrangebyscore {lo : ℤ} {ids : List String}
    (h : (zrangebyscore z lo s).1 = .ok ids) : ∀ m ∈ ids, s.Mem z m := by
  unfold zrangebyscore onZSet at h
  split at h
  · exact nomatch h
  · obtain rfl := Except.ok.inj h
    intro m hm
    rw [List.mem_insertionSort, List.mem_filter] at hm
    exact AList.lookup_isSome.mpr hm.1

theorem zrangebyscore_snd {lo : ℤ} : (zrangebyscore z lo s).2 = s := by
  unfold zrangebyscore onZSet
  split <;> rfl

/-- Removing members of one sorted set leaves every other key, and no member
that was not there. -/
theorem foldl_zdel (ms : List String) :
    (∀ k, k ≠ z → (ms.foldl (fun t m => t.zdel z m) s).lookup k = s.lookup k)
      ∧ ∀ m, (ms.foldl (fun t m => t.zdel z m) s).Mem z m → s.Mem z m := by
  induction ms generalizing s with
  | nil => exact ⟨fun _ _ => rfl, fun _ h => h⟩
  | cons x ms ih =>
    obtain ⟨hl, hm⟩ := ih (s := s.zdel z x)
    refine ⟨fun k hk => (hl k hk).trans (lookup_zdel_of_ne s hk), fun m h => ?_⟩
    exact ((mem_zdel s).mp (hm m h)).2

theorem zremrangebyscore_snd (hi : ℤ) :
    (∀ k, k ≠ z → (zremrangebyscore z hi s).2.lookup k = s.lookup k)
      ∧ ∀ m, (zremrangebyscore z hi s).2.Mem z m → s.Mem z m := by
  unfold zremrangebyscore onZSet
  split
  · exact ⟨fun _ _ => rfl, fun _ h => h⟩
  · exact foldl_zdel _

end Redis

theorem peersIndexKey_foreign {p : String} (hp : p ≠ "") : Foreign p (peersIndexKey p) := by
  refine ⟨?_, ?_, ?_⟩
  · rintro ⟨c, hc⟩
    exact fullKey_ne_hash hp c "peers" hc.symm
  · exact fun h => by simpa [peersIndexKey, indexKey] using congrArg String.toList h
  · exact fun h => by simpa [peersIndexKey, expiryKey] using congrArg String.toList h

/-- What is foreign and only loses members keeps none that was not there. -/
theorem Framed.mem_of_foreign {p : String} {s t : Redis} (h : Framed p s t) {z m : String}
    (hz : Foreign p z) (hm : t.Mem z m) : s.Mem z m := by
  cases ho : t.lookup z with
  | none =>
    rw [Redis.Mem, Redis.score, Redis.zmembers, ho] at hm
    exact absurd hm (by simp)
  | some o => exact (Redis.mem_congr (ho.trans (h.foreign z hz o ho).symm)).mp hm

/-- **What a task leaves of the server**: typed indexes, no new gap, and no
new node in the sorted set. -/
structure Settles (p : String) (s t : Redis) : Prop where
  typed : IndexTyped p t
  gap : ∀ k, Gap p t k → Gap p s k
  peers : ∀ id, t.Mem (peersIndexKey p) id → s.Mem (peersIndexKey p) id

theorem Settles.refl {p : String} {s : Redis} (h : IndexTyped p s) : Settles p s s :=
  ⟨h, fun _ hk => hk, fun _ hm => hm⟩

theorem Tended.settles {p : String} {s t : Redis} (hp : p ≠ "") (h : Tended p s t) :
    Settles p s t :=
  ⟨h.typed, h.gap, fun _ hm => h.mem_of_foreign (peersIndexKey_foreign hp) hm⟩

/-- A key that is no data key and no index is changed. -/
theorem Settles.outside {p : String} {s t : Redis} (h : IndexTyped p s) {z : String}
    (hz : Foreign p z) (hl : ∀ k, k ≠ z → t.lookup k = s.lookup k)
    (hm : z = peersIndexKey p → ∀ m, t.Mem z m → s.Mem z m) : Settles p s t where
  typed := ⟨h.index.congr (hl _ hz.2.1.symm), h.expiry.congr (hl _ hz.2.2.symm)⟩
  gap := by
    rintro k ⟨hk, hlive, hmem⟩
    rw [Redis.mem_congr (hl _ hz.2.1.symm)] at hmem
    rw [Redis.live_congr (hl k (fun he => hz.1 (he ▸ hk)))] at hlive
    exact ⟨hk, hlive, hmem⟩
  peers := by
    intro id hid
    by_cases hne : z = peersIndexKey p
    · subst hne
      exact hm rfl id hid
    · exact (Redis.mem_congr (hl _ (fun he => hne he.symm))).mp hid

theorem Settles.marked {p : String} {s t : Redis} (hp : p ≠ "") (h : IndexTyped p s)
    (hl : ∀ k, k ≠ completeKey p → t.lookup k = s.lookup k) : Settles p s t :=
  Settles.outside h (Tended.completeKey_foreign hp) hl
    (fun he => absurd (congrArg String.toList he) (by simp [peersIndexKey, completeKey]))

/-! ## Steps of a task -/

namespace FleetWorld

variable {w : FleetWorld ι π} {t : Turn} {x : Script α}
  {ok : α → FleetWorld ι π → FleetWorld ι π} {err : FleetWorld ι π → FleetWorld ι π}
  {P : FleetWorld ι π → Prop}

/-- **The ends of a command.** -/
theorem send_of (herr : P (err w)) (herr' : P (err { w with redis := (x w.redis).2 }))
    (hok : ∀ a, (x w.redis).1 = .ok a → P (ok a { w with redis := (x w.redis).2 })) :
    P (w.send t x ok err) := by
  unfold send
  split
  · exact herr
  · exact herr'
  · split
    · next a ha => exact hok a ha
    · exact herr'

/-- The ends of a command that only reads. -/
theorem send_of_read (hx : (x w.redis).2 = w.redis) (herr : P (err w))
    (hok : ∀ a, (x w.redis).1 = .ok a → P (ok a w)) : P (w.send t x ok err) := by
  have hw : ({ w with redis := (x w.redis).2 } : FleetWorld ι π) = w := by rw [hx]
  refine send_of herr (by rwa [hw]) (fun a ha => ?_)
  rw [hw]
  exact hok a ha

variable [DecidableEq ι]

@[simp] theorem goto_stage_self (w : FleetWorld ι π) (i : ι) (st : Stage) :
    (w.goto i st).stage i = st := Function.update_self _ _ _

theorem goto_stage_of_ne (w : FleetWorld ι π) {i j : ι} (st : Stage) (h : j ≠ i) :
    (w.goto i st).stage j = w.stage j := Function.update_of_ne h _ _

@[simp] theorem book_books_self (w : FleetWorld ι π) (i : ι) (b : TaskBooks) :
    (w.book i b).books i = b := Function.update_self _ _ _

@[simp] theorem book_stage (w : FleetWorld ι π) (i : ι) (b : TaskBooks) :
    (w.book i b).stage = w.stage := rfl

theorem book_books_of_ne (w : FleetWorld ι π) {i j : ι} (b : TaskBooks) (h : j ≠ i) :
    (w.book i b).books j = w.books j := Function.update_of_ne h _ _

theorem book_enrolled (w : FleetWorld ι π) (i j : ι) {b : TaskBooks}
    (h : b.enrolled = (w.books i).enrolled) :
    ((w.book i b).books j).enrolled = (w.books j).enrolled := by
  by_cases hji : j = i
  · subst hji
    rw [book_books_self, h]
  · rw [book_books_of_ne w b hji]

end FleetWorld

namespace Fleet

variable [DecidableEq ι] [DecidableEq π] (F : Fleet ι π) {w : FleetWorld ι π} {i : ι} {t : Turn}

@[simp] theorem concluded_redis (c : Caller) (ids : List String) (found : List Registration)
    (sc : PeerScan ι) : (F.concluded w i t c ids found sc).redis = w.redis := by
  unfold concluded
  cases c with
  | tick => dsimp only; split <;> rfl
  | completion started => dsimp only; split <;> rfl
  | operator => dsimp only; split <;> rfl
  | peers => rfl

omit [DecidableEq ι] [DecidableEq π] in
theorem markIndexComplete_lookup (drv : Driver) (p : String) (started : ℕ) (s : Redis) {k : String}
    (hk : k ≠ completeKey p) : (markIndexComplete drv p started s).2.lookup k = s.lookup k :=
  Redis.lookup_put_of_ne s hk

omit [DecidableEq ι] [DecidableEq π] in
theorem invalidateIndex_lookup (drv : Driver) (p : String) (s : Redis) {k : String}
    (hk : k ≠ completeKey p) : (invalidateIndex drv p s).2.lookup k = s.lookup k := by
  rw [invalidateIndex, Call.invoke_snd]
  unfold Redis.delete
  split
  · exact Redis.lookup_del_of_ne s hk
  · rfl

/-- **A step of a task settles the server.** -/
theorem taskStep_settles (hp : F.p ≠ "") (h : IndexTyped F.p w.redis) (i : ι) (t : Turn) :
    Settles F.p w.redis (F.taskStep w i t).redis := by
  have hsame := Settles.refl h
  unfold taskStep
  cases hst : w.stage i with
  | idle => dsimp only; cases F.duty i <;> exact hsame
  | range c =>
    exact FleetWorld.send_of_read (P := fun v => Settles F.p w.redis v.redis)
      Redis.zrangebyscore_snd hsame (fun _ _ => hsame)
  | trim c ids now =>
    obtain ⟨hl, hm⟩ := Redis.zremrangebyscore_snd (s := w.redis) (z := peersIndexKey F.p)
      (Double.round now)
    have htrim := Settles.outside h (peersIndexKey_foreign hp) hl (fun _ => hm)
    exact FleetWorld.send_of (P := fun v => Settles F.p w.redis v.redis) hsame htrim
      (fun _ _ => htrim)
  | read c ids =>
    refine FleetWorld.send_of_read (P := fun v => Settles F.p w.redis v.redis) rfl hsame
      (fun values _ => ?_)
    split <;> exact hsame
  | enter c ids found =>
    dsimp only
    split
    · exact hsame
    · split
      · rw [concluded_redis]
        exact hsame
      · exact hsame
  | scan c ids found cursor keys => dsimp only; split <;> exact hsame
  | fetch c ids found keys =>
    refine FleetWorld.send_of_read (P := fun v => Settles F.p w.redis v.redis) rfl hsame
      (fun values _ => ?_)
    dsimp only
    split
    · rw [concluded_redis]
      exact hsame
    · exact hsame
  | invalidate seen =>
    dsimp only
    split
    · exact hsame
    · exact Settles.marked hp h (fun k hk => invalidateIndex_lookup F.drv F.p w.redis hk)
  | ask =>
    exact FleetWorld.send_of_read (P := fun v => Settles F.p w.redis v.redis) rfl hsame
      (fun _ _ => hsame)
  | told complete => exact hsame
  | lock unindexed => exact hsame
  | sweep unindexed => exact hsame
  | backfill operator started cursor => dsimp only; split <;> exact hsame
  | index operator started batch next =>
    have hback := (Tended.backfill hp h t.clock batch).settles hp
    exact FleetWorld.send_of (P := fun v => Settles F.p w.redis v.redis) hsame hback
      (fun _ _ => hback)
  | forget c => dsimp only; split <;> exact hsame
  | mark operator started =>
    dsimp only
    split
    · exact hsame
    · exact Settles.marked hp h (fun k hk => markIndexComplete_lookup F.drv F.p started w.redis hk)
  | ready => exact hsame

/-- A key that no task writes. -/
structure Untouched (p k : String) : Prop where
  peers : k ≠ peersIndexKey p
  index : k ≠ indexKey p
  expiry : k ≠ expiryKey p
  complete : k ≠ completeKey p

/-- **The tasks write no registration and no data key.** -/
theorem taskStep_lookup (h : IndexTyped F.p w.redis) (i : ι) (t : Turn) {k : String}
    (hk : Untouched F.p k) : (F.taskStep w i t).redis.lookup k = w.redis.lookup k := by
  let P : FleetWorld ι π → Prop := fun v => v.redis.lookup k = w.redis.lookup k
  have hw : P w := rfl
  show P (F.taskStep w i t)
  unfold taskStep
  cases hst : w.stage i with
  | idle => dsimp only; cases F.duty i <;> exact hw
  | range c => exact FleetWorld.send_of_read (P := P) Redis.zrangebyscore_snd hw (fun _ _ => hw)
  | trim c ids now =>
    have htrim := (Redis.zremrangebyscore_snd (s := w.redis) (z := peersIndexKey F.p)
      (Double.round now)).1 k hk.peers
    exact FleetWorld.send_of (P := P) hw htrim (fun _ _ => htrim)
  | read c ids =>
    refine FleetWorld.send_of_read (P := P) rfl hw (fun values _ => ?_)
    split <;> exact hw
  | enter c ids found =>
    dsimp only
    split
    · exact hw
    · split
      · exact congrArg (Redis.lookup · k) (F.concluded_redis c ids found _)
      · exact hw
  | scan c ids found cursor keys => dsimp only; split <;> exact hw
  | fetch c ids found keys =>
    refine FleetWorld.send_of_read (P := P) rfl hw (fun values _ => ?_)
    dsimp only
    split
    · exact congrArg (Redis.lookup · k) (F.concluded_redis c ids found _)
    · exact hw
  | invalidate seen =>
    dsimp only
    split
    · exact hw
    · exact invalidateIndex_lookup F.drv F.p w.redis hk.complete
  | ask => exact FleetWorld.send_of_read (P := P) rfl hw (fun _ _ => hw)
  | told complete => exact hw
  | lock unindexed => exact hw
  | sweep unindexed => exact hw
  | backfill operator started cursor => dsimp only; split <;> exact hw
  | index operator started batch next =>
    have hback := lookup_backfillLua ⟨h.index, h.expiry⟩ t.clock batch hk.index hk.expiry
    exact FleetWorld.send_of (P := P) hw hback (fun _ _ => hback)
  | forget c => dsimp only; split <;> exact hw
  | mark operator started =>
    dsimp only
    split
    · exact hw
    · exact markIndexComplete_lookup F.drv F.p started w.redis hk.complete
  | ready => exact hw

end Fleet

/-! ## The nodes -/

/-- The caller has forgotten the last scan. -/
def Caller.looks : Caller → Bool
  | completion _ | operator => true
  | tick | peers => false

namespace Stage

/-- The node ids a listing has read. -/
def ids : Stage → List String
  | trim _ ids _ | read _ ids | enter _ ids _ | scan _ ids _ _ _ | fetch _ ids _ _ => ids
  | _ => []

/-- The task scans the registrations. -/
def scanning : Stage → Bool
  | scan _ _ _ _ _ | fetch _ _ _ _ => true
  | _ => false

/-- The task lists the registrations, and has forgotten the last scan. -/
def looks : Stage → Bool
  | range c | trim c _ _ | read c _ | enter c _ _ | scan c _ _ _ _ | fetch c _ _ _ => c.looks
  | _ => false

/-- The task has found no older build, and goes on to the mark. -/
def passed : Stage → Bool
  | backfill op _ _ | index op _ _ _ => op
  | mark _ _ => true
  | _ => false

end Stage

/-- **A scan for registrations can return a node's**: the prefix does not make
of its pattern one that misses the key. -/
def Findable (p id : String) : Prop := KeyMatch (peersPattern p) (peerKey p id)

theorem NoGlob.findable {p : String} (h : NoGlob p) (id : String) : Findable p id :=
  keyMatch_peerKey h id

/-- Older builds that are found. -/
def Finds (E : String → Prop) (found : List Registration) : Prop :=
  ∀ id, E id → ∃ reg, (id, reg) ∈ found ∧ reg.kvIndex = false

/-- Nodes whose registrations a scan has not missed. -/
def Sees (p : String) (E scanned : String → Prop) : Stage → Prop
  | .scan _ _ _ cursor _ => cursor ≠ 0 → ∀ id, E id → scanned (peerKey p id)
  | .fetch _ _ _ keys => ∀ id, E id → peerKey p id ∈ keys
  | _ => True

theorem sees_of_not_scanning {p : String} {E scanned : String → Prop} {st : Stage}
    (h : st.scanning = false) : Sees p E scanned st := by
  cases st <;> first | exact trivial | exact nomatch h

/-- **The tasks of a fleet are in order**, but for what is kept of the
nodes' registrations: the lock is with the task that scans, no older build
is in the sorted set, and a task that looks for older builds will not miss
one that has been registered since it forgot the last scan, if a scan can
return it. -/
structure Arranged (F : Fleet ι π) (w : FleetWorld ι π) : Prop where
  typed : IndexTyped F.p w.redis
  peers : ∀ id, F.older id → ¬ w.redis.Mem (peersIndexKey F.p) id
  lock : ∀ i, (w.stage i).scanning = true → w.holder (F.home i) = some i
  ids : ∀ i, ∀ id ∈ (w.stage i).ids, ¬ F.older id
  last : ∀ i, (w.stage i).looks = true → ∀ sc, w.last (F.home i) = some sc →
    Finds (fun id => sc.enrolled i id ∧ Findable F.p id) sc.found
  scans : ∀ i j, (w.stage i).looks = true → F.home j = F.home i →
    Sees F.p (fun id => (w.books i).enrolled id ∧ Findable F.p id) (w.books j).scanned (w.stage j)
  passed : ∀ i, (w.stage i).passed = true → ∀ id, F.older id → Findable F.p id →
    ¬ (w.books i).checked id

/-- **The tasks of a fleet are in order.** -/
structure InOrder (F : Fleet ι π) (w : FleetWorld ι π) : Prop extends Arranged F w where
  enrolled : ∀ i id, (w.books i).enrolled id → Registered F.p w.redis id

namespace Arranged

variable {F : Fleet ι π} {w v : FleetWorld ι π}

/-- What does not touch the tasks. -/
theorem congr (h : Arranged F w) (ht : IndexTyped F.p v.redis)
    (hm : ∀ id, F.older id → ¬ v.redis.Mem (peersIndexKey F.p) id) (hst : v.stage = w.stage)
    (hl : v.last = w.last) (hh : v.holder = w.holder)
    (hb : ∀ i, (v.books i).enrolled = (w.books i).enrolled
      ∧ (v.books i).scanned = (w.books i).scanned ∧ (v.books i).checked = (w.books i).checked) :
    Arranged F v where
  typed := ht
  peers := hm
  lock := by rw [hst, hh]; exact h.lock
  ids := by rw [hst]; exact h.ids
  last := by rw [hst, hl]; exact h.last
  scans := by
    intro i j
    rw [hst, (hb i).1, (hb j).2.1]
    exact h.scans i j
  passed := by
    intro i
    rw [hst, (hb i).2.2]
    exact h.passed i

/-- A change of the server that settles it. -/
theorem settles (h : Arranged F w) {s : Redis} (hs : Settles F.p w.redis s) :
    Arranged F { w with redis := s } :=
  h.congr hs.typed (fun id ho hm => h.peers id ho (hs.peers id hm)) rfl rfl rfl
    (fun _ => ⟨rfl, rfl, rfl⟩)

/-- No task of a process scans when nobody has its lock. -/
theorem not_scanning (h : Arranged F w) {x : π} (hx : w.holder x = none) {j : ι}
    (hj : F.home j = x) : (w.stage j).scanning = false := by
  rw [Bool.eq_false_iff]
  intro hs
  have hlock := h.lock j hs
  rw [hj, hx] at hlock
  exact nomatch hlock

/-- The lock of a process where no task scans changes hands. -/
theorem setHolder [DecidableEq π] (h : Arranged F w) (x : π)
    (hx : ∀ j, F.home j = x → (w.stage j).scanning = false) (o : Option ι) :
    Arranged F { w with holder := Function.update w.holder x o } where
  typed := h.typed
  peers := h.peers
  lock := by
    intro j hj
    have hne : F.home j ≠ x := fun he => by
      have := hx j he
      rw [show (w.stage j).scanning = true from hj] at this
      exact nomatch this
    exact (Function.update_of_ne hne _ _).trans (h.lock j hj)
  ids := h.ids
  last := h.last
  scans := h.scans
  passed := h.passed

/-- The last scan of a process changes, to one that found what it should. -/
theorem setLast [DecidableEq π] (h : Arranged F w) (x : π) (o : Option (PeerScan ι))
    (ho : ∀ i, F.home i = x → (w.stage i).looks = true → ∀ sc, o = some sc →
      Finds (fun id => sc.enrolled i id ∧ Findable F.p id) sc.found) :
    Arranged F { w with last := Function.update w.last x o } where
  typed := h.typed
  peers := h.peers
  lock := h.lock
  ids := h.ids
  last := by
    intro i hi sc hsc
    replace hsc : Function.update w.last x o (F.home i) = some sc := hsc
    by_cases hx : F.home i = x
    · rw [hx, Function.update_self] at hsc
      exact ho i hx hi sc hsc
    · rw [Function.update_of_ne hx] at hsc
      exact h.last i hi sc hsc
  scans := h.scans
  passed := h.passed

variable [DecidableEq ι]

/-- What is kept beside a task changes, but not what is relied on. -/
theorem book (h : Arranged F w) (i : ι) {b : TaskBooks}
    (hs : (w.stage i).scanning = true → b.scanned = (w.books i).scanned)
    (he : (w.stage i).looks = true → b.enrolled = (w.books i).enrolled)
    (hc : (w.stage i).passed = true → b.checked = (w.books i).checked) :
    Arranged F (w.book i b) where
  typed := h.typed
  peers := h.peers
  lock := h.lock
  ids := h.ids
  last := h.last
  scans := by
    intro j k hj hk
    by_cases hscan : (w.stage k).scanning = true
    swap
    · exact sees_of_not_scanning (Bool.eq_false_iff.mpr hscan)
    have hscanned : ((w.book i b).books k).scanned = (w.books k).scanned := by
      by_cases hki : k = i
      · subst hki
        rw [FleetWorld.book_books_self, hs hscan]
      · rw [FleetWorld.book_books_of_ne w b hki]
    have henrolled : ((w.book i b).books j).enrolled = (w.books j).enrolled := by
      by_cases hji : j = i
      · subst hji
        rw [FleetWorld.book_books_self, he hj]
      · rw [FleetWorld.book_books_of_ne w b hji]
    rw [hscanned, henrolled]
    exact h.scans j k hj hk
  passed := by
    intro j hj
    have hchecked : ((w.book i b).books j).checked = (w.books j).checked := by
      by_cases hji : j = i
      · subst hji
        rw [FleetWorld.book_books_self, hc hj]
      · rw [FleetWorld.book_books_of_ne w b hji]
    rw [hchecked]
    exact h.passed j hj

/-- **The task goes on.** -/
theorem goto_of (h : Arranged F w) (i : ι) {st : Stage}
    (hlock : st.scanning = true → w.holder (F.home i) = some i)
    (hids : ∀ id ∈ st.ids, ¬ F.older id)
    (hlooks : st.looks = true → (w.stage i).looks = true
      ∨ w.last (F.home i) = none ∧ ∀ j, F.home j = F.home i → (w.stage j).scanning = false)
    (hsees : ∀ k, (k = i ∧ st.looks = true ∨ (w.stage k).looks = true) → F.home i = F.home k →
      Sees F.p (fun id => (w.books k).enrolled id ∧ Findable F.p id) (w.books i).scanned st)
    (hpassed : st.passed = true → ∀ id, F.older id → Findable F.p id →
      ¬ (w.books i).checked id) :
    Arranged F (w.goto i st) where
  typed := h.typed
  peers := h.peers
  lock := by
    intro j hj
    by_cases hji : j = i
    · subst hji
      rw [FleetWorld.goto_stage_self] at hj
      exact hlock hj
    · rw [FleetWorld.goto_stage_of_ne w st hji] at hj
      exact h.lock j hj
  ids := by
    intro j
    by_cases hji : j = i
    · subst hji
      rwa [FleetWorld.goto_stage_self]
    · rw [FleetWorld.goto_stage_of_ne w st hji]
      exact h.ids j
  last := by
    intro j hj sc hsc
    by_cases hji : j = i
    · subst hji
      rw [FleetWorld.goto_stage_self] at hj
      rcases hlooks hj with hold | ⟨hnone, -⟩
      · exact h.last j hold sc hsc
      · rw [show w.last (F.home j) = some sc from hsc] at hnone
        exact nomatch hnone
    · rw [FleetWorld.goto_stage_of_ne w st hji] at hj
      exact h.last j hj sc hsc
  scans := by
    intro j k hj hk
    by_cases hki : k = i
    · subst hki
      rw [FleetWorld.goto_stage_self]
      refine hsees j ?_ hk
      by_cases hjk : j = k
      · subst hjk
        rw [FleetWorld.goto_stage_self] at hj
        exact Or.inl ⟨rfl, hj⟩
      · rw [FleetWorld.goto_stage_of_ne w st hjk] at hj
        exact Or.inr hj
    · rw [FleetWorld.goto_stage_of_ne w st hki]
      by_cases hji : j = i
      · subst hji
        rw [FleetWorld.goto_stage_self] at hj
        rcases hlooks hj with hold | ⟨-, hquiet⟩
        · exact h.scans j k hold hk
        · exact sees_of_not_scanning (hquiet k hk)
      · rw [FleetWorld.goto_stage_of_ne w st hji] at hj
        exact h.scans j k hj hk
  passed := by
    intro j hj
    by_cases hji : j = i
    · subst hji
      rw [FleetWorld.goto_stage_self] at hj
      exact hpassed hj
    · rw [FleetWorld.goto_stage_of_ne w st hji] at hj
      exact h.passed j hj

/-- The task goes on, and does not begin to scan, to look or to pass. -/
theorem goto (h : Arranged F w) (i : ι) {st : Stage} (hscan : st.scanning = false)
    (hids : ∀ id ∈ st.ids, ¬ F.older id) (hlooks : st.looks = true → (w.stage i).looks = true)
    (hpassed : st.passed = true → (w.stage i).passed = true) : Arranged F (w.goto i st) :=
  h.goto_of i (fun hs => nomatch hscan.symm.trans hs) hids (fun hl => Or.inl (hlooks hl))
    (fun _ _ _ => sees_of_not_scanning hscan) (fun hs => h.passed i (hpassed hs))

/-- The task goes on with what is no listing and no completion. -/
theorem goto_plain (h : Arranged F w) (i : ι) {st : Stage} (hscan : st.scanning = false)
    (hids : st.ids = []) (hlooks : st.looks = false) (hpassed : st.passed = false) :
    Arranged F (w.goto i st) :=
  h.goto i hscan (by rw [hids]; exact fun _ hid => absurd hid (List.not_mem_nil))
    (fun hl => nomatch hlooks.symm.trans hl) (fun hs => nomatch hpassed.symm.trans hs)

theorem goto_idle (h : Arranged F w) (i : ι) : Arranged F (w.goto i .idle) :=
  h.goto_plain i rfl rfl rfl rfl

/-- **The registrations are listed.** A caller that has forgotten the last
scan finds every older build that was enrolled, so if it passes none was. -/
theorem concluded [DecidableEq π] (h : Arranged F w) (i : ι) (t : Turn) {c : Caller}
    {ids : List String} (found : List Registration) (sc : PeerScan ι)
    (hids : ∀ id ∈ ids, ¬ F.older id)
    (hf : c.looks = true → Finds (fun id => sc.enrolled i id ∧ Findable F.p id) sc.found)
    (hps : (w.stage i).passed = false) : Arranged F (F.concluded w i t c ids found sc) := by
  have hnone : c.looks = true →
      unindexedPeer (listedRegistrations ids found sc.found) = false →
      ∀ id, F.older id → Findable F.p id → ¬ sc.enrolled i id := by
    intro hc hno id ho hfind he
    obtain ⟨reg, hm, hr⟩ := hf hc id ⟨he, hfind⟩
    have hseen : unindexedPeer (listedRegistrations ids found sc.found) = true :=
      unindexedPeer_of_legacy hm hr (fun hid => hids id hid ho)
    rw [hno] at hseen
    exact nomatch hseen
  have hpass : ∀ st : Stage, st.scanning = false → st.ids = [] → st.looks = false →
      c.looks = true → unindexedPeer (listedRegistrations ids found sc.found) = false →
      Arranged F ((w.book i { w.books i with checked := sc.enrolled i }).goto i st) := by
    intro st hscan hid hlook hc hno
    have hbook : Arranged F (w.book i { w.books i with checked := sc.enrolled i }) :=
      h.book i (fun _ => rfl) (fun _ => rfl) (fun hp => nomatch hps.symm.trans hp)
    refine hbook.goto_of i (fun hs => nomatch hscan.symm.trans hs) ?_
      (fun hl => nomatch hlook.symm.trans hl) (fun _ _ _ => sees_of_not_scanning hscan)
      (fun _ => ?_)
    · rw [hid]
      exact fun _ hm => absurd hm (List.not_mem_nil)
    · rw [FleetWorld.book_books_self]
      exact hnone hc hno
  unfold Fleet.concluded
  cases c with
  | tick =>
    dsimp only
    split
    · refine goto_plain (w := { w with
        unindexedSeen := _, ready := _ }) ?_ i rfl rfl rfl rfl
      exact h.congr h.typed h.peers rfl rfl rfl (fun _ => ⟨rfl, rfl, rfl⟩)
    · exact h.goto_plain i rfl rfl rfl rfl
  | completion started =>
    dsimp only
    split
    · exact h.goto_idle i
    · next hno => exact hpass _ rfl rfl rfl rfl (Bool.eq_false_iff.mpr hno)
  | operator =>
    dsimp only
    split
    · exact h.goto_idle i
    · next hno => exact hpass _ rfl rfl rfl rfl (Bool.eq_false_iff.mpr hno)
  | peers => exact h.goto_idle i

end Arranged

namespace Fleet

variable [DecidableEq ι] [DecidableEq π] {F : Fleet ι π} {w : FleetWorld ι π}

omit [DecidableEq π] in
theorem goto_goto (w : FleetWorld ι π) (i : ι) (st st' : Stage) :
    (w.goto i st).goto i st' = w.goto i st' := by
  unfold FleetWorld.goto
  rw [Function.update_idem]

/-- Where the caller stood does not matter to how it goes on. -/
theorem concluded_goto (i : ι) (st : Stage) (t : Turn) (c : Caller) (ids : List String)
    (found : List Registration) (sc : PeerScan ι) :
    F.concluded (w.goto i st) i t c ids found sc = F.concluded w i t c ids found sc := by
  have hgoto : ∀ (v : FleetWorld ι π) (st' : Stage), (v.goto i st).goto i st' = v.goto i st' :=
    fun v st' => goto_goto v i st st'
  unfold concluded
  cases c with
  | tick =>
    dsimp only
    split
    · exact hgoto { w with unindexedSeen := _, ready := _ } _
    · exact hgoto w _
  | completion started =>
    dsimp only
    split
    · exact hgoto w _
    · exact hgoto (w.book i _) _
  | operator =>
    dsimp only
    split
    · exact hgoto w _
    · exact hgoto (w.book i _) _
  | peers => exact hgoto w _

/-- The lock goes with the scan: a task that ends its scan gives it up. -/
theorem arranged_unlock (h : Arranged F w) {i : ι} (hi : (w.stage i).scanning = true) :
    Arranged F (F.unlock (w.goto i .idle) i) := by
  refine (h.goto_idle i).setHolder (F.home i) (fun j hj => ?_) none
  by_cases hji : j = i
  · subst hji
    rw [FleetWorld.goto_stage_self]
    rfl
  · rw [FleetWorld.goto_stage_of_ne w _ hji, Bool.eq_false_iff]
    intro hs
    have hlock := h.lock j hs
    rw [hj, h.lock i hi] at hlock
    exact hji (Option.some.inj hlock).symm

omit [DecidableEq ι] [DecidableEq π] in
/-- What a task's stage says of a scan's last step, when the server keeps its
promise. -/
theorem Promised.scan {i : ι} {t : Turn} (ht : F.Promised w (.task i t)) {c : Caller}
    {ids : List String} {found : List Registration} {cursor : UInt64} {keys : List String}
    (hst : w.stage i = .scan c ids found cursor keys) (hf : t.fault = none) (hr : t.reply.1 = 0) :
    ScanPromise (peersPattern F.p) (fun k => w.redis.Live k ∧ (cursor = 0 ∨ (w.books i).scanned k))
      (keys ++ t.reply.2) := by
  have hs := ht hf hr
  rwa [hst] at hs

omit [DecidableEq ι] [DecidableEq π] in
theorem Promised.backfill {i : ι} {t : Turn} (ht : F.Promised w (.task i t)) {op : Bool}
    {started : ℕ} {cursor : UInt64} (hst : w.stage i = .backfill op started cursor)
    (hf : t.fault = none) (hr : t.reply.1 = 0) :
    ScanPromise (dataPattern F.p) (fun k => w.redis.Live k ∧ (cursor = 0 ∨ (w.books i).since k))
      ((if cursor = 0 then [] else (w.books i).done) ++ t.reply.2) := by
  have hs := ht hf hr
  rwa [hst] at hs

omit [DecidableEq π] in
/-- A step of a scan of the registrations: what was there at its first step
is there since. -/
theorem arranged_scan (h : InOrder F w) {i : ι} {t : Turn}
    (ht : F.Promised w (.task i t)) {c : Caller} {ids : List String} {found : List Registration}
    {cursor : UInt64} {keys : List String} (hst : w.stage i = .scan c ids found cursor keys)
    (hf : t.fault = none) :
    Arranged F ((w.book i { w.books i with
        scanned := if cursor = 0 then w.redis.Live else (w.books i).scanned }).goto i
        (if t.reply.1 = 0 then .fetch c ids found (keys ++ t.reply.2)
          else .scan c ids found t.reply.1 (keys ++ t.reply.2))) := by
  have hids := h.ids i
  have hlock := h.lock i
  have hlooks : (w.stage i).looks = c.looks := by rw [hst]; rfl
  rw [hst] at hids hlock
  have hscanned : ∀ k, (w.stage k).looks = true → F.home i = F.home k → ∀ id,
      (w.books k).enrolled id ∧ Findable F.p id →
      (if cursor = 0 then w.redis.Live else (w.books i).scanned) (peerKey F.p id) := by
    intro k hk hhome id hid
    split
    · exact (h.enrolled k id hid.1).live
    · next hc =>
      have hs := h.scans k i hk hhome
      rw [hst] at hs
      exact hs hc id hid
  -- at the last step the server's promise turns what has been there into what was returned
  have hreturned : t.reply.1 = 0 → ∀ k, (w.stage k).looks = true → F.home i = F.home k → ∀ id,
      (w.books k).enrolled id ∧ Findable F.p id → peerKey F.p id ∈ keys ++ t.reply.2 := by
    intro hr k hk hhome id hid
    refine ht.scan hst hf hr _ hid.2 ⟨(h.enrolled k id hid.1).live, ?_⟩
    by_cases hc : cursor = 0
    · exact Or.inl hc
    · have hs := hscanned k hk hhome id hid
      rw [if_neg hc] at hs
      exact Or.inr hs
  -- the step is taken as leaving the scan and coming back to it
  have hout : Arranged F (w.goto i (.enter c ids found)) :=
    h.toArranged.goto i rfl hids (fun hc => hlooks.trans hc) (fun hn => nomatch hn)
  have hbook := hout.book i (b := { w.books i with
      scanned := if cursor = 0 then w.redis.Live else (w.books i).scanned })
    (fun hs => by rw [FleetWorld.goto_stage_self] at hs; exact nomatch hs) (fun _ => rfl)
    (fun _ => rfl)
  have hback : ∀ st : Stage, st.looks = c.looks → st.ids = ids → st.passed = false →
      (∀ k, (w.stage k).looks = true → F.home i = F.home k →
        Sees F.p (fun id => (w.books k).enrolled id ∧ Findable F.p id)
        (if cursor = 0 then w.redis.Live else (w.books i).scanned) st) →
      Arranged F ((w.book i { w.books i with
        scanned := if cursor = 0 then w.redis.Live else (w.books i).scanned }).goto i st) := by
    intro st hl hid hpass hsees
    rw [← goto_goto _ i (.enter c ids found)]
    refine hbook.goto_of i (fun _ => hlock rfl) (by rwa [hid]) (fun hc => Or.inl ?_) ?_ ?_
    · show ((w.goto i _).stage i).looks = true
      rw [FleetWorld.goto_stage_self]
      exact hl.symm.trans hc
    · intro k hk hhome
      have hkl : (w.stage k).looks = true := by
        by_cases hki : k = i
        · subst hki
          rcases hk with ⟨-, hk⟩ | hk
          · exact hlooks.trans (hl.symm.trans hk)
          · rw [FleetWorld.book_stage, FleetWorld.goto_stage_self] at hk
            exact hlooks.trans hk
        · rcases hk with ⟨rfl, -⟩ | hk
          · exact absurd rfl hki
          · rwa [FleetWorld.book_stage, FleetWorld.goto_stage_of_ne w _ hki] at hk
      have henrolled := FleetWorld.book_enrolled (w.goto i (.enter c ids found)) i k
        (b := { w.books i with
          scanned := if cursor = 0 then w.redis.Live else (w.books i).scanned }) rfl
      rw [henrolled, FleetWorld.book_books_self]
      exact hsees k hkl hhome
    · exact fun hps => nomatch hpass.symm.trans hps
  by_cases hr : t.reply.1 = 0
  · rw [if_pos hr]
    exact hback _ rfl rfl rfl (hreturned hr)
  · rw [if_neg hr]
    exact hback _ rfl rfl rfl (fun k hk hhome _ => hscanned k hk hhome)

/-- The registrations that a scan returned are read, and it is the last scan
of the process now. -/
theorem arranged_fetch (h : InOrder F w) {i : ι} (t : Turn) {c : Caller} {ids : List String}
    {found : List Registration} {keys : List String} (hst : w.stage i = .fetch c ids found keys)
    {values : List (Option (List UInt8))} (hv : (Redis.mget keys w.redis).1 = .ok values)
    {rs : List Registration} (hrs : readRegistrations F.p keys values = some rs) :
    Arranged F (F.concluded (F.unlock { w with
        last := Function.update w.last (F.home i)
          (some ⟨t.instant, rs, fun j => (w.books j).enrolled⟩) } i) i t c ids found
      ⟨t.instant, rs, fun j => (w.books j).enrolled⟩) := by
  have hids := h.ids i
  rw [hst] at hids
  have hfinds : ∀ k, F.home i = F.home k → (w.stage k).looks = true →
      Finds (fun id => (w.books k).enrolled id ∧ Findable F.p id) rs := by
    intro k hhome hk id hid
    have hs := h.scans k i hk hhome
    rw [hst] at hs
    exact (h.enrolled k id hid.1).mem_found (hs id hid) hv hrs
  have hidle := arranged_unlock h.toArranged (i := i) (by rw [hst]; rfl)
  have hlast := hidle.setLast (F.home i) (some ⟨t.instant, rs, fun j => (w.books j).enrolled⟩) ?_
  · have hdone := hlast.concluded i t found ⟨t.instant, rs, fun j => (w.books j).enrolled⟩ hids
      (c := c) (fun hc => ?_) ?_
    · exact (concluded_goto (w := F.unlock { w with last := _ } i) i .idle t c ids found _) ▸ hdone
    · exact hfinds i rfl (by rw [hst]; exact hc)
    · show ((w.goto i .idle).stage i).passed = false
      rw [FleetWorld.goto_stage_self]
      rfl
  · intro k hk hlk sc hsc
    obtain rfl := Option.some.inj hsc
    refine hfinds k hk.symm ?_
    replace hlk : ((w.goto i .idle).stage k).looks = true := hlk
    by_cases hki : k = i
    · subst hki
      rw [FleetWorld.goto_stage_self] at hlk
      exact nomatch hlk
    · rwa [FleetWorld.goto_stage_of_ne w _ hki] at hlk

omit [DecidableEq π] in
/-- The task goes on after a batch of its backfill. -/
theorem arranged_afterBatch (h : Arranged F w) {i : ι} {operator : Bool}
    (ho : operator = true → (w.stage i).passed = true) (started : ℕ) (next : UInt64) :
    Arranged F (w.goto i (afterBatch operator started next)) := by
  unfold afterBatch
  split
  · exact h.goto i rfl (fun _ hm => absurd hm (List.not_mem_nil)) (fun hl => nomatch hl) ho
  · split
    · next hop =>
      exact h.goto i rfl (fun _ hm => absurd hm (List.not_mem_nil)) (fun hl => nomatch hl)
        (fun _ => ho hop)
    · exact h.goto_plain i rfl rfl rfl rfl

/-- **A step of a task keeps the tasks in order**, as far as the server's
state is concerned that it is taken in. -/
theorem arranged_taskStep (hp : F.p ≠ "") (h : InOrder F w) (i : ι) (t : Turn)
    (ht : F.Promised w (.task i t)) : Arranged F (F.taskStep w i t) := by
  have hA := h.toArranged
  have hids := h.ids i
  have hlast := h.last i
  unfold taskStep
  cases hst : w.stage i with
  | idle =>
    dsimp only
    cases F.duty i <;> exact hA.goto_plain i rfl rfl rfl rfl
  | range c =>
    refine FleetWorld.send_of_read (P := Arranged F) Redis.zrangebyscore_snd (hA.goto_idle i)
      (fun ids hok => ?_)
    refine hA.goto i rfl (fun id hid ho => ?_) (fun hl => ?_) (fun hn => nomatch hn)
    · exact h.peers id ho (Redis.mem_of_zrangebyscore hok id hid)
    · rw [hst]
      exact hl
  | trim c ids now =>
    rw [hst] at hids
    obtain ⟨hl, hm⟩ := Redis.zremrangebyscore_snd (s := w.redis) (z := peersIndexKey F.p)
      (Double.round now)
    have htrim : Arranged F { w with
        redis := (Redis.zremrangebyscore (peersIndexKey F.p) (Double.round now) w.redis).2 } :=
      hA.settles (Settles.outside h.typed (peersIndexKey_foreign hp) hl (fun _ => hm))
    refine FleetWorld.send_of (P := Arranged F) (hA.goto_idle i) (htrim.goto_idle i)
      (fun _ _ => ?_)
    refine htrim.goto i rfl hids (fun hlk => ?_) (fun hn => nomatch hn)
    show (w.stage i).looks = true
    rw [hst]
    exact hlk
  | read c ids =>
    rw [hst] at hids
    refine FleetWorld.send_of_read (P := Arranged F) rfl (hA.goto_idle i) (fun values _ => ?_)
    split
    · refine hA.goto i rfl hids (fun hl => ?_) (fun hn => nomatch hn)
      rw [hst]
      exact hl
    · exact hA.goto_idle i
  | enter c ids found =>
    rw [hst] at hids hlast
    dsimp only
    split
    · exact hA
    · next hfree =>
      split
      · next sc hsc =>
        refine hA.concluded i t found sc hids (fun hc => ?_) (by rw [hst]; rfl)
        exact hlast hc sc (Option.filter_eq_some_iff.mp hsc).1
      · have hquiet := fun j (hj : F.home j = F.home i) => hA.not_scanning hfree hj
        refine (hA.setHolder (F.home i) hquiet (some i)).goto_of i ?_ hids ?_ ?_ ?_
        · exact fun _ => Function.update_self _ _ _
        · intro hl
          refine Or.inl ?_
          show (w.stage i).looks = true
          rw [hst]
          exact hl
        · exact fun k _ _ hc => absurd rfl hc
        · exact fun hn => nomatch hn
  | scan c ids found cursor keys =>
    dsimp only
    split
    · exact arranged_unlock hA (by rw [hst]; rfl)
    · next hfault =>
      exact arranged_scan h ht hst (Option.not_isSome_iff_eq_none.mp hfault)
  | fetch c ids found keys =>
    have hunlock : Arranged F ((F.unlock w i).goto i .idle) :=
      arranged_unlock hA (by rw [hst]; rfl)
    refine FleetWorld.send_of_read (P := Arranged F) rfl hunlock (fun values hv => ?_)
    dsimp only
    split
    · next rs hrs => exact arranged_fetch h t hst hv hrs
    · exact hunlock
  | invalidate seen =>
    dsimp only
    split
    · exact hA.goto_plain i rfl rfl rfl rfl
    · have hset := Settles.marked hp h.typed
        (fun k hk => invalidateIndex_lookup F.drv F.p w.redis hk)
      refine Arranged.goto_plain (w := { w with redis := _, books := _, stale := _ }) ?_ i
        rfl rfl rfl rfl
      exact (hA.settles hset).congr hset.typed (hA.settles hset).peers rfl rfl rfl
        (fun _ => ⟨rfl, rfl, rfl⟩)
  | ask =>
    refine FleetWorld.send_of_read (P := Arranged F) rfl (hA.goto_plain i rfl rfl rfl rfl)
      (fun _ _ => hA.goto_plain i rfl rfl rfl rfl)
  | told complete =>
    refine Arranged.goto_plain (w := { w with ready := _ }) ?_ i rfl rfl rfl rfl
    exact hA.congr h.typed h.peers rfl rfl rfl (fun _ => ⟨rfl, rfl, rfl⟩)
  | lock unindexed =>
    dsimp only
    split <;> exact hA.goto_plain i rfl rfl rfl rfl
  | sweep unindexed =>
    dsimp only
    split <;> exact hA.goto_plain i rfl rfl rfl rfl
  | backfill operator started cursor =>
    dsimp only
    split
    · exact hA.goto_idle i
    · have hop : operator = true → (w.stage i).passed = true := by
        intro ho
        rw [hst]
        exact ho
      have hgo : ∀ b : TaskBooks, b.scanned = (w.books i).scanned →
          b.enrolled = (w.books i).enrolled → b.checked = (w.books i).checked →
          Arranged F ((w.book i { b with done := b.done ++ t.reply.2 }).goto i
            (if backfillBatch F.p t.reply.2 = [] then afterBatch operator started t.reply.1
              else .index operator started (backfillBatch F.p t.reply.2) t.reply.1)) := by
        intro b hs he hc
        have hb : Arranged F (w.book i { b with done := b.done ++ t.reply.2 }) :=
          hA.book i (fun _ => hs) (fun _ => he) (fun _ => hc)
        split
        · exact arranged_afterBatch hb hop started _
        · exact hb.goto i rfl (fun _ hm => absurd hm (List.not_mem_nil)) (fun hl => nomatch hl) hop
      refine hgo _ ?_ ?_ ?_ <;> split <;> rfl
  | index operator started batch next =>
    have hset := (Tended.backfill hp h.typed t.clock batch).settles hp
    have hB := hA.settles hset
    refine FleetWorld.send_of (P := Arranged F) (hA.goto_idle i) (hB.goto_idle i) (fun _ _ => ?_)
    refine arranged_afterBatch hB (fun ho => ?_) started next
    show (w.stage i).passed = true
    rw [hst]
    exact ho
  | forget c =>
    dsimp only
    split
    · exact hA
    · next hfree =>
      -- no task of the process scans, and the last scan is gone, so that
      -- only a scan to come will be used
      have hquiet := fun j (hj : F.home j = F.home i) => hA.not_scanning hfree hj
      have hlast := hA.setLast (F.home i) none (fun _ _ _ sc hsc => nomatch hsc)
      have hbook := hlast.book i (b := { w.books i with
          before := (w.books i).creators
          kept := fun k => IsDataKey F.p k ∧ w.redis.Live k
          enrolled := Registered F.p w.redis }) (fun _ => rfl) (fun hl => ?_) (fun _ => rfl)
      · exact hbook.goto_of i (fun hn => nomatch hn) (fun _ hm => absurd hm (List.not_mem_nil))
          (fun _ => Or.inr ⟨Function.update_self _ _ _, hquiet⟩) (fun _ _ _ => trivial)
          (fun hn => nomatch hn)
      · replace hl : (w.stage i).looks = true := hl
        rw [hst] at hl
        exact nomatch hl
  | mark operator started =>
    dsimp only
    split
    · exact hA.goto_idle i
    · have hset := Settles.marked hp h.typed
        (fun k hk => markIndexComplete_lookup F.drv F.p started w.redis hk)
      have hB : Arranged F { w with
          redis := (markIndexComplete F.drv F.p started w.redis).2
          stale := (w.books i).doubts ≠ [] } :=
        (hA.settles hset).congr hset.typed (hA.settles hset).peers rfl rfl rfl
          (fun _ => ⟨rfl, rfl, rfl⟩)
      split <;> exact hB.goto_plain i rfl rfl rfl rfl
  | ready =>
    refine Arranged.goto_plain (w := { w with ready := _ }) ?_ i rfl rfl rfl rfl
    exact hA.congr h.typed h.peers rfl rfl rfl (fun _ => ⟨rfl, rfl, rfl⟩)

/-! ## Whole runs -/

omit [DecidableEq ι] [DecidableEq π] in
theorem Promised.unmarking {e : KvEvent} (he : F.Promised w (.kv e)) : Unmarking e := by
  cases e <;> first | exact he.elim | trivial

/-- A key that is none of the store's is written or removed, and every other
stays what it was. -/
theorem lookup_outside {s : Redis} {k k' : String} (o : Option Obj) (h : k' ≠ k) :
    (s.update k (some o)).lookup k' = s.lookup k' := Redis.lookup_update_of_ne s _ h

/-- The indexes keep their type. -/
theorem act_typed (hp : F.p ≠ "") (h : IndexTyped F.p w.redis) {e : FleetEvent ι}
    (he : F.Promised w e) : IndexTyped F.p (F.act w e).redis := by
  cases e with
  | kv e => exact (Framed.step F.lua F.drv hp h e (Promised.unmarking he)).typed
  | olderWrite id key o => exact (Framed.put hp h key o).typed
  | olderDelete key => exact (Tended.del hp h key).typed
  | outside k o =>
    exact ⟨h.index.congr (lookup_outside o he.1.2.1.symm),
      h.expiry.congr (lookup_outside o he.1.2.2.symm)⟩
  | task i t => exact (F.taskStep_settles hp h i t).typed

/-- No older build comes into the sorted set. -/
theorem act_peers (hp : F.p ≠ "") (h : IndexTyped F.p w.redis)
    (hm : ∀ id, F.older id → ¬ w.redis.Mem (peersIndexKey F.p) id) {e : FleetEvent ι}
    (he : F.Promised w e) :
    ∀ id, F.older id → ¬ (F.act w e).redis.Mem (peersIndexKey F.p) id := by
  have hframed : ∀ {s : Redis}, Framed F.p w.redis s →
      ∀ id, F.older id → ¬ s.Mem (peersIndexKey F.p) id := fun hs id ho hmem =>
    hm id ho (hs.mem_of_foreign (peersIndexKey_foreign hp) hmem)
  cases e with
  | kv e => exact hframed (Framed.step F.lua F.drv hp h e (Promised.unmarking he))
  | olderWrite id key o => exact hframed (Framed.put hp h key o)
  | olderDelete key => exact hframed (Tended.del hp h key).toFramed
  | outside k o =>
    intro id ho hmem
    by_cases hkp : k = peersIndexKey F.p
    · exact he.2.2 hkp id ho (hkp ▸ hmem)
    · exact hm id ho ((Redis.mem_congr (lookup_outside o (fun heq => hkp heq.symm))).mp hmem)
  | task i t => exact fun id ho hmem => hm id ho ((F.taskStep_settles hp h i t).peers id hmem)

/-- **A step keeps the tasks in order**, as far as the server's state is
concerned that it is taken in. -/
theorem arranged_act (hp : F.p ≠ "") (h : InOrder F w) {e : FleetEvent ι}
    (he : F.Promised w e) : Arranged F (F.act w e) := by
  have ht := act_typed hp h.typed he
  have hm := act_peers hp h.typed h.peers he
  cases e with
  | kv e => exact h.toArranged.congr ht hm rfl rfl rfl (fun _ => ⟨rfl, rfl, rfl⟩)
  | olderWrite id key o => exact h.toArranged.congr ht hm rfl rfl rfl (fun _ => ⟨rfl, rfl, rfl⟩)
  | olderDelete key => exact h.toArranged.congr ht hm rfl rfl rfl (fun _ => ⟨rfl, rfl, rfl⟩)
  | outside k o => exact h.toArranged.congr ht hm rfl rfl rfl (fun _ => ⟨rfl, rfl, rfl⟩)
  | task i t => exact arranged_taskStep hp h i t he

omit [DecidableEq ι] [DecidableEq π] in
/-- What is kept after a step keeps them in order again. -/
theorem inOrder_note (h : Arranged F w) (c : Option String) :
    InOrder F { w with books := fun i => (w.books i).note F.p c w.redis } where
  typed := h.typed
  peers := h.peers
  lock := h.lock
  ids := h.ids
  last := h.last
  scans := by
    intro i j hi hj
    have hs := h.scans i j hi hj
    show Sees F.p _ _ (w.stage j)
    cases hst : w.stage j with
    | scan c ids found cursor keys =>
      rw [hst] at hs
      exact fun hc id hid => ⟨hs hc id ⟨hid.1.1, hid.2⟩, hid.1.2.live⟩
    | fetch c ids found keys =>
      rw [hst] at hs
      exact fun id hid => hs id ⟨hid.1.1, hid.2⟩
    | _ => exact sees_of_not_scanning rfl
  passed := h.passed
  enrolled := fun _ _ hid => hid.2

/-- **Every step keeps the tasks in order.** -/
theorem inOrder_step (hp : F.p ≠ "") (e : FleetEvent ι) (h : InOrder F w) (he : F.Promised w e) :
    InOrder F (F.system.step w e).2 :=
  inOrder_note (arranged_act hp h he) _

omit [DecidableEq ι] [DecidableEq π] in
theorem Starts.inOrder (h : F.Starts w) : InOrder F w where
  typed := h.typed
  peers := h.peers
  lock := fun i hi => by rw [h.stage i] at hi; exact nomatch hi
  ids := fun i id hid => by rw [h.stage i] at hid; exact absurd hid (List.not_mem_nil)
  last := fun i hi => by rw [h.stage i] at hi; exact nomatch hi
  scans := fun i _ hi => by rw [h.stage i] at hi; exact nomatch hi
  passed := fun i hi => by rw [h.stage i] at hi; exact nomatch hi
  enrolled := fun i id hid => by rw [h.books i] at hid; exact hid.elim

end Fleet
