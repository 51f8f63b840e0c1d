import ClusterRedis.MixedFleet
import ClusterRedis.TaskMoves

/-!
# The stay of an older build

An older build that has written goes unnoticed when it goes before every
replica has looked. Whether it does is told by the steps of the tasks during
its *stay*, from when it registers to when its registration ends (`Stay`). A
scan of the registrations that begins in the stay finds the build, so a
process that remembers such a scan, or none, sees it until it goes. From the
first tick that is concluded with such a scan the maintenance task of the
process does nothing but see it again, and once its `DEL` has run no mark of
its making is left. A completion of an operator that has still to look then is
refused.

All of it is kept beside the run, in what a stay has come to, and is right of
every older build whose registration a scan can return (`Fleet.watched_step`).
-/

open RedisKv Numerals

variable {ι π : Type}

/-! ## What is kept of a stay -/

/-- **What is kept of the stay of an older build.** -/
structure Stay (ι π : Type) where
  /-- It has created a data key. -/
  wrote : Prop
  /-- The tasks that have begun a scan of the registrations in the stay, -/
  during : ι → Prop
  /-- the processes that remember none that began before it, -/
  covers : π → Prop
  /-- the operators' tasks that have had no completion past its look at some
  moment of it, -/
  faced : ι → Prop
  /-- the maintenance tasks that have concluded a tick by a scan that began in
  it, -/
  heeds : ι → Prop
  /-- and those that have then taken the mark back. -/
  noted : ι → Prop

/-- Nothing is kept yet. -/
def Stay.blank : Stay ι π :=
  ⟨False, fun _ => False, fun _ => False, fun _ => False, fun _ => False, fun _ => False⟩

namespace Stage

/-- A scan of the registrations is under way. -/
def begun : Stage → Bool
  | scan _ _ _ cursor _ => cursor != 0
  | fetch _ _ _ _ => true
  | _ => false

/-- No completion of an operator is under way, or the last scan is still to
be forgotten. -/
def fresh : Stage → Bool
  | idle | forget _ => true
  | _ => false

/-- No completion of an operator is past its look. -/
def faces : Stage → Bool
  | backfill _ _ _ | index _ _ _ _ | mark _ _ | ready => false
  | _ => true

/-- The registrations have been listed at a tick: `gate_index` is next. -/
def gates : Stage → Bool
  | invalidate _ | ask => true
  | _ => false

/-- Where a maintenance task stands that sees an older build at every tick. -/
def heeds : Stage → Bool
  | idle | invalidate _ => true
  | range c | trim c _ _ | read c _ | enter c _ _ | scan c _ _ _ _ | fetch c _ _ _ => !c.completes
  | lock unindexed | sweep unindexed => unindexed
  | _ => false

end Stage

namespace Fleet

/-- No operator's completion is past its look any more. -/
def Faced (F : Fleet ι π) (s : Stay ι π) : Prop := ∀ i, F.duty i = .operator → s.faced i

section Steps

variable [DecidableEq ι] [DecidableEq π] (F : Fleet ι π) (w : FleetWorld ι π) (e : FleetEvent ι)

/-- **A tick is concluded by a scan that began in the stay**, the one that its
process remembers or one of its own. -/
def Looks (s : Stay ι π) (i : ι) : Prop :=
  ((F.act w e).stage i).gates = true
    ∧ ((∃ ids found, w.stage i = .enter .tick ids found) ∧ s.covers (F.home i)
      ∨ (∃ ids found keys, w.stage i = .fetch .tick ids found keys) ∧ s.during i)

/-- **A process comes to remember no scan that began before the stay**: one
that began in it is over, or the last one is forgotten. -/
def Renews (s : Stay ι π) (x : π) : Prop :=
  ∃ i, F.home i = x ∧ (F.EndsScan w i e ∧ s.during i ∨ F.Forgets w i e)

/-- **What is kept of a stay after a step**: nothing, when the build is not
registered. -/
def stay (id : String) (s : Stay ι π) : Stay ι π where
  wrote := (s.wrote ∨ F.creator w e = some id) ∧ Registered F.p (F.act w e).redis id
  during i := (s.during i ∨ StartsScan w i e) ∧ Registered F.p (F.act w e).redis id
  covers x := (s.covers x ∨ F.Renews w e s x) ∧ Registered F.p (F.act w e).redis id
  faced i := (s.faced i ∨ ((F.act w e).stage i).fresh = true) ∧ Registered F.p (F.act w e).redis id
  heeds i := (s.heeds i ∨ F.Looks w e s i ∧ F.Faced s) ∧ Registered F.p (F.act w e).redis id
  noted i := (s.noted i ∨ s.heeds i ∧ TakesBack w i e) ∧ Registered F.p (F.act w e).redis id

end Steps

/-! ## What a stay is good for -/

/-- **What is kept of a stay is right**, of an older build whose registration
a scan can return. -/
structure Watched (F : Fleet ι π) (id : String) (w : FleetWorld ι π) (s : Stay ι π) : Prop where
  sees : ∀ i, s.during i → Sees F.p (· = id) (w.books i).scanned (w.stage i)
  finds : ∀ x, s.covers x → ∀ sc, w.last x = some sc → Finds (· = id) sc.found
  begun : ∀ i, s.covers (F.home i) → (w.stage i).begun = true → s.during i
  facing : ∀ i, F.duty i = .operator → s.faced i → (w.stage i).faces = true
    ∧ ((w.stage i).looks = true → s.covers (F.home i))
  heeding : ∀ i, F.duty i = .maintenance → s.heeds i → (w.stage i).heeds = true
    ∧ s.covers (F.home i) ∧ F.Faced s
  noted : ∀ i, s.noted i → s.heeds i
  ready : ∀ i, F.duty i = .maintenance →
    (∀ j, F.home j = F.home i → F.duty j = .maintenance → s.heeds j) → w.ready (F.home i) = false
  unmarked : (∃ i, F.duty i = .maintenance) → (∀ i, F.duty i = .maintenance → s.noted i) →
    ¬ w.redis.Live (completeKey F.p)

variable [DecidableEq ι] [DecidableEq π] {F : Fleet ι π} {w v : FleetWorld ι π} {i j : ι}
  {t : Turn} {e : FleetEvent ι} {id : String} {s : Stay ι π}

omit [DecidableEq ι] [DecidableEq π] in
/-- No task writes at a registration's key. -/
theorem untouched_peerKey (p id : String) : Untouched p (peerKey p id) := by
  refine ⟨?_, ?_, ?_, ?_⟩ <;> intro he <;>
    simpa [peerKey, peersIndexKey, indexKey, expiryKey, completeKey] using
      congrArg String.toList he

/-- The tasks end no registration and make none. -/
theorem registered_taskStep (h : IndexTyped F.p w.redis) (i : ι) (t : Turn) :
    Registered F.p (F.taskStep w i t).redis id ↔ Registered F.p w.redis id := by
  unfold Registered
  rw [F.taskStep_lookup h i t (untouched_peerKey F.p id)]

omit [DecidableEq ι] in
/-- **A listing that uses a scan of the stay finds the build.** -/
theorem Watched.finds_uses (h : Watched F id w s) (hreg : Registered F.p w.redis id)
    {c : Caller} {ids : List String} {found : List Registration} {sc : PeerScan ι}
    (hu : Uses F w v i t c ids found sc)
    (hcov : s.covers (F.home i) ∨ (w.stage i).begun = true ∧ s.during i) :
    Finds (· = id) sc.found := by
  cases hu with
  | remembered hst hfree hsc =>
    refine h.finds _ (hcov.resolve_right (fun hb => ?_)) sc hsc
    rw [hst] at hb
    exact nomatch hb.1
  | scanned keys values hst hf hv hrs =>
    rintro id' rfl
    have hduring : s.during i := hcov.elim (fun hc => h.begun i hc (by rw [hst]; rfl)) And.right
    have hsees := h.sees i hduring
    rw [hst] at hsees
    exact hreg.mem_found (hsees id' rfl) hv hrs

omit [DecidableEq ι] in
/-- **It is listed**, as no older build is in the sorted set. -/
theorem Watched.unindexed (h : Watched F id w s) (hin : InOrder F w) (hold : F.older id)
    (hreg : Registered F.p w.redis id) {c : Caller} {ids : List String}
    {found : List Registration} {sc : PeerScan ι} (hu : Uses F w v i t c ids found sc)
    (hcov : s.covers (F.home i) ∨ (w.stage i).begun = true ∧ s.during i) :
    unindexedPeer (listedRegistrations ids found sc.found) = true := by
  obtain ⟨reg, hm, hr⟩ := h.finds_uses hreg hu hcov id rfl
  refine unindexedPeer_of_legacy hm hr (fun hid => hin.ids i id ?_ hold)
  cases hu with
  | remembered hst => rw [hst]; exact hid
  | scanned keys values hst => rw [hst]; exact hid

/-! ## The scans of a stay -/

omit [DecidableEq ι] [DecidableEq π] in
theorem sees_of_not_begun {p : String} {E scanned : String → Prop} {st : Stage}
    (h : st.begun = false) : Sees p E scanned st := by
  cases st with
  | scan c ids found cursor keys => exact fun hc => absurd (by simpa [Stage.begun] using h) hc
  | fetch c ids found keys => exact nomatch h
  | _ => exact trivial

omit [DecidableEq ι] [DecidableEq π] in
/-- What is registered after a step is seen by the scans that saw it. -/
theorem sees_note {p : String} {scanned : String → Prop} {st : Stage} {r : Redis}
    (h : Sees p (· = id) scanned st) (hl : r.Live (peerKey p id)) :
    Sees p (· = id) (fun k => scanned k ∧ r.Live k) st := by
  cases st with
  | scan c ids found cursor keys =>
    rintro hc id' rfl
    exact ⟨h hc id' rfl, hl⟩
  | fetch c ids found keys => exact h
  | _ => exact trivial

omit [DecidableEq ι] [DecidableEq π] in
theorem begun_of_backfills {op : Bool} {st : Stage} (h : Backfills op st) : st.begun = false := by
  rcases h with rfl | ⟨_, _, rfl⟩ | ⟨_, _, _, rfl⟩ | ⟨_, -, rfl⟩ | ⟨_, -, rfl⟩ <;> rfl

omit [DecidableEq ι] [DecidableEq π] in
/-- Only its own steps take a scan further. -/
theorem begun_of_next {d : Duty} {st st' : Stage} (hn : Next d st st') : st'.begun = false := by
  cases st with
  | idle => obtain rfl := hn; cases d <;> rfl
  | range c => rcases hn with rfl | ⟨_, _, rfl⟩ <;> rfl
  | trim c ids now => rcases hn with rfl | rfl <;> rfl
  | read c ids => rcases hn with rfl | ⟨_, rfl⟩ <;> rfl
  | enter c ids found => obtain rfl := hn; rfl
  | scan c ids found cursor keys => obtain rfl := hn; rfl
  | fetch c ids found keys => obtain rfl := hn; rfl
  | invalidate seen => obtain rfl := hn; rfl
  | ask => rcases hn with rfl | ⟨_, rfl⟩ <;> rfl
  | lock unindexed => rcases hn with rfl | rfl <;> rfl
  | sweep unindexed => rcases hn with rfl | ⟨-, _, rfl⟩ <;> rfl
  | backfill op started cursor => exact begun_of_backfills hn
  | index op started batch next => exact begun_of_backfills hn
  | mark op started => rcases hn with rfl | rfl <;> rfl
  | _ => exact hn.elim

omit [DecidableEq ι] [DecidableEq π] in
theorem begun_of_concluded {u : Bool} {c : Caller} {st : Stage} (h : Concluded u c st) :
    st.begun = false := by
  cases c with
  | tick =>
    cases u with
    | true => obtain ⟨_, rfl⟩ := h; rfl
    | false => obtain rfl := h; rfl
  | completion started => obtain rfl := h; cases u <;> rfl
  | operator =>
    cases u with
    | true => obtain rfl := h; rfl
    | false => obtain ⟨_, rfl⟩ := h; rfl
  | peers => obtain rfl := h; rfl

/-- **A task is in a scan** only by a step of the scan. -/
theorem Moves.begun (hm : Moves F w i t v) (hb : (v.stage i).begun = true) :
    t.fault = none ∧ ∃ c ids found cursor keys, w.stage i = .scan c ids found cursor keys
      ∧ v.stage i = (if t.reply.1 = 0 then .fetch c ids found (keys ++ t.reply.2)
        else .scan c ids found t.reply.1 (keys ++ t.reply.2))
      ∧ (v.books i).scanned = if cursor = 0 then w.redis.Live else (w.books i).scanned := by
  cases hm with
  | blocked hv hat =>
    rw [hv] at hb
    rcases hat with ⟨c, ids, found, hst⟩ | ⟨c, hst, -⟩ <;> rw [hst] at hb <;> exact nomatch hb
  | goes st hn he hst =>
    rw [hst, Function.update_self, begun_of_next hn] at hb
    exact nomatch hb
  | tells complete hat hst =>
    rw [hst, Function.update_self] at hb
    exact nomatch hb
  | readies hat hst =>
    rw [hst, Function.update_self] at hb
    exact nomatch hb
  | scans c ids found cursor keys hat hf hst hready hlast hself =>
    exact ⟨hf, c, ids, found, cursor, keys, hat, by rw [hst, Function.update_self], hself⟩
  | lists c ids found sc st hu hc hst =>
    rw [hst, Function.update_self, begun_of_concluded hc] at hb
    exact nomatch hb
  | forgets c hat hfree hst =>
    rw [hst, Function.update_self] at hb
    exact nomatch hb

/-- **A scan that began in the stay sees the build.** -/
theorem Watched.sees_moves (h : Watched F id w s) (hfind : Findable F.p id)
    (hreg : Registered F.p w.redis id) (ht : F.Promised w (.task i t)) (hm : Moves F w i t v)
    (hd : s.during i ∨ StartsScan w i (.task i t)) :
    Sees F.p (· = id) (v.books i).scanned (v.stage i) := by
  by_cases hb : (v.stage i).begun = true
  swap
  · exact sees_of_not_begun (Bool.eq_false_iff.mpr hb)
  obtain ⟨hf, c, ids, found, cursor, keys, hat, hst, hself⟩ := hm.begun hb
  have hscanned : (v.books i).scanned (peerKey F.p id) := by
    rw [hself]
    split
    · exact hreg.live
    · next hc =>
      have hduring : s.during i := by
        refine hd.resolve_right ?_
        rintro ⟨-, -, -, c', ids', found', keys', hat'⟩
        exact hc (Stage.scan.inj (hat.symm.trans hat')).2.2.2.1
      have hsees := h.sees i hduring
      rw [hat] at hsees
      exact hsees hc id rfl
  rw [hst]
  split
  · next hr =>
    -- the server keeps its promise of a key that has been there throughout
    rintro id' rfl
    refine ht.scan hat hf hr _ hfind ⟨hreg.live, ?_⟩
    by_cases hc : cursor = 0
    · exact Or.inl hc
    · rw [hself, if_neg hc] at hscanned
      exact Or.inr hscanned
  · rintro - id' rfl
    exact hscanned

/-! ## The processes that remember no scan from before the stay -/

omit [DecidableEq ι] [DecidableEq π] in
theorem renews_task {x : π} (h : F.Renews w (.task i t) s x) :
    x = F.home i ∧ (F.EndsScan w i (.task i t) ∧ s.during i ∨ F.Forgets w i (.task i t)) := by
  obtain ⟨j, rfl, hj⟩ := h
  have hji : j = i := by
    rcases hj with ⟨⟨t', ht, -⟩, -⟩ | ⟨t', ht, -⟩ <;> exact (FleetEvent.task.inj ht).1.symm
  subst hji
  exact ⟨rfl, hj⟩

/-- **What a step does to the scans that are remembered.** -/
theorem Moves.last (hm : Moves F w i t v) :
    (v.last = w.last ∧ ¬ F.EndsScan w i (.task i t) ∧ ¬ F.Forgets w i (.task i t))
      ∨ v.last = Function.update w.last (F.home i) none
      ∨ ∃ c ids found sc, Uses F w v i t c ids found sc ∧ (w.stage i).begun = true
        ∧ v.last = Function.update w.last (F.home i) (some sc) := by
  have hends : (∀ c ids found keys, w.stage i ≠ .fetch c ids found keys) →
      ¬ F.EndsScan w i (.task i t) := not_endsScan
  have hforgets : (∀ c, w.stage i = .forget c → w.holder (F.home i) ≠ none) →
      ¬ F.Forgets w i (.task i t) := by
    rintro hno ⟨-, -, hfree, c, hst⟩
    exact hno c hst hfree
  cases hm with
  | blocked hv hat =>
    refine Or.inl ⟨by rw [hv], hends ?_, hforgets ?_⟩
    · rcases hat with ⟨c, ids, found, hst⟩ | ⟨c, hst, -⟩ <;> simp [hst]
    · rcases hat with ⟨c, ids, found, hst⟩ | ⟨c, hst, hheld⟩
      · simp [hst]
      · exact fun _ _ => hheld
  | goes st hn he hst hready hlast =>
    refine Or.inl ⟨hlast, he, hforgets (fun c hat => ?_)⟩
    rw [hat] at hn
    exact hn.elim
  | tells complete hat hst hready hlast =>
    exact Or.inl ⟨hlast, hends (by simp [hat]), hforgets (by simp [hat])⟩
  | readies hat hst hready hlast =>
    exact Or.inl ⟨hlast, hends (by simp [hat]), hforgets (by simp [hat])⟩
  | scans c ids found cursor keys hat hf hst hready hlast =>
    exact Or.inl ⟨hlast, hends (by simp [hat]), hforgets (by simp [hat])⟩
  | lists c ids found sc st hu hc hst =>
    cases hu with
    | remembered hat hfree hsc hlast =>
      exact Or.inl ⟨hlast, hends (by simp [hat]), hforgets (by simp [hat])⟩
    | scanned keys values hat hf hv hrs hlast =>
      refine Or.inr (Or.inr ⟨c, ids, found, sc, ?_, ?_, hlast⟩)
      · exact .scanned keys values hat hf hv hrs hlast
      · rw [hat]
        rfl
  | forgets c hat hfree hst hready hlast => exact Or.inr (Or.inl hlast)

/-- **Such a process remembers a scan that found the build**, or none. -/
theorem Watched.finds_moves (h : Watched F id w s) (hreg : Registered F.p w.redis id)
    (hm : Moves F w i t v) {x : π} (hx : s.covers x ∨ F.Renews w (.task i t) s x)
    {sc : PeerScan ι} (hsc : v.last x = some sc) : Finds (· = id) sc.found := by
  rcases hm.last with ⟨hlast, hends, hforgets⟩ | hlast | ⟨c, ids, found, sc', hu, hb, hlast⟩
  · have hcov : s.covers x := by
      refine hx.resolve_right (fun hr => ?_)
      rcases (renews_task hr).2 with ⟨he, -⟩ | hf
      · exact hends he
      · exact hforgets hf
    exact h.finds x hcov sc (hlast ▸ hsc)
  · have hne : x ≠ F.home i := by
      rintro rfl
      rw [hlast, Function.update_self] at hsc
      exact nomatch hsc
    rw [hlast, Function.update_of_ne hne] at hsc
    exact h.finds x (hx.resolve_right (fun hr => hne (renews_task hr).1)) sc hsc
  · by_cases hxi : x = F.home i
    · subst hxi
      rw [hlast, Function.update_self] at hsc
      obtain rfl := Option.some.inj hsc
      refine h.finds_uses hreg hu (hx.imp_right (fun hr => ⟨hb, ?_⟩))
      rcases (renews_task hr).2 with ⟨-, hduring⟩ | ⟨-, -, -, c', hst⟩
      · exact hduring
      · rw [hst] at hb
        exact nomatch hb
    · rw [hlast, Function.update_of_ne hxi] at hsc
      exact h.finds x (hx.resolve_right (fun hr => hxi (renews_task hr).1)) sc hsc

omit [DecidableEq ι] [DecidableEq π] in
theorem scanning_of_begun {st : Stage} (h : st.begun = true) : st.scanning = true := by
  cases st <;> first | rfl | exact nomatch h

/-- **Every scan of such a process began in the stay.** -/
theorem Watched.begun_moves (h : Watched F id w s) (hin : InOrder F w) (hm : Moves F w i t v)
    (hothers : ∀ j, j ≠ i → v.stage j = w.stage j)
    (hcov : s.covers (F.home j) ∨ F.Renews w (.task i t) s (F.home j))
    (hb : (v.stage j).begun = true) : s.during j ∨ StartsScan w j (.task i t) := by
  by_cases hji : j = i
  · subst hji
    obtain ⟨hf, c, ids, found, cursor, keys, hat, -⟩ := hm.begun hb
    by_cases hc : cursor = 0
    · subst hc
      exact Or.inr ⟨t, rfl, hf, c, ids, found, keys, hat⟩
    refine Or.inl (h.begun j (hcov.resolve_right (fun hr => ?_)) ?_)
    · rcases (renews_task hr).2 with ⟨⟨-, -, -, c', ids', found', keys', _, _, hst, -⟩, -⟩ | hf'
      · exact nomatch hat.symm.trans hst
      · obtain ⟨-, -, -, c', hst⟩ := hf'
        exact nomatch hat.symm.trans hst
    · rw [hat]
      simpa [Stage.begun] using hc
  · rw [hothers j hji] at hb
    refine Or.inl (h.begun j (hcov.resolve_right (fun hr => ?_)) hb)
    -- the lock is with the task that scans
    have hlock := hin.lock j (scanning_of_begun hb)
    obtain ⟨hhome, hr⟩ := renews_task hr
    rw [hhome] at hlock
    rcases hr with ⟨⟨-, -, -, c, ids, found, keys, _, _, hst, -⟩, -⟩ | ⟨-, -, hfree, -⟩
    · rw [hin.lock i (by rw [hst]; rfl)] at hlock
      exact hji (Option.some.inj hlock).symm
    · rw [hfree] at hlock
      exact nomatch hlock

/-! ## The tasks that see the build -/

omit [DecidableEq ι] [DecidableEq π] in
/-- An operator's task goes on to nothing past its look but by its look. -/
theorem faces_of_next {st st' : Stage} (hn : Next .operator st st') (hfit : st.Fits .operator)
    (hf : st.faces = true) : st'.faces = true ∧ (st'.looks = true → st.looks = true) := by
  cases st with
  | idle => obtain rfl := hn; exact ⟨rfl, fun hl => nomatch hl⟩
  | range c =>
    rcases hn with rfl | ⟨_, _, rfl⟩
    · exact ⟨rfl, fun hl => nomatch hl⟩
    · exact ⟨rfl, fun hl => hl⟩
  | trim c ids now =>
    rcases hn with rfl | rfl
    · exact ⟨rfl, fun hl => nomatch hl⟩
    · exact ⟨rfl, fun hl => hl⟩
  | read c ids =>
    rcases hn with rfl | ⟨_, rfl⟩
    · exact ⟨rfl, fun hl => nomatch hl⟩
    · exact ⟨rfl, fun hl => hl⟩
  | enter c ids found => obtain rfl := hn; exact ⟨rfl, fun hl => hl⟩
  | scan c ids found cursor keys => obtain rfl := hn; exact ⟨rfl, fun hl => nomatch hl⟩
  | fetch c ids found keys => obtain rfl := hn; exact ⟨rfl, fun hl => nomatch hl⟩
  | backfill | index | mark | ready => exact nomatch hf
  | told | forget => exact hn.elim
  | invalidate | ask | lock | sweep => exact nomatch hfit

omit [DecidableEq ι] [DecidableEq π] in
/-- A maintenance task that sees an older build does not come to a backfill. -/
theorem heeds_of_next {st st' : Stage} (hn : Next .maintenance st st') (hh : st.heeds = true) :
    st'.heeds = true := by
  cases st with
  | idle => obtain rfl := hn; rfl
  | range c =>
    rcases hn with rfl | ⟨_, _, rfl⟩
    · rfl
    · exact hh
  | trim c ids now =>
    rcases hn with rfl | rfl
    · rfl
    · exact hh
  | read c ids =>
    rcases hn with rfl | ⟨_, rfl⟩
    · rfl
    · exact hh
  | enter c ids found => obtain rfl := hn; exact hh
  | scan c ids found cursor keys => obtain rfl := hn; rfl
  | fetch c ids found keys => obtain rfl := hn; rfl
  | invalidate seen => obtain rfl := hn; rfl
  | lock unindexed =>
    rcases hn with rfl | rfl
    · rfl
    · exact hh
  | sweep unindexed =>
    rcases hn with rfl | ⟨hno, -⟩
    · rfl
    · exact nomatch hno.symm.trans hh
  | told | forget | ready => exact hn.elim
  | ask | backfill | index | mark => exact nomatch hh

omit [DecidableEq ι] [DecidableEq π] in
/-- Only a listing comes to `gate_index`. -/
theorem gates_of_next {d : Duty} {st st' : Stage} (hn : Next d st st') : st'.gates = false := by
  cases st with
  | idle => obtain rfl := hn; cases d <;> rfl
  | range c => rcases hn with rfl | ⟨_, _, rfl⟩ <;> rfl
  | trim c ids now => rcases hn with rfl | rfl <;> rfl
  | read c ids => rcases hn with rfl | ⟨_, rfl⟩ <;> rfl
  | enter c ids found => obtain rfl := hn; rfl
  | scan c ids found cursor keys => obtain rfl := hn; rfl
  | fetch c ids found keys => obtain rfl := hn; rfl
  | invalidate seen => obtain rfl := hn; rfl
  | ask => rcases hn with rfl | ⟨_, rfl⟩ <;> rfl
  | lock unindexed => rcases hn with rfl | rfl <;> rfl
  | sweep unindexed => rcases hn with rfl | ⟨-, _, rfl⟩ <;> rfl
  | backfill op started cursor =>
    rcases hn with rfl | ⟨_, _, rfl⟩ | ⟨_, _, _, rfl⟩ | ⟨_, -, rfl⟩ | ⟨_, -, rfl⟩ <;> rfl
  | index op started batch next =>
    rcases hn with rfl | ⟨_, _, rfl⟩ | ⟨_, _, _, rfl⟩ | ⟨_, -, rfl⟩ | ⟨_, -, rfl⟩ <;> rfl
  | mark op started => rcases hn with rfl | rfl <;> rfl
  | _ => exact hn.elim

/-- The task that comes to `gate_index` has listed the registrations. -/
theorem Moves.gates (hm : Moves F w i t v) (hold : (w.stage i).gates = false)
    (hg : (v.stage i).gates = true) : ∃ c ids found sc, Uses F w v i t c ids found sc
      ∧ Concluded (unindexedPeer (listedRegistrations ids found sc.found)) c (v.stage i)
      ∧ (c = .tick → unindexedPeer (listedRegistrations ids found sc.found) = true →
        v.ready (F.home i) = false) := by
  cases hm with
  | blocked hv hat =>
    rw [hv, hold] at hg
    exact nomatch hg
  | goes st hn he hst =>
    rw [hst, Function.update_self, gates_of_next hn] at hg
    exact nomatch hg
  | tells complete hat hst =>
    rw [hst, Function.update_self] at hg
    exact nomatch hg
  | readies hat hst =>
    rw [hst, Function.update_self] at hg
    exact nomatch hg
  | scans c ids found cursor keys hat hf hst =>
    rw [hst, Function.update_self] at hg
    split at hg <;> exact nomatch hg
  | lists c ids found sc st hu hc hst hready hgated =>
    refine ⟨c, ids, found, sc, hu, ?_, hgated⟩
    rwa [hst, Function.update_self]
  | forgets c hat hfree hst =>
    rw [hst, Function.update_self] at hg
    exact nomatch hg

omit [DecidableEq ι] in
/-- Who lists the registrations. -/
theorem Uses.at {c : Caller} {ids : List String} {found : List Registration} {sc : PeerScan ι}
    (hu : Uses F w v i t c ids found sc) : w.stage i = .enter c ids found
      ∨ ∃ keys, w.stage i = .fetch c ids found keys ∧ F.EndsScan w i (.task i t) := by
  cases hu with
  | remembered hst => exact Or.inl hst
  | scanned keys values hst hf hv hrs =>
    exact Or.inr ⟨keys, hst, t, rfl, hf, c, ids, found, keys, values, sc.found, hst, hv, hrs⟩

omit [DecidableEq ι] [DecidableEq π] in
theorem operator_of_fits {c : Caller} (h : c.fits .operator = true) : c = .operator := by
  cases c <;> first | rfl | exact nomatch h

/-- **An operator's completion that has still to look is refused.** -/
theorem Watched.facing_moves (h : Watched F id w s) (hin : InOrder F w) (hold : F.older id)
    (hreg : Registered F.p w.redis id) (hm : Moves F w i t v) (hd : F.duty i = .operator)
    (hfit : (w.stage i).Fits .operator) (hf : s.faced i) :
    (v.stage i).faces = true ∧ ((v.stage i).looks = true →
      s.covers (F.home i) ∨ F.Renews w (.task i t) s (F.home i)) := by
  obtain ⟨hfaces, hlooks⟩ := h.facing i hd hf
  cases hm with
  | blocked hv hat =>
    rw [hv]
    exact ⟨hfaces, fun hl => Or.inl (hlooks hl)⟩
  | goes st hn he hst =>
    rw [hd] at hn
    rw [hst, Function.update_self]
    obtain ⟨hst', hl'⟩ := faces_of_next hn hfit hfaces
    exact ⟨hst', fun hl => Or.inl (hlooks (hl' hl))⟩
  | tells complete hat =>
    rw [hat] at hfit
    exact nomatch hfit
  | readies hat =>
    rw [hat] at hfaces
    exact nomatch hfaces
  | scans c ids found cursor keys hat hf' hst =>
    rw [hat] at hlooks
    rw [hst, Function.update_self]
    split <;> exact ⟨rfl, fun hl => Or.inl (hlooks hl)⟩
  | lists c ids found sc st hu hc hst =>
    have hop : c = .operator := by
      rcases hu.at with hat | ⟨keys, hat, -⟩ <;> rw [hat] at hfit <;> exact operator_of_fits hfit
    subst hop
    have hcov : s.covers (F.home i) := by
      refine hlooks ?_
      rcases hu.at with hat | ⟨keys, hat, -⟩ <;> rw [hat] <;> rfl
    rw [h.unindexed hin hold hreg hu (Or.inl hcov)] at hc
    obtain rfl : st = .idle := hc
    rw [hst, Function.update_self]
    exact ⟨rfl, fun hl => nomatch hl⟩
  | forgets c hat hfree hst =>
    rw [hst, Function.update_self]
    exact ⟨rfl, fun _ => Or.inr ⟨i, rfl, Or.inr ⟨t, rfl, hfree, c, hat⟩⟩⟩

omit [DecidableEq ι] [DecidableEq π] in
theorem tick_of_fits {c : Caller} (h : c.fits .maintenance = true) (hc : c.completes = false) :
    c = .tick := by
  cases c with
  | tick => rfl
  | completion started => exact nomatch hc
  | operator => exact nomatch h
  | peers => exact nomatch h

/-- **A maintenance task that sees the build goes on seeing it.** -/
theorem Watched.heeding_moves (h : Watched F id w s) (hin : InOrder F w) (hold : F.older id)
    (hreg : Registered F.p w.redis id) (hm : Moves F w i t v) (hd : F.duty i = .maintenance)
    (hfit : (w.stage i).Fits .maintenance) (hh : s.heeds i) : (v.stage i).heeds = true := by
  obtain ⟨hheeds, hcov, -⟩ := h.heeding i hd hh
  cases hm with
  | blocked hv hat =>
    rw [hv]
    exact hheeds
  | goes st hn he hst =>
    rw [hd] at hn
    rw [hst, Function.update_self]
    exact heeds_of_next hn hheeds
  | tells complete hat =>
    rw [hat] at hheeds
    exact nomatch hheeds
  | readies hat =>
    rw [hat] at hheeds
    exact nomatch hheeds
  | scans c ids found cursor keys hat hf' hst =>
    rw [hat] at hheeds
    rw [hst, Function.update_self]
    split <;> exact hheeds
  | lists c ids found sc st hu hc hst =>
    have htick : c = .tick := by
      rcases hu.at with hat | ⟨keys, hat, -⟩
      all_goals
        rw [hat] at hfit hheeds
        exact tick_of_fits hfit (by simpa [Stage.heeds] using hheeds)
    subst htick
    rw [h.unindexed hin hold hreg hu (Or.inl hcov)] at hc
    obtain ⟨seen, rfl⟩ : ∃ seen, st = .invalidate seen := hc
    rw [hst, Function.update_self]
    rfl
  | forgets c hat =>
    rw [hat] at hheeds
    exact nomatch hheeds

omit [DecidableEq ι] [DecidableEq π] in
theorem gates_of_listing {st : Stage} (h : (∃ ids found, st = .enter .tick ids found)
    ∨ ∃ ids found keys, st = .fetch .tick ids found keys) : st.gates = false := by
  rcases h with ⟨ids, found, rfl⟩ | ⟨ids, found, keys, rfl⟩ <;> rfl

/-- **The tick that is concluded by a scan of the stay sees the build**: the
process stops reading the index, and the mark is taken back next. -/
theorem Watched.looks_task (h : Watched F id w s) (hin : InOrder F w) (hold : F.older id)
    (hreg : Registered F.p w.redis id) (hl : F.Looks w (.task i t) s i) :
    (∃ seen, (F.taskStep w i t).stage i = .invalidate seen)
      ∧ (F.taskStep w i t).ready (F.home i) = false
      ∧ (s.covers (F.home i) ∨ F.Renews w (.task i t) s (F.home i)) := by
  obtain ⟨hg, hat⟩ := hl
  obtain ⟨c, ids, found, sc, hu, hc, hgated⟩ := (moves_taskStep (F := F) w i t).gates
    (gates_of_listing (hat.imp And.left And.left)) hg
  have htick : c = .tick := by
    rcases hat with ⟨⟨ids', found', hst⟩, -⟩ | ⟨⟨ids', found', keys', hst⟩, -⟩ <;>
      rcases hu.at with hst' | ⟨keys, hst', -⟩
    · exact (Stage.enter.inj (hst'.symm.trans hst)).1
    · exact nomatch hst'.symm.trans hst
    · exact nomatch hst'.symm.trans hst
    · exact (Stage.fetch.inj (hst'.symm.trans hst)).1
  have hcov : s.covers (F.home i) ∨ (w.stage i).begun = true ∧ s.during i := by
    refine hat.imp And.right ?_
    rintro ⟨⟨ids', found', keys', hst⟩, hduring⟩
    exact ⟨by rw [hst]; rfl, hduring⟩
  have hun := h.unindexed hin hold hreg hu hcov
  subst htick
  rw [hun] at hc
  refine ⟨hc, hgated rfl hun, hcov.imp_right (fun hb => ?_)⟩
  rcases hu.at with hst' | ⟨keys, -, hends⟩
  · rw [hst'] at hb
    exact nomatch hb.1
  · exact ⟨i, rfl, Or.inl ⟨hends, hb.2⟩⟩

/-- A tick is concluded by a step of its own. -/
theorem not_looks (hst : (F.act w e).stage i = w.stage i) : ¬ F.Looks w e s i := by
  rintro ⟨hg, hat⟩
  rw [hst, gates_of_listing (hat.imp And.left And.left)] at hg
  exact nomatch hg

/-- **A process whose maintenance sees the build does not read the index.** -/
theorem Watched.ready_task (h : Watched F id w s) (hin : InOrder F w)
    (hfits : ∀ i, (w.stage i).Fits (F.duty i)) (hold : F.older id)
    (hreg : Registered F.p w.redis id) (hj : F.duty j = .maintenance)
    (hall : ∀ j', F.home j' = F.home j → F.duty j' = .maintenance →
      s.heeds j' ∨ F.Looks w (.task i t) s j') :
    (F.taskStep w i t).ready (F.home j) = false := by
  by_cases hnew : F.home i = F.home j ∧ F.Looks w (.task i t) s i
  · exact hnew.1 ▸ (h.looks_task hin hold hreg hnew.2).2.1
  have hheeds : ∀ j', F.home j' = F.home j → F.duty j' = .maintenance → s.heeds j' := by
    intro j' hhome hd
    refine (hall j' hhome hd).resolve_right (fun hl => ?_)
    by_cases hji : j' = i
    · exact hnew ⟨hji ▸ hhome, hji ▸ hl⟩
    · exact not_looks (e := .task i t) (taskStep_other hji t).1 hl
  have hready := h.ready j hj hheeds
  rcases moves_taskStep (F := F) w i t with ⟨hv, -⟩ | ⟨_, -, -, -, hr⟩ | ⟨complete, hat, -, hr⟩
    | ⟨hat, -, hr⟩ | ⟨_, _, _, _, _, -, -, -, hr⟩ | ⟨_, _, _, _, _, -, -, -, hr⟩ | ⟨_, -, -, -, hr⟩
  · rw [hv]
    exact hready
  · rw [hr]
    exact hready
  · rw [hr, Function.update_of_ne]
    · exact hready
    · intro hhome
      have hd : F.duty i = .maintenance := by
        have hfit := hfits i
        rwa [hat] at hfit
      have hstage := (h.heeding i hd (hheeds i hhome.symm hd)).1
      rw [hat] at hstage
      exact nomatch hstage
  · rw [hr, Function.update_of_ne]
    · exact hready
    · intro hhome
      cases hd : F.duty i with
      | maintenance =>
        have hstage := (h.heeding i hd (hheeds i hhome.symm hd)).1
        rw [hat] at hstage
        exact nomatch hstage
      | operator =>
        have hfaced := (h.heeding j hj (hheeds j rfl hj)).2.2 i hd
        have hstage := (h.facing i hd hfaced).1
        rw [hat] at hstage
        exact nomatch hstage
      | peers =>
        have hfit := hfits i
        rw [hat] at hfit
        exact hfit hd
  · rw [hr]
    exact hready
  · rcases hr with hr | hr
    · rw [hr]
      exact hready
    · rw [hr]
      by_cases hhome : F.home j = F.home i
      · rw [hhome, Function.update_self]
      · rw [Function.update_of_ne hhome]
        exact hready
  · rw [hr]
    exact hready

/-- What takes the mark back leaves none. -/
theorem not_live_of_takesBack (h : TakesBack w i e) :
    ¬ (F.act w e).redis.Live (completeKey F.p) := by
  obtain ⟨t, rfl, hf, seen, hst⟩ := h
  have hstep : (F.taskStep w i t).redis = (invalidateIndex F.drv F.p w.redis).2 := by
    unfold taskStep
    rw [hst]
    dsimp only
    rw [if_neg hf]
    rfl
  show ¬ (F.taskStep w i t).redis.Live (completeKey F.p)
  rw [hstep]
  exact not_live_invalidateIndex F.drv F.p w.redis

/-- **When every maintenance task has taken the mark back, there is none.** -/
theorem Watched.unmarked_act (h : Watched F id w s) (hp : F.p ≠ "") (ht : IndexTyped F.p w.redis)
    (hfits : ∀ i, (w.stage i).Fits (F.duty i)) (he : F.Promised w e)
    (hex : ∃ i, F.duty i = .maintenance)
    (hall : ∀ i, F.duty i = .maintenance → s.noted i ∨ s.heeds i ∧ TakesBack w i e) :
    ¬ (F.act w e).redis.Live (completeKey F.p) := by
  by_cases hback : ∃ i, TakesBack w i e
  · obtain ⟨i, hi⟩ := hback
    exact not_live_of_takesBack hi
  have hnoted : ∀ i, F.duty i = .maintenance → s.noted i := fun i hd =>
    (hall i hd).resolve_right (fun hb => hback ⟨i, hb.2⟩)
  obtain ⟨m, hm⟩ := hex
  have hheeding := fun i hd => h.heeding i hd (h.noted i (hnoted i hd))
  rcases act_mark hp ht he with ⟨-, hl⟩ | hdead | ⟨i, t, op, started, rfl, hst, -⟩
  · exact fun hlive => h.unmarked ⟨m, hm⟩ hnoted (hl hlive)
  · exact hdead
  · -- nobody is left who would set the mark
    have hfit := hfits i
    rw [hst] at hfit
    cases op with
    | false =>
      have hstage := (hheeding i hfit).1
      rw [hst] at hstage
      exact nomatch hstage
    | true =>
      have hstage := (h.facing i hfit ((hheeding m hm).2.2 i hfit)).1
      rw [hst] at hstage
      exact nomatch hstage

/-! ## The steps of a stay -/

omit [DecidableEq ι] [DecidableEq π] in
theorem faces_of_fresh {st : Stage} (h : st.fresh = true) : st.faces = true ∧ st.looks = false := by
  cases st <;> first | exact ⟨rfl, rfl⟩ | exact nomatch h

/-- Nothing is kept of a build that is not registered. -/
theorem watched_away (haway : ¬ Registered F.p (F.act w e).redis id) (u : FleetWorld ι π) :
    Watched F id u (F.stay w e id s) where
  sees _ hi := absurd hi.2 haway
  finds _ hx := absurd hx.2 haway
  begun _ hc := absurd hc.2 haway
  facing _ _ hf := absurd hf.2 haway
  heeding _ _ hh := absurd hh.2 haway
  noted _ hn := absurd hn.2 haway
  ready i hi hall := absurd (hall i rfl hi).2 haway
  unmarked := by
    rintro ⟨i, hi⟩ hall
    exact absurd (hall i hi).2 haway

/-- A step that moves no task. -/
theorem watched_rest (hp : F.p ≠ "") (ht : IndexTyped F.p w.redis)
    (hfits : ∀ i, (w.stage i).Fits (F.duty i)) (he : F.Promised w e) (h : Watched F id w s)
    (here : Registered F.p (F.act w e).redis id) (hrest : ∀ i t, e ≠ .task i t)
    (hst : (F.act w e).stage = w.stage) (hready : (F.act w e).ready = w.ready)
    (hlast : (F.act w e).last = w.last) (hbooks : (F.act w e).books = w.books) :
    Watched F id (F.system.step w e).2 (F.stay w e id s) := by
  have hstarts : ∀ i, ¬ StartsScan w i e := fun i ⟨t, ht, _⟩ => hrest i t ht
  have hrenews : ∀ x, ¬ F.Renews w e s x := by
    rintro x ⟨i, -, ⟨⟨t, ht, -⟩, -⟩ | ⟨t, ht, -⟩⟩ <;> exact hrest i t ht
  have hlooks : ∀ i, ¬ (F.Looks w e s i ∧ F.Faced s) := fun i hl =>
    not_looks (congrFun hst i) hl.1
  have hstage : ∀ i, (F.system.step w e).2.stage i = w.stage i := congrFun hst
  refine ⟨fun i hi => ?_, fun x hx sc hsc => ?_, fun i hc hb => ?_, fun i hd hf => ?_,
    fun i hd hh => ?_, fun i hn => ?_, fun i hi hall => ?_, fun hex hall => ?_⟩
  · show Sees F.p (· = id) (fun k => ((F.act w e).books i).scanned k ∧ _) ((F.act w e).stage i)
    rw [hst, hbooks]
    exact sees_note (h.sees i (hi.1.resolve_right (hstarts i))) here.live
  · exact h.finds x (hx.1.resolve_right (hrenews x)) sc ((congrFun hlast x).symm.trans hsc)
  · rw [hstage] at hb
    exact ⟨Or.inl (h.begun i (hc.1.resolve_right (hrenews _)) hb), here⟩
  · rcases hf.1 with hold | hfresh
    · obtain ⟨hfaces, hcov⟩ := h.facing i hd hold
      rw [hstage]
      exact ⟨hfaces, fun hl => ⟨Or.inl (hcov hl), here⟩⟩
    · obtain ⟨hfaces, hno⟩ := faces_of_fresh hfresh
      exact ⟨hfaces, fun hl => nomatch hno.symm.trans hl⟩
  · obtain ⟨hheeds, hcov, hfaced⟩ := h.heeding i hd (hh.1.resolve_right (hlooks i))
    rw [hstage]
    exact ⟨hheeds, ⟨Or.inl hcov, here⟩, fun j hj => ⟨Or.inl (hfaced j hj), here⟩⟩
  · exact ⟨Or.inl (hn.1.elim (h.noted i) And.left), here⟩
  · exact (congrFun hready _).trans (h.ready i hi (fun j hj hd =>
      (hall j hj hd).1.resolve_right (hlooks j)))
  · exact h.unmarked_act hp ht hfits he hex (fun i hi => (hall i hi).1)

/-- A step of a task. -/
theorem watched_task (hp : F.p ≠ "") (hin : InOrder F w)
    (hfits : ∀ i, (w.stage i).Fits (F.duty i)) (hold : F.older id) (hfind : Findable F.p id)
    (he : F.Promised w (.task i t)) (h : Watched F id w s)
    (here : Registered F.p (F.taskStep w i t).redis id) :
    Watched F id (F.system.step w (.task i t)).2 (F.stay w (.task i t) id s) := by
  have hreg := (registered_taskStep hin.typed i t).mp here
  have hm := moves_taskStep (F := F) w i t
  have hothers : ∀ j, j ≠ i → (F.taskStep w i t).stage j = w.stage j := fun j hj =>
    (taskStep_other hj t).1
  refine ⟨fun j hj => ?_, fun x hx sc hsc => ?_, fun j hc hb => ?_, fun j hd hf => ?_,
    fun j hd hh => ?_, fun j hn => ?_, fun j hj hall => ?_, fun hex hall => ?_⟩
  · show Sees F.p (· = id) (fun k => ((F.taskStep w i t).books j).scanned k ∧ _)
      ((F.taskStep w i t).stage j)
    by_cases hji : j = i
    · subst hji
      exact sees_note (h.sees_moves hfind hreg he hm hj.1) here.live
    · rw [hothers j hji, hm.scanned_of_ne hji]
      refine sees_note (h.sees j (hj.1.resolve_right ?_)) here.live
      rintro ⟨t', ht, -⟩
      exact hji (FleetEvent.task.inj ht).1.symm
  · exact h.finds_moves hreg hm hx.1 hsc
  · exact ⟨h.begun_moves hin hm hothers hc.1 hb, here⟩
  · rcases hf.1 with hfaced | hfresh
    · by_cases hji : j = i
      · subst hji
        obtain ⟨hfaces, hcov⟩ := h.facing_moves hin hold hreg hm hd (hd ▸ hfits j) hfaced
        exact ⟨hfaces, fun hl => ⟨hcov hl, here⟩⟩
      · obtain ⟨hfaces, hcov⟩ := h.facing j hd hfaced
        show ((F.taskStep w i t).stage j).faces = true
          ∧ (((F.taskStep w i t).stage j).looks = true → _)
        rw [hothers j hji]
        exact ⟨hfaces, fun hl => ⟨Or.inl (hcov hl), here⟩⟩
    · obtain ⟨hfaces, hno⟩ := faces_of_fresh hfresh
      exact ⟨hfaces, fun hl => nomatch hno.symm.trans hl⟩
  · rcases hh.1 with hheeds | ⟨hl, hfaced⟩
    · obtain ⟨hstage, hcov, hfaced⟩ := h.heeding j hd hheeds
      refine ⟨?_, ⟨Or.inl hcov, here⟩, fun k hk => ⟨Or.inl (hfaced k hk), here⟩⟩
      by_cases hji : j = i
      · subst hji
        show ((F.taskStep w j t).stage j).heeds = true
        exact h.heeding_moves hin hold hreg hm hd (hd ▸ hfits j) hheeds
      · show ((F.taskStep w i t).stage j).heeds = true
        rw [hothers j hji]
        exact hstage
    · by_cases hji : j = i
      · subst hji
        obtain ⟨⟨seen, hst⟩, -, hcov⟩ := h.looks_task hin hold hreg hl
        refine ⟨?_, ⟨hcov, here⟩, fun k hk => ⟨Or.inl (hfaced k hk), here⟩⟩
        show ((F.taskStep w j t).stage j).heeds = true
        rw [hst]
        rfl
      · exact absurd hl (not_looks (e := .task i t) (hothers j hji))
  · exact ⟨Or.inl (hn.1.elim (h.noted j) And.left), here⟩
  · exact h.ready_task hin hfits hold hreg hj (fun k hk hd =>
      (hall k hk hd).1.imp_right And.left)
  · exact h.unmarked_act hp hin.typed hfits he hex (fun k hk => (hall k hk).1)

/-- **Every step keeps what is kept of a stay right.** -/
theorem watched_step (hp : F.p ≠ "") (hin : InOrder F w)
    (hfits : ∀ i, (w.stage i).Fits (F.duty i)) (hold : F.older id) (hfind : Findable F.p id)
    (he : F.Promised w e) (h : Watched F id w s) :
    Watched F id (F.system.step w e).2 (F.stay w e id s) := by
  by_cases here : Registered F.p (F.act w e).redis id
  swap
  · exact watched_away here _
  rcases moved_act (F := F) w e with ⟨hrest, hst, hready, hlast, hbooks⟩ | ⟨i, t, rfl, -⟩
  · exact watched_rest hp hin.typed hfits he h here hrest hst hready hlast hbooks
  · exact watched_task hp hin hfits hold hfind he h here

end Fleet
