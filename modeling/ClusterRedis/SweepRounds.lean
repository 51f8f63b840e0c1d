import ClusterRedis.SweepLock

/-!
# The rounds of the sweep lock

When a renewal by the maintenance of a replica fails – the server did not
answer, or the reply was lost – the maintenance gives the lock's state up and
tries for the lock again. But the task of the state refers to it too, and
renews on: the lock is there, in the name of this very replica, and nobody gets
it.

So the lock is *tended* from the moment a replica gets it, for as long as the
task is prompt and answered, whoever else does what (`Tended`). While the
maintenance is answered too, its replica works in each of its rounds
(`works_every_round`). After one renewal of the maintenance that was not
answered no replica works, as long as the task goes on
(`no_work_after_lost_renewal`).
-/

open Numerals

/-- Whose maintenance a step is of. -/
def SweepEvent.maintenanceOf {ι : Type} : SweepEvent ι → Option ι
  | .round i _ => some i
  | .run i _ => some i
  | .reply i => some i
  | .done i => some i
  | _ => none

namespace SweepReplica

/-- A reply by which a replica begins to work. -/
def Told (q : SweepReplica) : Prop :=
  (∃ n, n ≠ 0 ∧ q.stage = .renewed (some n)) ∨ ∃ tok, q.stage = .acquired (some (some tok))

/-- What the maintenance of a replica goes by. -/
def loop (q : SweepReplica) : RoundStage × Option ℕ × ℕ × ℕ :=
  (q.stage, q.held, q.rounds, q.works)

/-- A replica that tries for the lock takes none for its own. -/
def Tries (q : SweepReplica) : Prop :=
  (q.stage = .acquiring ∨ ∃ r, q.stage = .acquired r) → q.held = none

/-- At other stages there is nothing to say. -/
theorem tries_of_ne {q : SweepReplica} (h : q.stage ≠ .acquiring)
    (h' : ∀ r, q.stage ≠ .acquired r) : q.Tries := by
  rintro (hc | ⟨r, hc⟩)
  · exact absurd hc h
  · exact absurd hc (h' r)

theorem Tries.read {q : SweepReplica} (h : q.Tries) (now : ℕ) :
    (q.read now).Tries := by
  unfold SweepReplica.read
  split
  · split
    · exact fun _ => rfl
    · exact tries_of_ne (fun hc => nomatch hc) (fun _ hc => nomatch hc)
  · exact fun _ => rfl
  · exact tries_of_ne (fun hc => nomatch hc) (fun _ hc => nomatch hc)
  · exact tries_of_ne (fun hc => nomatch hc) (fun _ hc => nomatch hc)
  · exact h

theorem tries_begin (q : SweepReplica) (now : ℕ) : (q.begin now).Tries := by
  unfold begin
  split
  · exact tries_of_ne (fun hc => nomatch hc) (fun _ hc => nomatch hc)
  · exact fun _ => rfl

theorem Told.given {q : SweepReplica} (h : q.Told) : q.Given := by
  unfold Given
  rcases h with ⟨n, hn, hs⟩ | ⟨tok, hs⟩
  · rw [hs]
    exact hn
  · rw [hs]
    trivial

/-- What is left when a reply does not let a replica work. -/
theorem read_of_not_told {q : SweepReplica} (h : ¬ q.Told) (now : ℕ) :
    (q.read now).works = q.works ∧ ((q.read now).held = none ∨ (q.read now).held = q.held)
      ∧ (q.read now).states.length = q.states.length := by
  unfold read
  split
  · next n hs =>
    split
    · split
      · exact ⟨rfl, Or.inl rfl, List.length_modify _ _ _⟩
      · exact ⟨rfl, Or.inl rfl, rfl⟩
    · next hn => exact absurd (Or.inl ⟨n, hn, hs⟩) h
  · exact ⟨rfl, Or.inl rfl, rfl⟩
  · next tok hs => exact absurd (Or.inr ⟨tok, hs⟩) h
  · exact ⟨rfl, Or.inr rfl, rfl⟩
  · exact ⟨rfl, Or.inr rfl, rfl⟩

/-- **What a step changes of a replica** that has not been told that it may
work: it works no more than before, takes no lock for its own that it did not
before, and is given no state. -/
structure Waits (q q' : SweepReplica) : Prop where
  works : q'.works = q.works
  held : q'.held = none ∨ q'.held = q.held
  states : q'.states.length = q.states.length

theorem Waits.refl (q : SweepReplica) : q.Waits q := ⟨rfl, Or.inr rfl, rfl⟩

theorem waits_begin (q : SweepReplica) (now : ℕ) : q.Waits (q.begin now) := by
  unfold begin
  split
  · exact ⟨rfl, Or.inr rfl, rfl⟩
  · exact ⟨rfl, Or.inl rfl, rfl⟩

end SweepReplica

namespace SweepFleet

variable {ι : Type} [DecidableEq ι] {F : SweepFleet ι} {w : SweepWorld ι} {i j : ι}

/-! ## The lock that is tended -/

variable (F) (T : Latency)

/-- How long the task of a lock stays where it stands, at most. -/
def pace : Pace RenewalTask := LeaseTerms.pace (LeaseTerms.sleepMs F.ttl percent) T

/-- **The task of a lock is prompt and is answered**: no time passes but what
its stage has left, or before there is one the reply to the attempt; and no
other call renews or releases the lock in the replica's name. -/
def Prompt (i : ι) (h : ℕ) (w : SweepWorld ι) : SweepEvent ι → Prop
  | .tick d =>
    match (w.replicas i).states[h]? with
    | some st => w.redis.now + d ≤ st.since + (F.pace T).stay st.task
    | none => w.redis.now + d ≤ (w.replicas i).since + T.reply
  | .request _ holder _ => holder ≠ F.node i
  | .taskRun i' h' fault => i' = i → h' = h →
    fault = none ∧ w.redis.now + clampMs F.ttl.asMillis < 2 ^ 63
  | _ => True

/-- **Who looks after the lock**, which somebody gave more time last at some
time: the replica has still to read that it is its own, or a task renews it. -/
inductive Tends (i : ι) (h : ℕ) (w : SweepWorld ι) (last : ℕ) : Prop
  | told (tok : ℤ) (hs : (w.replicas i).stage = .acquired (some (some tok)))
      (hheld : (w.replicas i).held = none) (hlen : (w.replicas i).states.length = h)
      (hsince : (w.replicas i).since ≤ last) (hpast : last ≤ w.redis.now)
      (hsoon : w.redis.now ≤ (w.replicas i).since + T.reply)
  | cares (st : SweepState) (hst : (w.replicas i).states[h]? = some st)
      (hr : st.released = false) (hg : LeaseTerms.GoesOn st.task)
      (hk : (F.pace T).Keeps ⟨w.redis.now, st.task, st.since, last⟩)
      (hno : ∀ tok, (w.replicas i).stage ≠ .acquired (some (some tok)))

/-- **The lock is tended.** -/
structure Tended (i : ι) (h : ℕ) (w : SweepWorld ι) : Prop where
  /-- It is the replica's, and somebody looks after it. -/
  lock : ∃ last, w.redis.lookup F.lease = some ⟨.str (holderBytes (F.node i)),
    some (last + clampMs F.ttl.asMillis)⟩ ∧ F.Tends T i h w last
  /-- The replica has not been told otherwise, -/
  told : ∀ n, (w.replicas i).stage = .renewed (some n) → n ≠ 0
  /-- and what it takes for its own, or renews, is this lock. -/
  held : ∀ k, (w.replicas i).held = some k → k = h
  renews : ((w.replicas i).stage = .renewing ∨ ∃ r, (w.replicas i).stage = .renewed r) →
    (w.replicas i).held = some h
  /-- Nobody else has been given it. -/
  others : ∀ j, j ≠ i → ¬ (w.replicas j).Given

variable {F T} {h last : ℕ}

omit [DecidableEq ι] in
theorem Tended.heldBy (ht : F.Tended T i h w) : w.redis.HeldBy F.lease (F.node i) := by
  obtain ⟨last, hl, -⟩ := ht.lock
  exact ⟨_, hl⟩

omit [DecidableEq ι] in
/-- A step that is about neither the replica nor the lock. -/
theorem Tended.congr (ht : F.Tended T i h w) {w' : SweepWorld ι}
    (hi : w'.replicas i = w.replicas i)
    (hl : w'.redis.lookup F.lease = w.redis.lookup F.lease) (hn : w'.redis.now = w.redis.now)
    (ho : ∀ j, j ≠ i → (w'.replicas j).Given → (w.replicas j).Given) : F.Tended T i h w' := by
  obtain ⟨⟨last, hlock, htends⟩, htold, hheld, hrenews, hothers⟩ := ht
  refine ⟨⟨last, hl.trans hlock, ?_⟩, ?_, ?_, ?_, fun j hj hg => hothers j hj (ho j hj hg)⟩
  · cases htends with
    | told tok hs hheld hlen hsince hpast hsoon =>
      rw [← hi] at hs hheld hlen hsince hsoon
      rw [← hn] at hpast hsoon
      exact .told tok hs hheld hlen hsince hpast hsoon
    | cares st hst hr hg hk hno =>
      rw [← hi] at hst hno
      rw [← hn] at hk
      exact .cares st hst hr hg hk hno
  · rwa [hi]
  · rwa [hi]
  · rwa [hi]

/-- A step of another replica's. -/
theorem Tended.other (ht : F.Tended T i h w) (hj : j ≠ i) {q : SweepReplica}
    (hq : q.Given → (w.replicas j).Given) :
    F.Tended T i h ⟨w.redis, Function.update w.replicas j q⟩ := by
  refine ht.congr (Function.update_of_ne hj.symm _ _) rfl rfl (fun k _ hk => ?_)
  by_cases hkj : k = j
  · subst hkj
    exact hq (by simpa using hk)
  · simpa [Function.update_of_ne hkj] using hk

/-- A step of the replica's own. -/
theorem Tended.own (ht : F.Tended T i h w) {q : SweepReplica} {s : Redis}
    (hlock : ∃ last, s.lookup F.lease = some ⟨.str (holderBytes (F.node i)),
        some (last + clampMs F.ttl.asMillis)⟩
      ∧ F.Tends T i h ⟨s, Function.update w.replicas i q⟩ last)
    (htold : ∀ n, q.stage = .renewed (some n) → n ≠ 0) (hheld : ∀ k, q.held = some k → k = h)
    (hrenews : (q.stage = .renewing ∨ ∃ r, q.stage = .renewed r) → q.held = some h) :
    F.Tended T i h ⟨s, Function.update w.replicas i q⟩ where
  lock := hlock
  told := by
    simpa only [Function.update_self] using htold
  held := by
    simpa only [Function.update_self] using hheld
  renews := by
    simpa only [Function.update_self] using hrenews
  others j hj := by
    simp only [Function.update_of_ne hj]
    exact ht.others j hj

/-- **Another replica's requests** find the lock held. -/
theorem Tended.run_other (ht : F.Tended T i h w) (hj : j ≠ i) (fault : Option Bool) :
    F.Tended T i h (F.run w j fault) := by
  unfold SweepFleet.run
  split
  · obtain ⟨reply, lastOk, s, hrun, ⟨rfl, -, hno⟩ | ⟨hheld, -⟩⟩ := renew_cases (F := F) (w := w)
      (i := j) fault (fun q reply => q.goto w.redis.now (.renewed reply))
    · rw [hrun]
      refine ht.other hj (fun hg => ?_)
      cases reply with
      | none => exact hg.elim
      | some n => exact absurd (hno n rfl).1 hg
    · exact absurd (heldBy_unique hheld ht.heldBy) hj
  · obtain ⟨reply, lastOk, s, hrun, ⟨rfl, -, hno⟩ | ⟨hfree, -⟩⟩ := tryFor_cases (F := F) (w := w)
      (i := j) fault
    · rw [hrun]
      refine ht.other hj (fun hg => ?_)
      cases reply with
      | none => exact hg.elim
      | some t =>
        obtain rfl : t = none := hno
        exact hg.elim
    · obtain ⟨e, hl⟩ := ht.heldBy
      exact nomatch hfree.symm.trans hl
  · exact ht

/-- So does a task of a lock that another replica had. -/
theorem Tended.taskRun_other (ht : F.Tended T i h w) (hj : j ≠ i) (k : ℕ) (fault : Option Bool) :
    F.Tended T i h (F.taskRun w j k fault) := by
  unfold SweepFleet.taskRun
  split
  · obtain ⟨reply, lastOk, s, hrun, ⟨rfl, -, hno⟩ | ⟨hheld, -⟩⟩ := renew_cases (F := F) (w := w)
      (i := j) fault (fun q reply => q.onState k (fun st => st.goto w.redis.now (.renewed reply)))
    · rw [hrun]
      exact ht.other hj (fun hg => hg)
    · exact absurd (heldBy_unique hheld ht.heldBy) hj
  · exact ht

/-! ### The replica's own steps -/

/-- What a change of the replica that is not about its states leaves of the
care for the lock. -/
theorem Tends.stage (ht : F.Tends T i h w last) (hmade : h < (w.replicas i).states.length)
    {q : SweepReplica} (hq : q.states = (w.replicas i).states)
    (hno : ∀ tok, q.stage ≠ .acquired (some (some tok))) :
    F.Tends T i h ⟨w.redis, Function.update w.replicas i q⟩ last := by
  cases ht with
  | told tok hs hheld hlen => exact absurd hlen hmade.ne'
  | cares st hst hr hg hk =>
    refine .cares st ?_ hr hg hk ?_
    · simpa only [Function.update_self, hq] using hst
    · simpa only [Function.update_self] using hno

omit [DecidableEq ι] in
/-- Unless it has still to read that the lock is its own, the state is there. -/
theorem Tends.made (ht : F.Tends T i h w last)
    (hs : ∀ tok, (w.replicas i).stage ≠ .acquired (some (some tok))) :
    h < (w.replicas i).states.length := by
  cases ht with
  | told tok hs' => exact absurd hs' (hs tok)
  | cares st hst => exact (List.getElem?_eq_some_iff.mp hst).1

omit [DecidableEq ι] in
/-- A script gives the lock more time. -/
theorem Tends.early (ht : F.Tends T i h w last) {s : Redis} (hn : s.now = w.redis.now) :
    F.Tends T i h ⟨s, w.replicas⟩ w.redis.now := by
  cases ht with
  | told tok hs hheld hlen hsince hpast hsoon =>
    refine .told tok hs hheld hlen (hsince.trans hpast) (le_of_eq hn.symm) ?_
    show s.now ≤ _
    rwa [hn]
  | cares st hst hr hg hk hno =>
    refine .cares st hst hr hg ?_ hno
    show (F.pace T).Keeps ⟨s.now, _, _, _⟩
    rw [hn]
    exact hk.follows .early

/-- **The maintenance's own requests**: its renewals extend the lock, and its
attempts find it held. -/
theorem Tended.run_own (ht : F.Tended T i h w) (fault : Option Bool) :
    F.Tended T i h (F.run w i fault) := by
  obtain ⟨last, hlock, htends⟩ := ht.lock
  unfold SweepFleet.run
  split
  · next hs =>
    have hmade := htends.made (fun tok hc => nomatch hs.symm.trans hc)
    have hheld := ht.renews (Or.inl hs)
    obtain ⟨reply, lastOk, s, hrun, ⟨rfl, -, hno⟩ | ⟨-, -, rfl, hyes⟩⟩ := renew_cases (F := F)
      (w := w) (i := i) fault (fun q reply => q.goto w.redis.now (.renewed reply))
    · rw [hrun]
      refine ht.own ⟨last, hlock, htends.stage hmade rfl (fun tok hc => nomatch hc)⟩
        (fun n hn => ?_) ht.held (fun _ => hheld)
      exact absurd ht.heldBy (hno n (RoundStage.renewed.inj hn)).2
    · rw [hrun]
      refine ht.own ⟨w.redis.now, Redis.lookup_put_self _ (liveAt_leaseObj _ _ _), ?_⟩
        (fun n hn => ?_) ht.held (fun _ => hheld)
      · refine Tends.stage (w := ⟨w.redis.put F.lease _, w.replicas⟩) (htends.early rfl) hmade rfl
          (fun tok hc => ?_)
        cases hc
      · rw [hyes n (RoundStage.renewed.inj hn)]
        exact Nat.one_ne_zero
  · next hs =>
    have hmade := htends.made (fun tok hc => nomatch hs.symm.trans hc)
    obtain ⟨reply, lastOk, s, hrun, ⟨rfl, -, hno⟩ | ⟨hfree, -⟩⟩ := tryFor_cases (F := F) (w := w)
      (i := i) fault
    · rw [hrun]
      refine ht.own ⟨last, hlock, htends.stage hmade rfl (fun tok hc => ?_)⟩
        (fun n hn => nomatch hn) ht.held (fun hc => ?_)
      · rw [RoundStage.acquired.inj hc] at hno
        cases hno
      · rcases hc with hc | ⟨r, hc⟩
        · cases hc
        · cases hc
    · exact nomatch hfree.symm.trans hlock
  · exact ht

/-- **The maintenance reads a reply**: that the lock is its own, and the task
begins; or that it may work; or nothing, and it gives the lock up. -/
theorem Tended.read (ht : F.Tended T i h w) :
    F.Tended T i h (w.onReplica i (fun q => q.read w.redis.now)) := by
  obtain ⟨last, hlock, htends⟩ := ht.lock
  show F.Tended T i h ⟨w.redis, Function.update w.replicas i ((w.replicas i).read w.redis.now)⟩
  unfold SweepReplica.read
  split
  · next n hs =>
    have hmade := htends.made (fun tok hc => nomatch hs.symm.trans hc)
    rw [if_neg (ht.told n hs)]
    refine ht.own ⟨last, hlock, htends.stage hmade rfl (fun tok hc => nomatch hc)⟩
      (fun n hn => nomatch hn) ht.held (fun _ => ht.renews (Or.inr ⟨_, hs⟩))
  · next hs =>
    have hmade := htends.made (fun tok hc => nomatch hs.symm.trans hc)
    refine ht.own ⟨last, hlock, htends.stage hmade rfl (fun tok hc => nomatch hc)⟩
      (fun n hn => nomatch hn) (fun k hk => nomatch hk) ?_
    rintro (hc | ⟨r, hc⟩)
    · cases hc
    · cases hc
  · next tok hs =>
    cases htends with
    | told tok' hs' hheld hlen hsince hpast hsoon =>
      refine ht.own ⟨last, hlock, .cares ⟨false, .sleeping, w.redis.now⟩ ?_ rfl trivial
        ⟨?_, Nat.le_add_right _ _, hpast⟩ ?_⟩ (fun n hn => nomatch hn) (fun k hk => ?_) ?_
      · simp only [Function.update_self]
        rw [← hlen, List.getElem?_append_right (le_refl _), Nat.sub_self]
        rfl
      · exact hsoon.trans (Nat.add_le_add_right hsince _)
      · simp only [Function.update_self]
        exact fun tok hc => nomatch hc
      · exact (Option.some.inj hk).symm.trans hlen
      · rintro (hc | ⟨r, hc⟩)
        · cases hc
        · cases hc
    | cares st hst hr hg hk hno => exact absurd hs (hno tok)
  · next hno hs =>
    have hmade := htends.made (fun tok hc => hno tok (RoundStage.acquired.inj (hs.symm.trans hc)))
    refine ht.own ⟨last, hlock, htends.stage hmade rfl (fun tok hc => nomatch hc)⟩
      (fun n hn => nomatch hn) ht.held ?_
    rintro (hc | ⟨r, hc⟩)
    · cases hc
    · cases hc
  · rw [Function.update_eq_self]
    exact ht

/-- A change of the replica's other states leaves the care for the lock. -/
theorem Tends.rest (ht : F.Tends T i h w last) {q : SweepReplica}
    (hs : q.stage = (w.replicas i).stage) (hheld : q.held = (w.replicas i).held)
    (hsince : q.since = (w.replicas i).since)
    (hlen : q.states.length = (w.replicas i).states.length)
    (hget : q.states[h]? = (w.replicas i).states[h]?) :
    F.Tends T i h ⟨w.redis, Function.update w.replicas i q⟩ last := by
  cases ht with
  | told tok hs' hheld' hlen' hsince' hpast hsoon =>
    refine .told tok ?_ ?_ ?_ ?_ hpast ?_ <;> simp only [Function.update_self]
    · exact hs.trans hs'
    · exact hheld.trans hheld'
    · exact hlen.trans hlen'
    · exact hsince.le.trans hsince'
    · rwa [hsince]
  | cares st hst hr hg hk hno =>
    refine .cares st ?_ hr hg hk ?_ <;> simp only [Function.update_self]
    · exact hget.trans hst
    · rwa [hs]

/-- A state of the replica is changed, which is not the lock's, or goes on as
the pace allows. -/
theorem Tended.onState (ht : F.Tended T i h w) (k : ℕ) {f : SweepState → SweepState}
    (hf : ∀ st last, st.released = false → LeaseTerms.GoesOn st.task →
      (F.pace T).Keeps ⟨w.redis.now, st.task, st.since, last⟩ →
      (f st).released = false ∧ LeaseTerms.GoesOn (f st).task
        ∧ (F.pace T).Keeps ⟨w.redis.now, (f st).task, (f st).since, last⟩) :
    F.Tended T i h (w.onReplica i (fun q => q.onState k f)) := by
  obtain ⟨last, hlock, htends⟩ := ht.lock
  refine ht.own ⟨last, hlock, ?_⟩ ht.told ht.held ht.renews
  by_cases hkh : k = h
  · subst hkh
    have hcare := htends
    cases htends with
    | told tok hs hheld hlen =>
      have hnone := List.getElem?_eq_none hlen.le
      refine hcare.rest rfl rfl rfl (List.length_modify _ _ _) ?_
      show ((w.replicas i).states.modify k f)[k]? = _
      rw [List.getElem?_modify_eq, hnone]
      rfl
    | cares st hst hr hg hk hno =>
      obtain ⟨hr', hg', hk'⟩ := hf st last hr hg hk
      refine .cares (f st) ?_ hr' hg' hk' ?_ <;> simp only [Function.update_self]
      · rw [SweepReplica.onState, List.getElem?_modify_eq, hst]
        rfl
      · exact hno
  · exact htends.rest rfl rfl rfl (List.length_modify _ _ _) (List.getElem?_modify_ne _ _ hkh)

/-- The task wakes up, and finds the lock not released. -/
theorem Tended.wake (hfits : LeaseTerms.Fits (F.terms i) (F.pace T)) (ht : F.Tended T i h w)
    (k : ℕ) :
    F.Tended T i h (w.onReplica i (fun q => q.onState k (fun st => st.wake w.redis.now))) := by
  refine ht.onState k (fun st last hr hg hk => ?_)
  unfold SweepState.wake
  split
  · next hs =>
    rw [hr]
    refine ⟨hr, trivial, hk.follows (.goOn RenewalTask.renewing ?_)⟩
    show (F.pace T).reach st.task ≤ _
    rw [hs]
    exact hfits.wake
  · exact ⟨hr, hg, hk⟩

/-- It goes back to sleep. -/
theorem Tended.taskReturn (hfits : LeaseTerms.Fits (F.terms i) (F.pace T))
    (ht : F.Tended T i h w) (k : ℕ) :
    F.Tended T i h (w.onReplica i
      (fun q => q.onState k (fun st => st.taskReturn w.redis.now))) := by
  refine ht.onState k (fun st last hr hg hk => ?_)
  unfold SweepState.taskReturn
  split
  · next n hs =>
    rw [hs] at hg
    obtain rfl : n = 1 := Option.some.inj hg
    refine ⟨hr, trivial, hk.follows (.goOn RenewalTask.sleeping ?_)⟩
    show (F.pace T).reach st.task ≤ _
    rw [hs]
    exact hfits.back _
  · next hs =>
    rw [hs] at hg
    exact nomatch hg
  · exact ⟨hr, hg, hk⟩

/-- **A task of the replica's renews**: the lock's own, and is answered; or
that of a lock it had before, which extends this one. -/
theorem Tended.taskRun_own (ht : F.Tended T i h w) {k : ℕ} {fault : Option Bool}
    (he : F.Prompt T i h w (.taskRun i k fault)) : F.Tended T i h (F.taskRun w i k fault) := by
  unfold SweepFleet.taskRun
  split
  · next released since hk =>
    obtain ⟨last, hlock, htends⟩ := ht.lock
    by_cases hkh : k = h
    · subst hkh
      obtain ⟨rfl, hroom⟩ := he rfl rfl
      rw [renew_answered ht.heldBy hroom]
      refine ht.own ⟨w.redis.now, Redis.lookup_put_self _ (liveAt_leaseObj _ _ _), ?_⟩ ht.told
        ht.held ht.renews
      cases htends with
      | told tok hs hheld hlen =>
        rw [List.getElem?_eq_none hlen.le] at hk
        cases hk
      | cares st hst hr hg hkeeps hno =>
        obtain rfl := Option.some.inj (hst.symm.trans hk)
        refine .cares ⟨released, .renewed (some 1), w.redis.now⟩ ?_ hr rfl
          (hkeeps.follows (.work _)) ?_
        · simp only [Function.update_self, SweepReplica.onState, List.getElem?_modify_eq, hst]
          rfl
        · simp only [Function.update_self]
          exact hno
    · obtain ⟨reply, lastOk, s, hrun, ⟨rfl, -, -⟩ | ⟨-, -, rfl, -⟩⟩ := renew_cases (F := F)
        (w := w) (i := i) fault
        (fun q reply => q.onState k (fun st => st.goto w.redis.now (.renewed reply)))
      · rw [hrun]
        exact ht.own ⟨last, hlock, htends.rest rfl rfl rfl (List.length_modify _ _ _)
          (List.getElem?_modify_ne _ _ hkh)⟩ ht.told ht.held ht.renews
      · rw [hrun]
        refine ht.own ⟨w.redis.now, Redis.lookup_put_self _ (liveAt_leaseObj _ _ _), ?_⟩ ht.told
          ht.held ht.renews
        exact Tends.rest (w := ⟨w.redis.put F.lease _, w.replicas⟩) (htends.early rfl) rfl rfl rfl
          (List.length_modify _ _ _) (List.getElem?_modify_ne _ _ hkh)
  · exact ht

omit [DecidableEq ι] in
/-- **Time passes**, and the lock is there: what the stages leave fits into its
lifetime. -/
theorem Tended.tick (hfits : LeaseTerms.Fits (F.terms i) (F.pace T)) (ht : F.Tended T i h w)
    {d : ℕ} (he : F.Prompt T i h w (.tick d)) :
    F.Tended T i h { w with redis := w.redis.tick d } := by
  obtain ⟨⟨last, hlock, htends⟩, htold, hheld, hrenews, hothers⟩ := ht
  have hlives : w.redis.now + d ≤ last + clampMs F.ttl.asMillis →
      (w.redis.tick d).lookup F.lease = some ⟨.str (holderBytes (F.node i)),
        some (last + clampMs F.ttl.asMillis)⟩ := by
    intro hle
    rw [Redis.lookup_tick, hlock]
    exact Option.filter_some_pos (decide_eq_true hle)
  refine ⟨⟨last, ?_⟩, htold, hheld, hrenews, hothers⟩
  unfold Prompt at he
  cases htends with
  | told tok hs hheld hlen hsince hpast hsoon =>
    rw [List.getElem?_eq_none hlen.le] at he
    have hreply : T.reply ≤ clampMs F.ttl.asMillis :=
      (Nat.le_add_left _ _).trans (hfits.reach (.renewed none))
    exact ⟨hlives (he.trans (Nat.add_le_add hsince hreply)),
      .told tok hs hheld hlen hsince (hpast.trans (Nat.le_add_right _ _)) he⟩
  | cares st hst hr hg hk hno =>
    rw [hst] at he
    have hkeeps := hk.follows (.wait d he)
    exact ⟨hlives (hkeeps.last.trans (Nat.add_le_add_left (hfits.reach _) _)),
      .cares st hst hr hg hkeeps hno⟩

/-- **A round of the replica's begins**: with a renewal of this lock, or with
an attempt. -/
theorem Tended.round (ht : F.Tended T i h w) (hs : (w.replicas i).stage = .waiting) :
    F.Tended T i h (w.onReplica i (fun q => q.begin w.redis.now)) := by
  obtain ⟨last, hlock, htends⟩ := ht.lock
  have hmade := htends.made (fun tok hc => nomatch hs.symm.trans hc)
  show F.Tended T i h ⟨w.redis, Function.update w.replicas i ((w.replicas i).begin w.redis.now)⟩
  unfold SweepReplica.begin
  split
  · next hsome =>
    obtain ⟨k, hk⟩ := Option.isSome_iff_exists.mp (Bool.and_eq_true_iff.mp hsome).1
    refine ht.own ⟨last, hlock, htends.stage hmade rfl (fun tok hc => nomatch hc)⟩
      (fun n hn => nomatch hn) ht.held (fun _ => ?_)
    rw [← ht.held k hk]
    exact hk
  · refine ht.own ⟨last, hlock, htends.stage hmade rfl (fun tok hc => nomatch hc)⟩
      (fun n hn => nomatch hn) (fun k hk => nomatch hk) ?_
    rintro (hc | ⟨r, hc⟩)
    · cases hc
    · cases hc

/-- Its work is done. -/
theorem Tended.done (ht : F.Tended T i h w) (hs : (w.replicas i).stage = .working) :
    F.Tended T i h (w.onReplica i (fun q => q.goto w.redis.now .waiting)) := by
  obtain ⟨last, hlock, htends⟩ := ht.lock
  have hmade := htends.made (fun tok hc => nomatch hs.symm.trans hc)
  refine ht.own ⟨last, hlock, htends.stage hmade rfl (fun tok hc => nomatch hc)⟩
    (fun n hn => nomatch hn) ht.held ?_
  rintro (hc | ⟨r, hc⟩)
  · cases hc
  · cases hc

/-- **Every step leaves the lock tended**, while its task is prompt. -/
theorem tended_step (hfits : LeaseTerms.Fits (F.terms i) (F.pace T)) (w : SweepWorld ι)
    (e : SweepEvent ι) (ht : F.Tended T i h w) (he : F.Prompt T i h w e) :
    F.Tended T i h (F.system.step w e).2 := by
  have hother : ∀ (j : ι) (f : SweepReplica → SweepReplica), j ≠ i →
      ((f (w.replicas j)).Given → (w.replicas j).Given) → F.Tended T i h (w.onReplica j f) :=
    fun j f hj hf => ht.other hj hf
  cases e with
  | tick d => exact ht.tick hfits he
  | acquire holder ttl =>
    have hlive : w.redis.Live F.lease := by
      obtain ⟨e, hl⟩ := ht.heldBy
      exact Option.isSome_iff_exists.mpr ⟨_, hl⟩
    show F.Tended T i h { w with redis := (acquireLua F.lease _ holder ttl w.redis).2 }
    rw [(acquireLua_held hlive).1]
    exact ht
  | request kind holder ttl =>
    have hrun := LeaseTerms.scriptBy_heldBy (L := F.terms i) ht.heldBy he ttl kind
    cases kind with
    | renew =>
      show F.Tended T i h { w with redis := ((F.terms i).scriptBy holder ttl .renew w.redis).2 }
      rw [hrun]
      exact ht
    | release =>
      show F.Tended T i h { w with redis := ((F.terms i).scriptBy holder ttl .release w.redis).2 }
      rw [hrun]
      exact ht
  | round j listed =>
    show F.Tended T i h (if _ then _ else w)
    split
    · next hs =>
      by_cases hj : j = i
      · subst hj
        exact ht.round hs.1
      · refine hother j (fun q => q.begin w.redis.now) hj ?_
        unfold SweepReplica.begin
        split <;> exact fun hg => hg.elim
    · exact ht
  | run j fault =>
    by_cases hj : j = i
    · subst hj
      exact ht.run_own fault
    · exact ht.run_other hj fault
  | reply j =>
    by_cases hj : j = i
    · subst hj
      exact ht.read
    · exact hother j (fun q => q.read w.redis.now) hj SweepReplica.given_of_read
  | done j =>
    show F.Tended T i h (if _ then _ else w)
    split
    · next hs =>
      by_cases hj : j = i
      · subst hj
        exact ht.done hs
      · exact hother j (fun q => q.goto w.redis.now .waiting) hj (fun hg => hg.elim)
    · exact ht
  | wake j k =>
    by_cases hj : j = i
    · subst hj
      exact ht.wake hfits k
    · exact hother j (fun q => q.onState k (fun st => st.wake w.redis.now)) hj (fun hg => hg)
  | taskRun j k fault =>
    by_cases hj : j = i
    · subst hj
      exact ht.taskRun_own he
    · exact ht.taskRun_other hj k fault
  | taskReturn j k =>
    by_cases hj : j = i
    · subst hj
      exact ht.taskReturn hfits k
    · exact hother j (fun q => q.onState k (fun st => st.taskReturn w.redis.now)) hj (fun hg => hg)

/-! ## How a lock comes to be tended -/

/-- What holds of all replicas and of a changed one. -/
theorem forall_update {P : SweepReplica → Prop} (h : ∀ j, P (w.replicas j)) {q : SweepReplica}
    (hq : P q) : ∀ j, P (Function.update w.replicas i q j) := by
  intro j
  by_cases hj : j = i
  · rw [hj, Function.update_self]
    exact hq
  · rw [Function.update_of_ne hj]
    exact h j

/-- **In every run** a replica that tries for the lock takes none for its own. -/
theorem tries_step (w : SweepWorld ι) (e : SweepEvent ι) (h : ∀ j, (w.replicas j).Tries) :
    ∀ j, ((F.system.step w e).2.replicas j).Tries := by
  cases e with
  | tick d => exact h
  | acquire holder ttl => exact h
  | request kind holder ttl => cases kind <;> exact h
  | round i listed =>
    by_cases hs : (w.replicas i).stage = .waiting ∧ listed = true
    · have hstep : (F.system.step w (.round i listed)).2
          = w.onReplica i (fun q => q.begin w.redis.now) := if_pos hs
      rw [hstep]
      exact forall_update h (SweepReplica.tries_begin _ _)
    · have hstep : (F.system.step w (.round i listed)).2 = w := if_neg hs
      rwa [hstep]
  | run i fault =>
    show ∀ j, ((F.run w i fault).replicas j).Tries
    unfold SweepFleet.run
    split
    · exact forall_update h
        (SweepReplica.tries_of_ne (fun hc => nomatch hc) (fun _ hc => nomatch hc))
    · next hs => exact forall_update h (fun _ => h i (Or.inl hs))
    · exact h
  | reply i => exact forall_update h (SweepReplica.Tries.read (h i) _)
  | done i =>
    by_cases hs : (w.replicas i).stage = .working
    · have hstep : (F.system.step w (.done i)).2
          = w.onReplica i (fun q => q.goto w.redis.now .waiting) := if_pos hs
      rw [hstep]
      exact forall_update h
        (SweepReplica.tries_of_ne (fun hc => nomatch hc) (fun _ hc => nomatch hc))
    · have hstep : (F.system.step w (.done i)).2 = w := if_neg hs
      rwa [hstep]
  | wake i k => exact forall_update h (h i)
  | taskRun i k fault =>
    show ∀ j, ((F.taskRun w i k fault).replicas j).Tries
    unfold SweepFleet.taskRun
    split
    · exact forall_update h (h i)
    · exact h
  | taskReturn i k => exact forall_update h (h i)

/-- **A replica gets the lock**, in a run in which no work has outlasted it:
its attempt is answered with a token. -/
structure Acquires (F : SweepFleet ι) (w : SweepWorld ι) (i : ι) : Prop where
  reached : ∃ s es, F.system.Along F.InTime (start s) es ∧ F.system.final (start s) es = w
  tries : (w.replicas i).stage = .acquiring
  gets : ∃ tok, ((F.run w i none).replicas i).stage = .acquired (some (some tok))

/-- **The lock is tended from then on.** -/
theorem Acquires.tended (ha : F.Acquires w i) (T : Latency) :
    F.Tended T i (w.replicas i).states.length (F.run w i none) := by
  obtain ⟨⟨s₀, es, hes, rfl⟩, htries, tok, hgets⟩ := ha
  have hstart : F.Alone (start s₀) := fun j hj => absurd hj id
  have halone := F.system.inv_final alone_step hstart hes
  have hnone := F.system.inv_final (G := fun _ _ => True)
    (I := fun w => ∀ j, (w.replicas j).Tries) (fun w e h _ => tries_step w e h)
    (fun j _ => rfl) (System.along_of_mem _ (fun _ _ => trivial) : F.system.Along _ (start s₀) es)
  generalize F.system.final (start s₀) es = w at htries hgets halone hnone
  have hrunning : F.run w i none = F.tryFor w i none := by
    rw [SweepFleet.run, htries]
  rw [hrunning] at hgets ⊢
  obtain ⟨reply, lastOk, s, hrun, hcase⟩ := tryFor_cases (F := F) (w := w) (i := i) none
  rw [hrun] at hgets ⊢
  simp only [Function.update_self] at hgets
  obtain rfl := RoundStage.acquired.inj hgets
  rcases hcase with ⟨-, -, hno⟩ | ⟨hfree, hnow, hlock, -⟩
  · cases hno
  · refine ⟨⟨w.redis.now, hlock, .told tok ?_ ?_ ?_ ?_ hnow.ge ?_⟩, ?_, ?_, ?_, ?_⟩
    all_goals simp only [Function.update_self]
    · rfl
    · exact hnone i (Or.inl htries)
    · rfl
    · exact le_refl _
    · exact hnow.le.trans (Nat.le_add_right _ _)
    · intro n hn
      cases hn
    · intro k hk
      cases (hnone i (Or.inl htries)).symm.trans hk
    · rintro (hc | ⟨r, hc⟩)
      · cases hc
      · cases hc
    · intro j hj
      rw [Function.update_of_ne hj]
      intro hg
      have hl := halone j hg
      rw [Owns, hfree] at hl
      cases hl

omit [DecidableEq ι] in
theorem interval_pos : 0 < F.interval := by
  unfold interval
  split
  · assumption
  · decide

omit [DecidableEq ι] in
/-- **The lock is asked for as long as two intervals.** -/
theorem asMillis_ttl : F.ttl.asMillis = 2 * F.interval := by
  have hlt := F.interval_lt
  have hfits : (Duration.ofMillis F.interval F.interval_lt).nanos * 2 < 2 ^ 64 * 10 ^ 9 := by
    show F.interval * 10 ^ 6 * 2 < _
    omega
  obtain ⟨d, hd⟩ := Option.isSome_iff_exists.mp (Duration.checkedMul_isSome _ _ hfits)
  have hnanos := Duration.nanos_of_checkedMul _ _ hd
  rw [ttl, Duration.saturatingMul, hd, Option.getD_some, Duration.asMillis, hnanos]
  show F.interval * 10 ^ 6 * 2 / 10 ^ 6 = _
  omega

/-- **The lifetime has room** for what passes between two renewals of a task,
when that is no more than an interval. -/
theorem Acquires.fits (ha : F.Acquires w i) (hroom : T.late + T.request + T.reply ≤ F.interval) :
    LeaseTerms.Fits (F.terms i) (F.pace T) := by
  obtain ⟨-, htries, tok, hgets⟩ := ha
  rw [SweepFleet.run, htries] at hgets
  have hanswer : (F.attempt i w.redis).1.toOption = some (some tok) := by
    simp only [SweepFleet.tryFor, SweepWorld.onReplica, Function.update_self] at hgets
    exact RoundStage.acquired.inj hgets
  -- the server has taken the lifetime
  have hlifetime : clampMs F.ttl.asMillis < 2 ^ 63 := by
    by_contra hlong
    have hbad : ¬ ExpireOk w.redis.now (clampMs F.ttl.asMillis) := fun hok =>
      hlong ((Nat.le_add_left _ _).trans_lt hok.2)
    by_cases hfree : w.redis.lookup F.lease = none
    · have hrun : F.attempt i w.redis = _ := acquireLua_refused hfree hbad
      rw [hrun] at hanswer
      cases hanswer
    · exact (acquireLua_held (Option.isSome_iff_ne_none.mpr hfree)).2 tok (toOption_eq_some hanswer)
  refine LeaseTerms.fits_pace ((LeaseTerms.room_iff F.ttl percent T).mpr ?_)
  have hpos := F.interval_pos
  have hpercent : LeaseTerms.renewPercent percent = 50 := rfl
  rw [hpercent]
  rw [asMillis_ttl] at hlifetime ⊢
  unfold clampMs at hlifetime ⊢
  omega

/-! ## Who works -/

theorem waits_update {q : SweepReplica} (hq : (w.replicas i).Waits q) (j : ι) :
    (w.replicas j).Waits (Function.update w.replicas i q j) := by
  by_cases hj : j = i
  · subst hj
    rwa [Function.update_self]
  · rw [Function.update_of_ne hj]
    exact .refl _

theorem waits_step (w : SweepWorld ι) (e : SweepEvent ι) (j : ι) (h : ¬ (w.replicas j).Told) :
    (w.replicas j).Waits ((F.system.step w e).2.replicas j) := by
  cases e with
  | tick d => exact .refl _
  | acquire holder ttl => exact .refl _
  | request kind holder ttl => cases kind <;> exact .refl _
  | round i listed =>
    by_cases hs : (w.replicas i).stage = .waiting ∧ listed = true
    · have hstep : (F.system.step w (.round i listed)).2
          = w.onReplica i (fun q => q.begin w.redis.now) := if_pos hs
      rw [hstep]
      exact waits_update (q := (w.replicas i).begin w.redis.now) (SweepReplica.waits_begin _ _) j
    · have hstep : (F.system.step w (.round i listed)).2 = w := if_neg hs
      rw [hstep]
      exact .refl _
  | run i fault =>
    show (w.replicas j).Waits ((F.run w i fault).replicas j)
    unfold SweepFleet.run
    split
    · refine waits_update (i := i) ?_ j
      exact ⟨rfl, Or.inr rfl, rfl⟩
    · refine waits_update (i := i) ?_ j
      exact ⟨rfl, Or.inr rfl, rfl⟩
    · exact .refl _
  | reply i =>
    show (w.replicas j).Waits (Function.update w.replicas i _ j)
    by_cases hj : j = i
    · subst hj
      rw [Function.update_self]
      obtain ⟨hworks, hheld, hstates⟩ := SweepReplica.read_of_not_told h w.redis.now
      exact ⟨hworks, hheld, hstates⟩
    · rw [Function.update_of_ne hj]
      exact .refl _
  | done i =>
    by_cases hs : (w.replicas i).stage = .working
    · have hstep : (F.system.step w (.done i)).2
          = w.onReplica i (fun q => q.goto w.redis.now .waiting) := if_pos hs
      rw [hstep]
      refine waits_update (i := i) ?_ j
      exact ⟨rfl, Or.inr rfl, rfl⟩
    · have hstep : (F.system.step w (.done i)).2 = w := if_neg hs
      rw [hstep]
      exact .refl _
  | wake i k =>
    refine waits_update (i := i) ?_ j
    exact ⟨rfl, Or.inr rfl, List.length_modify _ _ _⟩
  | taskRun i k fault =>
    show (w.replicas j).Waits ((F.taskRun w i k fault).replicas j)
    unfold SweepFleet.taskRun
    split
    · refine waits_update (i := i) ?_ j
      exact ⟨rfl, Or.inr rfl, List.length_modify _ _ _⟩
    · exact .refl _
  | taskReturn i k =>
    refine waits_update (i := i) ?_ j
    exact ⟨rfl, Or.inr rfl, List.length_modify _ _ _⟩

/-- **A lock that is tended for nobody**: the replica has been given its
state, and does not take it for its own. -/
structure Abandoned (F : SweepFleet ι) (T : Latency) (i : ι) (h : ℕ) (w : SweepWorld ι) : Prop where
  tended : F.Tended T i h w
  made : h < (w.replicas i).states.length
  held : (w.replicas i).held = none

/-- Nobody is told to work. -/
theorem Abandoned.not_told (ha : F.Abandoned T i h w) (j : ι) : ¬ (w.replicas j).Told := by
  intro htold
  by_cases hj : j = i
  · subst hj
    rcases htold with ⟨n, -, hs⟩ | ⟨tok, hs⟩
    · exact nomatch ha.held.symm.trans (ha.tended.renews (Or.inr ⟨_, hs⟩))
    · obtain ⟨last, -, htends⟩ := ha.tended.lock
      cases htends with
      | told tok' hs' hheld hlen => exact absurd hlen ha.made.ne'
      | cares st hst hr hg hk hno => exact hno tok hs
  · exact ha.tended.others j hj htold.given

/-- **It stays so, and nobody works.** -/
theorem abandoned_step (hfits : LeaseTerms.Fits (F.terms i) (F.pace T)) (works : ι → ℕ)
    (w : SweepWorld ι) (e : SweepEvent ι)
    (ha : F.Abandoned T i h w ∧ ∀ j, (w.replicas j).works = works j) (he : F.Prompt T i h w e) :
    F.Abandoned T i h (F.system.step w e).2
      ∧ ∀ j, ((F.system.step w e).2.replicas j).works = works j := by
  obtain ⟨ha, hworks⟩ := ha
  have hwaits := fun j => waits_step (F := F) w e j (ha.not_told j)
  refine ⟨⟨tended_step hfits w e ha.tended he, ?_, ?_⟩, fun j => (hwaits j).works.trans (hworks j)⟩
  · rw [(hwaits i).states]
    exact ha.made
  · rcases (hwaits i).held with hheld | hheld
    · exact hheld
    · exact hheld.trans ha.held

/-- **After one renewal that was not answered nobody works.** Let a replica
get the lock, in any run in which no work has outlasted it, and let the task of
what it was given be prompt and answered from then on, with no more between two
renewals than an interval. When the maintenance of the replica has begun to
work and then at some time does not take the lock for its own any more –
because one renewal of its own failed –, then from there on no replica of the
deployment sweeps or completes the index, whatever the maintenance of each of
them does and however its requests end, as long as the task goes on. -/
theorem no_work_after_lost_renewal (F : SweepFleet ι) (T : Latency)
    (hroom : T.late + T.request + T.reply ≤ F.interval) (w : SweepWorld ι) (i : ι)
    (ha : F.Acquires w i) (es fs : List (SweepEvent ι))
    (hprompt : F.system.Along (F.Prompt T i (w.replicas i).states.length) (F.run w i none)
      (es ++ fs))
    (hmade : (w.replicas i).states.length
      < ((F.system.final (F.run w i none) es).replicas i).states.length)
    (hlost : ((F.system.final (F.run w i none) es).replicas i).held = none) (j : ι) :
    ((F.system.final (F.run w i none) (es ++ fs)).replicas j).works
      = ((F.system.final (F.run w i none) es).replicas j).works := by
  have hfits := ha.fits hroom
  obtain ⟨hes, hfs⟩ := (F.system.along_append _ _ _).mp hprompt
  have htended := F.system.inv_final (tended_step hfits) (ha.tended T) hes
  rw [System.final_append]
  have habandoned := F.system.inv_final (abandoned_step hfits _)
    ⟨⟨htended, hmade, hlost⟩, fun _ => rfl⟩ hfs
  exact habandoned.2 j

/-- The first of two replicas is about to get the lock. -/
def firstTries : SweepWorld Bool :=
  (pair.system.step (start (Redis.empty 0)) (.round true true)).2

theorem acquires_firstTries : pair.Acquires firstTries true :=
  ⟨⟨Redis.empty 0, [.round true true], ⟨trivial, trivial⟩, rfl⟩, rfl, _,
    gets_first pair true (by decide)⟩

/-- It works once; the reply to its renewal is lost; 25 milliseconds later its
task has renewed, both have had a tick, and neither has worked. -/
theorem no_work_after_lost_renewal_pair :
    ((pair.system.final (pair.run firstTries true none)
        ([.reply true, .done true, .round true true, .run true (some true), .reply true]
          ++ [.run true none, .reply true, .tick 25, .wake true 0, .taskRun true 0 none,
            .taskReturn true 0, .round true true, .run true none, .reply true,
            .round false true, .run false none, .reply false])).replicas false).works
      = ((pair.system.final (pair.run firstTries true none)
        [.reply true, .done true, .round true true, .run true (some true),
          .reply true]).replicas false).works := by
  refine no_work_after_lost_renewal pair ⟨0, 0, 0⟩ (by decide) firstTries true acquires_firstTries
    [.reply true, .done true, .round true true, .run true (some true), .reply true]
    [.run true none, .reply true, .tick 25, .wake true 0, .taskRun true 0 none,
      .taskReturn true 0, .round true true, .run true none, .reply true,
      .round false true, .run false none, .reply false] ?_ ?_ ?_ false
  · refine ⟨trivial, trivial, trivial, trivial, trivial, trivial, trivial, ?_, trivial, ?_, trivial,
      trivial, trivial, trivial, trivial, trivial, trivial, trivial⟩
    · show 0 + 25 ≤ 0 + (LeaseTerms.sleepMs pair.ttl 50 + 0)
      decide
    · exact fun _ _ => ⟨rfl, (by decide : 0 + 25 + 50 < 2 ^ 63)⟩
  · exact (by decide : 0 < 1)
  · rfl

/-! ## Every round -/

/-- **The maintenance of a replica is answered**: its requests are, and fit the
server's clock. -/
def Answered (F : SweepFleet ι) (i : ι) (w : SweepWorld ι) : SweepEvent ι → Prop
  | .run j fault => j = i → fault = none ∧ w.redis.now + clampMs F.ttl.asMillis < 2 ^ 63
  | _ => True

/-- How many of the rounds it has begun a replica has still to work in, when
it goes on so. -/
def pending : RoundStage → Option ℕ
  | .waiting => some 0
  | .renewing => some 1
  | .renewed (some _) => some 1
  | .acquired (some (some _)) => some 1
  | .working => some 0
  | _ => none

/-- **A replica works in each of its rounds**, from a round of its own on. -/
structure Diligent (F : SweepFleet ι) (T : Latency) (i : ι) (h : ℕ) (q₀ : SweepReplica)
    (w : SweepWorld ι) : Prop where
  tended : F.Tended T i h w
  counts : ∃ n, pending (w.replicas i).stage = some n
    ∧ (w.replicas i).works + n + q₀.rounds = q₀.works + (w.replicas i).rounds + 1
  held : (w.replicas i).held = some h ∨ ∃ r, (w.replicas i).stage = .acquired r

theorem loop_update {q : SweepReplica} (hq : q.loop = (w.replicas i).loop) (j : ι) :
    (Function.update w.replicas i q j).loop = (w.replicas j).loop := by
  by_cases hj : j = i
  · subst hj
    rwa [Function.update_self]
  · rw [Function.update_of_ne hj]

/-- **The other steps leave it alone.** -/
theorem loop_step (w : SweepWorld ι) (e : SweepEvent ι) (h : e.maintenanceOf ≠ some i) :
    ((F.system.step w e).2.replicas i).loop = (w.replicas i).loop := by
  have hne : ∀ {j : ι}, some j ≠ some i → i ≠ j := fun hj hij => hj (congrArg some hij.symm)
  cases e with
  | tick d => rfl
  | acquire holder ttl => rfl
  | request kind holder ttl => cases kind <;> rfl
  | round j listed =>
    by_cases hs : (w.replicas j).stage = .waiting ∧ listed = true
    · have hstep : (F.system.step w (.round j listed)).2
          = w.onReplica j (fun q => q.begin w.redis.now) := if_pos hs
      rw [hstep]
      exact congrArg SweepReplica.loop (Function.update_of_ne (hne h) _ _)
    · have hstep : (F.system.step w (.round j listed)).2 = w := if_neg hs
      rw [hstep]
  | run j fault =>
    show ((F.run w j fault).replicas i).loop = _
    unfold SweepFleet.run
    split
    · exact congrArg SweepReplica.loop (Function.update_of_ne (hne h) _ _)
    · exact congrArg SweepReplica.loop (Function.update_of_ne (hne h) _ _)
    · rfl
  | reply j => exact congrArg SweepReplica.loop (Function.update_of_ne (hne h) _ _)
  | done j =>
    by_cases hs : (w.replicas j).stage = .working
    · have hstep : (F.system.step w (.done j)).2
          = w.onReplica j (fun q => q.goto w.redis.now .waiting) := if_pos hs
      rw [hstep]
      exact congrArg SweepReplica.loop (Function.update_of_ne (hne h) _ _)
    · have hstep : (F.system.step w (.done j)).2 = w := if_neg hs
      rw [hstep]
  | wake j k => exact loop_update (q := (w.replicas j).onState k _) rfl i
  | taskRun j k fault =>
    show ((F.taskRun w j k fault).replicas i).loop = _
    unfold SweepFleet.taskRun
    split
    · refine loop_update (i := j) ?_ i
      rfl
    · rfl
  | taskReturn j k => exact loop_update (q := (w.replicas j).onState k _) rfl i

omit [DecidableEq ι] in
/-- The lock that is tended has not been released. -/
theorem Tended.not_lapsed (ht : F.Tended T i h w) (hs : (w.replicas i).stage = .waiting)
    (hheld : (w.replicas i).held = some h) : (w.replicas i).lapsed = false := by
  obtain ⟨last, -, htends⟩ := ht.lock
  cases htends with
  | told tok hs' => exact nomatch hs.symm.trans hs'
  | cares st hst hr =>
    rw [SweepReplica.lapsed, hheld, Option.bind_some, hst]
    exact hr

/-- A replica that changes as it goes on. -/
theorem Diligent.own {q₀ q : SweepReplica} {s : Redis}
    (ht : F.Tended T i h ⟨s, Function.update w.replicas i q⟩)
    (hcounts : ∃ n, pending q.stage = some n ∧ q.works + n + q₀.rounds = q₀.works + q.rounds + 1)
    (hheld : q.held = some h) : F.Diligent T i h q₀ ⟨s, Function.update w.replicas i q⟩ where
  tended := ht
  counts := by
    simpa only [Function.update_self] using hcounts
  held := by
    simpa only [Function.update_self] using Or.inl hheld

/-- **Every step of an answered replica leaves it so.** -/
theorem diligent_step (hfits : LeaseTerms.Fits (F.terms i) (F.pace T)) (q₀ : SweepReplica)
    (w : SweepWorld ι) (e : SweepEvent ι) (hd : F.Diligent T i h q₀ w)
    (he : F.Prompt T i h w e ∧ F.Answered i w e) :
    F.Diligent T i h q₀ (F.system.step w e).2 := by
  have ht := tended_step hfits w e hd.tended he.1
  obtain ⟨n, hpending, hcounts⟩ := hd.counts
  have hlock : ∀ {st : RoundStage}, (w.replicas i).stage = st → (∀ r, st ≠ .acquired r) →
      (w.replicas i).held = some h := by
    intro st hst hno
    refine hd.held.resolve_right ?_
    rintro ⟨r, hr⟩
    exact hno r (hst.symm.trans hr)
  by_cases hm : e.maintenanceOf = some i
  · cases e with
    | round j listed =>
      obtain rfl : j = i := Option.some.inj hm
      by_cases hs : (w.replicas j).stage = .waiting ∧ listed = true
      · have hstep : (F.system.step w (.round j listed)).2
            = w.onReplica j (fun q => q.begin w.redis.now) := if_pos hs
        have hheld := hlock hs.1 (by simp)
        have hbegin : (w.replicas j).begin w.redis.now
            = { (w.replicas j).goto w.redis.now .renewing with
              rounds := (w.replicas j).rounds + 1 } := by
          rw [SweepReplica.begin, hheld, hd.tended.not_lapsed hs.1 hheld]
          rfl
        rw [hstep, SweepWorld.onReplica, hbegin] at ht ⊢
        refine .own ht ⟨1, rfl, ?_⟩ hheld
        rw [hs.1] at hpending
        obtain rfl : 0 = n := Option.some.inj hpending
        show (w.replicas j).works + 1 + q₀.rounds = q₀.works + ((w.replicas j).rounds + 1) + 1
        omega
      · have hstep : (F.system.step w (.round j listed)).2 = w := if_neg hs
        rwa [hstep]
    | run j fault =>
      obtain rfl : j = i := Option.some.inj hm
      obtain ⟨rfl, hroom⟩ := he.2 rfl
      have hstep : (F.system.step w (.run j none)).2 = F.run w j none := rfl
      rw [hstep] at ht ⊢
      unfold SweepFleet.run at ht ⊢
      split at ht
      · next hs =>
        rw [renew_answered hd.tended.heldBy hroom] at ht ⊢
        rw [hs] at hpending
        exact .own ht ⟨n, hpending, hcounts⟩ (hlock hs (by simp))
      · next hs =>
        rw [hs] at hpending
        cases hpending
      · exact hd
    | reply j =>
      obtain rfl : j = i := Option.some.inj hm
      have hstep : (F.system.step w (.reply j)).2
          = ⟨w.redis, Function.update w.replicas j ((w.replicas j).read w.redis.now)⟩ := rfl
      rw [hstep] at ht ⊢
      unfold SweepReplica.read at ht ⊢
      split at ht
      · next m hs =>
        rw [if_neg (hd.tended.told m hs)] at ht ⊢
        rw [hs] at hpending
        obtain rfl : 1 = n := Option.some.inj hpending
        exact .own ht ⟨0, rfl, hcounts⟩ (hlock hs (by simp))
      · next hs =>
        rw [hs] at hpending
        cases hpending
      · next tok hs =>
        rw [hs] at hpending
        obtain rfl : 1 = n := Option.some.inj hpending
        obtain ⟨last, -, htends⟩ := hd.tended.lock
        cases htends with
        | told tok' hs' hheld hlen => exact .own ht ⟨0, rfl, hcounts⟩ (congrArg some hlen)
        | cares st hst hr hg hk hno => exact absurd hs (hno tok)
      · next reply hno hs =>
        rw [hs] at hpending
        rcases reply with - | - | tok
        · cases hpending
        · cases hpending
        · exact (hno tok rfl).elim
      · rw [Function.update_eq_self]
        exact hd
    | done j =>
      obtain rfl : j = i := Option.some.inj hm
      by_cases hs : (w.replicas j).stage = .working
      · have hstep : (F.system.step w (.done j)).2
            = w.onReplica j (fun q => q.goto w.redis.now .waiting) := if_pos hs
        rw [hstep] at ht ⊢
        rw [hs] at hpending
        exact .own ht ⟨n, hpending, hcounts⟩ (hlock hs (by simp))
      · have hstep : (F.system.step w (.done j)).2 = w := if_neg hs
        rwa [hstep]
    | _ => cases hm
  · have hloop := loop_step (F := F) w e hm
    obtain ⟨hstage, hheld, hrounds, hworks⟩ : _ ∧ _ ∧ _ ∧ _ := by
      simpa only [SweepReplica.loop, Prod.mk.injEq] using hloop
    refine ⟨ht, ⟨n, ?_, ?_⟩, ?_⟩
    · rw [hstage]
      exact hpending
    · rw [hrounds, hworks]
      exact hcounts
    · rw [hheld, hstage]
      exact hd.held

/-- **While its maintenance is answered the replica works in every round.** Let
a replica get the lock, in any run in which no work has outlasted it, and let
the task of what it was given be prompt and answered from then on. As long as
the requests of the replica's own maintenance are answered too, it has worked
in every round it has begun since, the first of them the one in which it got
the lock; and no other replica has worked at all. -/
theorem works_every_round (F : SweepFleet ι) (T : Latency)
    (hroom : T.late + T.request + T.reply ≤ F.interval) (w : SweepWorld ι) (i : ι)
    (ha : F.Acquires w i) (es : List (SweepEvent ι))
    (hes : F.system.Along (fun w' e => F.Prompt T i (w.replicas i).states.length w' e
      ∧ F.Answered i w' e) (F.run w i none) es) :
    (∃ n, pending ((F.system.final (F.run w i none) es).replicas i).stage = some n
        ∧ ((F.system.final (F.run w i none) es).replicas i).works + n + (w.replicas i).rounds
          = (w.replicas i).works + ((F.system.final (F.run w i none) es).replicas i).rounds + 1)
      ∧ ∀ j, j ≠ i → ((F.system.final (F.run w i none) es).replicas j).works
        = (w.replicas j).works := by
  have hfits := ha.fits hroom
  have htended := ha.tended T
  obtain ⟨-, htries, tok, hgets⟩ := ha
  have hloop : (F.run w i none).replicas i
      = { (F.run w i none).replicas i with
        rounds := (w.replicas i).rounds, works := (w.replicas i).works } := by
    rw [SweepFleet.run, htries]
    simp only [SweepFleet.tryFor, SweepWorld.onReplica, Function.update_self]
    rfl
  have hothers : ∀ j, j ≠ i → ((F.run w i none).replicas j).works = (w.replicas j).works := by
    intro j hj
    rw [SweepFleet.run, htries]
    simp only [SweepFleet.tryFor, SweepWorld.onReplica, Function.update_of_ne hj]
  have hstart : F.Diligent T i (w.replicas i).states.length (w.replicas i) (F.run w i none) := by
    refine ⟨htended, ⟨1, ?_, ?_⟩, Or.inr ⟨_, hgets⟩⟩
    · rw [hgets]
      rfl
    · rw [hloop]
      show (w.replicas i).works + 1 + (w.replicas i).rounds = _
      dsimp only
      omega
  obtain ⟨hend, hworks⟩ := F.system.inv_final
    (I := fun w' => F.Diligent T i (w.replicas i).states.length (w.replicas i) w'
      ∧ ∀ j, j ≠ i → (w'.replicas j).works = (w.replicas j).works)
    (fun w' e hd he => ⟨diligent_step hfits _ w' e hd.1 he, fun j hj =>
      (waits_step w' e j (fun htold => hd.1.tended.others j hj htold.given)).works.trans
        (hd.2 j hj)⟩) ⟨hstart, hothers⟩ hes
  exact ⟨hend.counts, hworks⟩

/-- It works, and in its next round again. -/
theorem works_every_round_pair :
    (∃ n, pending ((pair.system.final (pair.run firstTries true none)
          [.reply true, .done true, .round true true, .run true none,
            .reply true]).replicas true).stage = some n
        ∧ ((pair.system.final (pair.run firstTries true none) [.reply true, .done true,
            .round true true, .run true none, .reply true]).replicas true).works + n
              + (firstTries.replicas true).rounds
          = (firstTries.replicas true).works + ((pair.system.final (pair.run firstTries true none)
            [.reply true, .done true, .round true true, .run true none,
              .reply true]).replicas true).rounds + 1)
      ∧ ∀ j, j ≠ true → ((pair.system.final (pair.run firstTries true none) [.reply true,
          .done true, .round true true, .run true none, .reply true]).replicas j).works
        = (firstTries.replicas j).works := by
  refine works_every_round pair ⟨0, 0, 0⟩ (by decide) firstTries true acquires_firstTries
    [.reply true, .done true, .round true true, .run true none, .reply true]
    ⟨⟨trivial, trivial⟩, ⟨trivial, trivial⟩, ⟨trivial, trivial⟩, ⟨trivial, fun _ => ⟨rfl, ?_⟩⟩,
      ⟨trivial, trivial⟩, trivial⟩
  exact (by decide : 0 + 50 < 2 ^ 63)

end SweepFleet
