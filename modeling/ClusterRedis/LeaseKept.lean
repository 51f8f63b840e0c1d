import ClusterRedis.Clockwork
import ClusterRedis.LeaseHandOver
import ClusterRedis.RenewalDelay

/-!
# A lease that is renewed in time

The renewal task sleeps, sends its renewal, waits for the reply and sleeps
again. How long a lease lives after a renewal is fixed, and so is how long
the task sleeps; what else passes between two renewals – the timer's delay,
the way to the server and back – is what the percentage leaves room for.

That room is exact: a lease whose task is answered is kept, whatever its
owners and other nodes do, for as long as these three together fit into it
(`held_while_prompt_iff`). If they do not, there is a run in which it is lost
between two renewals that both succeed in time by the task's own reckoning.
-/

open Numerals

/-- **What passes between two renewals**, next to the task's sleep: how much
later than it should the task wakes up, how long its renewal takes to the
server, and how long the reply takes back. -/
structure Latency where
  late : ℕ
  request : ℕ
  reply : ℕ

/-- A lease's state, with the time its task came to where it stands. -/
structure TimedLease where
  life : LeaseLife
  since : ℕ

/-- A step: of the lease's own state, or a script of another call for the same
lease. -/
inductive TimedEvent where
  | own (e : LifeEvent)
  | acquire (holder : String) (ttl : ℕ)
  | request (kind : CallKind) (holder : String) (ttl : ℕ)

theorem LeaseLife.settle_redis (w : LeaseLife) : w.settle.redis = w.redis := by
  obtain ⟨b, hb⟩ := w.settle_eq
  rw [hb]

namespace LeaseTerms

variable (L : LeaseTerms)

/-- The script of another holder's acquisition. -/
def acquireBy (holder : String) (ttl : ℕ) : Script (Option ℤ) :=
  acquireLua L.lease (L.id.fenceKey L.p) holder ttl

/-- The script of another holder's renewal or release. -/
def scriptBy (holder : String) (ttl : ℕ) : CallKind → Script ℕ
  | .renew => renewLua L.lease holder ttl
  | .release => releaseLua L.lease holder

/-- **A lease among other calls**: what an acquisition of another call is
answered, the token it gets. -/
def timed : System TimedLease TimedEvent (Option ℤ) where
  step w
    | .own e =>
      let life := (L.system.step w.life e).2
      (none, ⟨life, if life.task = w.life.task then w.since else life.redis.now⟩)
    | .acquire holder ttl =>
      let r := L.acquireBy holder ttl w.life.redis
      (r.1.toOption.join, ⟨{ w.life with redis := r.2 }, w.since⟩)
    | .request kind holder ttl =>
      let r := L.scriptBy holder ttl kind w.life.redis
      (none, ⟨{ w.life with redis := r.2 }, w.since⟩)

/-- A lease that has just been acquired; the reply takes a while. -/
def justAcquired (s : Redis) (lag : ℕ) : TimedLease := ⟨LeaseLife.acquired s, s.now + lag⟩

/-- **How long the task stays where it stands**, at most, when it sleeps for so
long. -/
def pace (sleep : ℕ) (T : Latency) : Pace RenewalTask where
  stay
    | .sleeping => sleep + T.late
    | .renewing => T.request
    | .renewed _ => T.reply
    | .ended => 0
  lag
    | .sleeping => T.reply
    | .renewing => T.reply + (sleep + T.late)
    | .renewed _ => 0
    | .ended => 0

/-- What the renewal task sleeps for, in whole milliseconds: no timer wakes it
before its delay is over. -/
def sleepMs (ttl : Duration) (percent : ℕ) : ℕ :=
  ((renewalDelay ttl percent).nanos + (10 ^ 6 - 1)) / 10 ^ 6

/-- **The task is prompt, the server answers it, and nobody ends the lease**:
no time passes but what the task's stage has left, its renewal is answered and
fits the server's clock, its owners do not release it, nobody writes the key
but the scripts, and no other call renews or releases in its holder's name. -/
def Prompt (P : Pace RenewalTask) (w : TimedLease) : TimedEvent → Prop
  | .own (.tick d) => w.life.redis.now + d ≤ w.since + P.stay w.life.task
  | .own (.taskRun fault) => fault = none ∧ w.life.redis.now + L.ttl < 2 ^ 63
  | .own (.outside _) => False
  | .own .release => False
  | .own _ => True
  | .acquire _ _ => True
  | .request _ holder _ => holder ≠ L.holder

/-- The task goes on. -/
def GoesOn : RenewalTask → Prop
  | .sleeping => True
  | .renewing => True
  | .renewed r => r = some 1
  | .ended => False

/-- Nothing but renewals is under way, and none was told that the lease is
gone. -/
def OnlyRenews (w : LeaseLife) : Prop :=
  (∀ call ∈ w.calls, call.kind = .renew ∧ call.reply ≠ some (some 0))
    ∧ ∀ kind ∈ w.orphans, kind = .renew

/-- What the pace is about. -/
def clocked (w : TimedLease) : Clocked RenewalTask :=
  ⟨w.life.redis.now, w.life.task, w.since, w.life.lastOk⟩

/-- **What a prompt run keeps.** -/
structure Kept (P : Pace RenewalTask) (w : TimedLease) : Prop where
  held : w.life.redis.lookup L.lease
    = some ⟨.str (holderBytes L.holder), some (w.life.lastOk + L.ttl)⟩
  unreleased : w.life.released = false
  goesOn : GoesOn w.life.task
  renews : OnlyRenews w.life
  keeps : P.Keeps (clocked w)

variable {L} {P : Pace RenewalTask} {w : TimedLease}

theorem Kept.heldBy (h : L.Kept P w) : w.life.redis.HeldBy L.lease L.holder := ⟨_, h.held⟩

/-! ## One request -/

/-- **A renewal of a lease that is held**: it is refused by the clock and
changes nothing, or the lease lives on from now. -/
theorem ran_of_heldBy {w : LeaseLife} (h : w.redis.HeldBy L.lease L.holder) :
    (L.ran w .renew = w ∧ (L.script .renew w.redis).1.toOption = none
        ∧ ¬ w.redis.now + L.ttl < 2 ^ 63)
      ∨ (L.ran w .renew = { w with
          redis := w.redis.put L.lease (leaseObj w.redis L.holder L.ttl)
          lastOk := w.redis.now } ∧ (L.script .renew w.redis).1.toOption = some 1) := by
  by_cases hok : ExpireOk w.redis.now L.ttl
  · have hrun : L.script .renew w.redis
        = (.ok 1, w.redis.put L.lease (leaseObj w.redis L.holder L.ttl)) := renewLua_held h hok
    have hone : (L.script .renew w.redis).1.toOption = some 1 :=
      congrArg (fun r => r.1.toOption) hrun
    refine Or.inr ⟨?_, hone⟩
    rw [ran, if_pos ⟨rfl, hone⟩, hrun]
  · have hrun : L.script .renew w.redis
        = (.error (.command (expireError "pexpire" L.ttl)), w.redis) :=
      renewLua_refused h L.ttl_pos hok
    have hnone : (L.script .renew w.redis).1.toOption = none :=
      congrArg (fun r => r.1.toOption) hrun
    refine Or.inl ⟨?_, hnone, fun hroom => hok ⟨L.ttl_pos, hroom⟩⟩
    rw [ran, if_neg (by simp [hnone]), hrun]

/-! ## One step -/

/-- **The lifetime has room for the pace**: each stage of the task allows for
the one before it, and none is longer than the lease lives. -/
structure Fits (L : LeaseTerms) (P : Pace RenewalTask) : Prop where
  wake : P.reach .sleeping ≤ P.lag .renewing
  back : ∀ r, P.reach (.renewed r) ≤ P.lag .sleeping
  reach : ∀ st, P.reach st ≤ L.ttl

/-- A step that is not about the lease. -/
theorem Kept.quiet (h : L.Kept P w) {life : LeaseLife} (hr : life.redis = w.life.redis)
    (hl : life.lastOk = w.life.lastOk) (ht : life.task = w.life.task)
    (hf : life.released = w.life.released) (hn : OnlyRenews life) : L.Kept P ⟨life, w.since⟩ where
  held := by
    show life.redis.lookup _ = some ⟨_, some (life.lastOk + _)⟩
    rw [hr, hl]
    exact h.held
  unreleased := hf.trans h.unreleased
  goesOn := by
    show GoesOn life.task
    rw [ht]
    exact h.goesOn
  renews := hn
  keeps := by
    show P.Keeps ⟨life.redis.now, life.task, w.since, life.lastOk⟩
    rw [hr, hl, ht]
    exact h.keeps

/-- Dropping the state is not about the lease. -/
theorem Kept.settle {life : LeaseLife} {since : ℕ} (h : L.Kept P ⟨life, since⟩) :
    L.Kept P ⟨life.settle, since⟩ := by
  obtain ⟨b, hb⟩ := life.settle_eq
  rw [hb]
  exact h.quiet rfl rfl rfl rfl h.renews

/-- **A renewal reaches the server**, whoever sent it. -/
theorem Kept.ran (h : L.Kept P w) : L.Kept P ⟨L.ran w.life .renew, w.since⟩ := by
  rcases ran_of_heldBy h.heldBy with ⟨hsame, -⟩ | ⟨hrun, -⟩
  · rw [hsame]
    exact h
  · rw [hrun]
    exact ⟨Redis.lookup_put_self _ (liveAt_leaseObj _ _ _), h.unreleased, h.goesOn, h.renews,
      h.keeps.follows .early⟩

/-- **The lease is kept, and its task stays where it stands.** -/
def Stays (L : LeaseTerms) (P : Pace RenewalTask) (w : TimedLease) (life : LeaseLife) : Prop :=
  L.Kept P ⟨life, w.since⟩ ∧ life.task = w.life.task

/-- **A renewal is sent**: whatever becomes of it, nobody is told that the
lease is gone. -/
theorem Kept.send (h : L.Kept P w) (fault : Option Bool) :
    L.Stays P w (L.send w.life .renew fault).2 ∧ (L.send w.life .renew fault).1 ≠ some 0 := by
  rcases fault with - | - | -
  · refine ⟨⟨h.ran, rfl⟩, ?_⟩
    show (L.script .renew w.life.redis).1.toOption ≠ some 0
    rcases ran_of_heldBy h.heldBy with ⟨-, hnone, -⟩ | ⟨-, hone⟩
    · rw [hnone]
      exact fun hz => nomatch hz
    · rw [hone]
      exact fun hz => absurd (Option.some.inj hz) Nat.one_ne_zero
  · exact ⟨⟨h, rfl⟩, fun hz => nomatch hz⟩
  · exact ⟨⟨h.ran, rfl⟩, fun hz => nomatch hz⟩

/-- A call's renewal is sent. -/
theorem Kept.callRun (h : L.Kept P w) (c : ℕ) (fault : Option Bool) :
    L.Stays P w (L.callRun w.life c fault) := by
  unfold LeaseTerms.callRun
  split
  · next kind hc =>
    obtain ⟨rfl, -⟩ := h.renews.1 _ (List.mem_of_getElem? hc)
    obtain ⟨⟨hsend, htask⟩, hreply⟩ := h.send fault
    refine ⟨hsend.quiet rfl rfl rfl rfl ⟨fun call hcall => ?_, hsend.renews.2⟩, htask⟩
    rcases List.mem_or_eq_of_mem_set hcall with hcall | rfl
    · exact h.renews.1 call hcall
    · exact ⟨rfl, fun hz => hreply (Option.some.inj hz)⟩
  · exact ⟨h, rfl⟩

/-- A call returns. -/
theorem Kept.callReturn (h : L.Kept P w) (c : ℕ) :
    L.Stays P w (LeaseTerms.callReturn w.life c).2 := by
  have hrest : L.Stays P w { w.life with calls := w.life.calls.eraseIdx c } :=
    ⟨h.quiet rfl rfl rfl rfl
      ⟨fun call hcall => h.renews.1 call (List.mem_of_mem_eraseIdx hcall), h.renews.2⟩, rfl⟩
  unfold LeaseTerms.callReturn
  split
  · exact hrest
  · next n hc =>
    have hn : n ≠ 0 := by
      rintro rfl
      exact (h.renews.1 _ (List.mem_of_getElem? hc)).2 rfl
    rw [if_neg hn]
    exact hrest
  · exact hrest
  · exact ⟨h, rfl⟩

/-- A call is given up, with its renewal on the way or not. -/
theorem Kept.callAbort (h : L.Kept P w) (c : ℕ) :
    L.Stays P w (LeaseTerms.callAbort w.life c) := by
  unfold LeaseTerms.callAbort
  split
  · next call hc =>
    refine ⟨h.quiet rfl rfl rfl rfl ⟨fun call' hcall => h.renews.1 call'
      (List.mem_of_mem_eraseIdx hcall), fun kind hkind => ?_⟩, rfl⟩
    replace hkind : kind ∈ if call.reply = none then w.life.orphans ++ [call.kind]
        else w.life.orphans := hkind
    split at hkind
    · rcases List.mem_append.mp hkind with hkind | hkind
      · exact h.renews.2 kind hkind
      · rw [List.mem_singleton.mp hkind]
        exact (h.renews.1 call (List.mem_of_getElem? hc)).1
    · exact h.renews.2 kind hkind
  · exact ⟨h, rfl⟩

/-- A renewal whose sender is gone reaches the server. -/
theorem Kept.orphanRun (h : L.Kept P w) (k : ℕ) : L.Stays P w (L.orphanRun w.life k) := by
  unfold LeaseTerms.orphanRun
  split
  · next kind hk =>
    obtain rfl := h.renews.2 kind (List.mem_of_getElem? hk)
    exact ⟨h.ran.quiet rfl rfl rfl rfl ⟨h.renews.1, fun kind hkind =>
      h.renews.2 kind (List.mem_of_mem_eraseIdx hkind)⟩, rfl⟩
  · exact ⟨h, rfl⟩

/-- An owner's renewal begins. -/
theorem Kept.startRenew (h : L.Kept P w) : L.Stays P w (LeaseTerms.startRenew w.life).2 := by
  unfold LeaseTerms.startRenew
  split
  · exact ⟨h, rfl⟩
  · split
    · exact ⟨h, rfl⟩
    · refine ⟨h.quiet rfl rfl rfl rfl ⟨fun call hcall => ?_, h.renews.2⟩, rfl⟩
      rcases List.mem_append.mp hcall with hcall | hcall
      · exact h.renews.1 call hcall
      · rw [List.mem_singleton.mp hcall]
        exact ⟨rfl, fun hz => nomatch hz⟩

/-- **Time passes** that the task's stage has left. -/
theorem Kept.tick (hfits : L.Fits P) (h : L.Kept P w) {d : ℕ}
    (hd : w.life.redis.now + d ≤ w.since + P.stay w.life.task) :
    L.Stays P w { w.life with redis := w.life.redis.tick d } := by
  have hkeeps : P.Keeps ⟨w.life.redis.now + d, w.life.task, w.since, w.life.lastOk⟩ :=
    h.keeps.follows (.wait d hd)
  refine ⟨⟨?_, h.unreleased, h.goesOn, h.renews, hkeeps⟩, rfl⟩
  have hlive : w.life.redis.now + d ≤ w.life.lastOk + L.ttl :=
    hkeeps.last.trans (Nat.add_le_add_left (hfits.reach _) _)
  show (w.life.redis.tick d).lookup L.lease = _
  rw [Redis.lookup_tick, h.held]
  exact Option.filter_some_pos (decide_eq_true hlive)

/-- **The lease is kept, and its task comes to where it stands.** -/
def Comes (L : LeaseTerms) (P : Pace RenewalTask) (w : TimedLease) (life : LeaseLife) : Prop :=
  L.Kept P ⟨life, life.redis.now⟩ ∧ life.task ≠ w.life.task

/-- The task wakes up, and finds the lease not released. -/
theorem Kept.wake (hfits : L.Fits P) (h : L.Kept P w) :
    L.Stays P w (LeaseTerms.wake w.life) ∨ L.Comes P w (LeaseTerms.wake w.life) := by
  unfold LeaseTerms.wake
  split
  · next hs =>
    have hkeeps : P.Keeps ⟨w.life.redis.now, .renewing, w.life.redis.now, w.life.lastOk⟩ := by
      refine h.keeps.follows (.goOn RenewalTask.renewing ?_)
      show P.reach w.life.task ≤ _
      rw [hs]
      exact hfits.wake
    rw [h.unreleased]
    exact Or.inr ⟨⟨h.held, rfl, trivial, h.renews, hkeeps⟩, fun hc => nomatch hc.trans hs⟩
  · exact Or.inl ⟨h, rfl⟩

/-- **The task's renewal is done**, and it is told so. -/
theorem Kept.taskRun (h : L.Kept P w) {fault : Option Bool}
    (he : L.Prompt P w (.own (.taskRun fault))) :
    L.Stays P w (L.taskRun w.life fault) ∨ L.Comes P w (L.taskRun w.life fault) := by
  obtain ⟨rfl, hroom⟩ := he
  unfold LeaseTerms.taskRun
  split
  · next hs =>
    have hsend : L.send w.life .renew none
        = (some 1, { w.life with
          redis := w.life.redis.put L.lease (leaseObj w.life.redis L.holder L.ttl)
          lastOk := w.life.redis.now }) := by
      rcases ran_of_heldBy h.heldBy with ⟨-, -, hno⟩ | ⟨hrun, hone⟩
      · exact absurd hroom hno
      · exact Prod.ext hone hrun
    rw [hsend]
    exact Or.inr ⟨⟨Redis.lookup_put_self _ (liveAt_leaseObj _ _ _), h.unreleased, rfl, h.renews,
      h.keeps.follows (.work _)⟩, fun hc => nomatch hc.trans hs⟩
  · exact Or.inl ⟨h, rfl⟩

/-- The task goes back to sleep. -/
theorem Kept.taskReturn (hfits : L.Fits P) (h : L.Kept P w) :
    L.Stays P w (LeaseTerms.taskReturn w.life) ∨ L.Comes P w (LeaseTerms.taskReturn w.life) := by
  have hgoes := h.goesOn
  unfold LeaseTerms.taskReturn
  split
  · next n hs =>
    rw [hs] at hgoes
    obtain rfl : n = 1 := Option.some.inj hgoes
    have hkeeps : P.Keeps ⟨w.life.redis.now, .sleeping, w.life.redis.now, w.life.lastOk⟩ := by
      refine h.keeps.follows (.goOn RenewalTask.sleeping ?_)
      show P.reach w.life.task ≤ _
      rw [hs]
      exact hfits.back _
    exact Or.inr ⟨⟨h.held, h.unreleased, trivial, h.renews, hkeeps⟩, fun hc => nomatch hc.trans hs⟩
  · next hs =>
    rw [hs] at hgoes
    exact nomatch hgoes
  · exact Or.inl ⟨h, rfl⟩

/-- **Every step of the lease's own keeps it**, in a prompt run. -/
theorem Kept.act (hfits : L.Fits P) (h : L.Kept P w) {e : LifeEvent}
    (he : L.Prompt P w (.own e)) :
    L.Stays P w (L.act w.life e).2 ∨ L.Comes P w (L.act w.life e).2 := by
  cases e with
  | tick d => exact Or.inl (h.tick hfits he)
  | outside o => exact he.elim
  | wake => exact h.wake hfits
  | taskRun fault => exact h.taskRun he
  | taskReturn => exact h.taskReturn hfits
  | renew => exact Or.inl h.startRenew
  | release => exact he.elim
  | callRun c fault => exact Or.inl (h.callRun c fault)
  | callReturn c => exact Or.inl (h.callReturn c)
  | callAbort c => exact Or.inl (h.callAbort c)
  | orphanRun k => exact Or.inl (h.orphanRun k)
  | share =>
    show L.Stays P w (if w.life.owners = 0 then w.life else _) ∨ _
    refine Or.inl ?_
    split
    · exact ⟨h, rfl⟩
    · exact ⟨h.quiet rfl rfl rfl rfl h.renews, rfl⟩
  | giveUp => exact Or.inl ⟨h.quiet rfl rfl rfl rfl h.renews, rfl⟩

/-- **Another's script finds the lease held**, and changes nothing. -/
theorem acquireBy_heldBy {s : Redis} (h : s.HeldBy L.lease L.holder) (holder : String) (ttl : ℕ) :
    (L.acquireBy holder ttl s).1.toOption.join = none ∧ (L.acquireBy holder ttl s).2 = s := by
  obtain ⟨e, hl⟩ := h
  have hlive : s.Live L.lease := Option.isSome_iff_exists.mpr ⟨_, hl⟩
  obtain ⟨hsame, hno⟩ : (L.acquireBy holder ttl s).2 = s
      ∧ ∀ n, (L.acquireBy holder ttl s).1 ≠ .ok (some n) := acquireLua_held hlive
  refine ⟨?_, hsame⟩
  generalize L.acquireBy holder ttl s = r at hno
  obtain ⟨r, s'⟩ := r
  cases r with
  | error e => rfl
  | ok t =>
    cases t with
    | none => rfl
    | some n => exact absurd rfl (hno n)

theorem scriptBy_heldBy {s : Redis} (h : s.HeldBy L.lease L.holder) {holder : String}
    (hne : holder ≠ L.holder) (ttl : ℕ) (kind : CallKind) :
    (L.scriptBy holder ttl kind s).2 = s := by
  have hno : ¬ s.HeldBy L.lease holder := by
    rintro ⟨e, he⟩
    obtain ⟨e', he'⟩ := h
    have hbytes := congrArg Obj.value (Option.some.inj (he.symm.trans he'))
    exact hne (holderBytes_injective (Value.str.inj hbytes))
  cases kind with
  | renew => exact (casLua_not_held hno).1
  | release => exact (casLua_not_held hno).1

/-- **Every step keeps the lease**, in a prompt run, and no other call gets
it. -/
theorem kept_step (hfits : L.Fits P) (w : TimedLease) (e : TimedEvent) (h : L.Kept P w)
    (he : L.Prompt P w e) : L.Kept P (L.timed.step w e).2 ∧ (L.timed.step w e).1 = none := by
  cases e with
  | own e =>
    refine ⟨?_, rfl⟩
    show L.Kept P ⟨(L.act w.life e).2.settle, if (L.act w.life e).2.settle.task = w.life.task
      then w.since else (L.act w.life e).2.settle.redis.now⟩
    rw [LeaseLife.settle_task, LeaseLife.settle_redis]
    rcases h.act hfits he with ⟨hk, ht⟩ | ⟨hk, ht⟩
    · rw [if_pos ht]
      exact hk.settle
    · rw [if_neg ht]
      exact hk.settle
  | acquire holder ttl =>
    obtain ⟨hno, hsame⟩ := acquireBy_heldBy h.heldBy holder ttl
    refine ⟨?_, hno⟩
    show L.Kept P ⟨{ w.life with redis := (L.acquireBy holder ttl w.life.redis).2 }, w.since⟩
    rw [hsame]
    exact h
  | request kind holder ttl =>
    refine ⟨?_, rfl⟩
    show L.Kept P ⟨{ w.life with redis := (L.scriptBy holder ttl kind w.life.redis).2 }, w.since⟩
    rw [scriptBy_heldBy h.heldBy he]
    exact h

/-! ## The room that the percentage leaves -/

/-- **A lifetime that the stages fit into together**, one round of them. -/
theorem fits_pace {sleep : ℕ} {T : Latency}
    (h : T.reply + (sleep + T.late) + T.request ≤ L.ttl) : L.Fits (pace sleep T) where
  wake := le_refl _
  back _ := le_of_eq (Nat.zero_add _)
  reach st := by
    cases st with
    | sleeping => exact (Nat.le_add_right _ _).trans h
    | renewing => exact h
    | renewed r =>
      show 0 + T.reply ≤ L.ttl
      omega
    | ended => exact Nat.zero_le _

/-- **What the percentage leaves room for**: of a hundred parts of the
lifetime, as many as it says. -/
theorem room_iff (ttl : Duration) (percent : ℕ) (T : Latency) :
    T.reply + (sleepMs ttl percent + T.late) + T.request ≤ clampMs ttl.asMillis
      ↔ 100 * (T.late + T.request + T.reply)
        ≤ clampMs ttl.asMillis * renewPercent percent := by
  have hpct := renewPercent_mem percent
  have hsleep : sleepMs ttl percent
      = (clampMs ttl.asMillis * (100 - renewPercent percent) + 99) / 100 := by
    rw [sleepMs, renewalDelay_eq, nanos_renewalShare,
      show clampMs ttl.asMillis * 10 ^ 4 * (100 - renewPercent percent)
        = clampMs ttl.asMillis * (100 - renewPercent percent) * 10 ^ 4 by ring]
    omega
  have hshare : clampMs ttl.asMillis * (100 - renewPercent percent)
      + clampMs ttl.asMillis * renewPercent percent = clampMs ttl.asMillis * 100 := by
    rw [← Nat.mul_add, Nat.sub_add_cancel (by omega)]
  rw [hsleep]
  omega

theorem kept_justAcquired {sleep lag : ℕ} {T : Latency} {s s' : Redis} {token : ℤ}
    (ha : L.acquire s = (.ok (some token), s')) (hlag : lag ≤ T.reply) :
    L.Kept (pace sleep T) (justAcquired s' lag) where
  held := lookup_acquired ha
  unreleased := rfl
  goesOn := trivial
  renews := ⟨fun _ hcall => absurd hcall List.not_mem_nil,
    fun _ hkind => absurd hkind List.not_mem_nil⟩
  keeps := ⟨Nat.add_le_add_left hlag _, (Nat.le_add_right _ _).trans (Nat.le_add_right _ _),
    le_refl _⟩

/-- A lease of an empty server, acquired. -/
theorem acquire_empty (hroom : L.ttl < 2 ^ 63) :
    ∃ s', L.acquire (Redis.empty 0) = (.ok (some (Double.round 1)), s') ∧ s'.now = 0 :=
  ⟨_, acquireLua_free (L.id.leaseKey_ne_fenceKey L.p) rfl
    ⟨L.ttl_pos, (Nat.zero_add _).trans_lt hroom⟩ rfl, rfl⟩

/-- **The run in which the lease is lost**: the reply to its acquisition takes
as long as it may, the task sleeps as long as it may, and its renewal takes as
long as it may. -/
def lostRun (sleep : ℕ) (T : Latency) : List TimedEvent :=
  [.own (.tick T.reply), .own (.tick (sleep + T.late)), .own .wake, .own (.tick T.request)]

theorem lostRun_prompt (sleep : ℕ) (T : Latency) (s : Redis) :
    L.timed.Along (L.Prompt (pace sleep T)) (justAcquired s T.reply) (lostRun sleep T) :=
  ⟨Nat.le_add_right _ _, le_refl _, trivial, le_refl _, trivial⟩

/-- **When the stages do not fit, it is lost.** -/
theorem lostRun_lost {sleep : ℕ} {T : Latency} {s s' : Redis} {token : ℤ}
    (ha : L.acquire s = (.ok (some token), s'))
    (hlong : L.ttl < T.reply + (sleep + T.late) + T.request) :
    ¬ (L.timed.final (justAcquired s' T.reply) (lostRun sleep T)).life.redis.HeldBy
      L.lease L.holder := by
  have htimed : L.Timed (L.system.final (LeaseLife.acquired s')
      [.tick T.reply, .tick (sleep + T.late), .wake, .tick T.request]) :=
    L.system.inv_final (fun w e => timed_step w e) (timed_acquired ha)
      ⟨trivial, trivial, trivial, trivial, trivial⟩
  refine htimed.not_heldBy ?_
  show s'.now + L.ttl < s'.now + T.reply + (sleep + T.late) + T.request
  omega

/-- **The lease is held while its task is prompt.** In every run from an
acquisition in which the task is answered, nobody releases the lease and no
other call renews or releases in its holder's name – owners may renew, give
calls up, share the state and give it up, and others may try for the lease as
they like –: the key is the holder's, the lease is not released, its task goes
on, and nobody else acquires it. -/
def HeldWhilePrompt (L : LeaseTerms) (sleep : ℕ) (T : Latency) : Prop :=
  ∀ (s s' : Redis) (token : ℤ) (lag : ℕ) (es : List TimedEvent),
    L.acquire s = (.ok (some token), s') → lag ≤ T.reply →
    L.timed.Along (L.Prompt (pace sleep T)) (justAcquired s' lag) es →
    (L.timed.final (justAcquired s' lag) es).life.redis.HeldBy L.lease L.holder
      ∧ (L.timed.final (justAcquired s' lag) es).life.released = false
      ∧ (L.timed.final (justAcquired s' lag) es).life.task ≠ .ended
      ∧ ∀ r ∈ L.timed.answers (justAcquired s' lag) es, r = none

/-- **A lease is held while its task is prompt if and only if the percentage
leaves room** for what passes between two renewals. -/
theorem held_while_prompt_iff (p : String) (id : LeaseId) (holder : String) (ttl : Duration)
    (percent : ℕ) (T : Latency) (hroom : clampMs ttl.asMillis < 2 ^ 63) :
    (ofTtl p id holder ttl).HeldWhilePrompt (sleepMs ttl percent) T
      ↔ 100 * (T.late + T.request + T.reply)
        ≤ clampMs ttl.asMillis * renewPercent percent := by
  rw [← room_iff]
  constructor
  · intro hheld
    by_contra hno
    obtain ⟨s', ha, -⟩ := acquire_empty (L := ofTtl p id holder ttl) hroom
    exact lostRun_lost ha (Nat.lt_of_not_le hno)
      (hheld _ s' _ T.reply _ ha (le_refl _) (lostRun_prompt _ _ _)).1
  · intro hfits s s' token lag es ha hlag hes
    have hstep := kept_step (fits_pace (L := ofTtl p id holder ttl) hfits)
    have hkept : (ofTtl p id holder ttl).Kept (pace (sleepMs ttl percent) T)
        (justAcquired s' lag) := kept_justAcquired ha hlag
    have hend := System.inv_final _ (fun w e h he => (hstep w e h he).1) hkept hes
    have hnone := System.Along.of_inv (fun w e h he => (hstep w e h he).1)
      (fun w e h he => (hstep w e h he).2) hkept hes
    refine ⟨hend.heldBy, hend.unreleased, fun hended => ?_, fun r hr => ?_⟩
    · have hgoes := hend.goesOn
      rw [hended] at hgoes
      exact hgoes
    · obtain ⟨x, hx, rfl⟩ := List.mem_map.mp hr
      exact (System.along_iff_trace _ (P := fun x => x.2 = none)).mp hnone x hx

/-- A lock for half a minute with the percentage that is the default: its
renewals may be 24 seconds late, and no more. -/
theorem held_while_prompt_default :
    (ofTtl "p" ⟨.locks, "x"⟩ "a" (Duration.ofMillis 30000 (by decide))).HeldWhilePrompt
        (sleepMs (Duration.ofMillis 30000 (by decide)) 80) ⟨22000, 1000, 1000⟩
      ∧ ¬ (ofTtl "p" ⟨.locks, "x"⟩ "a" (Duration.ofMillis 30000 (by decide))).HeldWhilePrompt
        (sleepMs (Duration.ofMillis 30000 (by decide)) 80) ⟨22001, 1000, 1000⟩ := by
  have hms : clampMs (Duration.ofMillis 30000 (by decide)).asMillis = 30000 := by decide
  refine ⟨(held_while_prompt_iff "p" ⟨.locks, "x"⟩ "a" (Duration.ofMillis 30000 (by decide)) 80
    ⟨22000, 1000, 1000⟩ (by decide)).mpr ?_, fun hheld => ?_⟩
  · rw [hms]
    decide
  · have hle := (held_while_prompt_iff "p" ⟨.locks, "x"⟩ "a" (Duration.ofMillis 30000 (by decide))
      80 ⟨22001, 1000, 1000⟩ (by decide)).mp hheld
    rw [hms] at hle
    exact absurd hle (by decide)

end LeaseTerms
