import ClusterRedis.LeaseRuns

/-!
# The life of a lease handle

An acquisition leaves a state that its owners share with a task of its own.
The task sleeps, renews, and sleeps again; it ends when it finds the lease
released, or when a renewal fails. The owners renew and release, and give
the state up; what runs when nobody refers to it any more aborts the task.

The task is one of those who refer to it. So the state is given up only
after the task has ended, and giving it up never ends the task
(`settle_task`). And a renewal fails for two reasons, of which only one is
written down in the state: when the server says that the lease is gone it is
marked released, when the server does not answer it is not.

A request whose sender is gone may still reach the server; it is kept in
`orphans`.
-/

open Numerals

/-- **The terms of a lease.** -/
structure LeaseTerms where
  /-- `key_prefix`. -/
  p : String
  id : LeaseId
  holder : String
  ttl : ℕ
  ttl_pos : 0 < ttl

/-- The lease key. -/
def LeaseTerms.lease (L : LeaseTerms) : String := L.id.leaseKey L.p

/-- The script of its acquisition. -/
def LeaseTerms.acquire (L : LeaseTerms) : Script (Option ℤ) :=
  acquireLua L.lease (L.id.fenceKey L.p) L.holder L.ttl

/-- Where the renewal task stands. -/
inductive RenewalTask where
  | sleeping
  /-- It has found the lease not released, and its renewal is under way. -/
  | renewing
  /-- The renewal is over: with the script's reply, or without one. -/
  | renewed (reply : Option ℕ)
  | ended
  deriving DecidableEq

/-- A renewal or release of an owner under way; `reply` is none until it is
over, then what the script replied, if it did. -/
structure OwnerCall where
  kind : CallKind
  reply : Option (Option ℕ)
  deriving DecidableEq

/-- **A lease's state, with those who refer to it.** -/
structure LeaseLife where
  redis : Redis
  released : Bool
  /-- The state can abort its task. -/
  renewalAbort : Bool
  task : RenewalTask
  /-- Who refers to the state, calls and the task apart. -/
  owners : ℕ
  /-- The calls under way; each refers to the state. -/
  calls : List OwnerCall
  /-- Requests whose senders are gone. -/
  orphans : List CallKind
  /-- When a script last gave the lease a lifetime. -/
  lastOk : ℕ
  /-- How often the task has renewed. -/
  renewals : ℕ

/-- One step in the life of a lease's state. A request may fail before it
reaches the server (`some false`) or its reply may be lost (`some true`). -/
inductive LifeEvent where
  | tick (d : ℕ)
  /-- Somebody else writes or deletes the lease key. -/
  | outside (o : Option Obj)
  | wake
  | taskRun (fault : Option Bool)
  | taskReturn
  | renew
  | release
  | callRun (c : ℕ) (fault : Option Bool)
  | callReturn (c : ℕ)
  | callAbort (c : ℕ)
  | orphanRun (k : ℕ)
  | share
  | giveUp

/-- The lease has just been acquired. -/
def LeaseLife.acquired (s : Redis) : LeaseLife where
  redis := s
  released := false
  renewalAbort := true
  task := .sleeping
  owners := 1
  calls := []
  orphans := []
  lastOk := s.now
  renewals := 0

namespace LeaseLife

/-- **Who refers to the state**, the task among them until it has ended. -/
def strongCount (w : LeaseLife) : ℕ :=
  w.owners + w.calls.length + if w.task = .ended then 0 else 1

/-- The task is aborted, wherever it stands. -/
def abort (w : LeaseLife) : LeaseLife :=
  { w with
    task := .ended
    orphans := if w.task = .renewing then w.orphans ++ [.renew] else w.orphans }

/-- What runs when nobody refers to the state any more. -/
def dropState (w : LeaseLife) : LeaseLife :=
  if w.renewalAbort then { w.abort with renewalAbort := false } else w

/-- The state is dropped when nobody refers to it. -/
def settle (w : LeaseLife) : LeaseLife := if w.strongCount = 0 then w.dropState else w

end LeaseLife

namespace LeaseTerms

variable (L : LeaseTerms)

/-- The script of a request. -/
def script : CallKind → Script ℕ
  | .renew => renewLua L.lease L.holder L.ttl
  | .release => releaseLua L.lease L.holder

/-- A request reaches the server. -/
def ran (w : LeaseLife) (kind : CallKind) : LeaseLife :=
  { w with
    redis := (L.script kind w.redis).2
    lastOk := if kind = .renew ∧ (L.script kind w.redis).1.toOption = some 1
      then w.redis.now else w.lastOk }

/-- A request is sent: what its sender gets, and what it leaves. -/
def send (w : LeaseLife) (kind : CallKind) : Option Bool → Option ℕ × LeaseLife
  | none => ((L.script kind w.redis).1.toOption, L.ran w kind)
  | some true => (none, L.ran w kind)
  | some false => (none, w)

/-- The task wakes up. -/
def wake (w : LeaseLife) : LeaseLife :=
  if w.task = .sleeping then { w with task := if w.released then .ended else .renewing } else w

/-- The task's request. -/
def taskRun (w : LeaseLife) (fault : Option Bool) : LeaseLife :=
  if w.task = .renewing then
    let r := L.send w .renew fault
    { r.2 with
      task := .renewed r.1
      renewals := if fault = some false then w.renewals else w.renewals + 1 }
  else w

/-- The task's renewal returns, and it goes on or ends. -/
def taskReturn (w : LeaseLife) : LeaseLife :=
  match w.task with
  | .renewed (some n) =>
    if n = 0 then { w with released := true, task := .ended } else { w with task := .sleeping }
  -- the server did not answer: the task ends, and nothing is written down
  | .renewed none => { w with task := .ended }
  | _ => w

/-- `renew_state` begins. -/
def startRenew (w : LeaseLife) : Option LeaseReply × LeaseLife :=
  if w.owners = 0 then (none, w)
  else if w.released then (some .leaseExpired, w)
  else (none, { w with calls := w.calls ++ [⟨.renew, none⟩] })

/-- `release_state` begins. -/
def startRelease (w : LeaseLife) : Option LeaseReply × LeaseLife :=
  if w.owners = 0 then (none, w)
  else if w.released then (some .ok, w)
  else
    let w' := { w with released := true }
    let w'' := if w.renewalAbort then { w'.abort with renewalAbort := false } else w'
    (none, { w'' with calls := w''.calls ++ [⟨.release, none⟩] })

/-- A call's request. -/
def callRun (w : LeaseLife) (c : ℕ) (fault : Option Bool) : LeaseLife :=
  match w.calls[c]? with
  | some ⟨kind, none⟩ =>
    let r := L.send w kind fault
    { r.2 with calls := w.calls.set c ⟨kind, some r.1⟩ }
  | _ => w

/-- A call returns. -/
def callReturn (w : LeaseLife) (c : ℕ) : Option LeaseReply × LeaseLife :=
  match w.calls[c]? with
  | some ⟨.release, some _⟩ => (some .ok, { w with calls := w.calls.eraseIdx c })
  | some ⟨.renew, some (some n)⟩ =>
    if n = 0 then
      (some .leaseExpired, { w with calls := w.calls.eraseIdx c, released := true })
    else (some .ok, { w with calls := w.calls.eraseIdx c })
  | some ⟨.renew, some none⟩ => (some .unavailable, { w with calls := w.calls.eraseIdx c })
  | _ => (none, w)

/-- A call is given up. -/
def callAbort (w : LeaseLife) (c : ℕ) : LeaseLife :=
  match w.calls[c]? with
  | some call => { w with
      calls := w.calls.eraseIdx c
      orphans := if call.reply = none then w.orphans ++ [call.kind] else w.orphans }
  | none => w

/-- A request whose sender is gone reaches the server. -/
def orphanRun (w : LeaseLife) (k : ℕ) : LeaseLife :=
  match w.orphans[k]? with
  | some kind => { L.ran w kind with orphans := w.orphans.eraseIdx k }
  | none => w

/-- What a step does, but for dropping the state. -/
def act (w : LeaseLife) : LifeEvent → Option LeaseReply × LeaseLife
  | .tick d => (none, { w with redis := w.redis.tick d })
  | .outside o => (none, { w with redis := match o with
      | none => w.redis.del L.lease
      | some o => w.redis.put L.lease o })
  | .wake => (none, wake w)
  | .taskRun fault => (none, L.taskRun w fault)
  | .taskReturn => (none, taskReturn w)
  | .renew => startRenew w
  | .release => startRelease w
  | .callRun c fault => (none, L.callRun w c fault)
  | .callReturn c => callReturn w c
  | .callAbort c => (none, callAbort w c)
  | .orphanRun k => (none, L.orphanRun w k)
  | .share => (none, if w.owners = 0 then w else { w with owners := w.owners + 1 })
  | .giveUp => (none, { w with owners := w.owners - 1 })

/-- **The life of a lease's state.** -/
def system : System LeaseLife LifeEvent (Option LeaseReply) where
  step w e := ((L.act w e).1, (L.act w e).2.settle)

end LeaseTerms

namespace LeaseLife

/-- **Dropping the state ends no task**: when nobody refers to it the task
has ended. -/
theorem settle_eq (w : LeaseLife) : ∃ b, w.settle = { w with renewalAbort := b } := by
  unfold settle
  split
  · next h =>
    have htask : w.task = .ended := by
      by_contra hne
      rw [strongCount, if_neg hne] at h
      exact nomatch h
    have habort : w.abort = w := by
      unfold abort
      rw [if_neg (by rw [htask]; exact RenewalTask.noConfusion), ← htask]
    unfold dropState
    rw [habort]
    split
    · exact ⟨_, rfl⟩
    · exact ⟨w.renewalAbort, rfl⟩
  · exact ⟨w.renewalAbort, rfl⟩

variable (w : LeaseLife)

@[simp] theorem settle_task : w.settle.task = w.task := by
  obtain ⟨b, hb⟩ := w.settle_eq
  rw [hb]

@[simp] theorem settle_released : w.settle.released = w.released := by
  obtain ⟨b, hb⟩ := w.settle_eq
  rw [hb]

@[simp] theorem settle_renewals : w.settle.renewals = w.renewals := by
  obtain ⟨b, hb⟩ := w.settle_eq
  rw [hb]

end LeaseLife

namespace LeaseTerms

variable (L : LeaseTerms) {w : LeaseLife}

/-! ## What a step can do to the task -/

/-- A request leaves the state as it is, but for the server. -/
theorem send_eq (w : LeaseLife) (kind : CallKind) (fault : Option Bool) :
    ∃ s t, (L.send w kind fault).2 = { w with redis := s, lastOk := t } := by
  rcases fault with - | - | -
  · exact ⟨_, _, rfl⟩
  · exact ⟨_, _, rfl⟩
  · exact ⟨_, _, rfl⟩

/-- **What a step can do to the task and the flag.** -/
inductive Moves (e : LifeEvent) (w w' : LeaseLife) : Prop
  /-- The task stays where it is, and a renewal may end the lease. -/
  | stay (ht : w'.task = w.task) (hr : w.released = true → w'.released = true)
  /-- A release ends both. -/
  | release (ht : w'.task = .ended) (hr : w'.released = true)
  | wake (hs : w.task = .sleeping) (hr : w'.released = w.released)
      (ht : w'.task = if w.released then .ended else .renewing)
  | run (hs : w.task = .renewing) (hr : w'.released = w.released)
      (ht : ∃ r, w'.task = .renewed r)
  | goOn (n : ℕ) (hs : w.task = .renewed (some n)) (hn : n ≠ 0) (hr : w'.released = w.released)
      (ht : w'.task = .sleeping)
  | expire (hs : w.task = .renewed (some 0)) (hr : w'.released = true) (ht : w'.task = .ended)
  | fail (he : e = .taskReturn) (hs : w.task = .renewed none) (hr : w'.released = w.released)
      (ht : w'.task = .ended)

/-- **What a step can do to the server**, and to the time a script last gave
the lease a lifetime. -/
inductive Serves (w w' : LeaseLife) : LifeEvent → Prop
  | same {e : LifeEvent} (hr : w'.redis = w.redis) (hl : w'.lastOk = w.lastOk) : Serves w w' e
  | tick (d : ℕ) (hr : w'.redis = w.redis.tick d) (hl : w'.lastOk = w.lastOk) :
      Serves w w' (.tick d)
  | outside (o : Option Obj) (hw : w' = (L.act w (.outside o)).2) : Serves w w' (.outside o)
  | ran {e : LifeEvent} (kind : CallKind) (hr : w'.redis = (L.ran w kind).redis)
      (hl : w'.lastOk = (L.ran w kind).lastOk) : Serves w w' e

/-- **What a step can do**: to the task and the flag, to the server, and to
the count of renewals. -/
structure Acts (e : LifeEvent) (w w' : LeaseLife) : Prop where
  moves : Moves e w w'
  serves : L.Serves w w' e
  renewals : w.task ≠ .renewing → w'.renewals = w.renewals

/-- A step that is about the owners and their calls alone. -/
theorem Acts.quiet {e : LifeEvent} {w' : LeaseLife} (ht : w'.task = w.task)
    (hf : w.released = true → w'.released = true) (hr : w'.redis = w.redis)
    (hl : w'.lastOk = w.lastOk) (hn : w'.renewals = w.renewals) : L.Acts e w w' :=
  ⟨.stay ht hf, .same hr hl, fun _ => hn⟩

/-- A request leaves the server as it was, or runs there. -/
theorem serves_send {e : LifeEvent} {kind : CallKind} {fault : Option Bool} {w' : LeaseLife}
    (hr : w'.redis = (L.send w kind fault).2.redis)
    (hl : w'.lastOk = (L.send w kind fault).2.lastOk) : L.Serves w w' e := by
  rcases fault with - | - | -
  · exact .ran kind hr hl
  · exact .same hr hl
  · exact .ran kind hr hl

theorem act_acts (e : LifeEvent) : L.Acts e w (L.act w e).2 := by
  have hsame : L.Acts e w w := .quiet L rfl (fun h => h) rfl rfl rfl
  cases e with
  | tick d => exact ⟨.stay rfl (fun h => h), .tick d rfl rfl, fun _ => rfl⟩
  | outside o => exact ⟨.stay rfl (fun h => h), .outside o rfl, fun _ => rfl⟩
  | wake =>
    show L.Acts _ w (wake w)
    unfold wake
    split
    · next hs => exact ⟨.wake hs rfl rfl, .same rfl rfl, fun _ => rfl⟩
    · exact hsame
  | taskRun fault =>
    show L.Acts _ w (L.taskRun w fault)
    unfold taskRun
    split
    · next hs =>
      refine ⟨.run hs ?_ ⟨_, rfl⟩, L.serves_send rfl rfl, fun hne => absurd hs hne⟩
      obtain ⟨s, t, hst⟩ := L.send_eq w .renew fault
      show (L.send w .renew fault).2.released = w.released
      rw [hst]
    · exact hsame
  | taskReturn =>
    show L.Acts _ w (taskReturn w)
    unfold taskReturn
    split
    · next n hs =>
      split
      · next hn =>
        subst hn
        exact ⟨.expire hs rfl rfl, .same rfl rfl, fun _ => rfl⟩
      · next hn => exact ⟨.goOn n hs hn rfl rfl, .same rfl rfl, fun _ => rfl⟩
    · next hs => exact ⟨.fail rfl hs rfl rfl, .same rfl rfl, fun _ => rfl⟩
    · exact hsame
  | renew =>
    show L.Acts _ w (startRenew w).2
    unfold startRenew
    split
    · exact hsame
    · split
      · exact hsame
      · exact .quiet L rfl (fun h => h) rfl rfl rfl
  | release =>
    show L.Acts _ w (startRelease w).2
    unfold startRelease
    split
    · exact hsame
    · split
      · exact hsame
      · dsimp only
        split
        · exact ⟨.release rfl rfl, .same rfl rfl, fun _ => rfl⟩
        · exact .quiet L rfl (fun _ => rfl) rfl rfl rfl
  | callRun c fault =>
    show L.Acts _ w (L.callRun w c fault)
    unfold callRun
    split
    · next kind _ =>
      obtain ⟨s, t, hst⟩ := L.send_eq w kind fault
      refine ⟨.stay ?_ ?_, L.serves_send rfl rfl, fun _ => ?_⟩
      · show (L.send w kind fault).2.task = w.task
        rw [hst]
      · show w.released = true → (L.send w kind fault).2.released = true
        rw [hst]
        exact fun h => h
      · show (L.send w kind fault).2.renewals = w.renewals
        rw [hst]
    · exact hsame
  | callReturn c =>
    show L.Acts _ w (callReturn w c).2
    unfold callReturn
    split
    · exact .quiet L rfl (fun h => h) rfl rfl rfl
    · split
      · exact .quiet L rfl (fun _ => rfl) rfl rfl rfl
      · exact .quiet L rfl (fun h => h) rfl rfl rfl
    · exact .quiet L rfl (fun h => h) rfl rfl rfl
    · exact hsame
  | callAbort c =>
    show L.Acts _ w (callAbort w c)
    unfold callAbort
    split
    · exact .quiet L rfl (fun h => h) rfl rfl rfl
    · exact hsame
  | orphanRun k =>
    show L.Acts _ w (L.orphanRun w k)
    unfold orphanRun
    split
    · next kind _ => exact ⟨.stay rfl (fun h => h), .ran kind rfl rfl, fun _ => rfl⟩
    · exact hsame
  | share =>
    show L.Acts _ w (if w.owners = 0 then w else _)
    split
    · exact hsame
    · exact .quiet L rfl (fun h => h) rfl rfl rfl
  | giveUp => exact .quiet L rfl (fun h => h) rfl rfl rfl

/-! ## A handle that nobody renews -/

/-- **The server answers the task.** -/
def Answered (w : LeaseLife) : LifeEvent → Prop
  | .taskReturn => w.task ≠ .renewed none
  | _ => True

instance (w : LeaseLife) : ∀ e, Decidable (Answered w e)
  | .taskReturn => inferInstanceAs (Decidable (w.task ≠ _))
  | .tick _ | .outside _ | .wake | .taskRun _ | .renew | .release | .callRun _ _ | .callReturn _
  | .callAbort _ | .orphanRun _ | .share | .giveUp => isTrue trivial

/-- A task that has ended leaves the lease released. -/
def EndedReleased (w : LeaseLife) : Prop := w.task = .ended → w.released = true

theorem endedReleased_step (w : LeaseLife) (e : LifeEvent) (h : EndedReleased w)
    (he : Answered w e) : EndedReleased (L.system.step w e).2 := by
  show (L.act w e).2.settle.task = .ended → (L.act w e).2.settle.released = true
  rw [LeaseLife.settle_task, LeaseLife.settle_released]
  intro hended
  cases (L.act_acts (w := w) e).moves with
  | stay ht hr => exact hr (h (ht.symm.trans hended))
  | release ht hr => exact hr
  | wake hs hr ht =>
    rw [ht] at hended
    rw [hr]
    by_contra hno
    rw [if_neg hno] at hended
    exact nomatch hended
  | run hs hr ht =>
    obtain ⟨r, ht⟩ := ht
    exact nomatch ht.symm.trans hended
  | goOn n hs hn hr ht => exact nomatch ht.symm.trans hended
  | expire hs hr ht => exact hr
  | fail hev hs hr ht =>
    subst hev
    exact absurd hs he

/-- **A handle is renewed until it is released**: in every state that a
lease's state reaches, if its task has ended it is released, and a renewal
that an owner begins is told that the lease has expired – in every run in
which the server answers the task. A renewal that had begun before the task
ended may still be told that it succeeded. -/
theorem renewed_until_released (s : Redis) {es : List LifeEvent}
    (hes : L.system.Along Answered (LeaseLife.acquired s) es)
    (hended : (L.system.final (LeaseLife.acquired s) es).task = .ended) :
    (L.system.final (LeaseLife.acquired s) es).released = true
      ∧ ((L.system.final (LeaseLife.acquired s) es).owners ≠ 0 →
        (L.system.step (L.system.final (LeaseLife.acquired s) es) .renew).1
          = some .leaseExpired) := by
  have h := L.system.inv_final (I := EndedReleased) (fun w e => L.endedReleased_step w e)
    (fun hs => RenewalTask.noConfusion hs) hes
  have hr := h hended
  refine ⟨hr, fun ho => ?_⟩
  show (startRenew _).1 = _
  rw [startRenew, if_neg ho, if_pos hr]

/-- A lock of a node, for ten milliseconds. -/
def sample : LeaseTerms := ⟨"p", ⟨.locks, "x"⟩, "a", 10, by decide⟩

/-- The node has just acquired it. -/
def sampled : LeaseLife := LeaseLife.acquired (sample.acquire (Redis.empty 0)).2

/-- A task that finds the lease gone: it is released, and a renewal says so. -/
theorem renewed_until_released_expired :
    (sample.system.final (LeaseLife.acquired (Redis.empty 0))
        [.wake, .taskRun none, .taskReturn]).released = true
      ∧ ((sample.system.final (LeaseLife.acquired (Redis.empty 0))
          [.wake, .taskRun none, .taskReturn]).owners ≠ 0 →
        (sample.system.step (sample.system.final (LeaseLife.acquired (Redis.empty 0))
          [.wake, .taskRun none, .taskReturn]) .renew).1 = some .leaseExpired) :=
  sample.renewed_until_released (Redis.empty 0) (by decide) (by decide)

/-- **A task that the server does not answer once** leaves a handle that
nobody renews: it is not released, and a renewal succeeds. -/
theorem unanswered_task_unreleased :
    (sample.system.final sampled [.wake, .taskRun (some false), .taskReturn]).task = .ended
      ∧ (sample.system.final sampled [.wake, .taskRun (some false), .taskReturn]).owners = 1
      ∧ (sample.system.final sampled [.wake, .taskRun (some false), .taskReturn]).released = false
      ∧ sample.system.answers
          (sample.system.final sampled [.wake, .taskRun (some false), .taskReturn])
          [.renew, .callRun 0 none, .callReturn 0] = [none, none, some .ok] := by
  decide

/-! ## A state that its owners give up -/

/-- Nobody but the task refers to the state. -/
def LeftToTask (w : LeaseLife) : Prop := w.owners = 0 ∧ w.calls = []

/-- Others write the lease key, but not as this holder. -/
def OthersHold (_ : LeaseLife) : LifeEvent → Prop
  | .outside (some o) => o.value ≠ .str (holderBytes L.holder)
  | _ => True

/-- **The renewal is over**: whatever happens, the task does not renew
again, and the lease key is the holder's no longer than a lifetime after it
was last given one. -/
def Stops (w : LeaseLife) : Prop :=
  ∀ es, L.system.Along L.OthersHold w es →
    (L.system.final w es).renewals = w.renewals
      ∧ ((L.system.final w es).lastOk + L.ttl < (L.system.final w es).redis.now →
        ¬ (L.system.final w es).redis.HeldBy L.lease L.holder)

/-- **The task has ended, or is bound to**: it will find the lease released,
or its renewal has failed. -/
def BoundToEnd (w : LeaseLife) : Prop :=
  match w.task with
  | .ended => True
  | .sleeping => w.released = true
  | .renewing => False
  | .renewed r => r = none ∨ r = some 0 ∨ w.released = true

/-- The key is the holder's for a lifetime from when it was given one. -/
def Timed (w : LeaseLife) : Prop :=
  ∀ e, w.redis.lookup L.lease = some ⟨.str (holderBytes L.holder), e⟩ →
    e = some (w.lastOk + L.ttl)

variable {L}

theorem Timed.congr (h : L.Timed w) {w' : LeaseLife}
    (hr : w'.redis.lookup L.lease = w.redis.lookup L.lease) (hl : w'.lastOk = w.lastOk) :
    L.Timed w' := by
  intro e he
  rw [hl]
  exact h e (hr.symm.trans he)

theorem Timed.not_heldBy (h : L.Timed w) (hlate : w.lastOk + L.ttl < w.redis.now) :
    ¬ w.redis.HeldBy L.lease L.holder := by
  rintro ⟨e, he⟩
  have hlive := Redis.liveAt_of_lookup he
  rw [h e he] at hlive
  exact absurd (of_decide_eq_true hlive) (Nat.not_le.mpr hlate)

theorem toOption_ne_of_quiet {r : Except ScriptError ℕ} (h : r ∈ quiet) : r.toOption ≠ some 1 := by
  intro hone
  cases r with
  | error e => exact nomatch hone
  | ok n =>
    obtain rfl := Option.some.inj hone
    exact nomatch h 1 rfl

/-- What a request leaves of the key. -/
theorem Timed.ran (h : L.Timed w) (kind : CallKind) : L.Timed (L.ran w kind) := by
  cases kind with
  | renew =>
    rcases renewLua_cases L.lease L.holder L.ttl_pos w.redis with ⟨hs, hr⟩ | ⟨-, hok⟩
    · refine h.congr (congrArg (Redis.lookup · L.lease) hs) (if_neg ?_)
      exact fun hone => toOption_ne_of_quiet hr hone.2
    · -- the key is given a lifetime now
      have hredis : (L.ran w .renew).redis
          = w.redis.put L.lease (leaseObj w.redis L.holder L.ttl) :=
        congrArg Prod.snd hok
      have hlast : (L.ran w .renew).lastOk = w.redis.now :=
        if_pos ⟨rfl, congrArg (fun r => r.1.toOption) hok⟩
      intro e he
      rw [hredis, Redis.lookup_put_self _ (liveAt_leaseObj _ _ _)] at he
      rw [hlast]
      exact (Obj.mk.inj (Option.some.inj he)).2.symm
  | release =>
    have hlast : (L.ran w .release).lastOk = w.lastOk := by
      simp [LeaseTerms.ran]
    rcases releaseLua_cases L.lease L.holder w.redis with ⟨hs, -⟩ | ⟨-, hok⟩
    · exact h.congr (congrArg (Redis.lookup · L.lease) hs) hlast
    · intro e he
      rw [show (L.ran w .release).redis = w.redis.del L.lease from congrArg Prod.snd hok,
        Redis.lookup_del_self] at he
      exact nomatch he

/-- **The key is the holder's no longer than a lifetime**, whatever happens
next to others' writes. -/
theorem timed_act (h : L.Timed w) {e : LifeEvent} (he : L.OthersHold w e) :
    L.Timed (L.act w e).2 := by
  cases (L.act_acts (w := w) e).serves with
  | same hr hl => exact h.congr (congrArg (Redis.lookup · L.lease) hr) hl
  | ran kind hr hl => exact (h.ran kind).congr (congrArg (Redis.lookup · L.lease) hr) hl
  | tick d hr hl =>
    intro x hx
    rw [hr] at hx
    rw [hl]
    exact h x (Redis.lookup_of_tick hx)
  | outside o hw =>
    intro x hx
    cases o with
    | none =>
      rw [show ((L.act w (.outside none)).2).redis = w.redis.del L.lease from rfl,
        Redis.lookup_del_self] at hx
      exact nomatch hx
    | some o =>
      have hdb : (w.redis.put L.lease o).lookup L.lease
          = (some o).filter (fun o => o.liveAt w.redis.now) := by
        simp [Redis.put, Redis.lookup]
      rw [show ((L.act w (.outside (some o))).2).redis = w.redis.put L.lease o from rfl, hdb] at hx
      obtain ⟨ho, -⟩ := Option.filter_eq_some_iff.mp hx
      exact absurd (congrArg Obj.value (Option.some.inj ho)) he

theorem timed_step (w : LeaseLife) (e : LifeEvent) (h : L.Timed w) (he : L.OthersHold w e) :
    L.Timed (L.system.step w e).2 := by
  obtain ⟨b, hb⟩ := (L.act w e).2.settle_eq
  show L.Timed (L.act w e).2.settle
  rw [hb]
  exact timed_act h he

/-- A state that nobody owns stays so: there is nobody to call or to share
it. -/
theorem LeftToTask.act (h : LeftToTask w) (e : LifeEvent) : LeftToTask (L.act w e).2 := by
  obtain ⟨ho, hc⟩ := h
  have hw : LeftToTask w := ⟨ho, hc⟩
  have hcall : ∀ c : ℕ, w.calls[c]? = none := fun c => by rw [hc]; rfl
  cases e with
  | tick d => exact hw
  | outside o => exact hw
  | wake =>
    show LeftToTask (LeaseTerms.wake w)
    unfold LeaseTerms.wake
    split <;> exact hw
  | taskRun fault =>
    show LeftToTask (L.taskRun w fault)
    unfold taskRun
    split
    · obtain ⟨s, t, hst⟩ := L.send_eq w .renew fault
      show (L.send w .renew fault).2.owners = 0 ∧ (L.send w .renew fault).2.calls = []
      rw [hst]
      exact hw
    · exact hw
  | taskReturn =>
    show LeftToTask (LeaseTerms.taskReturn w)
    unfold LeaseTerms.taskReturn
    split
    · split <;> exact hw
    · exact hw
    · exact hw
  | renew =>
    show LeftToTask (startRenew w).2
    rw [startRenew, if_pos ho]
    exact hw
  | release =>
    show LeftToTask (startRelease w).2
    rw [startRelease, if_pos ho]
    exact hw
  | callRun c fault =>
    show LeftToTask (L.callRun w c fault)
    unfold callRun
    rw [hcall c]
    exact hw
  | callReturn c =>
    show LeftToTask (LeaseTerms.callReturn w c).2
    unfold LeaseTerms.callReturn
    rw [hcall c]
    exact hw
  | callAbort c =>
    show LeftToTask (LeaseTerms.callAbort w c)
    unfold LeaseTerms.callAbort
    rw [hcall c]
    exact hw
  | orphanRun k =>
    show LeftToTask (L.orphanRun w k)
    unfold orphanRun
    split <;> exact hw
  | share =>
    show LeftToTask (if w.owners = 0 then w else _)
    rw [if_pos ho]
    exact hw
  | giveUp =>
    refine ⟨?_, hc⟩
    show w.owners - 1 = 0
    rw [ho]

/-- A task that is bound to end is so after every step. -/
theorem BoundToEnd.act (h : BoundToEnd w) (e : LifeEvent) : BoundToEnd (L.act w e).2 := by
  unfold BoundToEnd at h ⊢
  cases (L.act_acts (w := w) e).moves with
  | stay ht hr =>
    rw [ht]
    revert h
    cases w.task with
    | ended => exact fun h => h
    | sleeping => exact hr
    | renewing => exact fun h => h
    | renewed r => exact fun h => h.imp_right (fun h => h.imp_right hr)
  | release ht hr =>
    rw [ht]
    trivial
  | wake hs hr ht =>
    rw [hs] at h
    rw [ht, if_pos h]
    trivial
  | run hs hr ht =>
    rw [hs] at h
    exact h.elim
  | goOn n hs hn hr ht =>
    rw [hs] at h
    rw [ht, hr]
    rcases h with h | h | h
    · exact nomatch h
    · exact absurd (Option.some.inj h) hn
    · exact h
  | expire hs hr ht =>
    rw [ht]
    trivial
  | fail he hs hr ht =>
    rw [ht]
    trivial

/-- What is left of a lease's state when nobody owns it and its task is
bound to end. -/
structure Winding (L : LeaseTerms) (n : ℕ) (w : LeaseLife) : Prop where
  timed : L.Timed w
  left : LeftToTask w
  bound : BoundToEnd w
  renewals : w.renewals = n

theorem winding_step {n : ℕ} (w : LeaseLife) (e : LifeEvent) (h : Winding L n w)
    (he : L.OthersHold w e) : Winding L n (L.system.step w e).2 := by
  obtain ⟨b, hb⟩ := (L.act w e).2.settle_eq
  show Winding L n (L.act w e).2.settle
  rw [hb]
  refine ⟨timed_act h.timed he, h.left.act e, h.bound.act e, ?_⟩
  refine ((L.act_acts e).renewals (fun hs => ?_)).trans h.renewals
  have hbound := h.bound
  rw [BoundToEnd, hs] at hbound
  exact hbound

theorem renews_of_renewing (hs : w.task = .renewing) :
    (L.system.final w [.taskRun none]).renewals = w.renewals + 1 := by
  show (L.taskRun w none).settle.renewals = w.renewals + 1
  rw [LeaseLife.settle_renewals, taskRun, if_pos hs]
  rfl

theorem renews_of_sleeping (hs : w.task = .sleeping) (hr : w.released = false) :
    (L.system.final w [.wake, .taskRun none]).renewals = w.renewals + 1 := by
  have hwake : LeaseTerms.wake w = { w with task := .renewing } := by
    rw [LeaseTerms.wake, if_pos hs, hr]
    rfl
  have htask : (LeaseTerms.wake w).settle.task = .renewing := by
    rw [LeaseLife.settle_task, hwake]
  refine (renews_of_renewing htask).trans ?_
  rw [LeaseLife.settle_renewals, hwake]

/-- **A task that is not bound to end renews again.** -/
theorem renews_again (h : ¬ BoundToEnd w) :
    ∃ es, L.system.Along L.OthersHold w es
      ∧ (L.system.final w es).renewals = w.renewals + 1 := by
  unfold BoundToEnd at h
  cases ht : w.task with
  | ended =>
    rw [ht] at h
    exact absurd trivial h
  | sleeping =>
    rw [ht] at h
    exact ⟨[.wake, .taskRun none], ⟨trivial, trivial, trivial⟩,
      renews_of_sleeping ht (Bool.eq_false_iff.mpr h)⟩
  | renewing => exact ⟨[.taskRun none], ⟨trivial, trivial⟩, renews_of_renewing ht⟩
  | renewed r =>
    rw [ht] at h
    cases r with
    | none => exact absurd (Or.inl rfl) h
    | some n =>
      have hn : n ≠ 0 := fun hz => h (Or.inr (Or.inl (by rw [hz])))
      have hr : w.released = false :=
        Bool.eq_false_iff.mpr (fun hr => h (Or.inr (Or.inr hr)))
      -- it sleeps, and then renews
      have hret : LeaseTerms.taskReturn w = { w with task := .sleeping } := by
        rw [LeaseTerms.taskReturn, ht]
        exact if_neg hn
      have hstep : (L.system.step w .taskReturn).2 = (LeaseTerms.taskReturn w).settle := rfl
      refine ⟨[.taskReturn, .wake, .taskRun none], ⟨trivial, trivial, trivial, trivial⟩, ?_⟩
      refine (renews_of_sleeping (w := (L.system.step w .taskReturn).2) ?_ ?_).trans ?_
      · rw [hstep, LeaseLife.settle_task, hret]
      · rw [hstep, LeaseLife.settle_released, hret]
        exact hr
      · rw [hstep, LeaseLife.settle_renewals, hret]

/-- The key of a lease that has just been acquired. -/
theorem lookup_acquired {s s' : Redis} {token : ℤ} (ha : L.acquire s = (.ok (some token), s')) :
    s'.lookup L.lease = some (leaseObj s' L.holder L.ttl) := by
  have hne := L.id.leaseKey_ne_fenceKey L.p
  rcases acquireLua_cases hne L.holder L.ttl s with ⟨-, hno⟩ | ⟨-, n, -, hok⟩ | ⟨-, e, -, hbad⟩
  · exact absurd (congrArg Prod.fst ha) (hno token)
  · have hs : s' = (s.put L.lease (leaseObj s L.holder L.ttl)).put (L.id.fenceKey L.p)
        (s.counted (L.id.fenceKey L.p) n) := congrArg Prod.snd (ha.symm.trans hok)
    rw [hs, Redis.lookup_put_of_ne _ (show L.lease ≠ _ from hne)]
    exact Redis.lookup_put_self _ (liveAt_leaseObj _ _ _)
  · exact nomatch (congrArg Prod.fst (ha.symm.trans hbad))

theorem timed_acquired {s s' : Redis} {token : ℤ} (ha : L.acquire s = (.ok (some token), s')) :
    L.Timed (LeaseLife.acquired s') := by
  intro e he
  exact (Obj.mk.inj (Option.some.inj ((lookup_acquired ha).symm.trans he))).2.symm

/-- **When its owners have given a lease's state up, its renewal is over if
and only if the task had ended or was bound to**, in every state that is
reached after an acquisition. -/
theorem renewal_stops_iff {s s' : Redis} {token : ℤ} (ha : L.acquire s = (.ok (some token), s'))
    {es : List LifeEvent} (hes : L.system.Along L.OthersHold (LeaseLife.acquired s') es)
    (hleft : LeftToTask (L.system.final (LeaseLife.acquired s') es)) :
    L.Stops (L.system.final (LeaseLife.acquired s') es)
      ↔ BoundToEnd (L.system.final (LeaseLife.acquired s') es) := by
  have htimed : L.Timed (L.system.final (LeaseLife.acquired s') es) :=
    L.system.inv_final (fun w e => timed_step w e) (timed_acquired ha) hes
  constructor
  · intro hstops
    by_contra hno
    obtain ⟨fs, hfs, hmore⟩ := renews_again (L := L) hno
    have hsame := (hstops fs hfs).1
    rw [hmore] at hsame
    exact Nat.succ_ne_self _ hsame
  · intro hbound fs hfs
    have hend := L.system.inv_final (fun w e => winding_step w e) ⟨htimed, hleft, hbound, rfl⟩ hfs
    exact ⟨hend.renewals, hend.timed.not_heldBy⟩

/-- A lease that is lost before it is given up: the task has ended. -/
theorem renewal_stops_lost :
    sample.Stops (sample.system.final sampled
      [.outside none, .wake, .taskRun none, .taskReturn, .giveUp]) := by
  have ha : sample.acquire (Redis.empty 0)
      = (.ok (some 1), (sample.acquire (Redis.empty 0)).2) := rfl
  refine (renewal_stops_iff (L := sample) ha ?_ ?_).mpr ?_
  · exact ⟨trivial, trivial, trivial, trivial, trivial, trivial⟩
  · exact ⟨rfl, rfl⟩
  · trivial

/-- **A lease that is given up is renewed on**: nobody but the task refers
to it, the task wakes and renews, and long after the lifetime of the lease
its key is still the holder's. -/
theorem given_up_renewed :
    LeftToTask (sample.system.final sampled [.giveUp])
      ∧ ¬ sample.Stops (sample.system.final sampled [.giveUp])
      ∧ (sample.system.final sampled [.giveUp, .tick 5, .wake, .taskRun none, .tick 8]).redis.now
        = 13
      ∧ (sample.system.final sampled [.giveUp, .tick 5, .wake, .taskRun none, .tick 8]).redis.HeldBy
        sample.lease sample.holder := by
  refine ⟨⟨rfl, rfl⟩, fun hstops => ?_, rfl, some 15, rfl⟩
  have hsame := (hstops [.wake, .taskRun none] ⟨trivial, trivial, trivial⟩).1
  exact absurd hsame (by decide)

end LeaseTerms
