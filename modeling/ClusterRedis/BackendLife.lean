import ClusterRedis.Runs
import Mathlib.Algebra.GroupWithZero.Nat

/-!
# The life of a backend

What a backend works with is shared between its value and the tasks it has
started: the refresh of its registration, the maintenance of the store, and
a task for each stream of peers it handed out. What runs when nobody refers
to it any more ends the first two.

They are two of those who refer to it, and neither ends by itself. So while
they run nobody runs what would end them (`Kept.lively`), and they run until
they are ended by hand: a backend that is dropped without `shutdown` goes on
registering, sweeping and taking the sweep lock (`stops_working_iff`). A
task of a stream does end, once its stream is dropped.
-/

/-- The two tasks of a backend that run as long as it does. -/
inductive BackgroundTask where
  /-- The refresh of its registration. -/
  | peerRefresh
  /-- The sweep of the store and the gate of its key index. -/
  | kvMaintenance
  deriving DecidableEq

/-- What the tasks send. -/
inductive TaskCommand where
  | register
  | listPeers
  | invalidateIndex
  | renewLock
  | acquireLock
  | sweep
  | completeIndex
  deriving DecidableEq

/-- The task that sends it. -/
def TaskCommand.task : TaskCommand → BackgroundTask
  | register => .peerRefresh
  | _ => .kvMaintenance

/-- Where the task of a stream stands. -/
inductive WatchStage where
  /-- It looks whether its stream is there, -/
  | check
  /-- lists the peers, -/
  | poll
  /-- sends the events it found, -/
  | send (events : ℕ)
  /-- and sleeps. -/
  | sleep
  | ended
  deriving DecidableEq

/-- **A stream of peers**: whether it is still there, and its task. -/
structure Watch where
  streamed : Bool
  stage : WatchStage
  deriving DecidableEq

/-- The next step of its task, which finds some events if it lists the peers.
An event that nobody receives ends it. -/
def Watch.next (events : ℕ) (x : Watch) : Watch :=
  match x.stage with
  | .check => { x with stage := if x.streamed then .poll else .ended }
  | .poll => { x with stage := .send events }
  | .send 0 => { x with stage := .sleep }
  | .send (n + 1) => { x with stage := if x.streamed then .send n else .ended }
  | .sleep => { x with stage := .check }
  | .ended => x

/-- The stream is dropped. -/
def Watch.close (x : Watch) : Watch := { x with streamed := false }

/-- **What a backend works with, and those who refer to it.** -/
structure BackendLife where
  /-- The backend's value. -/
  value : Bool
  draining : Bool
  /-- It can abort a task. -/
  aborts : BackgroundTask → Bool
  running : BackgroundTask → Bool
  watches : List Watch
  /-- What runs when nobody refers to it has run. -/
  dropped : Bool
  /-- What the tasks have sent. -/
  sent : List TaskCommand

/-- One step: of the backend's owner, of who holds a stream, or of a task. -/
inductive BackendEvent where
  | shutdown
  | dropValue
  | watchPeers
  | dropStream (i : ℕ)
  | watchRun (i events : ℕ)
  | work (cmd : TaskCommand)
  deriving DecidableEq

namespace BackendLife

/-- What a backend works with, before its tasks are started. -/
def new : BackendLife where
  value := true
  draining := false
  aborts _ := false
  running _ := false
  watches := []
  dropped := false
  sent := []

/-- A task is started, and can be aborted. -/
def spawn (w : BackendLife) (t : BackgroundTask) : BackendLife :=
  { w with
    aborts := Function.update w.aborts t true
    running := Function.update w.running t true }

def fromValidatedConfig : BackendLife := (new.spawn .peerRefresh).spawn .kvMaintenance

/-- **A backend is built** for a probe of the manifest or from a
configuration that is valid; any other is refused. -/
def fromConfigJson (probe valid : Bool) : Option BackendLife :=
  if probe then some fromValidatedConfig
  else if valid then some fromValidatedConfig
  else none

/-- **Who refers to it**: the value, and the tasks that have not ended. -/
def strongCount (w : BackendLife) : ℕ :=
  w.value.toNat + ((w.running .peerRefresh).toNat + (w.running .kvMaintenance).toNat)
    + w.watches.countP (fun x => x.stage ≠ .ended)

/-- **`Inner::shutdown`**: the tasks are aborted. -/
def innerShutdown (w : BackendLife) : BackendLife :=
  { w with
    draining := true
    aborts := fun _ => false
    running := fun t => w.running t && !w.aborts t }

/-- It is dropped when nobody refers to it. -/
def settle (w : BackendLife) : BackendLife :=
  if w.strongCount = 0 ∧ w.dropped = false then { w.innerShutdown with dropped := true } else w

/-- What a step does, but for the drop. -/
def act (w : BackendLife) : BackendEvent → BackendLife
  | .shutdown => if w.value then w.innerShutdown else w
  | .dropValue => { w with value := false }
  | .watchPeers => if w.value then { w with watches := w.watches ++ [⟨true, .check⟩] } else w
  | .dropStream i => { w with watches := w.watches.modify i Watch.close }
  | .watchRun i events => { w with watches := w.watches.modify i (Watch.next events) }
  | .work cmd => if w.running cmd.task then { w with sent := w.sent ++ [cmd] } else w

/-- **The life of a backend.** -/
def system : System BackendLife BackendEvent Unit where
  step w e := ((), (w.act e).settle)

/-! ## What is kept -/

/-- **The value and every stream are dropped.** -/
def Abandoned (w : BackendLife) : Prop :=
  w.value = false ∧ ∀ x ∈ w.watches, x.streamed = false

/-- The tasks of the streams have ended. -/
def WoundUp (w : BackendLife) : Prop := ∀ x ∈ w.watches, x.stage = .ended

/-- **What every step keeps.** Unless it is shut down both tasks run, and can
be aborted; else neither does. It is dropped once nobody refers to it. -/
structure Kept (w : BackendLife) : Prop where
  lively : w.draining = false →
    w.dropped = false ∧ ∀ t, w.running t = true ∧ w.aborts t = true
  ended : w.draining = true → ∀ t, w.running t = false
  settled : w.strongCount = 0 → w.dropped = true

variable {w : BackendLife}

/-- Where nobody refers to it no task runs. -/
theorem running_of_strongCount (h : w.strongCount = 0) (t : BackgroundTask) :
    w.running t = false := by
  have hsum : (w.running .peerRefresh).toNat + (w.running .kvMaintenance).toNat = 0 := by
    unfold strongCount at h
    omega
  obtain ⟨hp, hm⟩ := Nat.add_eq_zero_iff.mp hsum
  cases t with
  | peerRefresh => exact Bool.toNat_eq_zero.mp hp
  | kvMaintenance => exact Bool.toNat_eq_zero.mp hm

/-- A shut down ends what it can abort. -/
theorem Kept.innerShutdown (h : w.Kept) (t : BackgroundTask) :
    w.innerShutdown.running t = false := by
  show (w.running t && !w.aborts t) = false
  cases hd : w.draining with
  | true => rw [h.ended hd t, Bool.false_and]
  | false => rw [(h.lively hd).2 t |>.1, (h.lively hd).2 t |>.2]; rfl

/-- **Being dropped is no way out**: who is not shut down is referred to by
its tasks. -/
theorem Kept.of_act (hl : w.draining = false →
      w.dropped = false ∧ ∀ t, w.running t = true ∧ w.aborts t = true)
    (ho : w.draining = true → ∀ t, w.running t = false) :
    w.settle.Kept ∧ w.settle.draining = w.draining := by
  by_cases hdrop : w.strongCount = 0 ∧ w.dropped = false
  · have hrun := running_of_strongCount hdrop.1
    have hdraining : w.draining = true := by
      by_contra hd
      have hlive := (hl (Bool.not_eq_true _ ▸ hd)).2 .peerRefresh
      rw [hrun] at hlive
      exact Bool.noConfusion hlive.1
    rw [settle, if_pos hdrop]
    refine ⟨⟨fun hd => Bool.noConfusion hd, fun _ t => ?_, fun _ => rfl⟩, hdraining.symm⟩
    show (w.running t && !w.aborts t) = false
    rw [hrun t, Bool.false_and]
  · rw [settle, if_neg hdrop]
    refine ⟨⟨hl, ho, fun h => ?_⟩, rfl⟩
    by_contra hd
    exact hdrop ⟨h, Bool.not_eq_true _ ▸ hd⟩

theorem settle_value (w : BackendLife) : w.settle.value = w.value := by
  unfold settle
  split <;> rfl

theorem settle_watches (w : BackendLife) : w.settle.watches = w.watches := by
  unfold settle
  split <;> rfl

theorem settle_sent (w : BackendLife) : w.settle.sent = w.sent := by
  unfold settle
  split <;> rfl

/-- What a step leaves as it is. -/
structure SameTasks (w v : BackendLife) : Prop where
  running : v.running = w.running
  aborts : v.aborts = w.aborts
  draining : v.draining = w.draining
  dropped : v.dropped = w.dropped

/-- **What a step does to the tasks**: a shut down by the owner ends them, and
nothing else does anything to them. -/
theorem act_tasks (w : BackendLife) (e : BackendEvent) :
    (e = .shutdown ∧ w.value = true) ∧ w.act e = w.innerShutdown
      ∨ ¬ (e = .shutdown ∧ w.value = true) ∧ SameTasks w (w.act e) := by
  cases e with
  | shutdown =>
    by_cases hv : w.value = true
    · exact Or.inl ⟨⟨rfl, hv⟩, if_pos hv⟩
    · refine Or.inr ⟨fun h => hv h.2, ?_⟩
      rw [act, if_neg hv]
      exact ⟨rfl, rfl, rfl, rfl⟩
  | dropValue => exact Or.inr ⟨fun h => BackendEvent.noConfusion h.1, rfl, rfl, rfl, rfl⟩
  | watchPeers =>
    refine Or.inr ⟨fun h => BackendEvent.noConfusion h.1, ?_⟩
    by_cases hv : w.value = true
    · rw [act, if_pos hv]
      exact ⟨rfl, rfl, rfl, rfl⟩
    · rw [act, if_neg hv]
      exact ⟨rfl, rfl, rfl, rfl⟩
  | dropStream i => exact Or.inr ⟨fun h => BackendEvent.noConfusion h.1, rfl, rfl, rfl, rfl⟩
  | watchRun i events => exact Or.inr ⟨fun h => BackendEvent.noConfusion h.1, rfl, rfl, rfl, rfl⟩
  | work cmd =>
    refine Or.inr ⟨fun h => BackendEvent.noConfusion h.1, ?_⟩
    by_cases hr : w.running cmd.task = true
    · rw [act, if_pos hr]
      exact ⟨rfl, rfl, rfl, rfl⟩
    · rw [act, if_neg hr]
      exact ⟨rfl, rfl, rfl, rfl⟩

/-- **A step keeps it**, and only a shut down by the owner makes it drain. -/
theorem Kept.step (h : w.Kept) (e : BackendEvent) :
    (system.step w e).2.Kept
      ∧ ((system.step w e).2.draining = true
        ↔ w.draining = true ∨ e = .shutdown ∧ w.value = true) := by
  show (w.act e).settle.Kept ∧ ((w.act e).settle.draining = true ↔ _)
  rcases w.act_tasks e with ⟨he, hact⟩ | ⟨he, hsame⟩
  · rw [hact]
    obtain ⟨hk, hd⟩ := Kept.of_act (w := w.innerShutdown) (fun hd => Bool.noConfusion hd)
      (fun _ => h.innerShutdown)
    exact ⟨hk, fun _ => Or.inr he, fun _ => hd⟩
  · obtain ⟨hk, hd⟩ := Kept.of_act (w := w.act e)
      (fun hd => by
        rw [hsame.dropped, hsame.running, hsame.aborts]
        exact h.lively (hsame.draining ▸ hd))
      (fun hd t => by
        rw [hsame.running]
        exact h.ended (hsame.draining ▸ hd) t)
    rw [hd, hsame.draining]
    exact ⟨hk, Or.inl, fun hor => hor.resolve_right he⟩

/-- The value goes when it is dropped, and does not come back. -/
theorem step_value (w : BackendLife) (e : BackendEvent) :
    (system.step w e).2.value = (w.value && e ≠ .dropValue) := by
  show (w.act e).settle.value = _
  rw [settle_value]
  cases e with
  | shutdown =>
    rw [act]
    split <;> simp [innerShutdown]
  | dropValue => simp [act]
  | watchPeers =>
    rw [act]
    split <;> simp
  | dropStream i => simp [act]
  | watchRun i events => simp [act]
  | work cmd =>
    rw [act]
    split <;> simp

/-! ## Runs -/

/-- **`shutdown` is called before the value is dropped.** -/
def ShutDownFirst : List BackendEvent → Prop
  | [] => False
  | .shutdown :: _ => True
  | .dropValue :: _ => False
  | _ :: es => ShutDownFirst es

theorem kept_built {probe valid : Bool} (h : fromConfigJson probe valid = some w) :
    w = fromValidatedConfig ∧ w.Kept := by
  have hw : w = fromValidatedConfig := by
    unfold fromConfigJson at h
    split at h
    · exact (Option.some.inj h).symm
    · split at h
      · exact (Option.some.inj h).symm
      · cases h
  subst hw
  refine ⟨rfl, fun _ => ⟨rfl, fun t => ?_⟩, fun h => Bool.noConfusion h, fun h => nomatch h⟩
  cases t <;> exact ⟨rfl, rfl⟩

theorem Kept.final (h : w.Kept) (es : List BackendEvent) : (system.final w es).Kept := by
  induction es generalizing w with
  | nil => exact h
  | cons e es ih => exact ih (h.step e).1

/-- Who drains goes on draining. -/
theorem Kept.draining_final (h : w.Kept) (hd : w.draining = true) (es : List BackendEvent) :
    (system.final w es).draining = true := by
  induction es generalizing w with
  | nil => exact hd
  | cons e es ih => exact ih (h.step e).1 ((h.step e).2.mpr (Or.inl hd))

/-- **Without its value it is not shut down any more.** -/
theorem Kept.not_draining_final (h : w.Kept) (hd : w.draining = false) (hv : w.value = false)
    (es : List BackendEvent) : (system.final w es).draining = false := by
  induction es generalizing w with
  | nil => exact hd
  | cons e es ih =>
    refine ih (h.step e).1 ?_ ?_
    · rw [← Bool.not_eq_true, (h.step e).2, hd, hv]
      simp
    · rw [step_value, hv, Bool.false_and]

/-- **A backend drains exactly when it was shut down before its value was
dropped.** -/
theorem Kept.draining_final_iff (h : w.Kept) (hd : w.draining = false) (hv : w.value = true)
    (es : List BackendEvent) : (system.final w es).draining = true ↔ ShutDownFirst es := by
  induction es generalizing w with
  | nil =>
    show w.draining = true ↔ False
    rw [hd]
    exact ⟨fun h => Bool.noConfusion h, False.elim⟩
  | cons e es ih =>
    obtain ⟨hk, hdrain⟩ := h.step e
    have hother : e ≠ .shutdown → e ≠ .dropValue →
        ((system.final (system.step w e).2 es).draining = true ↔ ShutDownFirst es) := by
      intro hs hdr
      refine ih hk ?_ ?_
      · rw [← Bool.not_eq_true, hdrain, hd]
        simp [hs]
      · rw [step_value, hv, Bool.true_and]
        exact decide_eq_true hdr
    show (system.final (system.step w e).2 es).draining = true ↔ _
    cases e with
    | shutdown =>
      exact iff_of_true (hk.draining_final (hdrain.mpr (Or.inr ⟨rfl, hv⟩)) es) trivial
    | dropValue =>
      have hnot : (system.step w .dropValue).2.draining = false := by
        rw [← Bool.not_eq_true, hdrain, hd]
        simp
      have hgone : (system.step w .dropValue).2.value = false := by
        rw [step_value]
        simp
      refine iff_of_false (fun hy => ?_) id
      rw [hk.not_draining_final hnot hgone es] at hy
      exact Bool.noConfusion hy
    | watchPeers => exact hother (by simp) (by simp)
    | dropStream i => exact hother (by simp) (by simp)
    | watchRun i events => exact hother (by simp) (by simp)
    | work cmd => exact hother (by simp) (by simp)

/-! ## The tasks of the streams -/

/-- **What is abandoned stays so.** -/
theorem Abandoned.step (h : w.Abandoned) (e : BackendEvent) : (system.step w e).2.Abandoned := by
  refine ⟨by rw [step_value, h.1, Bool.false_and], ?_⟩
  have hmodify : ∀ (i : ℕ) (f : Watch → Watch), (∀ x, x.streamed = false →
      (f x).streamed = false) → ∀ x ∈ w.watches.modify i f, x.streamed = false := by
    intro i f hf x hx
    obtain ⟨j, hj, rfl⟩ := List.mem_iff_getElem.mp hx
    rw [List.getElem_modify]
    split
    · exact hf _ (h.2 _ (List.getElem_mem _))
    · exact h.2 _ (List.getElem_mem _)
  show ∀ x ∈ (w.act e).settle.watches, x.streamed = false
  rw [settle_watches]
  cases e with
  | shutdown =>
    rw [act]
    split <;> exact h.2
  | dropValue => exact h.2
  | watchPeers =>
    rw [act, if_neg (by rw [h.1]; exact Bool.false_ne_true)]
    exact h.2
  | dropStream i => exact hmodify i Watch.close (fun _ _ => rfl)
  | watchRun i events =>
    refine hmodify i (Watch.next events) (fun x hx => ?_)
    unfold Watch.next
    split <;> exact hx
  | work cmd =>
    rw [act]
    split <;> exact h.2

theorem Abandoned.final (h : w.Abandoned) (es : List BackendEvent) :
    (system.final w es).Abandoned := by
  induction es generalizing w with
  | nil => exact h
  | cons e es ih => exact ih (h.step e)

end BackendLife

/-- How many steps are left to a task without a stream. -/
def Watch.stepsLeft (x : Watch) : ℕ :=
  match x.stage with
  | .ended => 0
  | .check => 1
  | .sleep => 2
  | .send _ => 3
  | .poll => 4

/-- **Without a stream a task ends**: each of its steps is one less. -/
theorem Watch.stepsLeft_next {x : Watch} (hs : x.streamed = false) (h : x.stage ≠ .ended) :
    (x.next 0).stepsLeft < x.stepsLeft := by
  obtain ⟨streamed, stage⟩ := x
  obtain rfl : streamed = false := hs
  cases stage with
  | ended => exact absurd rfl h
  | send n =>
    cases n with
    | zero => exact Nat.lt_succ_self 2
    | succ n => exact Nat.zero_lt_succ 2
  | check => exact Nat.zero_lt_succ 0
  | poll => exact Nat.lt_succ_self 3
  | sleep => exact Nat.lt_succ_self 1

/-- Some task of a list takes one of its steps. -/
theorem Watch.exists_step {l : List Watch} (hs : ∀ x ∈ l, x.streamed = false)
    (h : ¬ ∀ x ∈ l, x.stage = .ended) :
    ∃ i, ((l.modify i (Watch.next 0)).map Watch.stepsLeft).sum < (l.map Watch.stepsLeft).sum := by
  induction l with
  | nil => exact absurd (fun x hx => absurd hx (List.not_mem_nil)) h
  | cons x l ih =>
    by_cases hx : x.stage = .ended
    · obtain ⟨i, hi⟩ := ih (fun y hy => hs y (List.mem_cons_of_mem x hy))
        (fun hl => h (List.forall_mem_cons.mpr ⟨hx, hl⟩))
      refine ⟨i + 1, ?_⟩
      rw [List.modify_succ_cons, List.map_cons, List.map_cons, List.sum_cons, List.sum_cons]
      exact Nat.add_lt_add_left hi _
    · refine ⟨0, ?_⟩
      rw [List.modify_zero_cons, List.map_cons, List.map_cons, List.sum_cons, List.sum_cons]
      exact Nat.add_lt_add_right (Watch.stepsLeft_next (hs x List.mem_cons_self) hx) _

namespace BackendLife

variable {w : BackendLife}

/-- **The tasks of dropped streams end**, whatever they were doing. -/
theorem Abandoned.exists_woundUp (h : w.Abandoned) : ∃ fs, (system.final w fs).WoundUp := by
  generalize hn : (w.watches.map Watch.stepsLeft).sum = n
  induction n using Nat.strongRecOn generalizing w with
  | _ n ih =>
    by_cases hup : w.WoundUp
    · exact ⟨[], hup⟩
    · obtain ⟨i, hi⟩ := Watch.exists_step h.2 hup
      have hless : ((system.step w (.watchRun i 0)).2.watches.map Watch.stepsLeft).sum < n := by
        rw [← hn]
        show ((w.act (.watchRun i 0)).settle.watches.map Watch.stepsLeft).sum < _
        rwa [settle_watches]
      obtain ⟨fs, hfs⟩ := ih _ hless (h.step (.watchRun i 0)) rfl
      exact ⟨.watchRun i 0 :: fs, hfs⟩

/-! ## A dropped backend -/

/-- **A backend stops working**: whatever goes on, once the tasks of its
streams have ended what should run has run, its tasks do not run, and they
send nothing any more. -/
def StopsWorking (w : BackendLife) : Prop :=
  ∀ fs, (system.final w fs).WoundUp →
    (system.final w fs).dropped = true ∧ (∀ t, (system.final w fs).running t = false)
      ∧ ∀ gs, (system.final w (fs ++ gs)).sent = (system.final w fs).sent

/-- **A backend works on**: it is not dropped, and what a task would send it
sends. -/
def WorksOn (w : BackendLife) : Prop :=
  w.dropped = false ∧ ∀ cmd, (system.step w (.work cmd)).2.sent = w.sent ++ [cmd]

/-- What drains sends nothing. -/
theorem Kept.sent_final (h : w.Kept) (hd : w.draining = true) (es : List BackendEvent) :
    (system.final w es).sent = w.sent := by
  induction es generalizing w with
  | nil => rfl
  | cons e es ih =>
    have hstep : (system.step w e).2.sent = w.sent := by
      show (w.act e).settle.sent = w.sent
      rw [settle_sent]
      cases e with
      | work cmd => rw [act, if_neg (by rw [h.ended hd]; exact Bool.false_ne_true)]
      | shutdown =>
        rw [act]
        split <;> rfl
      | watchPeers =>
        rw [act]
        split <;> rfl
      | dropValue => rfl
      | dropStream i => rfl
      | watchRun i events => rfl
    exact (ih (h.step e).1 ((h.step e).2.mpr (Or.inl hd))).trans hstep

/-- Nobody refers to what is abandoned, drains, and has wound up. -/
theorem Kept.dropped_of_woundUp (h : w.Kept) (ha : w.Abandoned) (hd : w.draining = true)
    (hup : w.WoundUp) : w.dropped = true := by
  refine h.settled ?_
  have hcount : w.watches.countP (fun x => x.stage ≠ .ended) = 0 := by
    refine List.countP_eq_zero.mpr (fun x hx => ?_)
    simp [hup x hx]
  rw [strongCount, ha.1, h.ended hd, h.ended hd, hcount]
  rfl

/-- **What is not shut down works on.** -/
theorem Kept.worksOn (h : w.Kept) (hd : w.draining = false) : w.WorksOn := by
  obtain ⟨hdropped, hlive⟩ := h.lively hd
  refine ⟨hdropped, fun cmd => ?_⟩
  show (w.act (.work cmd)).settle.sent = _
  rw [settle_sent, act, if_pos (hlive cmd.task).1]

/-- **A dropped backend stops working exactly when it was shut down first.**
However it was built, and in whatever order the value and the streams were
dropped and the tasks took their steps: once the value and every stream are
dropped the tasks of the streams can only end, and what should then run runs,
and ends the other two, if `shutdown` was called before the value was
dropped. If it was not, it never runs, and both tasks work on. -/
theorem stops_working_iff {probe valid : Bool} {w₀ : BackendLife}
    (hb : fromConfigJson probe valid = some w₀) (es : List BackendEvent)
    (ha : (system.final w₀ es).Abandoned) :
    ((system.final w₀ es).StopsWorking ↔ ShutDownFirst es)
      ∧ (∃ fs, (system.final w₀ (es ++ fs)).WoundUp)
      ∧ (¬ ShutDownFirst es → ∀ fs, (system.final w₀ (es ++ fs)).WorksOn) := by
  obtain ⟨rfl, hkept⟩ := kept_built hb
  have hk := hkept.final es
  have hdrain : (system.final fromValidatedConfig es).draining = true ↔ ShutDownFirst es :=
    hkept.draining_final_iff rfl rfl es
  have hon : ¬ ShutDownFirst es → ∀ fs,
      (system.final (system.final fromValidatedConfig es) fs).WorksOn := by
    intro hnot fs
    have hd : (system.final fromValidatedConfig es).draining = false := by
      rw [← Bool.not_eq_true, hdrain]
      exact hnot
    exact (hk.final fs).worksOn (hk.not_draining_final hd ha.1 fs)
  obtain ⟨fs, hfs⟩ := ha.exists_woundUp
  refine ⟨⟨fun hstops => ?_, fun hfirst fs hup => ?_⟩, ⟨fs, ?_⟩, fun hnot fs => ?_⟩
  · by_contra hnot
    have hdropped := (hstops fs hfs).1
    rw [(hon hnot fs).1] at hdropped
    exact Bool.noConfusion hdropped
  · have hd := hk.draining_final (hdrain.mpr hfirst) fs
    refine ⟨(hk.final fs).dropped_of_woundUp (ha.final fs) hd hup, (hk.final fs).ended hd,
      fun gs => ?_⟩
    rw [System.final_append]
    exact (hk.final fs).sent_final hd gs
  · rwa [System.final_append]
  · rw [System.final_append]
    exact hon hnot fs

/-- A backend that is shut down, dropped, and then loses its stream. -/
def shutDownRun : List BackendEvent :=
  [.watchPeers, .work .register, .shutdown, .dropValue, .watchRun 0 0, .dropStream 0]

theorem stops_working_iff_shutDown :
    (system.final fromValidatedConfig shutDownRun).StopsWorking
      ∧ (system.final fromValidatedConfig (shutDownRun ++ [.watchRun 0 1])).dropped = false
      ∧ (system.final fromValidatedConfig
        (shutDownRun ++ [.watchRun 0 1, .watchRun 0 0])).dropped = true := by
  have ha : (system.final fromValidatedConfig shutDownRun).Abandoned :=
    ⟨by decide, by decide⟩
  exact ⟨(stops_working_iff (rfl : fromConfigJson false true = some fromValidatedConfig)
    shutDownRun ha).1.mpr trivial, by decide, by decide⟩

/-- **The probe of the manifest goes on working.** It is built, read and
dropped, without `shutdown`; nothing is left that refers to it but its own
tasks, and these register it and take the sweep lock. -/
theorem probe_works_on :
    ∃ w, fromConfigJson true false = some w
      ∧ (system.final w [.dropValue]).Abandoned
      ∧ (system.final w [.dropValue]).WoundUp
      ∧ (system.final w [.dropValue]).dropped = false
      ∧ (system.final w [.dropValue, .work .register, .work .acquireLock]).sent
        = [.register, .acquireLock]
      ∧ ¬ (system.final w [.dropValue]).StopsWorking := by
  have hup : (system.final fromValidatedConfig [.dropValue]).WoundUp :=
    fun x hx => absurd hx (List.not_mem_nil)
  refine ⟨fromValidatedConfig, rfl, ⟨rfl, fun x hx => absurd hx (List.not_mem_nil)⟩, hup,
    by decide, by decide, fun h => ?_⟩
  exact absurd (h [] hup).1 (by decide)

end BackendLife
