import ClusterRedis.LeaseTask

/-!
# Lease handles across the plugin boundary

A host that acquires a lease through the plugin's table of functions gets a
bare pointer to the lease's state. The state is counted: the pointer stands for
one of those who refer to it, the renewal task is another, and a renewal or a
release first counts itself in and, when it returns, out. Whoever counts itself
out last frees the state. Nothing checks that the pointer is still good.

The host keeps to two rules, which are written beside the functions: it gives a
handle back once, and does not use it after that. A call that has counted
itself in may still be under way when the handle is given back. With these two
the count is right in every run (`handles_safe`), and what the calls do to the
lease is a run of the state's own life, where giving the handle back is an
owner's giving up (`handles_refine`).
-/

open Numerals

/-- **A lease's state, as it is shared with a host.** -/
structure LeaseHandle where
  /-- The state, with what goes on in it. -/
  life : LeaseLife
  /-- The count beside it. -/
  strong : ℕ
  freed : Bool
  /-- Something has used the state, or counted at it, when it was freed. -/
  fault : Bool
  /-- The host has given its handle back. -/
  dropped : Bool
  /-- The calls that have counted themselves in and have not begun. -/
  borrowed : List CallKind

/-- What happens in a state that is not a host's doing. -/
inductive StateStep where
  | tick (d : ℕ)
  | outside (o : Option Obj)
  | wake
  | taskRun (fault : Option Bool)
  | taskReturn
  | callRun (c : ℕ) (fault : Option Bool)
  | orphanRun (k : ℕ)

/-- Its place in the life of the state. -/
def StateStep.event : StateStep → LifeEvent
  | .tick d => .tick d
  | .outside o => .outside o
  | .wake => .wake
  | .taskRun fault => .taskRun fault
  | .taskReturn => .taskReturn
  | .callRun c fault => .callRun c fault
  | .orphanRun k => .orphanRun k

/-- How a call that has counted itself in begins. -/
def CallKind.begins : CallKind → LifeEvent
  | .renew => .renew
  | .release => .release

/-- One step: of the state; a call of the host, with a pointer that may be
null; a call that has counted itself in begins; or it returns. -/
inductive HandleEvent where
  | own (e : StateStep)
  /-- `renew_sync` and `release_sync`. -/
  | borrow (null : Bool) (kind : CallKind)
  | start (k : ℕ)
  | callReturn (c : ℕ)
  /-- `lease_drop`. -/
  | drop (null : Bool)

/-- Whether a step reads or writes the state itself. -/
def LeaseLife.uses (w : LeaseLife) : StateStep → Bool
  | .wake => w.task = .sleeping
  | .taskRun _ => w.task = .renewing
  | .taskReturn => w.task ≠ .sleeping ∧ w.task ≠ .renewing ∧ w.task ≠ .ended
  | .callRun c _ => (w.calls[c]?).isSome
  | _ => false

namespace LeaseHandle

/-- `wrap_state`: the pointer is one of two who refer to the state. -/
def wrapState (s : Redis) : LeaseHandle := ⟨LeaseLife.acquired s, 2, false, false, false, []⟩

/-- One who refers to the state no longer does; the last one frees it. -/
def release (h : LeaseHandle) : LeaseHandle :=
  if h.freed then { h with fault := true }
  else if h.strong = 1 then { h with strong := 0, freed := true, life := h.life.dropState }
  else { h with strong := h.strong - 1 }

/-- The task no longer refers to the state when it has ended. -/
def taskEnds (h : LeaseHandle) (task : RenewalTask) : LeaseHandle :=
  if task ≠ .ended ∧ h.life.task = .ended then h.release else h

/-- `borrow_state`: a null pointer is refused; another is trusted. -/
def borrowState (h : LeaseHandle) (null : Bool) (kind : CallKind) :
    Option LeaseReply × LeaseHandle :=
  if null then (some (match kind with | .renew => .leaseExpired | .release => .ok), h)
  else if h.freed then (none, { h with fault := true })
  else (none, { h with
    strong := h.strong + 1
    life := { h.life with owners := h.life.owners + 1 }
    borrowed := h.borrowed ++ [kind] })

/-- `drop_state`. -/
def dropState (h : LeaseHandle) (null : Bool) : LeaseHandle :=
  if null then h
  else LeaseHandle.release { h with
    dropped := true
    life := { h.life with owners := h.life.owners - 1 } }

/-- A call returns, and counts itself out. -/
def callReturn (h : LeaseHandle) (c : ℕ) : Option LeaseReply × LeaseHandle :=
  let r := LeaseTerms.callReturn h.life c
  (r.1, if r.1.isSome then LeaseHandle.release { h with life := r.2 } else h)

end LeaseHandle

namespace LeaseTerms

variable (L : LeaseTerms)

/-- A step of the state's own. -/
def onState (h : LeaseHandle) (e : StateStep) : LeaseHandle :=
  if h.freed ∧ h.life.uses e then { h with fault := true }
  else LeaseHandle.taskEnds { h with life := (L.act h.life e.event).2 } h.life.task

/-- The call goes on as `renew_state` or `release_state`; when these return at
once it counts itself out. -/
def startCall (h : LeaseHandle) (k : ℕ) : Option LeaseReply × LeaseHandle :=
  match h.borrowed[k]? with
  | none => (none, h)
  | some kind =>
    if h.freed then (none, { h with fault := true })
    else
      let r := L.act h.life kind.begins
      let h' := { h with
        life := { r.2 with owners := r.2.owners - 1 }
        borrowed := h.borrowed.eraseIdx k }
      (r.1, if r.1.isSome then h'.release else h'.taskEnds h.life.task)

/-- **The handle, step by step.** -/
def handles : System LeaseHandle HandleEvent (Option LeaseReply) where
  step h
    | .own e => (none, L.onState h e)
    | .borrow null kind => h.borrowState null kind
    | .start k => L.startCall h k
    | .callReturn c => h.callReturn c
    | .drop null => (none, h.dropState null)

end LeaseTerms

namespace LeaseHandle

/-- **What the host keeps to**: it does not use its handle when it has given it
back, nor give it back again. -/
def Keeps (h : LeaseHandle) : HandleEvent → Prop
  | .borrow null _ => null = false → h.dropped = false
  | .drop null => null = false → h.dropped = false
  | _ => True

/-- How many refer to the state. -/
def refs (h : LeaseHandle) : ℕ :=
  ((if h.dropped then 0 else 1) + h.borrowed.length) + h.life.calls.length
    + if h.life.task = .ended then 0 else 1

/-- What a step is in the life of the state. -/
def lifeEvents (h : LeaseHandle) : HandleEvent → List LifeEvent
  | .own e => [e.event]
  | .borrow null _ => if null then [] else [.share]
  | .start k => match h.borrowed[k]? with
    | none => []
    | some kind => [kind.begins, .giveUp]
  | .callReturn c => [.callReturn c]
  | .drop null => if null then [] else [.giveUp]

/-- The answers that come from the state: a null pointer is answered without
it. -/
def stateReply : HandleEvent × Option LeaseReply → Option LeaseReply
  | (.borrow true _, _) => none
  | (_, r) => r

end LeaseHandle

namespace LeaseLife

variable (w : LeaseLife)

/-- A state that somebody refers to is not dropped. -/
theorem settle_of_pos (h : w.strongCount ≠ 0) : w.settle = w := if_neg h

/-- Nobody refers to a state: it has no owner, no call and no task. -/
theorem strongCount_eq_zero :
    w.strongCount = 0 ↔ w.owners = 0 ∧ w.calls = [] ∧ w.task = .ended := by
  unfold strongCount
  rw [Nat.add_eq_zero_iff, Nat.add_eq_zero_iff, List.length_eq_zero_iff, and_assoc]
  refine and_congr_right (fun _ => and_congr_right (fun _ => ?_))
  split
  · next h => exact iff_of_true rfl h
  · next h => exact iff_of_false Nat.one_ne_zero h

/-- Who else refers to a state counts as much with another task. -/
theorem strongCount_add {w w' : LeaseLife} {n : ℕ} (ht : w'.task = w.task)
    (h : w'.owners + w'.calls.length + n = w.owners + w.calls.length) :
    w'.strongCount + n = w.strongCount := by
  unfold strongCount
  rw [ht, ← h]
  omega

/-- An owner gives the state up. -/
theorem strongCount_giveUp (h : w.owners ≠ 0) :
    LeaseLife.strongCount { w with owners := w.owners - 1 } + 1 = w.strongCount := by
  refine strongCount_add rfl ?_
  show w.owners - 1 + w.calls.length + 1 = w.owners + w.calls.length
  omega

/-- **What is dropped is the right to abort**: the task has ended. -/
theorem dropState_of_zero (h : w.strongCount = 0) :
    w.dropState = { w with renewalAbort := false } := by
  have hsettle : w.settle = w.dropState := if_pos h
  obtain ⟨b, hb⟩ := w.settle_eq
  have habort : w.dropState.renewalAbort = false := by
    unfold dropState
    split
    · rfl
    · next hno => exact Bool.eq_false_iff.mpr hno
  rw [hsettle] at hb
  rw [hb] at habort ⊢
  rw [show b = false from habort]

/-- **What a step may leave alone**: who refers to the state, the task apart,
and the right to abort it. -/
structure Leaves (w w' : LeaseLife) : Prop where
  owners : w'.owners = w.owners
  calls : w'.calls.length = w.calls.length
  abort : w'.renewalAbort = w.renewalAbort

end LeaseLife

namespace LeaseTerms

variable (L : LeaseTerms) (w : LeaseLife)

/-- A request that is sent. -/
theorem leaves_send (kind : CallKind) (fault : Option Bool) :
    w.Leaves (L.send w kind fault).2 := by
  obtain ⟨s, t, hst⟩ := L.send_eq w kind fault
  rw [hst]
  exact ⟨rfl, rfl, rfl⟩

/-- A task that has ended stays so. -/
theorem act_ended {e : LifeEvent} (h : w.task = .ended) : (L.act w e).2.task = .ended := by
  cases (L.act_acts (w := w) e).moves with
  | stay ht hr => exact ht.trans h
  | release ht hr => exact ht
  | wake hs hr ht => exact nomatch h.symm.trans hs
  | run hs hr ht => exact nomatch h.symm.trans hs
  | goOn n hs hn hr ht => exact nomatch h.symm.trans hs
  | expire hs hr ht => exact nomatch h.symm.trans hs
  | fail he hs hr ht => exact ht

/-- **A step of the state's own.** -/
theorem act_own (e : StateStep) : w.Leaves (L.act w e.event).2 := by
  cases e with
  | tick d => exact ⟨rfl, rfl, rfl⟩
  | outside o => exact ⟨rfl, rfl, rfl⟩
  | wake =>
    show w.Leaves (LeaseTerms.wake w)
    unfold LeaseTerms.wake
    split <;> exact ⟨rfl, rfl, rfl⟩
  | taskRun fault =>
    show w.Leaves (L.taskRun w fault)
    unfold taskRun
    split
    · exact ⟨(L.leaves_send w .renew fault).owners, (L.leaves_send w .renew fault).calls,
        (L.leaves_send w .renew fault).abort⟩
    · exact ⟨rfl, rfl, rfl⟩
  | taskReturn =>
    show w.Leaves (LeaseTerms.taskReturn w)
    unfold LeaseTerms.taskReturn
    split
    · split <;> exact ⟨rfl, rfl, rfl⟩
    · exact ⟨rfl, rfl, rfl⟩
    · exact ⟨rfl, rfl, rfl⟩
  | callRun c fault =>
    show w.Leaves (L.callRun w c fault)
    unfold callRun
    split
    · next kind _ =>
      exact ⟨(L.leaves_send w kind fault).owners, List.length_set,
        (L.leaves_send w kind fault).abort⟩
    · exact ⟨rfl, rfl, rfl⟩
  | orphanRun k =>
    show w.Leaves (L.orphanRun w k)
    unfold orphanRun
    split <;> exact ⟨rfl, rfl, rfl⟩

/-- **A call that begins** returns at once and leaves the state as it is, or is
under way. -/
theorem act_begins (kind : CallKind) (ho : w.owners ≠ 0) :
    (∃ r, L.act w kind.begins = (some r, w))
      ∨ (L.act w kind.begins).1 = none
        ∧ (L.act w kind.begins).2.owners = w.owners
        ∧ (L.act w kind.begins).2.calls.length = w.calls.length + 1 := by
  cases kind with
  | renew =>
    show (∃ r, startRenew w = (some r, w)) ∨ (startRenew w).1 = none
      ∧ (startRenew w).2.owners = _ ∧ (startRenew w).2.calls.length = _
    rw [startRenew, if_neg ho]
    split
    · exact Or.inl ⟨_, rfl⟩
    · exact Or.inr ⟨rfl, rfl, List.length_append⟩
  | release =>
    show (∃ r, startRelease w = (some r, w)) ∨ (startRelease w).1 = none
      ∧ (startRelease w).2.owners = _ ∧ (startRelease w).2.calls.length = _
    rw [startRelease, if_neg ho]
    split
    · exact Or.inl ⟨_, rfl⟩
    · refine Or.inr ?_
      dsimp only
      split
      · exact ⟨rfl, rfl, List.length_append⟩
      · exact ⟨rfl, rfl, List.length_append⟩

/-- **A call that returns** is no longer under way. -/
theorem callReturn_cases (c : ℕ) :
    LeaseTerms.callReturn w c = (none, w)
      ∨ (LeaseTerms.callReturn w c).1.isSome
        ∧ (LeaseTerms.callReturn w c).2.owners = w.owners
        ∧ (LeaseTerms.callReturn w c).2.calls.length + 1 = w.calls.length
        ∧ (LeaseTerms.callReturn w c).2.task = w.task := by
  have hlen : ∀ {call : OwnerCall}, w.calls[c]? = some call →
      (w.calls.eraseIdx c).length + 1 = w.calls.length := by
    intro call h
    have hc : c < w.calls.length := (List.getElem?_eq_some_iff.mp h).1
    rw [List.length_eraseIdx_of_lt hc]
    omega
  unfold LeaseTerms.callReturn
  split
  · next h => exact Or.inr ⟨rfl, rfl, hlen h, rfl⟩
  · next h =>
    split
    · exact Or.inr ⟨rfl, rfl, hlen h, rfl⟩
    · exact Or.inr ⟨rfl, rfl, hlen h, rfl⟩
  · next h => exact Or.inr ⟨rfl, rfl, hlen h, rfl⟩
  · exact Or.inl rfl

end LeaseTerms

namespace LeaseHandle

/-- **The count is right.** -/
structure Counted (h : LeaseHandle) : Prop where
  fault : h.fault = false
  strong : h.strong = h.life.strongCount
  freed : h.freed = true ↔ h.strong = 0
  owners : h.life.owners = (if h.dropped then 0 else 1) + h.borrowed.length
  /-- When it has been freed nothing is left of it to abort the task. -/
  abort : h.freed = true → h.life.renewalAbort = false

/-- **The count is `n` too high**, and the state has not been freed. -/
structure Owing (n : ℕ) (h : LeaseHandle) : Prop where
  fault : h.fault = false
  freed : h.freed = false
  live : h.strong ≠ 0
  strong : h.strong = h.life.strongCount + n
  owners : h.life.owners = (if h.dropped then 0 else 1) + h.borrowed.length

variable {h : LeaseHandle}

/-- A state that has been freed has no one who refers to it. -/
theorem Counted.gone (hc : Counted h) (hf : h.freed = true) : h.life.strongCount = 0 :=
  hc.strong.symm.trans (hc.freed.mp hf)

/-- A state that has an owner has not been freed. -/
theorem Counted.live (hc : Counted h) (ho : h.life.owners ≠ 0) : h.freed = false :=
  Bool.eq_false_iff.mpr fun hf => ho (h.life.strongCount_eq_zero.mp (hc.gone hf)).1

/-- A handle that the host has not given back is an owner. -/
theorem Counted.owner_of_handle (hc : Counted h) (hd : h.dropped = false) :
    h.life.owners ≠ 0 := by
  rw [hc.owners, hd, Nat.add_comm]
  exact Nat.succ_ne_zero _

/-- Where nothing is owed, nothing is dropped. -/
theorem Counted.settle (hc : Counted h) : h.life.settle = h.life := by
  by_cases hz : h.life.strongCount = 0
  · have habort := hc.abort (hc.freed.mpr (hc.strong.trans hz))
    have hdrop : h.life.settle = h.life.dropState := if_pos hz
    rw [hdrop, h.life.dropState_of_zero hz, ← habort]
  · exact h.life.settle_of_pos hz

theorem Counted.owing (hc : Counted h) (hf : h.freed = false) : Owing 0 h where
  fault := hc.fault
  freed := hf
  live := fun hz => Bool.false_ne_true (hf.symm.trans (hc.freed.mpr hz))
  strong := hc.strong
  owners := hc.owners

theorem Owing.counted (ho : Owing 0 h) : Counted h where
  fault := ho.fault
  strong := ho.strong
  freed := ⟨fun hf => absurd (ho.freed.symm.trans hf) Bool.false_ne_true,
    fun hz => absurd hz ho.live⟩
  owners := ho.owners
  abort := fun hf => absurd (ho.freed.symm.trans hf) Bool.false_ne_true

/-- **Who owes one and counts itself out**: the count is right, and the state
is dropped when it was the last. -/
theorem Owing.release (ho : Owing 1 h) : Counted h.release ∧ h.release.life = h.life.settle := by
  have hnf : ¬ h.freed = true := Bool.eq_false_iff.mp ho.freed
  by_cases h1 : h.strong = 1
  -- the last one: nobody else refers to the state
  · have hz : h.life.strongCount = 0 := Nat.succ.inj (ho.strong.symm.trans h1)
    have hrel : h.release = { h with strong := 0, freed := true, life := h.life.dropState } := by
      rw [LeaseHandle.release, if_neg hnf, if_pos h1]
    have hdrop := h.life.dropState_of_zero hz
    rw [hrel]
    refine ⟨⟨ho.fault, ?_, iff_of_true rfl rfl, ?_, fun _ => ?_⟩, ?_⟩
    · show 0 = h.life.dropState.strongCount
      rw [hdrop]
      exact hz.symm
    · show h.life.dropState.owners = _
      rw [hdrop]
      exact ho.owners
    · show h.life.dropState.renewalAbort = false
      rw [hdrop]
    · exact (if_pos hz).symm
  · have hrel : h.release = { h with strong := h.strong - 1 } := by
      rw [LeaseHandle.release, if_neg hnf, if_neg h1]
    have hstrong : h.strong - 1 = h.life.strongCount := by
      rw [ho.strong]
      rfl
    have hpos : h.life.strongCount ≠ 0 := fun hz => h1 (by rw [ho.strong, hz])
    rw [hrel]
    refine ⟨Owing.counted ⟨ho.fault, ho.freed, ?_, hstrong, ho.owners⟩,
      (h.life.settle_of_pos hpos).symm⟩
    show h.strong - 1 ≠ 0
    rw [hstrong]
    exact hpos

/-- **The task, when it may have ended in a step.** -/
theorem taskEnds_spec {task : RenewalTask} (hfault : h.fault = false) (hfreed : h.freed = false)
    (hlive : h.strong ≠ 0)
    (hstrong : h.strong = h.life.owners + h.life.calls.length + if task = .ended then 0 else 1)
    (howners : h.life.owners = (if h.dropped then 0 else 1) + h.borrowed.length)
    (hstay : task = .ended → h.life.task = .ended) :
    Counted (h.taskEnds task) ∧ (h.taskEnds task).life = h.life.settle := by
  by_cases hends : task ≠ .ended ∧ h.life.task = .ended
  · have howing : Owing 1 h := by
      refine ⟨hfault, hfreed, hlive, ?_, howners⟩
      rw [hstrong, LeaseLife.strongCount, if_neg hends.1, if_pos hends.2]
    rw [taskEnds, if_pos hends]
    exact howing.release
  · have howing : Owing 0 h := by
      refine ⟨hfault, hfreed, hlive, ?_, howners⟩
      have hiff : task = .ended ↔ h.life.task = .ended :=
        ⟨hstay, fun he => by_contra fun hne => hends ⟨hne, he⟩⟩
      rw [hstrong, LeaseLife.strongCount]
      simp only [hiff, Nat.add_zero]
    rw [taskEnds, if_neg hends]
    exact ⟨howing.counted, howing.counted.settle.symm⟩

/-- The count of a state, when it is right, is that of who refers to it. -/
theorem Counted.refs (hc : Counted h) : h.strong = h.refs := by
  rw [hc.strong, LeaseLife.strongCount, hc.owners]
  rfl

theorem counted_wrapState (s : Redis) : Counted (wrapState s) :=
  ⟨rfl, rfl, iff_of_false Bool.false_ne_true (Nat.succ_ne_zero 1), rfl,
    fun hf => absurd hf Bool.false_ne_true⟩

end LeaseHandle

namespace LeaseTerms

open LeaseHandle

variable (L : LeaseTerms) {h : LeaseHandle}

/-- **A step of a state that is counted right** keeps it so, and is the same
step in the life of the state. -/
theorem onState_spec (hc : Counted h) (e : StateStep) :
    Counted (L.onState h e) ∧ (L.onState h e).life = (L.act h.life e.event).2.settle := by
  have hown := L.act_own h.life e
  cases hf : h.freed with
  | false =>
    have ho := hc.owing hf
    rw [onState, if_neg (fun hno => Bool.false_ne_true (hf.symm.trans hno.1))]
    refine taskEnds_spec hc.fault hf ho.live ?_ ?_ (L.act_ended h.life)
    · show h.strong = (L.act h.life e.event).2.owners + (L.act h.life e.event).2.calls.length + _
      rw [hown.owners, hown.calls]
      exact hc.strong
    · show (L.act h.life e.event).2.owners = _
      rw [hown.owners]
      exact hc.owners
  | true =>
    -- it has been freed: there is no task and no call whose step could use it
    obtain ⟨ho, hcalls, htask⟩ := h.life.strongCount_eq_zero.mp (hc.gone hf)
    have hidle : ¬ (h.life.uses e = true) := by
      cases e with
      | wake => exact fun hu => nomatch htask.symm.trans (of_decide_eq_true hu)
      | taskRun fault => exact fun hu => nomatch htask.symm.trans (of_decide_eq_true hu)
      | taskReturn => exact fun hu => (of_decide_eq_true hu).2.2 htask
      | callRun c fault =>
        show ¬ (h.life.calls[c]?).isSome = true
        rw [hcalls]
        exact Bool.false_ne_true
      | tick d => exact Bool.false_ne_true
      | outside o => exact Bool.false_ne_true
      | orphanRun k => exact Bool.false_ne_true
    have hzero : (L.act h.life e.event).2.strongCount = 0 := by
      refine (L.act h.life e.event).2.strongCount_eq_zero.mpr ⟨hown.owners.trans ho, ?_,
        L.act_ended h.life htask⟩
      exact List.length_eq_zero_iff.mp (hown.calls.trans (by rw [hcalls]; rfl))
    have hnew : Counted { h with life := (L.act h.life e.event).2 } := by
      refine ⟨hc.fault, ?_, hc.freed, ?_, fun _ => hown.abort.trans (hc.abort hf)⟩
      · exact ((hc.freed.mp hf).trans hzero.symm)
      · exact hown.owners.trans hc.owners
    rw [onState, if_neg (fun hno => hidle hno.2), taskEnds, if_neg (fun hno => hno.1 htask)]
    exact ⟨hnew, hnew.settle.symm⟩

/-- **A host that counts itself in.** -/
theorem borrowState_spec (hc : Counted h) (hd : h.dropped = false) (kind : CallKind) :
    Counted (h.borrowState false kind).2
      ∧ (h.borrowState false kind).2.life = (L.act h.life .share).2.settle
      ∧ (h.borrowState false kind).1 = none := by
  have howner : h.life.owners ≠ 0 := hc.owner_of_handle hd
  have ho := hc.owing (hc.live howner)
  have hshare : (L.act h.life .share).2 = { h.life with owners := h.life.owners + 1 } :=
    if_neg howner
  have hpos : LeaseLife.strongCount { h.life with owners := h.life.owners + 1 } ≠ 0 :=
    fun hz => Nat.succ_ne_zero _ ((LeaseLife.strongCount_eq_zero _).mp hz).1
  have heq : h.borrowState false kind = (none, { h with
      strong := h.strong + 1
      life := { h.life with owners := h.life.owners + 1 }
      borrowed := h.borrowed ++ [kind] }) := by
    have hnf : ¬ h.freed = true := Bool.eq_false_iff.mp ho.freed
    show (if h.freed then _ else _) = _
    rw [if_neg hnf]
  rw [heq, hshare, LeaseLife.settle_of_pos _ hpos]
  refine ⟨Owing.counted ⟨ho.fault, ho.freed, Nat.succ_ne_zero _, ?_, ?_⟩, rfl, rfl⟩
  · show h.strong + 1 = LeaseLife.strongCount _
    rw [hc.strong]
    exact LeaseLife.strongCount_add rfl (Nat.add_right_comm _ _ _)
  · show h.life.owners + 1 = (if h.dropped then 0 else 1) + (h.borrowed ++ [kind]).length
    rw [hc.owners, List.length_append]
    rfl

/-- **A handle that is given back.** -/
theorem dropState_spec (hc : Counted h) (hd : h.dropped = false) :
    Counted (h.dropState false)
      ∧ (h.dropState false).life = (L.act h.life .giveUp).2.settle := by
  have howner := hc.owner_of_handle hd
  have ho := hc.owing (hc.live howner)
  refine Owing.release ⟨ho.fault, ho.freed, ho.live, ?_, ?_⟩
  · exact hc.strong.trans (h.life.strongCount_giveUp howner).symm
  · show h.life.owners - 1 = 0 + h.borrowed.length
    rw [hc.owners, hd, Nat.zero_add]
    exact Nat.add_sub_cancel_left ..

/-- **A call that returns, and counts itself out.** -/
theorem callReturn_spec (hc : Counted h) (c : ℕ) :
    Counted (h.callReturn c).2
      ∧ (h.callReturn c).2.life = (LeaseTerms.callReturn h.life c).2.settle := by
  rcases callReturn_cases h.life c with hnone | ⟨hsome, howners, hcalls, htask⟩
  · have heq : h.callReturn c = (none, h) := by
      rw [LeaseHandle.callReturn, hnone]
      rfl
    rw [heq, hnone]
    exact ⟨hc, hc.settle.symm⟩
  · have hf : h.freed = false := by
      by_contra hne
      have hgone := (h.life.strongCount_eq_zero.mp (hc.gone (Bool.not_eq_false _ ▸ hne))).2.1
      rw [hgone] at hcalls
      exact Nat.succ_ne_zero _ hcalls
    have ho := hc.owing hf
    have heq : (h.callReturn c).2
        = LeaseHandle.release { h with life := (LeaseTerms.callReturn h.life c).2 } := if_pos hsome
    rw [heq]
    refine Owing.release ⟨ho.fault, ho.freed, ho.live, ?_, howners.trans ho.owners⟩
    refine hc.strong.trans (LeaseLife.strongCount_add htask ?_).symm
    rw [howners, Nat.add_assoc, hcalls]

/-- **A call that has counted itself in and begins**: it is under way, or it
returns and counts itself out. -/
theorem startCall_spec (hc : Counted h) {k : ℕ} {kind : CallKind}
    (hk : h.borrowed[k]? = some kind) :
    Counted (L.startCall h k).2
      ∧ (L.startCall h k).2.life = L.system.final h.life [kind.begins, .giveUp]
      ∧ (L.startCall h k).1 = (L.act h.life kind.begins).1 := by
  have hlt : k < h.borrowed.length := (List.getElem?_eq_some_iff.mp hk).1
  have hlen : (h.borrowed.eraseIdx k).length = h.borrowed.length - 1 :=
    List.length_eraseIdx_of_lt hlt
  have howner : h.life.owners ≠ 0 := by
    rw [hc.owners]
    omega
  have ho := hc.owing (hc.live howner)
  have hrest : h.life.owners - 1
      = (if h.dropped then 0 else 1) + (h.borrowed.eraseIdx k).length := by
    rw [hc.owners, hlen]
    omega
  have hnf : ¬ h.freed = true := Bool.eq_false_iff.mp ho.freed
  rcases L.act_begins h.life kind howner with ⟨r, hr⟩ | ⟨hnone, howners, hcalls⟩
  -- it returns at once
  · have hsettle : h.life.settle = h.life := hc.settle
    have hfinal : L.system.final h.life [kind.begins, .giveUp]
        = LeaseLife.settle { h.life with owners := h.life.owners - 1 } := by
      show (L.act (L.act h.life kind.begins).2.settle .giveUp).2.settle = _
      rw [hr, hsettle]
      rfl
    have heq : L.startCall h k = (some r, LeaseHandle.release { h with
        life := { h.life with owners := h.life.owners - 1 }
        borrowed := h.borrowed.eraseIdx k }) := by
      simp only [startCall, hk, if_neg hnf, hr, Option.isSome_some, if_true]
    have howing : Owing 1 { h with
        life := { h.life with owners := h.life.owners - 1 }
        borrowed := h.borrowed.eraseIdx k } :=
      ⟨ho.fault, ho.freed, ho.live, hc.strong.trans (h.life.strongCount_giveUp howner).symm, hrest⟩
    rw [heq, hfinal, hr]
    exact ⟨howing.release.1, howing.release.2, rfl⟩
  -- it is under way, and a release may have ended the task
  · have hpos : (L.act h.life kind.begins).2.strongCount ≠ 0 := fun hz =>
      howner (howners.symm.trans ((LeaseLife.strongCount_eq_zero _).mp hz).1)
    have hfinal : L.system.final h.life [kind.begins, .giveUp]
        = LeaseLife.settle { (L.act h.life kind.begins).2 with
          owners := (L.act h.life kind.begins).2.owners - 1 } := by
      show (L.act (L.act h.life kind.begins).2.settle .giveUp).2.settle = _
      rw [LeaseLife.settle_of_pos _ hpos]
      rfl
    have heq : L.startCall h k = (none, LeaseHandle.taskEnds { h with
        life := { (L.act h.life kind.begins).2 with
          owners := (L.act h.life kind.begins).2.owners - 1 }
        borrowed := h.borrowed.eraseIdx k } h.life.task) := by
      simp only [startCall, hk, if_neg hnf, hnone, Option.isSome_none, Bool.false_eq_true,
        if_false]
    rw [heq, hfinal, hnone]
    refine and_assoc.mp ⟨taskEnds_spec ho.fault ho.freed ho.live ?_ ?_ (L.act_ended h.life), rfl⟩
    · show h.strong = (L.act h.life kind.begins).2.owners - 1
        + (L.act h.life kind.begins).2.calls.length + _
      have hsame : h.life.owners - 1 + (h.life.calls.length + 1)
          = h.life.owners + h.life.calls.length := by
        omega
      rw [howners, hcalls, hsame]
      exact hc.strong
    · show (L.act h.life kind.begins).2.owners - 1 = _
      rw [howners]
      exact hrest

/-- **A step of the handle** keeps the count right, and is what is told of it
in the life of the state. -/
theorem handles_step (hc : Counted h) {e : HandleEvent} (hk : Keeps h e) :
    Counted (L.handles.step h e).2
      ∧ (L.handles.step h e).2.life = L.system.final h.life (h.lifeEvents e)
      ∧ L.system.outputs Prod.snd h.life (h.lifeEvents e)
        = (stateReply (e, (L.handles.step h e).1)).toList := by
  cases e with
  | own e =>
    obtain ⟨hnew, hlife⟩ := L.onState_spec hc e
    refine ⟨hnew, hlife, ?_⟩
    cases e <;> rfl
  | borrow null kind =>
    cases null with
    | true => exact ⟨hc, rfl, rfl⟩
    | false =>
      obtain ⟨hnew, hlife, hans⟩ := L.borrowState_spec hc (hk rfl) kind
      refine ⟨hnew, hlife, ?_⟩
      show [] = (h.borrowState false kind).1.toList
      rw [hans]
      rfl
  | start k =>
    cases hb : h.borrowed[k]? with
    | none =>
      have heq : L.handles.step h (.start k) = (none, h) := by
        show L.startCall h k = _
        rw [startCall, hb]
      have hevents : h.lifeEvents (.start k) = [] := by
        rw [lifeEvents, hb]
      rw [heq, hevents]
      exact ⟨hc, rfl, rfl⟩
    | some kind =>
      obtain ⟨hnew, hlife, hans⟩ := L.startCall_spec hc hb
      have hevents : h.lifeEvents (.start k) = [kind.begins, .giveUp] := by
        rw [lifeEvents, hb]
      rw [hevents]
      refine ⟨hnew, hlife, ?_⟩
      show _ = (L.startCall h k).1.toList
      rw [hans, System.outputs_cons]
      exact List.append_nil _
  | callReturn c =>
    obtain ⟨hnew, hlife⟩ := callReturn_spec hc c
    refine ⟨hnew, hlife, ?_⟩
    rw [lifeEvents, System.outputs_cons]
    exact List.append_nil _
  | drop null =>
    cases null with
    | true => exact ⟨hc, rfl, rfl⟩
    | false =>
      obtain ⟨hnew, hlife⟩ := L.dropState_spec hc (hk rfl)
      exact ⟨hnew, hlife, rfl⟩

/-- **The count is right in every run that keeps to the rules**: nothing uses
the state when it has been freed, nor counts itself out of it again, and it is
freed exactly when the handle has been given back, no call has it, and the task
has ended. -/
theorem handles_safe (s : Redis) {es : List HandleEvent}
    (hes : L.handles.Along Keeps (wrapState s) es) :
    (L.handles.final (wrapState s) es).fault = false
      ∧ (L.handles.final (wrapState s) es).strong = (L.handles.final (wrapState s) es).refs
      ∧ ((L.handles.final (wrapState s) es).freed = true
        ↔ (L.handles.final (wrapState s) es).refs = 0) := by
  have hc := L.handles.inv_final (I := Counted)
    (fun h e hc hk => (L.handles_step hc hk).1) (counted_wrapState s) hes
  exact ⟨hc.fault, hc.refs, hc.refs ▸ hc.freed⟩

/-- A handle that is given back while two calls have it. -/
def handedBack : List HandleEvent :=
  [.borrow false .renew, .borrow false .release, .drop false,
    .start 0, .own (.callRun 0 none), .callReturn 0,
    .start 0, .own (.callRun 0 none), .callReturn 0]

theorem keeps_handedBack (s : Redis) :
    sample.handles.Along Keeps (wrapState s) handedBack :=
  ⟨fun _ => rfl, fun _ => rfl, fun _ => rfl, trivial, trivial, trivial, trivial, trivial, trivial,
    trivial⟩

/-- The second of them, which ends the task too, is the last. -/
theorem handles_safe_handedBack :
    (sample.handles.final (wrapState (sample.acquire (Redis.empty 0)).2) handedBack).fault = false
      ∧ (sample.handles.final (wrapState (sample.acquire (Redis.empty 0)).2) handedBack).freed
        = true := by
  have h := sample.handles_safe (sample.acquire (Redis.empty 0)).2 (keeps_handedBack _)
  exact ⟨h.1, h.2.2.mpr rfl⟩

/-- **What goes on behind a handle is the life of the state**: the state at the
end of a run that keeps to the rules is where its own life gets to, with the
handle for an owner, and the answers that come from it are those it gives
there. -/
theorem handles_refine (s : Redis) {es : List HandleEvent}
    (hes : L.handles.Along Keeps (wrapState s) es) :
    (L.handles.final (wrapState s) es).life
        = L.system.final (LeaseLife.acquired s) (L.handles.told lifeEvents (wrapState s) es)
      ∧ L.handles.outputs stateReply (wrapState s) es
        = L.system.outputs Prod.snd (LeaseLife.acquired s)
          (L.handles.told lifeEvents (wrapState s) es) := by
  obtain ⟨⟨-, hlife⟩, hout⟩ := L.handles.told_final L.system
    (R := fun h w => Counted h ∧ h.life = w) lifeEvents stateReply Prod.snd
    (fun h w e hR hk => by
      obtain ⟨hc, rfl⟩ := hR
      obtain ⟨hnew, hlife, hout⟩ := L.handles_step hc hk
      exact ⟨⟨hnew, hlife⟩, hout⟩)
    ⟨counted_wrapState s, rfl⟩ hes
  exact ⟨hlife, hout.symm⟩

/-- Both calls are answered, from a state that its host has given back. -/
theorem handles_refine_handedBack :
    sample.system.outputs Prod.snd (LeaseLife.acquired (sample.acquire (Redis.empty 0)).2)
        (sample.handles.told lifeEvents (wrapState (sample.acquire (Redis.empty 0)).2) handedBack)
      = [.ok, .ok] := by
  refine Eq.trans ?_ (rfl : sample.handles.outputs stateReply
    (wrapState (sample.acquire (Redis.empty 0)).2) handedBack = _)
  exact (sample.handles_refine _ (keeps_handedBack _)).2.symm

end LeaseTerms
