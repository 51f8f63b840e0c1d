import ClusterRedis.LeaseTask

/-!
# What a release says

A release marks the handle released, aborts the task and then sends its
request. What becomes of the request is not looked at: a release whose
request failed returns what one returns that deleted the key. And the mark
stays, so the releases after it find the handle released and send nothing.

Whose the key is cannot be told from its value, which names the holder and
not the acquisition. It is followed through the run: the key is the
acquisition's until somebody else writes it or it is no longer the holder's
(`held_run`: what is followed changes nothing). A release frees the lease in
every run in which, while the key is the acquisition's, the request of each
release reaches the server before the next release begins
(`release_frees_unhindered`), and in no other that goes on long enough
(`hindered_not_frees`).
-/

open Numerals

section HeldBy

variable {s : Redis} {lease holder : String}

/-- A key is the holder's, by a look at it. -/
def Redis.holds (s : Redis) (lease holder : String) : Bool :=
  match s.lookup lease with
  | some ⟨.str b, _⟩ => decide (b = holderBytes holder)
  | _ => false

theorem Redis.holds_iff : s.holds lease holder = true ↔ s.HeldBy lease holder := by
  unfold Redis.holds Redis.HeldBy
  split
  · next b e h =>
    rw [h]
    simp
  · next h =>
    refine iff_of_false Bool.false_ne_true ?_
    rintro ⟨e, he⟩
    exact h _ _ he

instance : Decidable (s.HeldBy lease holder) := decidable_of_iff _ Redis.holds_iff

end HeldBy

/-- **A lease's state, with whose the key is.** -/
structure HeldLife where
  life : LeaseLife
  /-- The key still holds the acquisition. -/
  mine : Bool

/-- The lease has just been acquired. -/
def HeldLife.acquired (s : Redis) : HeldLife := ⟨.acquired s, true⟩

/-- Somebody else writes or deletes the lease key. -/
def LifeEvent.isOutside : LifeEvent → Bool
  | .outside _ => true
  | _ => false

namespace LeaseTerms

variable (L : LeaseTerms)

/-- **The life of a lease's state, with whose the key is.** -/
def heldSystem : System HeldLife LifeEvent (Option LeaseReply) where
  step v e :=
    let r := L.system.step v.life e
    (r.1, ⟨r.2, v.mine && !e.isOutside && decide (r.2.redis.HeldBy L.lease L.holder)⟩)

/-- **What is followed changes nothing.** -/
theorem held_run (v : HeldLife) (es : List LifeEvent) :
    L.heldSystem.answers v es = L.system.answers v.life es
      ∧ (L.heldSystem.final v es).life = L.system.final v.life es := by
  have hall : L.heldSystem.Along (fun _ _ => True) v es :=
    L.heldSystem.along_of_mem (fun _ _ => trivial)
  obtain ⟨hanswers, hlife⟩ := L.heldSystem.sim_final L.system (R := fun v w => v.life = w)
    (A := (· = ·)) (fun v w e hvw _ => by subst hvw; exact ⟨rfl, rfl⟩) (rfl : v.life = v.life) hall
  exact ⟨List.forall₂_eq_eq_eq.symm ▸ hanswers, hlife⟩

/-- The steps in which a release can return. -/
def Releases (v : HeldLife) : LifeEvent → Prop
  | .release => True
  | .callReturn c => ∃ r, v.life.calls[c]? = some ⟨.release, r⟩
  | _ => False

/-- **A release that returns has freed the lease, and a release of a lease
that is not free is tried.** -/
structure ReleaseFrees (v : HeldLife) (e : LifeEvent) : Prop where
  freed : Releases v e → (L.heldSystem.step v e).1 = some .ok →
    (L.heldSystem.step v e).2.mine = false
  tried : e = .release → v.life.owners ≠ 0 → v.mine = true →
    (L.heldSystem.step v e).2.life.calls = v.life.calls ++ [⟨.release, none⟩]

/-- **Nothing is in the way of a release** while the key is the
acquisition's: no other release has its request under way, the request
reaches the server, and the call is not given up before. -/
def Unhindered (v : HeldLife) : LifeEvent → Prop
  | .release => v.mine = true → ⟨.release, none⟩ ∉ v.life.calls
  | .callRun c fault => v.mine = true → v.life.calls[c]? = some ⟨.release, none⟩ →
      fault ≠ some false
  | .callAbort c => v.mine = true → v.life.calls[c]? ≠ some ⟨.release, none⟩
  | _ => True

instance (v : HeldLife) : ∀ e, Decidable (Unhindered v e)
  | .release => inferInstanceAs (Decidable (v.mine = true → _ ∉ v.life.calls))
  | .callRun c fault =>
    inferInstanceAs (Decidable (v.mine = true → v.life.calls[c]? = _ → fault ≠ _))
  | .callAbort c => inferInstanceAs (Decidable (v.mine = true → v.life.calls[c]? ≠ _))
  | .tick _ | .outside _ | .wake | .taskRun _ | .taskReturn | .renew | .callReturn _
  | .orphanRun _ | .share | .giveUp => isTrue trivial

/-! ## What a step can do to the calls -/

/-- **What a step can do to the calls under way**, and to the mark. -/
inductive Handles (w w' : LeaseLife) : LifeEvent → Prop
  | quiet {e : LifeEvent} (hc : w'.calls = w.calls) (hr : w'.released = w.released) :
      Handles w w' e
  /-- The task is told that the lease is gone. -/
  | expire {e : LifeEvent} (hs : w.task = .renewed (some 0)) (hc : w'.calls = w.calls)
      (hr : w'.released = true) : Handles w w' e
  | renew (hc : w'.calls = w.calls ++ [⟨.renew, none⟩]) (hr : w'.released = w.released) :
      Handles w w' .renew
  | release (hc : w'.calls = w.calls ++ [⟨.release, none⟩]) (hr : w'.released = true) :
      Handles w w' .release
  | run (c : ℕ) (fault : Option Bool) (kind : CallKind) (hs : w.calls[c]? = some ⟨kind, none⟩)
      (hc : w'.calls = w.calls.set c ⟨kind, some (L.send w kind fault).1⟩)
      (hr : w'.released = w.released) (hredis : w'.redis = (L.send w kind fault).2.redis) :
      Handles w w' (.callRun c fault)
  /-- An owner is told that the lease is gone. -/
  | told (c : ℕ) (hs : w.calls[c]? = some ⟨.renew, some (some 0)⟩)
      (hc : w'.calls = w.calls.eraseIdx c) (hr : w'.released = true) :
      Handles w w' (.callReturn c)
  /-- A call is over, or is given up. -/
  | done {e : LifeEvent} (c : ℕ) (call : OwnerCall) (he : e = .callAbort c ∨ call.reply ≠ none)
      (hs : w.calls[c]? = some call) (hc : w'.calls = w.calls.eraseIdx c)
      (hr : w'.released = w.released) : Handles w w' e

/-- **What a step can do to what is known of the lease**: to the calls and
the mark, and to what the task has been told. -/
structure Tells (e : LifeEvent) (w w' : LeaseLife) : Prop where
  handles : L.Handles w w' e
  task : w'.task = .renewed (some 0) →
    w.task = .renewed (some 0) ∨ ∃ fault, (L.send w .renew fault).1 = some 0

theorem act_tells (w : LeaseLife) (e : LifeEvent) : L.Tells e w (L.act w e).2 := by
  have hsame : ∀ e, L.Tells e w w := fun e => ⟨.quiet rfl rfl, Or.inl⟩
  cases e with
  | tick d => exact ⟨.quiet rfl rfl, Or.inl⟩
  | outside o => exact ⟨.quiet rfl rfl, Or.inl⟩
  | wake =>
    show L.Tells _ w (wake w)
    unfold wake
    split
    · refine ⟨.quiet rfl rfl, fun ht => ?_⟩
      replace ht : (if w.released then RenewalTask.ended else .renewing) = .renewed (some 0) := ht
      split at ht
      · exact RenewalTask.noConfusion ht
      · exact RenewalTask.noConfusion ht
    · exact hsame _
  | taskRun fault =>
    show L.Tells _ w (L.taskRun w fault)
    unfold taskRun
    split
    · obtain ⟨s, t, hst⟩ := L.send_eq w .renew fault
      refine ⟨.quiet ?_ ?_, fun ht => Or.inr ⟨fault, RenewalTask.renewed.inj ht⟩⟩
      · show (L.send w .renew fault).2.calls = _
        rw [hst]
      · show (L.send w .renew fault).2.released = _
        rw [hst]
    · exact hsame _
  | taskReturn =>
    show L.Tells _ w (taskReturn w)
    unfold taskReturn
    split
    · next n hs =>
      split
      · next hn =>
        subst hn
        exact ⟨.expire hs rfl rfl, RenewalTask.noConfusion⟩
      · exact ⟨.quiet rfl rfl, RenewalTask.noConfusion⟩
    · exact ⟨.quiet rfl rfl, RenewalTask.noConfusion⟩
    · exact hsame _
  | renew =>
    show L.Tells _ w (startRenew w).2
    unfold startRenew
    split
    · exact hsame _
    · split
      · exact hsame _
      · exact ⟨.renew rfl rfl, Or.inl⟩
  | release =>
    show L.Tells _ w (startRelease w).2
    unfold startRelease
    split
    · exact hsame _
    · split
      · exact hsame _
      · dsimp only
        split
        · exact ⟨.release rfl rfl, RenewalTask.noConfusion⟩
        · exact ⟨.release rfl rfl, Or.inl⟩
  | callRun c fault =>
    show L.Tells _ w (L.callRun w c fault)
    unfold callRun
    split
    · next kind hs =>
      obtain ⟨s, t, hst⟩ := L.send_eq w kind fault
      refine ⟨.run c fault kind hs rfl ?_ rfl, fun ht => Or.inl ?_⟩
      · show (L.send w kind fault).2.released = _
        rw [hst]
      · replace ht : (L.send w kind fault).2.task = _ := ht
        rw [hst] at ht
        exact ht
    · exact hsame _
  | callReturn c =>
    show L.Tells _ w (callReturn w c).2
    unfold callReturn
    split
    · next hs => exact ⟨.done c _ (Or.inr (by simp)) hs rfl rfl, Or.inl⟩
    · next n hs =>
      split
      · next hn =>
        subst hn
        exact ⟨.told c hs rfl rfl, Or.inl⟩
      · exact ⟨.done c _ (Or.inr (by simp)) hs rfl rfl, Or.inl⟩
    · next hs => exact ⟨.done c _ (Or.inr (by simp)) hs rfl rfl, Or.inl⟩
    · exact hsame _
  | callAbort c =>
    show L.Tells _ w (callAbort w c)
    unfold callAbort
    split
    · next call hs => exact ⟨.done c call (Or.inl rfl) hs rfl rfl, Or.inl⟩
    · exact hsame _
  | orphanRun k =>
    show L.Tells _ w (L.orphanRun w k)
    unfold orphanRun
    split
    · exact ⟨.quiet rfl rfl, Or.inl⟩
    · exact hsame _
  | share =>
    show L.Tells _ w (if w.owners = 0 then w else _)
    split
    · exact hsame _
    · exact ⟨.quiet rfl rfl, Or.inl⟩
  | giveUp => exact ⟨.quiet rfl rfl, Or.inl⟩

/-! ## The key while it is the acquisition's -/

/-- A call that has been told that the key is not the holder's, or has made
it so. -/
def ToldGone : OwnerCall → Prop
  | ⟨.release, some _⟩ => True
  | ⟨.renew, some r⟩ => r = some 0
  | _ => False

/-- **A lease whose key is the acquisition's**: if it is marked released, a
release has its request under way; nobody has been told that it is gone. -/
structure Holding (w : LeaseLife) : Prop where
  held : w.redis.HeldBy L.lease L.holder
  marked : w.released = true → ⟨.release, none⟩ ∈ w.calls
  calls : ∀ call ∈ w.calls, ¬ ToldGone call
  task : w.task ≠ .renewed (some 0)

variable {L} {w : LeaseLife}

theorem Holding.congr (h : L.Holding w) {w' : LeaseLife}
    (hheld : w'.redis.HeldBy L.lease L.holder) (hr : w'.released = w.released)
    (hc : w'.calls = w.calls) (ht : w'.task ≠ .renewed (some 0)) : L.Holding w' where
  held := hheld
  marked hm := by
    rw [hc]
    exact h.marked (hr.symm.trans hm)
  calls := by
    rw [hc]
    exact h.calls
  task := ht

/-- A renewal is not told that a key is gone that is the holder's. -/
theorem send_renew_ne_zero (h : w.redis.HeldBy L.lease L.holder) (fault : Option Bool) :
    (L.send w .renew fault).1 ≠ some 0 := by
  have hreply : (L.script .renew w.redis).1.toOption ≠ some 0 := by
    by_cases hok : ExpireOk w.redis.now L.ttl
    · rw [LeaseTerms.script, renewLua_held h hok]
      exact fun hone => nomatch hone
    · rw [LeaseTerms.script, renewLua_refused h L.ttl_pos hok]
      exact fun hone => nomatch hone
  rcases fault with _ | _ | _
  · exact hreply
  · exact fun hnone => nomatch hnone
  · exact fun hnone => nomatch hnone

/-- A release whose request reaches the server leaves no key of the
holder's. -/
theorem not_heldBy_of_release (w : LeaseLife) {fault : Option Bool} (hf : fault ≠ some false) :
    ¬ (L.send w .release fault).2.redis.HeldBy L.lease L.holder := by
  have hran : ¬ (L.ran w .release).redis.HeldBy L.lease L.holder := by
    show ¬ (releaseLua L.lease L.holder w.redis).2.HeldBy L.lease L.holder
    by_cases h : w.redis.HeldBy L.lease L.holder
    · rw [releaseLua_held h]
      rintro ⟨e, he⟩
      exact nomatch (Redis.lookup_del_self _).symm.trans he
    · rcases releaseLua_cases L.lease L.holder w.redis with ⟨hs, -⟩ | ⟨hh, -⟩
      · rwa [hs]
      · exact absurd hh h
  rcases fault with _ | _ | _
  · exact hran
  · exact absurd rfl hf
  · exact hran

/-- What is in a list and is not what stands at a place is there when the
place is changed. -/
theorem mem_set_of_ne {α : Type} {l : List α} {c : ℕ} {a b x : α} (ha : a ∈ l)
    (hb : l[c]? = some b) (hne : a ≠ b) : a ∈ l.set c x := by
  obtain ⟨i, hi⟩ := List.mem_iff_getElem?.mp ha
  refine List.mem_iff_getElem?.mpr ⟨i, ?_⟩
  rw [List.getElem?_set_ne (fun hci => ?_), hi]
  subst hci
  exact hne (Option.some.inj (hi.symm.trans hb))

/-- What is in a list and is not what stands at a place is there when the
place is taken out. -/
theorem mem_eraseIdx_of_ne {α : Type} {l : List α} {c : ℕ} {a b : α} (ha : a ∈ l)
    (hb : l[c]? = some b) (hne : a ≠ b) : a ∈ l.eraseIdx c := by
  obtain ⟨i, hi⟩ := List.mem_iff_getElem?.mp ha
  refine List.mem_eraseIdx_iff_getElem?.mpr ⟨i, fun hic => ?_, hi⟩
  subst hic
  exact hne (Option.some.inj (hi.symm.trans hb))

/-- **A key stays the acquisition's only with the lease as it was**: marked
when a release has its request under way, and nobody told that it is gone. -/
theorem Holding.act (h : L.Holding w) {e : LifeEvent} (he : Unhindered ⟨w, true⟩ e)
    (hheld : (L.act w e).2.redis.HeldBy L.lease L.holder) : L.Holding (L.act w e).2 := by
  have htells := L.act_tells w e
  have htask : (L.act w e).2.task ≠ .renewed (some 0) := by
    intro ht
    rcases htells.task ht with hs | ⟨fault, hzero⟩
    · exact h.task hs
    · exact send_renew_ne_zero h.held fault hzero
  generalize (L.act w e).2 = w' at hheld htells htask ⊢
  cases htells.handles with
  | quiet hc hr => exact h.congr hheld hr hc htask
  | expire hs hc hr => exact absurd hs h.task
  | renew hc hr =>
    refine ⟨hheld, fun hm => ?_, ?_, htask⟩
    · rw [hc]
      exact List.mem_append_left _ (h.marked (hr.symm.trans hm))
    · rw [hc]
      exact List.forall_mem_append.mpr ⟨h.calls, by simp [ToldGone]⟩
  | release hc hr =>
    refine ⟨hheld, fun _ => ?_, ?_, htask⟩
    · rw [hc]
      exact List.mem_append_right _ List.mem_cons_self
    · rw [hc]
      exact List.forall_mem_append.mpr ⟨h.calls, by simp [ToldGone]⟩
  | run c fault kind hs hc hr hredis =>
    cases kind with
    | renew =>
      refine ⟨hheld, fun hm => ?_, fun call hcall => ?_, htask⟩
      · rw [hc]
        exact mem_set_of_ne (h.marked (hr.symm.trans hm)) hs (by simp)
      · rw [hc] at hcall
        rcases List.mem_or_eq_of_mem_set hcall with hmem | rfl
        · exact h.calls call hmem
        · exact send_renew_ne_zero h.held fault
    | release =>
      rw [hredis] at hheld
      exact absurd hheld (not_heldBy_of_release w (he rfl hs))
  | told c hs hc hr => exact absurd rfl (h.calls _ (List.mem_of_getElem? hs))
  | done c call hover hs hc hr =>
    have hne : ⟨.release, none⟩ ≠ call := by
      rintro rfl
      rcases hover with rfl | hreply
      · exact he rfl hs
      · exact hreply rfl
    refine ⟨hheld, fun hm => ?_, fun call' hcall => ?_, htask⟩
    · rw [hc]
      exact mem_eraseIdx_of_ne (h.marked (hr.symm.trans hm)) hs hne
    · rw [hc] at hcall
      exact h.calls call' ((List.eraseIdx_sublist w.calls c).mem hcall)

/-- A key that stays the acquisition's was so, and is the holder's. -/
theorem held_of_step {v : HeldLife} {e : LifeEvent} (h : (L.heldSystem.step v e).2.mine = true) :
    v.mine = true ∧ (L.act v.life e).2.settle.redis.HeldBy L.lease L.holder := by
  replace h : (v.mine && !e.isOutside
    && decide ((L.act v.life e).2.settle.redis.HeldBy L.lease L.holder)) = true := h
  simp only [Bool.and_eq_true, decide_eq_true_eq] at h
  exact ⟨h.1.1, h.2⟩

/-- **While the key is the acquisition's**, the lease is as it should be. -/
def Followed (L : LeaseTerms) (v : HeldLife) : Prop := v.mine = true → L.Holding v.life

theorem followed_step (v : HeldLife) (e : LifeEvent) (h : Followed L v) (he : Unhindered v e) :
    Followed L (L.heldSystem.step v e).2 := by
  obtain ⟨w, mine⟩ := v
  intro hmine
  obtain ⟨rfl, hheld⟩ := held_of_step hmine
  obtain ⟨b, hb⟩ := (L.act w e).2.settle_eq
  show L.Holding (L.act w e).2.settle
  rw [hb] at hheld ⊢
  have hact := (h rfl).act he hheld
  exact hact.congr hheld rfl rfl hact.task

/-- What the lease is like decides what a release says. -/
theorem releaseFrees_of_followed (v : HeldLife) (e : LifeEvent) (h : Followed L v)
    (he : Unhindered v e) : L.ReleaseFrees v e := by
  -- a release that is tried for the first time
  have hnot : ∀ hmine : v.mine = true, e = .release → v.life.released = false := by
    rintro hmine rfl
    exact Bool.eq_false_iff.mpr (fun hr => he hmine ((h hmine).marked hr))
  refine ⟨fun hrel hok => ?_, ?_⟩
  · by_contra hmine
    replace hmine := (held_of_step (Bool.eq_true_of_not_eq_false hmine)).1
    cases e with
    | release =>
      replace hok : (startRelease v.life).1 = some .ok := hok
      unfold startRelease at hok
      split at hok
      · exact nomatch hok
      · rw [if_neg (Bool.eq_false_iff.mp (hnot hmine rfl))] at hok
        exact nomatch hok
    | callReturn c =>
      obtain ⟨r, hc⟩ := hrel
      replace hok : (LeaseTerms.callReturn v.life c).1 = some .ok := hok
      cases r with
      | none =>
        rw [LeaseTerms.callReturn, hc] at hok
        exact nomatch hok
      | some r => exact absurd trivial ((h hmine).calls _ (List.mem_of_getElem? hc))
    | _ => exact hrel
  · rintro rfl ho hmine
    obtain ⟨b, hb⟩ := (startRelease v.life).2.settle_eq
    show (startRelease v.life).2.settle.calls = _
    rw [hb, startRelease, if_neg ho, if_neg (Bool.eq_false_iff.mp (hnot hmine rfl))]
    dsimp only
    split
    · rfl
    · rfl

/-- **A release that returns Ok has freed the lease, and a release of a
lease that is not free is tried**, at every step of every run in which
nothing is in the way of a release. -/
theorem release_frees_unhindered {s s' : Redis} {token : ℤ}
    (ha : L.acquire s = (.ok (some token), s')) {es : List LifeEvent}
    (hes : L.heldSystem.Along Unhindered (.acquired s') es) :
    L.heldSystem.Along L.ReleaseFrees (.acquired s') es := by
  refine System.Along.of_inv (fun v e => followed_step v e)
    (fun v e => releaseFrees_of_followed v e) (fun _ => ?_) hes
  exact {
    held := ⟨_, lookup_acquired ha⟩
    marked := fun hm => nomatch hm
    calls := List.forall_mem_nil _
    task := RenewalTask.noConfusion }

/-! ## What is in the way -/

/-- **A lease as it is after any run**: a key that is the acquisition's is
the holder's, and a lease with a release in its calls is marked. -/
structure Marked (L : LeaseTerms) (v : HeldLife) : Prop where
  held : v.mine = true → v.life.redis.HeldBy L.lease L.holder
  calls : ∀ call ∈ v.life.calls, call.kind = .release → v.life.released = true

/-- A release is in the calls only of a lease that is marked. -/
theorem marked_act (w : LeaseLife) (e : LifeEvent)
    (h : ∀ call ∈ w.calls, call.kind = .release → w.released = true) :
    ∀ call ∈ (L.act w e).2.calls, call.kind = .release → (L.act w e).2.released = true := by
  have htells := L.act_tells w e
  generalize (L.act w e).2 = w' at htells ⊢
  cases htells.handles with
  | quiet hc hr =>
    rw [hc, hr]
    exact h
  | expire hs hc hr => exact fun _ _ _ => hr
  | renew hc hr =>
    rw [hc, hr]
    exact List.forall_mem_append.mpr ⟨h, by simp⟩
  | release hc hr => exact fun _ _ _ => hr
  | run c fault kind hs hc hr hredis =>
    rw [hc, hr]
    intro call hcall hkind
    rcases List.mem_or_eq_of_mem_set hcall with hmem | rfl
    · exact h call hmem hkind
    · exact h _ (List.mem_of_getElem? hs) hkind
  | told c hs hc hr => exact fun _ _ _ => hr
  | done c call hover hs hc hr =>
    rw [hc, hr]
    exact fun call' hcall => h call' ((List.eraseIdx_sublist w.calls c).mem hcall)

theorem marked_step (v : HeldLife) (e : LifeEvent) (h : Marked L v) :
    Marked L (L.heldSystem.step v e).2 := by
  refine ⟨fun hmine => (held_of_step hmine).2, ?_⟩
  obtain ⟨b, hb⟩ := (L.act v.life e).2.settle_eq
  show ∀ call ∈ (L.act v.life e).2.settle.calls, call.kind = .release →
    (L.act v.life e).2.settle.released = true
  rw [hb]
  exact marked_act v.life e h.calls

/-- A step that leaves the server alone leaves the key the acquisition's. -/
theorem Marked.mine_step {v : HeldLife} (h : Marked L v) (hmine : v.mine = true) {e : LifeEvent}
    (hout : e.isOutside = false) (hr : (L.act v.life e).2.redis = v.life.redis) :
    (L.heldSystem.step v e).2.mine = true := by
  obtain ⟨b, hb⟩ := (L.act v.life e).2.settle_eq
  show (v.mine && !e.isOutside
    && decide ((L.act v.life e).2.settle.redis.HeldBy L.lease L.holder)) = true
  rw [hb, hmine, hout]
  show decide ((L.act v.life e).2.redis.HeldBy L.lease L.holder) = true
  rw [hr]
  exact decide_eq_true (h.held hmine)

/-- A release begun when the lease is marked says Ok at once. -/
theorem Marked.not_frees_release {v : HeldLife} (h : Marked L v) (hmine : v.mine = true)
    (ho : v.life.owners ≠ 0) (hr : v.life.released = true) : ¬ L.ReleaseFrees v .release := by
  intro hfrees
  have hstart : startRelease v.life = (some .ok, v.life) := by
    rw [startRelease, if_neg ho, if_pos hr]
  have hsame : (L.act v.life .release).2.redis = v.life.redis :=
    congrArg (fun r => r.2.redis) hstart
  have hok : (L.heldSystem.step v .release).1 = some .ok := congrArg Prod.fst hstart
  exact Bool.eq_false_iff.mp (hfrees.freed trivial hok) (h.mine_step hmine rfl hsame)

/-- A release whose request has failed says Ok when it returns. -/
theorem Marked.not_frees_return {v : HeldLife} (h : Marked L v) (hmine : v.mine = true) {c : ℕ}
    {r : Option ℕ} (hc : v.life.calls[c]? = some ⟨.release, some r⟩) :
    ¬ L.ReleaseFrees v (.callReturn c) := by
  intro hfrees
  have hreturn : LeaseTerms.callReturn v.life c
      = (some .ok, { v.life with calls := v.life.calls.eraseIdx c }) := by
    rw [LeaseTerms.callReturn, hc]
  have hsame : (L.act v.life (.callReturn c)).2.redis = v.life.redis :=
    congrArg (fun r => r.2.redis) hreturn
  have hok : (L.heldSystem.step v (.callReturn c)).1 = some .ok := congrArg Prod.fst hreturn
  exact Bool.eq_false_iff.mp (hfrees.freed ⟨_, hc⟩ hok) (h.mine_step hmine rfl hsame)

/-- **What is in the way of a release makes one say Ok** of a lease that is
not free: at once, or as the next step. -/
theorem Marked.not_frees_hindered {v : HeldLife} (h : Marked L v) (ho : v.life.owners ≠ 0)
    {e : LifeEvent} (he : ¬ Unhindered v e) :
    ∃ fs, ¬ L.heldSystem.Along L.ReleaseFrees v (e :: fs) := by
  cases e with
  | release =>
    obtain ⟨hmine, hin⟩ := Classical.not_imp.mp he
    have hr := h.calls _ (not_not.mp hin) rfl
    exact ⟨[], fun hall => h.not_frees_release hmine ho hr hall.1⟩
  | callRun c fault =>
    obtain ⟨hmine, he⟩ := Classical.not_imp.mp he
    obtain ⟨hc, hf⟩ := Classical.not_imp.mp he
    obtain rfl := not_not.mp hf
    -- the request fails, and the call returns
    have hrun : L.callRun v.life c (some false)
        = { v.life with calls := v.life.calls.set c ⟨.release, some none⟩ } := by
      rw [callRun, hc]
      rfl
    have hsame : (L.act v.life (.callRun c (some false))).2.redis = v.life.redis := by
      show (L.callRun v.life c (some false)).redis = _
      rw [hrun]
    have hmine' := h.mine_step hmine rfl hsame
    refine ⟨[.callReturn c], fun hall => ?_⟩
    refine (marked_step v _ h).not_frees_return hmine' (r := none) ?_ hall.2.1
    obtain ⟨b, hb⟩ := (L.callRun v.life c (some false)).settle_eq
    show (L.callRun v.life c (some false)).settle.calls[c]? = _
    rw [hb, hrun]
    exact List.getElem?_set_self (List.getElem?_eq_some_iff.mp hc).1
  | callAbort c =>
    obtain ⟨hmine, he⟩ := Classical.not_imp.mp he
    have hc := not_not.mp he
    have habort : LeaseTerms.callAbort v.life c = { v.life with
        calls := v.life.calls.eraseIdx c, orphans := v.life.orphans ++ [.release] } := by
      rw [LeaseTerms.callAbort, hc]
      rfl
    have hsame : (L.act v.life (.callAbort c)).2.redis = v.life.redis := by
      show (LeaseTerms.callAbort v.life c).redis = _
      rw [habort]
    have hmine' := h.mine_step hmine rfl hsame
    obtain ⟨b, hb⟩ := (LeaseTerms.callAbort v.life c).settle_eq
    have hlife : (L.heldSystem.step v (.callAbort c)).2.life
        = { LeaseTerms.callAbort v.life c with renewalAbort := b } := hb
    refine ⟨[.release], fun hall => ?_⟩
    refine (marked_step v _ h).not_frees_release hmine' ?_ ?_ hall.2.1
    · rw [hlife, habort]
      exact ho
    · rw [hlife, habort]
      exact h.calls _ (List.mem_of_getElem? hc) rfl
  | _ => exact absurd trivial he

/-- **Nothing else is in the way**: a run that has got to a step that is in
the way of a release, and in which somebody owns the lease, goes on to one
that says Ok of a lease that is not free. -/
theorem hindered_not_frees {s s' : Redis} {token : ℤ} (ha : L.acquire s = (.ok (some token), s'))
    (es : List LifeEvent) {e : LifeEvent}
    (ho : (L.heldSystem.final (.acquired s') es).life.owners ≠ 0)
    (he : ¬ Unhindered (L.heldSystem.final (.acquired s') es) e) :
    ∃ fs, ¬ L.heldSystem.Along L.ReleaseFrees (.acquired s') (es ++ e :: fs) := by
  have hmarked : Marked L (L.heldSystem.final (.acquired s') es) :=
    L.heldSystem.inv_final (G := fun _ _ => True) (fun v e hv _ => marked_step v e hv)
      ⟨fun _ => ⟨_, lookup_acquired ha⟩, List.forall_mem_nil _⟩
      (L.heldSystem.along_of_mem (P := fun _ => True) (fun _ _ => trivial))
  obtain ⟨fs, hfs⟩ := hmarked.not_frees_hindered ho he
  exact ⟨fs, fun hall => hfs ((L.heldSystem.along_append _ _ _).mp hall).2⟩

/-- A lock that is renewed, released, and released again. -/
theorem release_frees_twice :
    sample.heldSystem.Along sample.ReleaseFrees
      (.acquired (sample.acquire (Redis.empty 0)).2)
      [.renew, .callRun 0 none, .callReturn 0, .release, .callRun 0 none, .callReturn 0,
        .release] := by
  have ha : sample.acquire (Redis.empty 0)
      = (.ok (some 1), (sample.acquire (Redis.empty 0)).2) := rfl
  exact release_frees_unhindered ha (by decide +kernel)

/-- **A release that the server does not get says Ok**: the key is still the
acquisition's, and the next release says Ok and sends nothing. -/
theorem unanswered_release_says_ok :
    sample.heldSystem.answers (.acquired (sample.acquire (Redis.empty 0)).2)
        [.release, .callRun 0 (some false), .callReturn 0, .release]
        = [none, none, some .ok, some .ok]
      ∧ (sample.heldSystem.final (.acquired (sample.acquire (Redis.empty 0)).2)
        [.release, .callRun 0 (some false), .callReturn 0, .release]).mine = true
      ∧ (sample.heldSystem.final (.acquired (sample.acquire (Redis.empty 0)).2)
        [.release, .callRun 0 (some false), .callReturn 0, .release]).life.calls = []
      ∧ ¬ sample.heldSystem.Along sample.ReleaseFrees
        (.acquired (sample.acquire (Redis.empty 0)).2)
        [.release, .callRun 0 (some false), .callReturn 0, .release] := by
  refine ⟨by decide, by decide +kernel, by decide, fun hall => ?_⟩
  exact nomatch hall.2.2.1.freed ⟨_, rfl⟩ rfl

end LeaseTerms
