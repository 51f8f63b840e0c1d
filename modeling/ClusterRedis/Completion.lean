import ClusterRedis.FreshScan

/-!
# Completing the key index

A completion takes the mark of the index from what it has seen: every key
its scan returned it has listed, and its fresh look at the registrations
found no build that lists nothing. The first part is about keys, the second
about nodes (`InOrder.passed`), and the two meet in the builds that created
a key behind the scan's back.

While the scan runs, an unlisted key either was there when it began – so the
scan will return it, and the backfill lists it then – or an older build has
created it since (`Backfilled`). Nothing a current build does makes a listed
key unlisted (`Tended`), so after the backfill only the second kind is left
(`Covers`).
-/

open RedisKv Numerals

variable {ι π : Type}

/-! ## The keys -/

/-- **Where a backfill stands**: an unlisted key was there when its scan
began or an older build has created a key since, and of those the scan has
returned only a batch is unlisted. -/
structure Backfilled (p : String) (s : Redis) (b : TaskBooks) (batch : List String) : Prop where
  gap : ∀ k, Gap p s k → b.since k ∨ ∃ id, b.creators id
  done : ∀ k, b.since k → k ∈ b.done → Gap p s k → k ∈ batch

/-- The registrations are listed for a completion. -/
def Caller.completes : Caller → Bool
  | completion _ => true
  | tick | operator | peers => false

/-- A key that has been there since the last scan was forgotten and is
unlisted has an older build to answer for it. -/
def Answered (p : String) (s : Redis) (b : TaskBooks) : Prop :=
  ∀ k, b.kept k → Gap p s k → ∃ id, b.before id

/-- **What a task has seen to.** -/
def Covers (p : String) (s : Redis) (b : TaskBooks) : Stage → Prop
  | .backfill _ _ cursor => cursor ≠ 0 → Backfilled p s b []
  | .index _ _ batch next => Backfilled p s b batch
      ∧ (next = 0 → ∀ k, IsDataKey p k → b.since k → k ∈ b.done)
  | .forget c => c.completes = true → ∀ k, Gap p s k → ∃ id, b.creators id
  | .range c | .trim c _ _ | .read c _ | .enter c _ _ | .scan c _ _ _ _ | .fetch c _ _ _ =>
      c.completes = true → Answered p s b
  | .mark op _ => if op then ∀ k, Gap p s k → ∃ id, b.creators id else Answered p s b
  | _ => True

section Changes

variable {p : String} {s t : Redis} {b : TaskBooks}

theorem Backfilled.note {batch : List String} (h : Backfilled p s b batch) {c : Option String}
    (hgap : ∀ k, Gap p t k → Gap p s k ∨ ¬ b.since k ∧ ∃ id, c = some id) :
    Backfilled p t (b.note p c t) batch where
  gap := by
    intro k hk
    rcases hgap k hk with hs | ⟨-, id, hid⟩
    · rcases h.gap k hs with hsince | ⟨id, hid⟩
      · exact Or.inl ⟨hsince, hk.2.1⟩
      · exact Or.inr ⟨id, Or.inl hid⟩
    · exact Or.inr ⟨id, Or.inr hid⟩
  done := by
    intro k hsince hdone hk
    rcases hgap k hk with hs | ⟨hnot, -⟩
    · exact h.done k hsince.1 hdone hs
    · exact absurd hsince.1 hnot

theorem Answered.note (h : Answered p s b) {c : Option String}
    (hgap : ∀ k, Gap p t k → Gap p s k ∨ ¬ b.kept k) : Answered p t (b.note p c t) := by
  intro k hkept hk
  rcases hgap k hk with hs | hnot
  · exact h k hkept.1 hs
  · exact absurd hkept.1 hnot

/-- **A step of somebody else** leaves a task what it has seen to: a key
that is unlisted now was before, or an older build has just created it. -/
theorem Covers.note {st : Stage} (h : Covers p s b st) {c : Option String}
    (hgap : ∀ k, Gap p t k → Gap p s k ∨ (¬ b.since k ∧ ¬ b.kept k) ∧ ∃ id, c = some id) :
    Covers p t (b.note p c t) st := by
  have hsince : ∀ k, Gap p t k → Gap p s k ∨ ¬ b.since k ∧ ∃ id, c = some id := fun k hk =>
    (hgap k hk).imp_right (fun hr => ⟨hr.1.1, hr.2⟩)
  have hkept : ∀ k, Gap p t k → Gap p s k ∨ ¬ b.kept k := fun k hk =>
    (hgap k hk).imp_right (fun hr => hr.1.2)
  have hmade : (∀ k, Gap p s k → ∃ id, b.creators id) →
      ∀ k, Gap p t k → ∃ id, (b.note p c t).creators id := by
    intro hs k hk
    rcases hgap k hk with hk | ⟨-, id, hid⟩
    · obtain ⟨id, hid⟩ := hs k hk
      exact ⟨id, Or.inl hid⟩
    · exact ⟨id, Or.inr hid⟩
  cases st with
  | backfill op started cursor => exact fun hc => (h hc).note hsince
  | index op started batch next =>
    exact ⟨h.1.note hsince, fun hn k hd hk => h.2 hn k hd hk.1⟩
  | forget c => exact fun hc => hmade (h hc)
  | range c => exact fun hc => (h hc).note hkept
  | trim c ids now => exact fun hc => (h hc).note hkept
  | read c ids => exact fun hc => (h hc).note hkept
  | enter c ids found => exact fun hc => (h hc).note hkept
  | scan c ids found cursor keys => exact fun hc => (h hc).note hkept
  | fetch c ids found keys => exact fun hc => (h hc).note hkept
  | mark op started =>
    cases op with
    | true => exact hmade h
    | false => exact Answered.note h hkept
  | _ => exact trivial

/-- After a batch that has been listed. -/
theorem Backfilled.afterBatch {batch : List String} {next : UInt64} (h : Backfilled p s b batch)
    (hnext : next = 0 → ∀ k, IsDataKey p k → b.since k → k ∈ b.done)
    (hgap : ∀ k, Gap p t k → Gap p s k) (hlisted : ∀ k ∈ batch, ¬ Gap p t k) (op : Bool)
    (started : ℕ) : Covers p t b (Fleet.afterBatch op started next) := by
  have hover : next = 0 → ∀ k, Gap p t k → ∃ id, b.creators id := by
    intro hn k hk
    rcases h.gap k (hgap k hk) with hsince | hmade
    · exact absurd hk (hlisted k (h.done k hsince (hnext hn k hk.1 hsince) (hgap k hk)))
    · exact hmade
  unfold Fleet.afterBatch
  split
  · refine fun _ => ⟨fun k hk => h.gap k (hgap k hk), fun k hsince hdone hk => ?_⟩
    exact absurd hk (hlisted k (h.done k hsince hdone (hgap k hk)))
  · next hn =>
    split
    · exact hover (not_not.mp hn)
    · exact fun _ => hover (not_not.mp hn)

end Changes

/-! ## The steps -/

/-- **What is kept beside the tasks is in order**: what has been there is
there, those who create keys are older builds, and the tasks have seen to
what they should. -/
structure Tracked (F : Fleet ι π) (w : FleetWorld ι π) : Prop extends InOrder F w where
  since : ∀ i k, (w.books i).since k → w.redis.Live k
  kept : ∀ i k, (w.books i).kept k → IsDataKey F.p k ∧ w.redis.Live k
  creators : ∀ i id, (w.books i).creators id → F.older id
  before : ∀ i id, (w.books i).before id → F.older id
  covers : ∀ i, Covers F.p w.redis (w.books i) (w.stage i)

namespace Fleet

variable [DecidableEq ι] [DecidableEq π] {F : Fleet ι π} {w : FleetWorld ι π} {i : ι}

/-- **A key that is unlisted after a step** was unlisted before it, or an
older build has created it. -/
theorem gap_of_act (hp : F.p ≠ "") (h : IndexTyped F.p w.redis) {e : FleetEvent ι}
    (he : F.Promised w e) (ht : F.Tended w e) {k : String} (hk : Gap F.p (F.act w e).redis k) :
    Gap F.p w.redis k ∨ ¬ w.redis.Live k ∧ ∃ id, F.creator w e = some id := by
  cases e with
  | kv e =>
    exact Or.inl ((Tended.step F.lua F.drv hp h e (Promised.unmarking he) ht).gap k hk)
  | olderWrite id key o =>
    by_cases hkk : k = fullKey F.p key
    · by_cases hl : w.redis.Live k
      · refine Or.inl ⟨hk.1, hl, fun hm => hk.2.2 ?_⟩
        exact (Redis.mem_congr (Redis.lookup_put_of_ne _ (fullKey_ne_indexKey hp key).symm)).mpr hm
      · refine Or.inr ⟨hl, id, ?_⟩
        rw [hkk] at hl
        exact if_neg hl
    · refine Or.inl ⟨hk.1, ?_, fun hm => hk.2.2 ?_⟩
      · exact (Redis.live_congr (Redis.lookup_put_of_ne _ hkk)).mp hk.2.1
      · exact (Redis.mem_congr (Redis.lookup_put_of_ne _ (fullKey_ne_indexKey hp key).symm)).mpr hm
  | olderDelete key => exact Or.inl ((Tended.del hp h key).gap k hk)
  | outside z o =>
    have hl : ∀ k', k' ≠ z → (w.redis.update z (some o)).lookup k' = w.redis.lookup k' :=
      fun k' hk' => Redis.lookup_update_of_ne w.redis _ hk'
    refine Or.inl ⟨hk.1, ?_, fun hm => hk.2.2 ?_⟩
    · exact (Redis.live_congr (hl k (fun heq => he.1.1 (heq ▸ hk.1)))).mp hk.2.1
    · exact (Redis.mem_congr (hl _ he.1.2.1.symm)).mpr hm
  | task i t => exact Or.inl ((F.taskStep_settles hp h i t).gap k hk)

omit [DecidableEq ι] [DecidableEq π] in
/-- **A step of the backfill's scan.** -/
theorem covers_scanned (hp : F.p ≠ "") (h : Tracked F w) {t : Turn} {op : Bool} {started : ℕ}
    {cursor : UInt64} (hst : w.stage i = .backfill op started cursor) (hf : t.fault = none)
    (ht : F.Promised w (.task i t)) {b : TaskBooks}
    (hb : b = if cursor = 0 then (w.books i).begun w.redis else w.books i) :
    Covers F.p w.redis { b with done := b.done ++ t.reply.2 }
      (if backfillBatch F.p t.reply.2 = [] then afterBatch op started t.reply.1
        else .index op started (backfillBatch F.p t.reply.2) t.reply.1) := by
  have hcov := h.covers i
  rw [hst] at hcov
  -- before this reply
  have hold : Backfilled F.p w.redis b [] := by
    rw [hb]
    split
    · exact ⟨fun k hk => Or.inl hk.2.1, fun k _ hd => absurd hd (List.not_mem_nil)⟩
    · next hc => exact hcov hc
  have hmem : ∀ k, IsDataKey F.p k → k ∈ t.reply.2 → k ∈ backfillBatch F.p t.reply.2 := by
    intro k hk hm
    refine List.mem_filter.mpr ⟨hm, ?_⟩
    simp [IndexInv.IsDataKey.ne_index hp hk, IndexInv.IsDataKey.ne_expiry hp hk,
      IndexInv.IsDataKey.ne_complete hp hk]
  have hnew : Backfilled F.p w.redis { b with done := b.done ++ t.reply.2 }
      (backfillBatch F.p t.reply.2) := by
    refine ⟨hold.gap, fun k hsince hdone hk => ?_⟩
    rcases List.mem_append.mp hdone with hd | hd
    · exact absurd (hold.done k hsince hd hk) (List.not_mem_nil)
    · exact hmem k hk.1 hd
  have hnext : t.reply.1 = 0 → ∀ k, IsDataKey F.p k → b.since k → k ∈ b.done ++ t.reply.2 := by
    intro hr k hk hsince
    have hlive : w.redis.Live k ∧ (cursor = 0 ∨ (w.books i).since k) := by
      rw [hb] at hsince
      split at hsince
      · next hc => exact ⟨hsince, Or.inl hc⟩
      · exact ⟨h.since i k hsince, Or.inr hsince⟩
    have hret := ht.backfill hst hf hr k ((keyMatch_dataPattern hp).mpr hk) hlive
    have hdone : b.done = if cursor = 0 then [] else (w.books i).done := by
      rw [hb]
      split <;> rfl
    rwa [hdone]
  split
  · next hnil =>
    rw [hnil] at hnew
    exact hnew.afterBatch hnext (fun _ hk => hk) (fun k hk => absurd hk (List.not_mem_nil)) op
      started
  · exact ⟨hnew, hnext⟩

/-- A task has seen to what it should. -/
def CoversAt (F : Fleet ι π) (i : ι) (w : FleetWorld ι π) : Prop :=
  Covers F.p w.redis (w.books i) (w.stage i)

omit [DecidableEq π] in
theorem coversAt_goto {st : Stage} (h : Covers F.p w.redis (w.books i) st) :
    CoversAt F i (w.goto i st) := by
  unfold CoversAt
  rw [FleetWorld.goto_stage_self]
  exact h

/-- The registrations are listed, and the caller goes on. -/
theorem coversAt_concluded {c : Caller} (h : c.completes = true → Answered F.p w.redis (w.books i))
    (t : Turn) (ids : List String) (found : List Registration) (sc : PeerScan ι) :
    CoversAt F i (F.concluded w i t c ids found sc) := by
  unfold concluded
  cases c with
  | tick =>
    dsimp only
    split
    · exact coversAt_goto (w := { w with unindexedSeen := _, ready := _ }) trivial
    · exact coversAt_goto trivial
  | completion started =>
    dsimp only
    split
    · exact coversAt_goto trivial
    · refine coversAt_goto ?_
      rw [FleetWorld.book_books_self]
      exact h rfl
  | operator =>
    dsimp only
    split
    · exact coversAt_goto trivial
    · exact coversAt_goto (fun hc => absurd rfl hc)
  | peers => exact coversAt_goto trivial

/-- **A step of a task sees to what it should.** -/
theorem coversAt_taskStep (hp : F.p ≠ "") (h : Tracked F w) {t : Turn}
    (ht : F.Promised w (.task i t)) : CoversAt F i (F.taskStep w i t) := by
  have hcov := h.covers i
  unfold taskStep
  cases hst : w.stage i with
  | idle => dsimp only; cases F.duty i <;> exact coversAt_goto (fun hc => nomatch hc)
  | range c =>
    rw [hst] at hcov
    exact FleetWorld.send_of_read (P := CoversAt F i) Redis.zrangebyscore_snd
      (coversAt_goto trivial) (fun _ _ => coversAt_goto hcov)
  | trim c ids now =>
    rw [hst] at hcov
    obtain ⟨hl, hm⟩ := Redis.zremrangebyscore_snd (s := w.redis) (z := peersIndexKey F.p)
      (Double.round now)
    have hset := Settles.outside h.typed (peersIndexKey_foreign hp) hl (fun _ => hm)
    refine FleetWorld.send_of (P := CoversAt F i) (coversAt_goto trivial)
      (coversAt_goto (w := { w with redis := _ }) trivial) (fun _ _ => ?_)
    refine coversAt_goto (w := { w with redis := _ }) (fun hc k hkept hk => ?_)
    exact hcov hc k hkept (hset.gap k hk)
  | read c ids =>
    rw [hst] at hcov
    refine FleetWorld.send_of_read (P := CoversAt F i) rfl (coversAt_goto trivial)
      (fun values _ => ?_)
    split
    · exact coversAt_goto hcov
    · exact coversAt_goto trivial
  | enter c ids found =>
    rw [hst] at hcov
    dsimp only
    split
    · unfold CoversAt
      rw [hst]
      exact hcov
    · split
      · exact coversAt_concluded hcov t ids found _
      · exact coversAt_goto (w := { w with holder := _ }) hcov
  | scan c ids found cursor keys =>
    rw [hst] at hcov
    dsimp only
    split
    · exact coversAt_goto (w := F.unlock w i) trivial
    · refine coversAt_goto ?_
      rw [FleetWorld.book_books_self]
      by_cases hr : t.reply.1 = 0
      · rw [if_pos hr]
        exact hcov
      · rw [if_neg hr]
        exact hcov
  | fetch c ids found keys =>
    rw [hst] at hcov
    refine FleetWorld.send_of_read (P := CoversAt F i) rfl
      (coversAt_goto (w := F.unlock w i) trivial) (fun values _ => ?_)
    dsimp only
    split
    · exact coversAt_concluded (w := F.unlock { w with last := _ } i) hcov t ids found _
    · exact coversAt_goto (w := F.unlock w i) trivial
  | invalidate seen =>
    dsimp only
    split
    · exact coversAt_goto trivial
    · exact coversAt_goto (w := { w with redis := _, books := _, stale := _ }) trivial
  | ask =>
    exact FleetWorld.send_of_read (P := CoversAt F i) rfl (coversAt_goto trivial)
      (fun _ _ => coversAt_goto trivial)
  | told complete => exact coversAt_goto (w := { w with ready := _ }) trivial
  | lock unindexed => dsimp only; split <;> exact coversAt_goto trivial
  | sweep unindexed =>
    dsimp only
    split
    · exact coversAt_goto (fun hc => absurd rfl hc)
    · exact coversAt_goto trivial
  | backfill operator started cursor =>
    dsimp only
    split
    · exact coversAt_goto trivial
    · next hf =>
      refine coversAt_goto ?_
      rw [FleetWorld.book_books_self]
      exact covers_scanned hp h hst (Option.not_isSome_iff_eq_none.mp hf) ht rfl
  | index operator started batch next =>
    rw [hst] at hcov
    have hback := Tended.backfill hp h.typed t.clock batch
    refine FleetWorld.send_of (P := CoversAt F i) (coversAt_goto trivial)
      (coversAt_goto (w := { w with redis := _ }) trivial) (fun _ _ => ?_)
    refine coversAt_goto (w := { w with redis := _ }) ?_
    exact hcov.1.afterBatch hcov.2 hback.gap
      (fun k hk => not_gap_of_backfill hp h.typed t.clock hk) operator started
  | forget c =>
    rw [hst] at hcov
    dsimp only
    split
    · unfold CoversAt
      rw [hst]
      exact hcov
    · refine coversAt_goto ?_
      rw [FleetWorld.book_books_self]
      exact fun hc k _ hk => hcov hc k hk
  | mark operator started =>
    dsimp only
    split
    · exact coversAt_goto trivial
    · split <;> exact coversAt_goto (w := { w with redis := _, stale := _ }) trivial
  | ready => exact coversAt_goto (w := { w with ready := _ }) trivial

/-- The books of a task but for what made replicas doubt the index. -/
def SameBooks (b b' : TaskBooks) : Prop := ∃ d, b' = { b with doubts := d }

/-- What a task may write in its books of older builds and of kept keys. -/
structure Rewritten (p : String) (b b' : TaskBooks) : Prop where
  creators : ∀ id, b'.creators id → b.creators id
  before : ∀ id, b'.before id → b.before id ∨ b.creators id
  kept : ∀ k, b'.kept k → b.kept k ∨ IsDataKey p k

omit [DecidableEq ι] [DecidableEq π] in
theorem Rewritten.refl (p : String) (b : TaskBooks) : Rewritten p b b :=
  ⟨fun _ h => h, fun _ h => Or.inl h, fun _ h => Or.inl h⟩

/-- **What a step of a task can touch**: where it stands, its own books, what
made replicas doubt the index, and what is neither stage nor books. -/
theorem taskStep_touches {P : FleetWorld ι π → Prop} (t : Turn)
    (hgoto : ∀ v st, P v → P (v.goto i st))
    (hbook : ∀ v b, Rewritten F.p (w.books i) b → P v → P (v.book i b))
    (hrest : ∀ v v' : FleetWorld ι π, v'.stage = v.stage →
      (∀ j, SameBooks (v.books j) (v'.books j)) → P v → P v') (hw : P w) :
    P (F.taskStep w i t) := by
  have hsame : ∀ v : FleetWorld ι π, v.stage = w.stage → v.books = w.books → P v :=
    fun v hst hb => hrest w v hst (fun j => ⟨_, by rw [hb]⟩) hw
  have hchecked : ∀ e : String → Prop, Rewritten F.p (w.books i) { w.books i with checked := e } :=
    fun _ => ⟨fun _ h => h, fun _ h => Or.inl h, fun _ h => Or.inl h⟩
  have hconcluded : ∀ (v : FleetWorld ι π) (c : Caller) (ids : List String)
      (found : List Registration) (sc : PeerScan ι), v.stage = w.stage → v.books = w.books →
      P (F.concluded v i t c ids found sc) := by
    intro v c ids found sc hst hb
    have hv := hsame v hst hb
    unfold concluded
    cases c with
    | tick =>
      dsimp only
      split
      · exact hgoto { v with unindexedSeen := _, ready := _ } _ (hsame _ hst hb)
      · exact hgoto v _ hv
    | completion started =>
      dsimp only
      split
      · exact hgoto v _ hv
      · rw [hb]
        exact hgoto _ _ (hbook v _ (hchecked _) hv)
    | operator =>
      dsimp only
      split
      · exact hgoto v _ hv
      · rw [hb]
        exact hgoto _ _ (hbook v _ (hchecked _) hv)
    | peers => exact hgoto v _ hv
  have hsent : ∀ (s : Redis) (st : Stage), P (({ w with redis := s } : FleetWorld ι π).goto i st) :=
    fun s st => hgoto _ st (hsame _ rfl rfl)
  unfold taskStep
  cases hst : w.stage i with
  | idle => dsimp only; cases F.duty i <;> exact hgoto w _ hw
  | range c => exact FleetWorld.send_of (hgoto w _ hw) (hsent _ _) (fun _ _ => hsent _ _)
  | trim c ids now => exact FleetWorld.send_of (hgoto w _ hw) (hsent _ _) (fun _ _ => hsent _ _)
  | read c ids =>
    refine FleetWorld.send_of (hgoto w _ hw) (hsent _ _) (fun values _ => ?_)
    split <;> exact hsent _ _
  | enter c ids found =>
    dsimp only
    split
    · exact hw
    · split
      · exact hconcluded w c ids found _ rfl rfl
      · exact hgoto { w with holder := _ } _ (hsame _ rfl rfl)
  | scan c ids found cursor keys =>
    dsimp only
    split
    · exact hgoto (F.unlock w i) _ (hsame _ rfl rfl)
    · exact hgoto _ _ (hbook w _ ⟨fun _ h => h, fun _ h => Or.inl h, fun _ h => Or.inl h⟩ hw)
  | fetch c ids found keys =>
    refine FleetWorld.send_of (hgoto (F.unlock w i) _ (hsame _ rfl rfl))
      (hgoto (F.unlock { w with redis := _ } i) _ (hsame _ rfl rfl)) (fun values _ => ?_)
    dsimp only
    split
    · exact hconcluded (F.unlock { w with redis := _, last := _ } i) c ids found _ rfl rfl
    · exact hgoto (F.unlock { w with redis := _ } i) _ (hsame _ rfl rfl)
  | invalidate seen =>
    dsimp only
    split
    · exact hgoto w _ hw
    · exact hgoto { w with redis := _, books := _, stale := _ } _
        (hrest w _ rfl (fun _ => ⟨_, rfl⟩) hw)
  | ask => exact FleetWorld.send_of (hgoto w _ hw) (hsent _ _) (fun _ _ => hsent _ _)
  | told complete => exact hgoto { w with ready := _ } _ (hsame _ rfl rfl)
  | lock unindexed => exact hgoto w _ hw
  | sweep unindexed => exact hgoto w _ hw
  | backfill operator started cursor =>
    dsimp only
    split
    · exact hgoto w _ hw
    · refine hgoto _ _ (hbook w _ ?_ hw)
      split
      · exact ⟨fun _ h => h.elim, fun _ h => Or.inl h, fun _ h => Or.inl h⟩
      · exact ⟨fun _ h => h, fun _ h => Or.inl h, fun _ h => Or.inl h⟩
  | index operator started batch next =>
    exact FleetWorld.send_of (hgoto w _ hw) (hsent _ _) (fun _ _ => hsent _ _)
  | forget c =>
    dsimp only
    split
    · exact hw
    · refine hgoto _ _ (hbook { w with last := _ } _ ?_ (hsame _ rfl rfl))
      exact ⟨fun _ h => h, fun _ h => Or.inr h, fun _ h => Or.inr h.1⟩
  | mark operator started =>
    dsimp only
    split
    · exact hgoto w _ hw
    · exact hgoto { w with redis := _, stale := _ } _ (hsame _ rfl rfl)
  | ready => exact hgoto { w with ready := _ } _ (hsame _ rfl rfl)

/-- **A task leaves the others alone.** -/
theorem taskStep_other {j : ι} (hj : j ≠ i) (t : Turn) :
    (F.taskStep w i t).stage j = w.stage j
      ∧ SameBooks (w.books j) ((F.taskStep w i t).books j) := by
  refine taskStep_touches (F := F) (w := w)
    (P := fun v => v.stage j = w.stage j ∧ SameBooks (w.books j) (v.books j)) t ?_ ?_ ?_
    ⟨rfl, _, rfl⟩
  · exact fun v st hv => ⟨(FleetWorld.goto_stage_of_ne v st hj).trans hv.1, hv.2⟩
  · exact fun v b _ hv => ⟨hv.1, (FleetWorld.book_books_of_ne v b hj).symm ▸ hv.2⟩
  · intro v v' hst hb hv
    obtain ⟨d, hd⟩ := hv.2
    obtain ⟨d', hd'⟩ := hb j
    exact ⟨(congrFun hst j).trans hv.1, d', by rw [hd', hd]⟩

/-- What a step of a task makes of the books of every task. -/
theorem taskStep_books (t : Turn) (j : ι) :
    Rewritten F.p (w.books j) ((F.taskStep w i t).books j) := by
  refine taskStep_touches (F := F) (w := w)
    (P := fun v => Rewritten F.p (w.books j) (v.books j)) t ?_ ?_ ?_ (Rewritten.refl _ _)
  · exact fun v st hv => hv
  · intro v b hb hv
    by_cases hji : j = i
    · subst hji
      rwa [FleetWorld.book_books_self]
    · rwa [FleetWorld.book_books_of_ne v b hji]
  · intro v v' _ hb hv
    obtain ⟨d, hd⟩ := hb j
    rw [hd]
    exact ⟨hv.creators, hv.before, hv.kept⟩

omit [DecidableEq ι] [DecidableEq π] in
theorem SameBooks.covers {b b' : TaskBooks} (hb : SameBooks b b') {p : String} {s : Redis}
    {st : Stage} (h : Covers p s b st) : Covers p s b' st := by
  obtain ⟨d, rfl⟩ := hb
  cases st with
  | backfill op started cursor => exact fun hc => ⟨(h hc).gap, (h hc).done⟩
  | index op started batch next => exact ⟨⟨h.1.gap, h.1.done⟩, h.2⟩
  | mark op started => cases op <;> exact h
  | _ => exact h

/-- What a step makes of the books of every task. -/
theorem act_books (e : FleetEvent ι) (j : ι) :
    Rewritten F.p (w.books j) ((F.act w e).books j) := by
  cases e with
  | task i t => exact taskStep_books t j
  | _ => exact Rewritten.refl _ _

/-- **Every step sees to what it should**, for every task. -/
theorem covers_step (hp : F.p ≠ "") (h : Tracked F w) {e : FleetEvent ι} (he : F.Promised w e)
    (ht : F.Tended w e) (j : ι) :
    Covers F.p (F.act w e).redis (((F.act w e).books j).note F.p (F.creator w e) (F.act w e).redis)
      ((F.act w e).stage j) := by
  have hgap : ∀ k, Gap F.p (F.act w e).redis k → Gap F.p w.redis k
      ∨ (¬ (w.books j).since k ∧ ¬ (w.books j).kept k) ∧ ∃ id, F.creator w e = some id := by
    intro k hk
    refine (gap_of_act hp h.typed he ht hk).imp_right (fun hr => ⟨⟨?_, ?_⟩, hr.2⟩)
    · exact fun hsince => hr.1 (h.since j k hsince)
    · exact fun hkept => hr.1 (h.kept j k hkept).2
  cases e with
  | kv e => exact (h.covers j).note hgap
  | olderWrite id key o => exact (h.covers j).note hgap
  | olderDelete key => exact (h.covers j).note hgap
  | outside k o => exact (h.covers j).note hgap
  | task i t =>
    by_cases hji : j = i
    · subst hji
      exact Covers.note (coversAt_taskStep hp h he) (fun _ hk => Or.inl hk)
    · obtain ⟨hst, d, hd⟩ := taskStep_other (F := F) (w := w) hji t
      show Covers _ _ (((F.taskStep w i t).books j).note _ _ _) ((F.taskStep w i t).stage j)
      rw [hst, hd]
      exact SameBooks.covers ⟨d, rfl⟩ ((h.covers j).note hgap)

/-- **Every step keeps track.** -/
theorem tracked_step (hp : F.p ≠ "") (e : FleetEvent ι) (h : Tracked F w)
    (he : F.Promised w e ∧ F.Tended w e) : Tracked F (F.system.step w e).2 where
  toInOrder := inOrder_step hp e h.toInOrder he.1
  since := fun _ _ hk => hk.2
  kept := by
    intro j k hk
    refine ⟨?_, hk.2⟩
    rcases (act_books e j).kept k hk.1 with hold | hnew
    · exact (h.kept j k hold).1
    · exact hnew
  creators := by
    rintro j id (hid | hid)
    · exact h.creators j id ((act_books e j).creators id hid)
    · cases e with
      | olderWrite id' key o =>
        rw [creator] at hid
        split at hid
        · exact nomatch hid
        · exact Option.some.inj hid ▸ he.1
      | _ => exact nomatch hid
  before := by
    intro j id hid
    rcases (act_books e j).before id hid with hold | hnew
    · exact h.before j id hold
    · exact h.creators j id hnew
  covers := covers_step hp h he.1 he.2

omit [DecidableEq ι] [DecidableEq π] in
theorem Starts.tracked (h : F.Starts w) : Tracked F w where
  toInOrder := h.inOrder
  since := fun i k hk => by rw [h.books i] at hk; exact hk.elim
  kept := fun i k hk => by rw [h.books i] at hk; exact hk.elim
  creators := fun i id hid => by rw [h.books i] at hid; exact hid.elim
  before := fun i id hid => by rw [h.books i] at hid; exact hid.elim
  covers := fun i => by rw [h.stage i]; exact trivial

/-! ## Small fleets -/

/-- Replicas with one task each, and an older build. -/
def alike (ι : Type) (duty : Duty) : Fleet ι ι where
  lua := Lua.integers
  drv := Driver.plain
  p := "p"
  peerTtlMs := 15000
  home := id
  duty := fun _ => duty
  older := fun id => id = "old"

/-- One replica, -/
abbrev replica : Fleet Unit Unit := alike Unit .maintenance

/-- and two of them. -/
abbrev twins : Fleet Bool Bool := alike Bool .maintenance

/-- No replica has begun. -/
def alikeStart (ι : Type) (s : Redis) : FleetWorld ι ι where
  redis := s
  ready := fun _ => false
  last := fun _ => none
  holder := fun _ => none
  stage := fun _ => .idle
  unindexedSeen := fun _ => none
  books := fun _ => TaskBooks.blank
  stale := False

/-- A store of one key, that no index lists. -/
def leftKey : Redis := (Redis.empty 0).put "p:k" ⟨.str [1], none⟩

theorem alikeStart_starts (ι : Type) (duty : Duty) {s : Redis} (ht : IndexTyped "p" s)
    (hm : ∀ id, ¬ s.Mem (peersIndexKey "p") id) : (alike ι duty).Starts (alikeStart ι s) :=
  ⟨ht, fun id _ => hm id, fun _ => rfl, fun _ => rfl, fun _ => rfl, fun h => h⟩

theorem empty_starts (ι : Type) (duty : Duty) :
    (alike ι duty).Starts (alikeStart ι (Redis.empty 0)) :=
  alikeStart_starts ι duty (IndexInv.empty "p" 0).toIndexTyped (fun _ h => nomatch h)

theorem leftKey_starts (duty : Duty) : (alike Unit duty).Starts (alikeStart Unit leftKey) := by
  have ht := (IndexInv.empty "p" 0).toIndexTyped
  exact alikeStart_starts Unit duty ⟨ht.index.put (by decide), ht.expiry.put (by decide)⟩
    (fun _ h => nomatch h)

/-- A step of a replica; no scan ends with it. -/
def turn (i : ι) : FleetEvent ι := .task i ⟨0, 0, (1, []), true, none⟩

/-- A step that ends a scan. -/
def lastTurn (i : ι) (ks : List String) : FleetEvent ι := .task i ⟨0, 0, (0, ks), true, none⟩

/-- A replica takes a step. -/
def isTurn : FleetEvent ι → Bool
  | .task _ _ => true
  | _ => false

section Promises

variable {duty : Duty} {v : FleetWorld ι ι} {i : ι} {ks : List String}

omit [DecidableEq ι] in
theorem promised_turn (v : FleetWorld ι ι) (i : ι) : (alike ι duty).Promised v (turn i) :=
  fun _ h => absurd h (by decide)

theorem promised_turns {es : List (FleetEvent ι)} (h : ∀ e ∈ es, ∃ i, e = turn i) :
    (alike ι duty).system.Along (alike ι duty).Promised v es := by
  refine (System.along_of_mem _ (P := fun e => ∃ i, e = turn i) h).mono ?_
  rintro v e ⟨i, rfl⟩
  exact promised_turn v i

omit [DecidableEq ι] in
theorem promised_peers (hst : (v.stage i).scanning = true)
    (h : ∀ k, v.redis.Live k → KeyMatch (peersPattern "p") k → k ∈ ks) :
    (alike ι duty).Promised v (lastTurn i ks) := by
  intro _ _
  split
  · next hb => rw [hb] at hst; exact nomatch hst
  · exact fun k hk hs => List.mem_append_right _ (h k hs.1 hk)
  · trivial

omit [DecidableEq ι] in
theorem promised_data (hst : (v.stage i).scanning = false)
    (h : ∀ k, v.redis.Live k → KeyMatch (dataPattern "p") k → k ∈ ks) :
    (alike ι duty).Promised v (lastTurn i ks) := by
  intro _ _
  split
  · exact fun k hk hs => List.mem_append_right _ (h k hs.1 hk)
  · next hs => rw [hs] at hst; exact nomatch hst
  · trivial

/-- A data key is no registration. -/
theorem not_peer_of_live {o : Obj} {k' : String} (h : ((Redis.empty 0).put "p:k" o).Live k')
    (hm : KeyMatch (peersPattern "p") k') : k' ∈ ([] : List String) := by
  rw [Redis.eq_of_live_put h] at hm
  exact absurd hm (by decide)

end Promises

/-- An older build's registration. -/
def oldText : String := "\x7b\"address\":\"a:1\",\"last_seen\":\"2025-01-01T00:00:00Z\"\x7d"

/-- It is set for fifteen seconds. -/
def oldRegistration : Obj := ⟨.str oldText.toUTF8.data.toList, some 15000⟩

theorem registered_of_lookup {p id : String} {s : Redis}
    (h : s.lookup (peerKey p id) = some oldRegistration) : Registered p s id :=
  ⟨_, _, oldText, ⟨"a:1", "2025-01-01T00:00:00Z", [], false⟩, h, by decide +kernel,
    by decide +kernel, rfl⟩

omit [DecidableEq ι] in
/-- An older build registers, or its registration goes. -/
theorem promised_registration {duty : Duty} (v : FleetWorld ι ι) (o : Option Obj) :
    (alike ι duty).Promised v (.outside "ppeers/old" o) := by
  have hno : "ppeers/old" ≠ completeKey "p" ∧ "ppeers/old" ≠ peersIndexKey "p" := by decide
  have hforeign : Foreign "p" "ppeers/old" := by
    refine ⟨?_, by decide, by decide⟩
    rw [isDataKey_iff (by decide)]
    decide
  exact ⟨hforeign, hno.1, fun h => absurd h hno.2⟩

/-! ## What a small fleet's scans return -/

/-- A step at a later time, -/
def turnAt (i : ι) (n : ℕ) : FleetEvent ι := .task i ⟨0, n, (1, []), true, none⟩

/-- and one that ends a scan. -/
def lastTurnAt (i : ι) (n : ℕ) (ks : List String) : FleetEvent ι :=
  .task i ⟨0, n, (0, ks), true, none⟩

/-- A step of a task that ends no scan. -/
def isPause : FleetEvent ι → Bool
  | .task _ t => t.reply.1 != 0
  | _ => false

omit [DecidableEq ι] in
theorem isTurn_of_isPause {e : FleetEvent ι} (h : isPause e = true) : isTurn e = true := by
  cases e with
  | task i t => rfl
  | _ => exact h

/-- **The keys a scan of a small fleet can return**: registrations, and data
keys. -/
structure Keeps (ks ds : List String) (v : FleetWorld ι ι) : Prop where
  typed : IndexTyped "p" v.redis
  peers : ∀ k, v.redis.Live k → KeyMatch (peersPattern "p") k → k ∈ ks
  data : ∀ k, v.redis.Live k → KeyMatch (dataPattern "p") k → k ∈ ds

namespace Keeps

variable (duty : Duty) {v : FleetWorld ι ι} {i : ι} {ks ds : List String}

omit [DecidableEq ι] in
theorem untouched_peers {k : String} (h : KeyMatch (peersPattern "p") k) : Untouched "p" k := by
  constructor <;> rintro rfl <;> exact absurd h (by decide)

omit [DecidableEq ι] in
theorem untouched_data {k : String} (h : KeyMatch (dataPattern "p") k) : Untouched "p" k := by
  constructor <;> rintro rfl <;> exact absurd h (by decide)

theorem task (h : Keeps ks ds v) (i : ι) (t : Turn) :
    Keeps ks ds ((alike ι duty).taskStep v i t) where
  typed := ((alike ι duty).taskStep_settles (show "p" ≠ "" by decide) h.typed i t).typed
  peers := fun k hl hm => h.peers k ((Redis.live_congr ((alike ι duty).taskStep_lookup h.typed i t
    (untouched_peers hm))).mp hl) hm
  data := fun k hl hm => h.data k ((Redis.live_congr ((alike ι duty).taskStep_lookup h.typed i t
    (untouched_data hm))).mp hl) hm

/-- Steps of tasks add none. -/
theorem turns (h : Keeps ks ds v) {es : List (FleetEvent ι)} (hes : ∀ e ∈ es, isTurn e = true) :
    Keeps ks ds ((alike ι duty).system.final v es) := by
  refine (alike ι duty).system.inv_final (G := fun _ e => isTurn e = true) (fun w e hw he => ?_) h
    (System.along_of_mem _ hes)
  cases e with
  | task i t =>
    have ht := hw.task duty i t
    exact ⟨ht.typed, ht.peers, ht.data⟩
  | _ => exact nomatch he

/-- An older build registers, -/
theorem registers (h : Keeps ks ds v) (o : Obj) :
    Keeps ("ppeers/old" :: ks) ds
      ((alike ι duty).system.step v (.outside "ppeers/old" (some o))).2 where
  typed := ⟨h.typed.index.congr (lookup_outside _ (by decide)),
    h.typed.expiry.congr (lookup_outside _ (by decide))⟩
  peers := by
    intro k hl hm
    by_cases hk : k = "ppeers/old"
    · exact hk ▸ List.mem_cons_self
    · exact List.mem_cons_of_mem _ (h.peers k ((Redis.live_congr (lookup_outside _ hk)).mp hl) hm)
  data := by
    intro k hl hm
    have hk : k ≠ "ppeers/old" := by
      rintro rfl
      exact absurd hm (by decide)
    exact h.data k ((Redis.live_congr (lookup_outside _ hk)).mp hl) hm

/-- and goes. -/
theorem leaves (h : Keeps ["ppeers/old"] ds v) :
    Keeps [] ds ((alike ι duty).system.step v (.outside "ppeers/old" none)).2 where
  typed := ⟨h.typed.index.congr (lookup_outside _ (by decide)),
    h.typed.expiry.congr (lookup_outside _ (by decide))⟩
  peers := by
    intro k hl hm
    by_cases hk : k = "ppeers/old"
    · subst hk
      have hgone : ((alike ι duty).system.step v (.outside "ppeers/old" none)).2.redis.lookup
          "ppeers/old" = none := Redis.lookup_del_self v.redis
      rw [Redis.Live, hgone] at hl
      exact absurd hl Bool.false_ne_true
    · have hold := h.peers k ((Redis.live_congr (lookup_outside _ hk)).mp hl) hm
      exact absurd (List.mem_singleton.mp hold) hk
  data := by
    intro k hl hm
    have hk : k ≠ "ppeers/old" := by
      rintro rfl
      exact absurd hm (by decide)
    exact h.data k ((Redis.live_congr (lookup_outside _ hk)).mp hl) hm

/-- An older build writes a data key, -/
theorem writes (h : Keeps ks ds v) (id key : String) (o : Obj)
    (hkey : ¬ KeyMatch (peersPattern "p") (fullKey "p" key)) : Keeps ks (fullKey "p" key :: ds)
      ((alike ι duty).system.step v (.olderWrite id key o)).2 where
  typed := (Framed.put (show "p" ≠ "" by decide) h.typed key o).typed
  peers := by
    intro k hl hm
    have hk : k ≠ fullKey "p" key := fun he => hkey (he ▸ hm)
    exact h.peers k ((Redis.live_congr (Redis.lookup_put_of_ne v.redis hk)).mp hl) hm
  data := by
    intro k hl hm
    by_cases hk : k = fullKey "p" key
    · exact hk ▸ List.mem_cons_self
    · have hold := h.data k ((Redis.live_congr (Redis.lookup_put_of_ne v.redis hk)).mp hl) hm
      exact List.mem_cons_of_mem _ hold

/-- or a client of a current build does, with a lifetime that is accepted. -/
theorem calls (h : Keeps ks ds v) (clock : ℕ) (op : KvOp) (hok : TtlOk v.redis.now (ttlMs op.ttl))
    (hkey : ¬ KeyMatch (peersPattern "p") (fullKey "p" op.key)) :
    Keeps ks (fullKey "p" op.key :: ds)
      ((alike ι duty).system.step v (.kv (.call clock op))).2 := by
  have hp : "p" ≠ "" := by decide
  have hlookup : ∀ k, k ≠ fullKey "p" op.key → Untouched "p" k →
      (RedisKv.call Lua.integers Driver.plain "p" clock op v.redis).2.lookup k
        = v.redis.lookup k := by
    intro k hk hu
    have hch := call_change Lua.integers Driver.plain hp h.typed clock op hok
    generalize (RedisKv.call Lua.integers Driver.plain "p" clock op v.redis).2 = t at hch ⊢
    cases hch with
    | same => rfl
    | store o due => exact Redis.lookup_store_of_ne v.redis hk hu.index hu.expiry
    | drop => exact Redis.lookup_drop_of_ne v.redis hk hu.index hu.expiry
  refine ⟨(Framed.step Lua.integers Driver.plain hp h.typed (.call clock op) trivial).typed, ?_, ?_⟩
  · intro k hl hm
    have hk : k ≠ fullKey "p" op.key := fun he => hkey (he ▸ hm)
    exact h.peers k ((Redis.live_congr (hlookup k hk (untouched_peers hm))).mp hl) hm
  · intro k hl hm
    by_cases hk : k = fullKey "p" op.key
    · exact hk ▸ List.mem_cons_self
    · have hold := h.data k ((Redis.live_congr (hlookup k hk (untouched_data hm))).mp hl) hm
      exact List.mem_cons_of_mem _ hold

omit [DecidableEq ι] in
theorem promised_of_isPause {e : FleetEvent ι} (he : isPause e = true) (v : FleetWorld ι ι) :
    (alike ι duty).Promised v e := by
  cases e with
  | task j t => exact fun _ hr => absurd hr (by simpa [isPause] using he)
  | _ => exact nomatch he

theorem promised_pauses {es : List (FleetEvent ι)} (hes : ∀ e ∈ es, isPause e = true) :
    (alike ι duty).system.Along (alike ι duty).Promised v es :=
  (System.along_of_mem _ (P := fun e => isPause e = true) hes).mono
    (fun v _ he => promised_of_isPause duty he v)

/-- **A scan of the registrations that returns them.** -/
theorem promised_peers (h : Keeps ks ds v) {es : List (FleetEvent ι)}
    (hes : ∀ e ∈ es, isPause e = true)
    (hst : (((alike ι duty).system.final v es).stage i).scanning = true) (n : ℕ) :
    (alike ι duty).system.Along (alike ι duty).Promised v (es ++ [lastTurnAt i n ks]) := by
  refine (System.along_concat _ _ _ _).mpr ⟨promised_pauses duty hes, fun _ _ => ?_⟩
  have hk := h.turns duty (fun e he => isTurn_of_isPause (hes e he))
  split
  · next hb => rw [hb] at hst; exact nomatch hst
  · exact fun k hm hs => List.mem_append_right _ (hk.peers k hs.1 hm)
  · trivial

/-- **A scan of the data keys that returns them.** -/
theorem promised_data (h : Keeps ks ds v) {es : List (FleetEvent ι)}
    (hes : ∀ e ∈ es, isPause e = true)
    (hst : (((alike ι duty).system.final v es).stage i).scanning = false) (n : ℕ) :
    (alike ι duty).system.Along (alike ι duty).Promised v (es ++ [lastTurnAt i n ds]) := by
  refine (System.along_concat _ _ _ _).mpr ⟨promised_pauses duty hes, fun _ _ => ?_⟩
  have hk := h.turns duty (fun e he => isTurn_of_isPause (hes e he))
  split
  · exact fun k hm hs => List.mem_append_right _ (hk.data k hs.1 hm)
  · next hs => rw [hs] at hst; exact nomatch hst
  · trivial

/-- Steps of tasks after a run. -/
theorem append {es fs : List (FleetEvent ι)}
    (h : Keeps ks ds ((alike ι duty).system.final v es)) (hfs : ∀ e ∈ fs, isTurn e = true) :
    Keeps ks ds ((alike ι duty).system.final v (es ++ fs)) := by
  rw [System.final_append]
  exact h.turns duty hfs

/-- A task is at a scan of the registrations, some steps after a run. -/
abbrev scansAfter (v : FleetWorld ι ι) (i : ι) (es fs : List (FleetEvent ι)) : Bool :=
  (((alike ι duty).system.final ((alike ι duty).system.final v es) fs).stage i).scanning

/-- Such a scan after a run, -/
theorem append_peers {es fs : List (FleetEvent ι)}
    (hes : (alike ι duty).system.Along (alike ι duty).Promised v es)
    (h : Keeps ks ds ((alike ι duty).system.final v es)) (hfs : ∀ e ∈ fs, isPause e = true)
    (hst : scansAfter duty v i es fs = true) (n : ℕ) :
    (alike ι duty).system.Along (alike ι duty).Promised v (es ++ (fs ++ [lastTurnAt i n ks])) :=
  (System.along_append _ _ _ _).mpr ⟨hes, h.promised_peers duty hfs hst n⟩

/-- and one of the data keys. -/
theorem append_data {es fs : List (FleetEvent ι)}
    (hes : (alike ι duty).system.Along (alike ι duty).Promised v es)
    (h : Keeps ks ds ((alike ι duty).system.final v es)) (hfs : ∀ e ∈ fs, isPause e = true)
    (hst : scansAfter duty v i es fs = false) (n : ℕ) :
    (alike ι duty).system.Along (alike ι duty).Promised v (es ++ (fs ++ [lastTurnAt i n ds])) :=
  (System.along_append _ _ _ _).mpr ⟨hes, h.promised_data duty hfs hst n⟩

end Keeps

/-! ## The mark -/

/-- What a run keeps when nothing is amiss. -/
def Sound (F : Fleet ι π) (w : FleetWorld ι π) (e : FleetEvent ι) : Prop :=
  F.Promised w e ∧ F.Tended w e

/-- **Whenever a completion marks the index**, every data key that has been
there since it forgot the last scan is listed – if every older build that
had created a key since the backfill began was registered from then to the
end of the scan. -/
theorem completion_lists_kept (hp : F.p ≠ "") (hno : NoGlob F.p) (hw : F.Starts w)
    {es : List (FleetEvent ι)} (hes : F.system.Along F.Sound w es) {started : ℕ}
    (hst : (F.system.final w es).stage i = .mark false started)
    (hreg : ∀ id, ((F.system.final w es).books i).before id →
      ((F.system.final w es).books i).checked id)
    {k : String} (hk : ((F.system.final w es).books i).kept k) :
    (F.system.final w es).redis.Mem (indexKey F.p) k := by
  have h := F.system.inv_final (fun w e => tracked_step hp e) hw.tracked hes
  have hcov := h.covers i
  rw [hst] at hcov
  have hpassed := h.passed i (by rw [hst]; rfl)
  by_contra hm
  obtain ⟨hd, hl⟩ := h.kept i k hk
  obtain ⟨id, hid⟩ := hcov k hk ⟨hd, hl, hm⟩
  exact hpassed id (h.before i id hid) (hno.findable id) (hreg id hid)

/-! ## A completion among others -/

/-- A client acts, a sweep or prune does, or time passes. -/
def isClient : FleetEvent ι → Bool
  | .kv _ => true
  | _ => false

theorem tended_of_not_isClient {es : List (FleetEvent ι)} (hes : ∀ e ∈ es, isClient e = false) :
    F.system.Along F.Tended w es := by
  refine (System.along_of_mem _ (P := fun e => isClient e = false) hes).mono (fun _ e he => ?_)
  cases e with
  | kv e => exact nomatch he
  | _ => trivial

/-- A tick of a replica whose index does not list a key finds no older build. -/
def ticking : List (FleetEvent Unit) :=
  [] ++ (List.replicate 5 (turn ()) ++ [lastTurnAt () 0 []])

/-- A client writes another, -/
def putting : List (FleetEvent Unit) := ticking ++ [.kv (.call 0 (.put "m" [2] none))]

/-- and the replica's backfill finds both. -/
def backfilling : List (FleetEvent Unit) :=
  putting ++ (List.replicate 5 (turn ()) ++ [lastTurnAt () 0 ["p:m", "p:k"]])

/-- The other is deleted, and a counter is given a lifetime. -/
def countingDown : List (FleetEvent Unit) :=
  backfilling ++ [.kv (.call 0 (.delete "m")),
    .kv (.call 0 (.incr "n" ⟨1, inI64_one⟩ (some (Duration.ofMillis 45000 (by decide)))))]

/-- The replica forgets the last scan, and its fresh one begins. -/
def looking : List (FleetEvent Unit) := countingDown ++ List.replicate 7 (turn ())

/-- An older build registers too late for it and writes, and the replica comes
to the mark. -/
def completing : List (FleetEvent Unit) :=
  looking ++ [.outside "ppeers/old" (some oldRegistration),
    .olderWrite "old" "q" ⟨.str [1], none⟩] ++ [lastTurnAt () 0 [], turn ()]

theorem completing_stage :
    (replica.system.final (alikeStart Unit leftKey) completing).stage () = .mark false 0 := rfl

theorem leftKey_keeps : Keeps [] ["p:k"] (replica.system.final (alikeStart Unit leftKey) []) where
  typed := (leftKey_starts .maintenance).typed
  peers _ := not_peer_of_live
  data _ hl _ := List.mem_singleton.mpr (Redis.eq_of_live_put hl)

theorem putting_keeps : Keeps [] ["p:m", "p:k"]
    (replica.system.final (alikeStart Unit leftKey) putting) := by
  rw [putting, System.final_append]
  exact Keeps.calls .maintenance (Keeps.append .maintenance leftKey_keeps (by decide)) 0
    (.put "m" [2] none) (by decide) (by decide)

theorem countingDown_keeps : Keeps [] ["p:n", "p:m", "p:m", "p:k"]
    (replica.system.final (alikeStart Unit leftKey) countingDown) := by
  have hback : Keeps [] ["p:m", "p:k"]
      (replica.system.final (alikeStart Unit leftKey) backfilling) :=
    Keeps.append .maintenance putting_keeps (by decide)
  rw [countingDown, System.final_append]
  refine (hback.calls .maintenance 0 (.delete "m") ?_ ?_).calls .maintenance 0 (.incr "n"
    ⟨1, inI64_one⟩ (some (Duration.ofMillis 45000 (by decide)))) ?_ ?_ <;> decide +kernel

theorem completing_promised :
    replica.system.Along replica.Promised (alikeStart Unit leftKey) completing := by
  have hnone : replica.system.Along replica.Promised (alikeStart Unit leftKey) [] := trivial
  have hputting : replica.system.Along replica.Promised (alikeStart Unit leftKey) putting :=
    (System.along_concat _ _ _ _).mpr ⟨Keeps.append_peers .maintenance hnone leftKey_keeps
      (by decide) (by rfl) 0, trivial⟩
  have hbackfilling : replica.system.Along replica.Promised (alikeStart Unit leftKey)
      backfilling := Keeps.append_data .maintenance hputting putting_keeps (by decide) (by rfl) 0
  have hlooking : replica.system.Along replica.Promised (alikeStart Unit leftKey) looking :=
    (System.along_append _ _ _ _).mpr ⟨(System.along_append _ _ _ _).mpr ⟨hbackfilling, trivial,
      trivial, trivial⟩, Keeps.promised_pauses .maintenance (by decide)⟩
  refine (System.along_append _ _ _ _).mpr ⟨(System.along_append _ _ _ _).mpr ⟨hlooking,
    promised_registration _ _, rfl, trivial⟩, ?_, promised_turn _ _, trivial⟩
  -- what the scan has to return was there when it began, before the older build registered
  have hbegun : Keeps [] ["p:n", "p:m", "p:m", "p:k"] (replica.system.final
      (alikeStart Unit leftKey) (countingDown ++ List.replicate 6 (turn ()))) :=
    Keeps.append .maintenance countingDown_keeps (by decide)
  rintro - - k hm ⟨-, hc | hs⟩
  · exact absurd hc (by decide)
  · exact absurd (hbegun.peers k hs.1.1.1 hm) List.not_mem_nil

theorem completing_tended :
    replica.system.Along replica.Tended (alikeStart Unit leftKey) completing := by
  have hputting : replica.system.Along replica.Tended (alikeStart Unit leftKey) putting :=
    (System.along_concat _ _ _ _).mpr ⟨tended_of_not_isClient (by decide), fun h => h.1 (by decide)⟩
  have hcounting : replica.system.Along replica.Tended (alikeStart Unit leftKey) countingDown :=
    (System.along_append _ _ _ _).mpr ⟨(System.along_append _ _ _ _).mpr ⟨hputting,
      tended_of_not_isClient (by decide)⟩, fun h => h.1 (by decide), fun h => h.1 (by decide),
      trivial⟩
  refine (System.along_append _ _ _ _).mpr ⟨(System.along_append _ _ _ _).mpr
    ⟨(System.along_append _ _ _ _).mpr ⟨hcounting, ?_⟩, ?_⟩, ?_⟩
  all_goals exact tended_of_not_isClient (by decide)

theorem completing_kept :
    ((replica.system.final (alikeStart Unit leftKey) completing).books ()).kept "p:k" :=
  ⟨⟨⟨⟨⟨⟨⟨⟨⟨⟨⟨⟨"k", rfl⟩, rfl⟩, rfl⟩, rfl⟩, rfl⟩, rfl⟩, rfl⟩, rfl⟩, rfl⟩, rfl⟩, rfl⟩, rfl⟩

/-- No older build had created a key when the last scan was forgotten. -/
theorem completing_before (id : String) :
    ¬ ((replica.system.final (alikeStart Unit leftKey) completing).books ()).before id := by
  rintro ((((hid | hid) | hid) | hid) | hid)
  · exact hid
  all_goals exact nomatch hid

/-- It is listed at the mark. -/
theorem completion_lists_leftKey :
    (replica.system.final (alikeStart Unit leftKey) completing).redis.Mem (indexKey "p")
      "p:k" :=
  completion_lists_kept (F := replica) (by decide) (by decide) (leftKey_starts _)
    (completing_promised.and completing_tended) completing_stage
    (fun id hid => absurd hid (completing_before id)) completing_kept

/-- A run of a completion in the middle of which a counter is refused its
lifetime: the first scan has ended, the last scan of the registrations is
not forgotten yet. -/
def counting : List (FleetEvent Unit) :=
  [turn (), turn (), turn (), turn (), turn (), lastTurn () [], turn (), turn (), turn (), turn (),
    turn (), lastTurn () [], .kv (.call 0 (.incr "k" ⟨1, inI64_one⟩ (some hugeTtl))),
    turn (), turn (), turn (), turn (), turn (),
    lastTurn () [], turn ()]

/-- **A counter that is refused its lifetime is not listed at the mark**,
though it has been there since the last scan was forgotten, and no older
build has created a key. -/
theorem completion_misses_counter :
    replica.system.Along replica.Promised (alikeStart Unit (Redis.empty 0)) counting
      ∧ replica.Starts (alikeStart Unit (Redis.empty 0))
      ∧ (replica.system.final (alikeStart Unit (Redis.empty 0)) counting).stage ()
        = .mark false 0
      ∧ (∀ id, ¬ ((replica.system.final (alikeStart Unit (Redis.empty 0))
        counting).books ()).before id)
      ∧ ((replica.system.final (alikeStart Unit (Redis.empty 0)) counting).books ()).kept "p:k"
      ∧ ¬ (replica.system.final (alikeStart Unit (Redis.empty 0)) counting).redis.Mem
        (indexKey "p") "p:k" := by
  refine ⟨⟨promised_turn _ _, promised_turn _ _, promised_turn _ _, promised_turn _ _,
    promised_turn _ _,
    promised_peers rfl (fun _ hl => nomatch hl), promised_turn _ _, promised_turn _ _,
    promised_turn _ _, promised_turn _ _, promised_turn _ _,
    promised_data rfl (fun _ hl => nomatch hl), trivial, promised_turn _ _, promised_turn _ _,
    promised_turn _ _, promised_turn _ _, promised_turn _ _,
    promised_peers rfl (fun _ => not_peer_of_live), promised_turn _ _, trivial⟩,
    empty_starts Unit _, rfl, ?_,
    ⟨⟨⟨⟨⟨⟨⟨⟨⟨"k", rfl⟩, rfl⟩, rfl⟩, rfl⟩, rfl⟩, rfl⟩, rfl⟩, rfl⟩, rfl⟩,
    fun h => nomatch h⟩
  rintro id ((hid | hid) | hid)
  · exact hid
  · exact nomatch hid
  · exact nomatch hid

end Fleet
