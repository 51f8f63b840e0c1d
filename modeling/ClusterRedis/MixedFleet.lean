import ClusterRedis.Invalidation

/-!
# Listings next to older builds

A replica lets listings read the key index while the index is marked
complete. An older build leaves keys the index misses, and what is to keep
listings from missing them is that a replica which sees it registered stops
reading the index and takes the mark back.

When the last older build goes, either it has left no unlisted key, or the
fleet must have noticed: no mark, no replica that reads the index, none that
has just read the mark, and no completion that began before it wrote
(`AtRest`). From there on no key becomes unlisted, and the next completion
finds what there is (`atRest_step`). When a fleet has noticed is said in
`ClusterRedis.OlderStays`.
-/

open RedisKv Numerals

variable {ι π : Type}

/-- **A task that cannot trust the index yet**: it has not read the mark, no
completion of its own is past its backfill, and no older build has created a
key since its backfill began. -/
def Early (b : TaskBooks) : Stage → Prop
  | .backfill _ _ cursor => cursor = 0 ∨ ∀ id, ¬ b.creators id
  | .index _ _ _ _ => ∀ id, ¬ b.creators id
  | .told complete => complete = false
  | .forget c | .range c | .trim c _ _ | .read c _ | .enter c _ _ | .scan c _ _ _ _
  | .fetch c _ _ _ => c.completes = false
  | .mark _ _ | .ready => False
  | _ => True

/-- A backfill has just ended in which no older build created a key. -/
def Ended (b : TaskBooks) : Stage → Prop
  | .mark op _ => op = true ∧ ∀ id, ¬ b.creators id
  | .forget c => c.completes = true ∧ ∀ id, ¬ b.creators id
  | _ => False

namespace Fleet

/-- Some older build is registered. -/
def OlderRegistered (F : Fleet ι π) (w : FleetWorld ι π) : Prop :=
  ∃ id, F.older id ∧ Registered F.p w.redis id

/-- **The fleet has noticed**: the index is not marked complete, no replica
reads it, and no task is about to. -/
structure Noticed (F : Fleet ι π) (w : FleetWorld ι π) : Prop where
  unmarked : ¬ w.redis.Live (completeKey F.p)
  ready : ∀ x, w.ready x = false
  early : ∀ i, Early (w.books i) (w.stage i)

/-- **No listing can be misled**: nothing is unlisted, or the fleet has
noticed. -/
def AtRest (F : Fleet ι π) (w : FleetWorld ι π) : Prop :=
  (∀ k, ¬ Gap F.p w.redis k) ∨ F.Noticed w

variable [DecidableEq ι] [DecidableEq π] {F : Fleet ι π} {w : FleetWorld ι π} {i : ι}

/-! ## Steps of a fleet at rest -/

/-- No replica reads the index, and a task still cannot trust it or has just
backfilled it. -/
def Waits (i : ι) (w : FleetWorld ι π) : Prop :=
  (∀ x, w.ready x = false) ∧ (Early (w.books i) (w.stage i) ∨ Ended (w.books i) (w.stage i))

omit [DecidableEq π] in
theorem waits_goto {st : Stage} (hr : ∀ x, w.ready x = false)
    (h : Early (w.books i) st ∨ Ended (w.books i) st) : Waits i (w.goto i st) := by
  refine ⟨hr, ?_⟩
  rwa [FleetWorld.goto_stage_self]

omit [DecidableEq π] in
theorem waits_afterBatch (hr : ∀ x, w.ready x = false) (hc : ∀ id, ¬ (w.books i).creators id)
    (op : Bool) (started : ℕ) (next : UInt64) :
    Waits i (w.goto i (afterBatch op started next)) := by
  refine waits_goto hr ?_
  unfold afterBatch
  split
  · exact Or.inl (Or.inr hc)
  · split
    · exact Or.inr ⟨rfl, hc⟩
    · exact Or.inr ⟨rfl, hc⟩

theorem waits_concluded {c : Caller} (hc : c.completes = false) (hr : ∀ x, w.ready x = false)
    (t : Turn) (ids : List String) (found : List Registration) (sc : PeerScan ι) :
    Waits i (F.concluded w i t c ids found sc) := by
  unfold concluded
  cases c with
  | tick =>
    dsimp only
    split
    · refine waits_goto (w := { w with unindexedSeen := _, ready := _ }) (fun x => ?_)
        (Or.inl trivial)
      show Function.update w.ready (F.home i) false x = false
      by_cases hx : x = F.home i
      · rw [hx, Function.update_self]
      · rw [Function.update_of_ne hx]
        exact hr x
    · exact waits_goto hr (Or.inl trivial)
  | completion started => exact nomatch hc
  | operator =>
    dsimp only
    split
    · exact waits_goto hr (Or.inl trivial)
    · exact waits_goto (w := w.book i _) hr (Or.inl (Or.inl rfl))
  | peers => exact waits_goto hr (Or.inl trivial)

/-- **A step of a task of a fleet that has noticed.** -/
theorem waits_taskStep (h : F.Noticed w) (t : Turn) : Waits i (F.taskStep w i t) := by
  have hr := h.ready
  have he := h.early i
  have hidle : Waits i (w.goto i .idle) := waits_goto hr (Or.inl trivial)
  unfold taskStep
  cases hst : w.stage i with
  | idle =>
    dsimp only
    cases F.duty i <;> exact waits_goto hr (Or.inl rfl)
  | range c =>
    rw [hst] at he
    exact FleetWorld.send_of_read (P := Waits i) Redis.zrangebyscore_snd hidle
      (fun _ _ => waits_goto hr (Or.inl he))
  | trim c ids now =>
    rw [hst] at he
    exact FleetWorld.send_of (P := Waits i) hidle
      (waits_goto (w := { w with redis := _ }) hr (Or.inl trivial))
      (fun _ _ => waits_goto (w := { w with redis := _ }) hr (Or.inl he))
  | read c ids =>
    rw [hst] at he
    refine FleetWorld.send_of_read (P := Waits i) rfl hidle (fun values _ => ?_)
    split
    · exact waits_goto hr (Or.inl he)
    · exact hidle
  | enter c ids found =>
    rw [hst] at he
    dsimp only
    split
    · exact ⟨hr, Or.inl (hst.symm ▸ he)⟩
    · split
      · exact waits_concluded he hr t ids found _
      · exact waits_goto (w := { w with holder := _ }) hr (Or.inl he)
  | scan c ids found cursor keys =>
    rw [hst] at he
    dsimp only
    split
    · exact waits_goto (w := F.unlock w i) hr (Or.inl trivial)
    · by_cases hz : t.reply.1 = 0
      · rw [if_pos hz]
        exact waits_goto (w := w.book i _) hr (Or.inl he)
      · rw [if_neg hz]
        exact waits_goto (w := w.book i _) hr (Or.inl he)
  | fetch c ids found keys =>
    rw [hst] at he
    refine FleetWorld.send_of_read (P := Waits i) rfl
      (waits_goto (w := F.unlock w i) hr (Or.inl trivial)) (fun values _ => ?_)
    dsimp only
    split
    · exact waits_concluded (w := F.unlock { w with last := _ } i) he hr t ids found _
    · exact waits_goto (w := F.unlock w i) hr (Or.inl trivial)
  | invalidate seen =>
    dsimp only
    split
    · exact waits_goto hr (Or.inl trivial)
    · exact waits_goto (w := { w with redis := _, books := _, stale := _ }) hr (Or.inl trivial)
  | ask =>
    refine FleetWorld.send_of_read (P := Waits i) rfl (waits_goto hr (Or.inl trivial))
      (fun n hn => waits_goto hr (Or.inl ?_))
    -- there is no mark to be read
    obtain rfl := Except.ok.inj hn
    have hnone : (w.redis.lookup (completeKey F.p)).isSome = false :=
      Bool.eq_false_iff.mpr h.unmarked
    show decide (0 < if (w.redis.lookup (completeKey F.p)).isSome = true then 1 else 0) = false
    rw [hnone]
    rfl
  | told complete =>
    rw [hst] at he
    refine waits_goto (w := { w with ready := _ }) (fun x => ?_) (Or.inl trivial)
    show Function.update w.ready (F.home i) complete x = false
    by_cases hx : x = F.home i
    · rw [hx, Function.update_self]
      exact he
    · rw [Function.update_of_ne hx]
      exact hr x
  | lock unindexed =>
    dsimp only
    split <;> exact waits_goto hr (Or.inl trivial)
  | sweep unindexed =>
    dsimp only
    split
    · exact waits_goto hr (Or.inl (Or.inl rfl))
    · exact hidle
  | backfill operator started cursor =>
    rw [hst] at he
    dsimp only
    split
    · exact hidle
    · have hgo : ∀ b : TaskBooks, (∀ id, ¬ b.creators id) →
          Waits i ((w.book i { b with done := b.done ++ t.reply.2 }).goto i
            (if backfillBatch F.p t.reply.2 = [] then afterBatch operator started t.reply.1
              else .index operator started (backfillBatch F.p t.reply.2) t.reply.1)) := by
        intro b hb
        have hnone : ∀ id,
            ¬ ((w.book i { b with done := b.done ++ t.reply.2 }).books i).creators id := by
          rw [FleetWorld.book_books_self]
          exact hb
        split
        · exact waits_afterBatch (w := w.book i _) hr hnone operator started _
        · exact waits_goto (w := w.book i _) hr (Or.inl hnone)
      refine hgo _ ?_
      split
      · exact fun _ hid => hid
      · next hc => exact he.resolve_left hc
  | index operator started batch next =>
    rw [hst] at he
    exact FleetWorld.send_of (P := Waits i) hidle
      (waits_goto (w := { w with redis := _ }) hr (Or.inl trivial))
      (fun _ _ => waits_afterBatch (w := { w with redis := _ }) hr he operator started next)
  | forget c =>
    rw [hst] at he
    dsimp only
    split
    · exact ⟨hr, Or.inl (hst.symm ▸ he)⟩
    · exact waits_goto (w := FleetWorld.book { w with last := _ } i _) hr (Or.inl he)
  | mark operator started =>
    rw [hst] at he
    exact he.elim
  | ready =>
    rw [hst] at he
    exact he.elim

omit [DecidableEq ι] [DecidableEq π] in
/-- What is early for a task stays so when it does not act. -/
theorem early_note {b b' : TaskBooks} {st : Stage} (h : Early b st) {e : FleetEvent ι}
    (he : F.creator w e = none) (hb : SameBooks b b') (s : Redis) :
    Early (b'.note F.p (F.creator w e) s) st := by
  have hnone : (∀ id, ¬ b.creators id) → ∀ id, ¬ (b'.note F.p (F.creator w e) s).creators id := by
    obtain ⟨d, rfl⟩ := hb
    rintro hc id (hid | hid)
    · exact hc id hid
    · rw [he] at hid
      exact nomatch hid
  cases st with
  | backfill op started cursor => exact h.imp_right hnone
  | index op started batch next => exact hnone h
  | _ => exact h

omit [DecidableEq ι] [DecidableEq π] in
/-- A backfill in which no older build created a key leaves none unlisted. -/
theorem not_gap_of_ended {b : TaskBooks} {st : Stage} {s : Redis} (h : Ended b st)
    (hcov : Covers F.p s (b.note F.p none s) st) (k : String) : ¬ Gap F.p s k := by
  intro hk
  have hnone : (∀ id, ¬ b.creators id) → ¬ ∃ id, (b.note F.p none s).creators id := by
    rintro hc ⟨id, hid | hid⟩
    · exact hc id hid
    · exact nomatch hid
  cases st with
  | mark op started =>
    obtain ⟨rfl, hc⟩ := h
    exact hnone hc (hcov k hk)
  | forget c => exact hnone h.2 (hcov h.1 k hk)
  | _ => exact h.elim

/-- **A fleet at rest stays at rest** while no older build creates a key. -/
theorem atRest_step (hp : F.p ≠ "") (h : Tracked F w) {e : FleetEvent ι} (he : F.Sound w e)
    (hw : F.creator w e = none) (hrest : F.AtRest w) : F.AtRest (F.system.step w e).2 := by
  have hgap : ∀ k, Gap F.p (F.act w e).redis k → Gap F.p w.redis k := by
    intro k hk
    rcases gap_of_act hp h.typed he.1 he.2 hk with hold | ⟨-, id, hid⟩
    · exact hold
    · rw [hw] at hid
      exact nomatch hid
  rcases hrest with hfull | hnoticed
  · exact Or.inl (fun k hk => hfull k (hgap k hk))
  have hunmarked : ¬ (F.act w e).redis.Live (completeKey F.p) := by
    rcases act_mark hp h.typed he.1 with ⟨-, hl⟩ | hdead | ⟨i, t, op, started, rfl, hst, -⟩
    · exact fun hlive => hnoticed.unmarked (hl hlive)
    · exact hdead
    · have hearly := hnoticed.early i
      rw [hst] at hearly
      exact hearly.elim
  -- when no task acts, what is early stays so
  have hquiet : (F.act w e).ready = w.ready → (F.act w e).stage = w.stage →
      (F.act w e).books = w.books → F.AtRest (F.system.step w e).2 := by
    intro hr hst hb
    refine Or.inr ⟨hunmarked, fun x => (congrFun hr x).trans (hnoticed.ready x), fun i => ?_⟩
    show Early (((F.act w e).books i).note _ _ _) ((F.act w e).stage i)
    rw [hst, hb]
    exact early_note (hnoticed.early i) hw ⟨_, rfl⟩ _
  cases e with
  | kv e => exact hquiet rfl rfl rfl
  | olderWrite id key o => exact hquiet rfl rfl rfl
  | olderDelete key => exact hquiet rfl rfl rfl
  | outside k o => exact hquiet rfl rfl rfl
  | task i t =>
    obtain ⟨hr, hearly | hended⟩ := waits_taskStep (i := i) hnoticed t
    · refine Or.inr ⟨hunmarked, hr, fun j => ?_⟩
      show Early (((F.taskStep w i t).books j).note _ _ _) ((F.taskStep w i t).stage j)
      by_cases hji : j = i
      · subst hji
        exact early_note hearly hw ⟨_, rfl⟩ _
      · obtain ⟨hst, hb⟩ := taskStep_other (F := F) (w := w) hji t
        rw [hst]
        exact early_note (hnoticed.early j) hw hb _
    · exact Or.inl (not_gap_of_ended hended (covers_step hp h he.1 he.2 i))

end Fleet
