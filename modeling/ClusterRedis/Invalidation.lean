import ClusterRedis.OperatorCompletion

/-!
# A mark and what takes it back

A replica that sees an older build takes the mark of the index back. A
completion that is under way does not notice: it looks for older builds once,
after its backfill, and then sets the mark whatever has happened since
(`Fleet.mark_brought_back`).

A replica sees an older build by reading its registration, at a read of its
own or through a scan that its process remembers. So what keeps a mark from
being brought back is when older builds are registered: a completion has been
*visited* from the moment a replica reads the registrations while one of an
older build is there, its backfill having begun (`Fleet.visit`) – or from the
beginning, when one is still remembered then (`Fleet.Remembers`). A completion
that has not been visited when it sends its mark brings no mark back
(`Fleet.mark_not_brought_back`). One that has been visited may still be
refused by its own look, and then it sends none.
-/

open RedisKv Numerals

variable {ι π : Type}

/-! ## What a step does to the mark -/

namespace Fleet

variable [DecidableEq ι] [DecidableEq π] {F : Fleet ι π} {w : FleetWorld ι π} {i : ι}

theorem concluded_stale (c : Caller) (t : Turn) (ids : List String) (found : List Registration)
    (sc : PeerScan ι) : (F.concluded w i t c ids found sc).stale = w.stale := by
  unfold concluded
  cases c with
  | tick => dsimp only; split <;> rfl
  | completion started => dsimp only; split <;> rfl
  | operator => dsimp only; split <;> rfl
  | peers => rfl

omit [DecidableEq ι] [DecidableEq π] in
/-- What takes the mark back leaves none. -/
theorem not_live_invalidateIndex (drv : Driver) (p : String) (s : Redis) :
    ¬ (invalidateIndex drv p s).2.Live (completeKey p) := by
  rw [invalidateIndex, Call.invoke_snd]
  unfold Redis.delete
  split
  · rw [Redis.Live, Redis.lookup_del_self]
    exact Bool.false_ne_true
  · next hl => exact hl

/-- What a step of a task does to the mark: nothing, it takes it back, or it
makes it. -/
theorem taskStep_mark (hp : F.p ≠ "") (h : IndexTyped F.p w.redis) (i : ι) (t : Turn) :
    ((F.taskStep w i t).stale = w.stale
        ∧ ((F.taskStep w i t).redis.Live (completeKey F.p) → w.redis.Live (completeKey F.p)))
      ∨ ¬ (F.taskStep w i t).redis.Live (completeKey F.p)
      ∨ ∃ op started, w.stage i = .mark op started
        ∧ (F.taskStep w i t).stale = ((w.books i).doubts ≠ []) := by
  let P : FleetWorld ι π → Prop := fun v =>
    (v.stale = w.stale ∧ (v.redis.Live (completeKey F.p) → w.redis.Live (completeKey F.p)))
      ∨ ¬ v.redis.Live (completeKey F.p)
      ∨ ∃ op started, w.stage i = .mark op started ∧ v.stale = ((w.books i).doubts ≠ [])
  have hw : P w := Or.inl ⟨rfl, fun hl => hl⟩
  have hconcluded : ∀ (v : FleetWorld ι π) (c : Caller) (ids : List String)
      (found : List Registration) (sc : PeerScan ι), P v →
      P (F.concluded v i t c ids found sc) := by
    intro v c ids found sc hv
    show (_ = _ ∧ _) ∨ _ ∨ _
    rwa [concluded_redis, concluded_stale]
  -- a change of one key that is not the mark's
  have hredis : ∀ s : Redis, (s.lookup (completeKey F.p) = w.redis.lookup (completeKey F.p)) →
      P { w with redis := s } := fun s hs => Or.inl ⟨rfl, (Redis.live_congr hs).mp⟩
  show P (F.taskStep w i t)
  unfold taskStep
  cases hst : w.stage i with
  | idle => dsimp only; cases F.duty i <;> exact hw
  | range c => exact FleetWorld.send_of_read Redis.zrangebyscore_snd hw (fun _ _ => hw)
  | trim c ids now =>
    have hne : completeKey F.p ≠ peersIndexKey F.p := fun he =>
      absurd (congrArg String.toList he) (by simp [peersIndexKey, completeKey])
    have htrim := hredis _ ((Redis.zremrangebyscore_snd (s := w.redis) (Double.round now)).1 _ hne)
    exact FleetWorld.send_of hw htrim (fun _ _ => htrim)
  | read c ids =>
    refine FleetWorld.send_of_read rfl hw (fun values _ => ?_)
    split <;> exact hw
  | enter c ids found =>
    dsimp only
    split
    · exact hw
    · split
      · exact hconcluded w c ids found _ hw
      · exact hw
  | scan c ids found cursor keys => dsimp only; split <;> exact hw
  | fetch c ids found keys =>
    refine FleetWorld.send_of_read rfl hw (fun values _ => ?_)
    dsimp only
    split
    · exact hconcluded (F.unlock { w with last := _ } i) c ids found _ hw
    · exact hw
  | invalidate seen =>
    dsimp only
    split
    · exact hw
    · refine Or.inr (Or.inl ?_)
      exact not_live_invalidateIndex F.drv F.p w.redis
  | ask => exact FleetWorld.send_of_read rfl hw (fun _ _ => hw)
  | told complete => exact hw
  | lock unindexed => exact hw
  | sweep unindexed => exact hw
  | backfill operator started cursor => dsimp only; split <;> exact hw
  | index operator started batch next =>
    have hback : P { w with
        redis := (backfillLua (indexKey F.p) (expiryKey F.p) t.clock batch w.redis).2 } :=
      Or.inl ⟨rfl, (Tended.backfill hp h t.clock batch).live_of_foreign
        (Tended.completeKey_foreign hp)⟩
    exact FleetWorld.send_of hw hback (fun _ _ => hback)
  | forget c => dsimp only; split <;> exact hw
  | mark operator started =>
    dsimp only
    split
    · exact hw
    · exact Or.inr (Or.inr ⟨operator, started, hst, rfl⟩)
  | ready => exact hw

/-- **What a step does to the mark.** -/
theorem act_mark (hp : F.p ≠ "") (h : IndexTyped F.p w.redis) {e : FleetEvent ι}
    (he : F.Promised w e) :
    ((F.act w e).stale = w.stale
        ∧ ((F.act w e).redis.Live (completeKey F.p) → w.redis.Live (completeKey F.p)))
      ∨ ¬ (F.act w e).redis.Live (completeKey F.p)
      ∨ ∃ i t op started, e = .task i t ∧ w.stage i = .mark op started
        ∧ (F.act w e).stale = ((w.books i).doubts ≠ []) := by
  have hframed : ∀ {s : Redis}, Framed F.p w.redis s → s.Live (completeKey F.p) →
      w.redis.Live (completeKey F.p) :=
    fun hs => hs.live_of_foreign (Tended.completeKey_foreign hp)
  cases e with
  | kv e =>
    exact Or.inl ⟨rfl, hframed (Framed.step F.lua F.drv hp h e (Promised.unmarking he))⟩
  | olderWrite id key o => exact Or.inl ⟨rfl, hframed (Framed.put hp h key o)⟩
  | olderDelete key => exact Or.inl ⟨rfl, hframed (Tended.del hp h key).toFramed⟩
  | outside k o =>
    exact Or.inl ⟨rfl, (Redis.live_congr (Redis.lookup_update_of_ne _ _ he.2.1.symm)).mp⟩
  | task i t =>
    refine (taskStep_mark hp h i t).imp_right (fun hr => hr.imp_right ?_)
    rintro ⟨op, started, hst, hs⟩
    exact ⟨i, t, op, started, rfl, hst, hs⟩

end Fleet

/-! ## Registrations that are read -/

/-- **A key holds an older build's registration.** -/
def OldAt (s : Redis) (key : String) : Prop :=
  ∃ b e t reg, s.lookup key = some ⟨.str b, e⟩ ∧ utf8Text b = some t
    ∧ PeerRegistration.ofText t = some reg ∧ reg.kvIndex = false

/-- What stands beside an element of a list is what has been made of it. -/
theorem List.of_mem_zip_mapM {α β γ : Type} {f : β → Option γ} {g : α → β} {l : List α}
    {out : List γ} (h : (l.map g).mapM f = some out) {a : α} {c : γ} (hm : (a, c) ∈ l.zip out) :
    a ∈ l ∧ f (g a) = some c := by
  induction l generalizing out with
  | nil => exact absurd hm (List.not_mem_nil)
  | cons x l ih =>
    rw [List.map_cons, List.mapM_cons] at h
    obtain ⟨d, hd, h⟩ := Option.bind_eq_some_iff.mp h
    obtain ⟨out', hout, h⟩ := Option.bind_eq_some_iff.mp h
    obtain rfl := Option.some.inj h
    rcases List.mem_cons.mp hm with heq | hm
    · obtain ⟨rfl, rfl⟩ := Prod.mk.inj heq
      exact ⟨List.mem_cons_self, hd⟩
    · exact (ih hout hm).imp_left (List.mem_cons_of_mem _)

/-- **What is found has been read.** -/
theorem oldAt_of_found {p : String} {s : Redis} {keys : List String}
    {values : List (Option (List UInt8))} (hv : (Redis.mget keys s).1 = .ok values)
    {rs : List Registration} (hrs : readRegistrations p keys values = some rs)
    (hu : unindexedPeer rs = true) : ∃ key ∈ keys, OldAt s key := by
  obtain ⟨r, hr, hi⟩ := List.any_eq_true.mp hu
  obtain rfl := Except.ok.inj hv
  obtain ⟨texts, htexts, hrs⟩ := Option.bind_eq_some_iff.mp hrs
  obtain rfl := Option.some.inj hrs
  obtain ⟨⟨key, text⟩, hm, hreg⟩ := List.mem_filterMap.mp hr
  obtain ⟨reg, hof, rfl⟩ := Option.map_eq_some_iff.mp hreg
  obtain ⟨t, htext, ht⟩ := Option.bind_eq_some_iff.mp hof
  obtain rfl : text = some t := htext
  obtain ⟨hkey, hf⟩ := List.of_mem_zip_mapM htexts hm
  refine ⟨key, hkey, ?_⟩
  -- the text is that of the string at the key
  cases hl : s.lookup key with
  | none => simp [hl] at hf
  | some o =>
    obtain ⟨v, e⟩ := o
    cases v with
    | zset z => simp [hl] at hf
    | str b =>
      simp only [hl] at hf
      obtain ⟨t', ht', heq⟩ := Option.map_eq_some_iff.mp hf
      obtain rfl := Option.some.inj heq
      exact ⟨b, e, t', reg, hl, ht', ht, by simpa using hi⟩

/-- The registrations that a task has read so far. -/
def Stage.found : Stage → List Registration
  | enter _ _ found | scan _ _ found _ _ | fetch _ _ found _ => found
  | _ => []

/-- The keys that a task's next command reads registrations at. -/
def Stage.reads (p : String) : Stage → List String
  | read _ ids => ids.map (peerKey p)
  | fetch _ _ _ keys => keys
  | _ => []

namespace Fleet

/-- **Some replica remembers an older build**: it has read its registration
in a listing that is not over, it is about to take the mark back, or the
registration is in a scan that a process remembers. -/
def Remembers (w : FleetWorld ι π) : Prop :=
  (∃ i seen, w.stage i = .invalidate seen) ∨ (∃ i, unindexedPeer (w.stage i).found = true)
    ∨ ∃ x sc, w.last x = some sc ∧ unindexedPeer sc.found = true

/-- **A replica reads the registrations while an older build's is there.** -/
def Meets (F : Fleet ι π) (w : FleetWorld ι π) : FleetEvent ι → Prop
  | .task i _ => ∃ key ∈ (w.stage i).reads F.p, OldAt w.redis key
  | _ => False

/-- **Which completions are visited after a step**: since its backfill began
a replica has read an older build's registration, or one remembered it then. -/
def visit (F : Fleet ι π) (w : FleetWorld ι π) (e : FleetEvent ι) (visited : ι → Prop) (i : ι) :
    Prop :=
  visited i ∧ ¬ Begins w i e ∨ Begins w i e ∧ Remembers w ∨ F.Meets w e

/-- A completion sends its mark next. -/
def isMark : Stage → Bool
  | .mark _ _ => true
  | _ => false

/-- A mark is sent only by a completion that has not been visited. -/
def Unvisited (x : FleetWorld ι π × (ι → Prop)) : FleetEvent ι → Prop
  | .task i _ => isMark (x.1.stage i) = true → ¬ x.2 i
  | _ => True

variable [DecidableEq ι] [DecidableEq π] {F : Fleet ι π} {w v : FleetWorld ι π} {i : ι} {t : Turn}

/-- The fleet, with what is known of the visits. -/
def visiting (F : Fleet ι π) : System (FleetWorld ι π × (ι → Prop)) (FleetEvent ι) Unit :=
  F.system.recording F.visit

/-! ## Who remembers an older build -/

/-- **What a step of a task may know of older builds**: what some replica
remembered before it, or what it has read. -/
def Recalls (F : Fleet ι π) (w : FleetWorld ι π) (e : FleetEvent ι) (v : FleetWorld ι π) : Prop :=
  (Remembers v → Remembers w ∨ F.Meets w e)
    ∧ ∀ j, (v.books j).doubts ≠ [] → (w.books j).doubts ≠ [] ∨ Remembers w

omit [DecidableEq ι] [DecidableEq π] in
theorem Recalls.congr {e : FleetEvent ι} (h : Recalls F w e v) {v' : FleetWorld ι π}
    (hst : v'.stage = v.stage) (hl : v'.last = v.last)
    (hb : ∀ j, (v'.books j).doubts = (v.books j).doubts) : Recalls F w e v' := by
  refine ⟨fun hr => h.1 ?_, fun j hd => h.2 j (hb j ▸ hd)⟩
  unfold Remembers at hr ⊢
  rwa [hst, hl] at hr

omit [DecidableEq π] in
/-- The task goes on with what remembers no more. -/
theorem Recalls.goto {e : FleetEvent ι} (h : Recalls F w e v) {st : Stage}
    (hinv : ∀ seen, st = .invalidate seen → Remembers w ∨ F.Meets w e)
    (hfound : unindexedPeer st.found = true → Remembers w ∨ F.Meets w e) :
    Recalls F w e (v.goto i st) := by
  refine ⟨?_, h.2⟩
  rintro (⟨j, seen, hj⟩ | ⟨j, hj⟩ | hlast)
  · by_cases hji : j = i
    · subst hji
      rw [FleetWorld.goto_stage_self] at hj
      exact hinv seen hj
    · rw [FleetWorld.goto_stage_of_ne v st hji] at hj
      exact h.1 (Or.inl ⟨j, seen, hj⟩)
  · by_cases hji : j = i
    · subst hji
      rw [FleetWorld.goto_stage_self] at hj
      exact hfound hj
    · rw [FleetWorld.goto_stage_of_ne v st hji] at hj
      exact h.1 (Or.inr (Or.inl ⟨j, hj⟩))
  · exact h.1 (Or.inr (Or.inr hlast))

omit [DecidableEq π] in
/-- The task goes on with what remembers nothing. -/
theorem Recalls.goto_plain {e : FleetEvent ι} (h : Recalls F w e v) {st : Stage}
    (hinv : ∀ seen, st ≠ .invalidate seen) (hfound : st.found = []) :
    Recalls F w e (v.goto i st) :=
  h.goto (fun seen hs => absurd hs (hinv seen)) (fun hu => by rw [hfound] at hu; exact nomatch hu)

omit [DecidableEq π] in
/-- What is kept beside the task is rewritten. -/
theorem Recalls.book {e : FleetEvent ι} (h : Recalls F w e v) {b : TaskBooks}
    (hd : b.doubts ≠ [] → (w.books i).doubts ≠ []) : Recalls F w e (v.book i b) := by
  refine ⟨h.1, fun j hj => ?_⟩
  by_cases hji : j = i
  · subst hji
    rw [FleetWorld.book_books_self] at hj
    exact Or.inl (hd hj)
  · rw [FleetWorld.book_books_of_ne v b hji] at hj
    exact h.2 j hj

omit [DecidableEq ι] [DecidableEq π] in
/-- An older build that a listing shows was found by one of its two reads. -/
theorem unindexedPeer_listed {ids : List String} {found legacy : List Registration}
    (h : unindexedPeer (listedRegistrations ids found legacy) = true) :
    unindexedPeer found = true ∨ unindexedPeer legacy = true := by
  obtain ⟨r, hr, hi⟩ := List.any_eq_true.mp h
  rcases List.mem_append.mp hr with hm | hm
  · exact Or.inl (List.any_eq_true.mpr ⟨r, hm, hi⟩)
  · exact Or.inr (List.any_eq_true.mpr ⟨r, List.mem_of_mem_filter hm, hi⟩)

/-- The registrations are listed, and the caller goes on. -/
theorem Recalls.concluded {e : FleetEvent ι} (h : Recalls F w e v) (hb : v.books = w.books)
    (c : Caller) {ids : List String} {found : List Registration} {sc : PeerScan ι}
    (hfound : unindexedPeer found = true → Remembers w ∨ F.Meets w e)
    (hsc : unindexedPeer sc.found = true → Remembers w ∨ F.Meets w e) :
    Recalls F w e (F.concluded v i t c ids found sc) := by
  have hbook : Recalls F w e (v.book i { v.books i with checked := sc.enrolled i }) :=
    h.book (fun hd => by rwa [hb] at hd)
  unfold Fleet.concluded
  cases c with
  | tick =>
    dsimp only
    split
    · next hu =>
      refine Recalls.goto (h.congr rfl rfl (fun _ => rfl)) (fun _ _ => ?_) (fun hn => nomatch hn)
      exact (unindexedPeer_listed hu).elim hfound hsc
    · exact h.goto_plain (fun _ hs => nomatch hs) rfl
  | completion started =>
    dsimp only
    split
    · exact h.goto_plain (fun _ hs => nomatch hs) rfl
    · exact hbook.goto_plain (fun _ hs => nomatch hs) rfl
  | operator =>
    dsimp only
    split
    · exact h.goto_plain (fun _ hs => nomatch hs) rfl
    · exact hbook.goto_plain (fun _ hs => nomatch hs) rfl
  | peers => exact h.goto_plain (fun _ hs => nomatch hs) rfl

/-- **A step of a task knows of no older build but those it has read.** -/
theorem recalls_taskStep (w : FleetWorld ι π) (i : ι) (t : Turn) :
    Recalls F w (.task i t) (F.taskStep w i t) := by
  have hw : Recalls F w (.task i t) w := ⟨Or.inl, fun _ hd => Or.inl hd⟩
  have hsent : ∀ s : Redis, Recalls F w (.task i t) { w with redis := s } := fun s =>
    hw.congr rfl rfl (fun _ => rfl)
  have hidle : Recalls F w (.task i t) (w.goto i .idle) :=
    hw.goto_plain (fun _ hs => nomatch hs) rfl
  have hsidle : ∀ s : Redis, Recalls F w (.task i t) (({ w with redis := s }
      : FleetWorld ι π).goto i .idle) := fun s =>
    (hsent s).goto_plain (fun _ hs => nomatch hs) rfl
  have hunlock : Recalls F w (.task i t) ((F.unlock w i).goto i .idle) :=
    (hw.congr rfl rfl (fun _ => rfl)).goto_plain (fun _ hs => nomatch hs) rfl
  -- what a listing has found so far is remembered
  have hheld : ∀ {found : List Registration}, (w.stage i).found = found →
      unindexedPeer found = true → Remembers w ∨ F.Meets w (.task i t) := by
    rintro found rfl hu
    exact Or.inl (Or.inr (Or.inl ⟨i, hu⟩))
  unfold taskStep
  cases hst : w.stage i with
  | idle =>
    dsimp only
    cases F.duty i <;> exact hw.goto_plain (fun _ hs => nomatch hs) rfl
  | range c =>
    exact FleetWorld.send_of (P := Recalls F w (.task i t)) hidle (hsidle _)
      (fun _ _ => (hsent _).goto_plain (fun _ hs => nomatch hs) rfl)
  | trim c ids now =>
    exact FleetWorld.send_of (P := Recalls F w (.task i t)) hidle (hsidle _)
      (fun _ _ => (hsent _).goto_plain (fun _ hs => nomatch hs) rfl)
  | read c ids =>
    refine FleetWorld.send_of (P := Recalls F w (.task i t)) hidle (hsidle _) (fun values hv => ?_)
    split
    · next found hfound =>
      refine (hsent _).goto (fun _ hs => nomatch hs) (fun hu => Or.inr ?_)
      obtain ⟨key, hkey, hold⟩ := oldAt_of_found hv hfound hu
      exact ⟨key, by rwa [hst], hold⟩
    · exact hsidle _
  | enter c ids found =>
    dsimp only
    split
    · exact hw
    · split
      · next sc hsc =>
        refine hw.concluded rfl c (hheld (by rw [hst]; rfl)) (fun hu => Or.inl (Or.inr (Or.inr ?_)))
        exact ⟨F.home i, sc, (Option.filter_eq_some_iff.mp hsc).1, hu⟩
      · refine Recalls.goto (v := { w with holder := _ }) (hw.congr rfl rfl (fun _ => rfl))
          (fun _ hs => nomatch hs) (hheld (by rw [hst]; rfl))
  | scan c ids found cursor keys =>
    dsimp only
    split
    · exact hunlock
    · have hbook := hw.book (i := i) (b := { w.books i with
          scanned := if cursor = 0 then w.redis.Live else (w.books i).scanned }) (fun hd => hd)
      refine hbook.goto ?_ ?_
      · split <;> exact fun _ hs => nomatch hs
      · split <;> exact hheld (by rw [hst]; rfl)
  | fetch c ids found keys =>
    refine FleetWorld.send_of_read (P := Recalls F w (.task i t)) rfl hunlock (fun values hv => ?_)
    dsimp only
    split
    · next rs hrs =>
      have hread : unindexedPeer rs = true → Remembers w ∨ F.Meets w (.task i t) := by
        intro hu
        obtain ⟨key, hkey, hold⟩ := oldAt_of_found hv hrs hu
        exact Or.inr ⟨key, by rwa [hst], hold⟩
      refine Recalls.concluded (v := F.unlock { w with last := _ } i) ⟨?_, hw.2⟩ rfl c
        (hheld (by rw [hst]; rfl)) hread
      rintro (hinv | hfound | ⟨x, sc, hx, hu⟩)
      · exact Or.inl (Or.inl hinv)
      · exact Or.inl (Or.inr (Or.inl hfound))
      · replace hx : Function.update w.last (F.home i) _ x = some sc := hx
        by_cases hxi : x = F.home i
        · rw [hxi, Function.update_self] at hx
          obtain rfl := Option.some.inj hx
          exact hread hu
        · rw [Function.update_of_ne hxi] at hx
          exact Or.inl (Or.inr (Or.inr ⟨x, sc, hx, hu⟩))
    · exact hunlock
  | invalidate seen =>
    dsimp only
    split
    · exact hw.goto_plain (fun _ hs => nomatch hs) rfl
    · refine Recalls.goto_plain (v := { w with redis := _, books := _, stale := _ }) ⟨?_, ?_⟩
        (fun _ hs => nomatch hs) rfl
      · exact Or.inl
      · exact fun _ _ => Or.inr (Or.inl ⟨i, seen, hst⟩)
  | ask =>
    exact FleetWorld.send_of (P := Recalls F w (.task i t))
      (hw.goto_plain (fun _ hs => nomatch hs) rfl)
      ((hsent _).goto_plain (fun _ hs => nomatch hs) rfl)
      (fun _ _ => (hsent _).goto_plain (fun _ hs => nomatch hs) rfl)
  | told complete =>
    exact (hw.congr rfl rfl (fun _ => rfl)).goto_plain (fun _ hs => nomatch hs) rfl
  | lock unindexed =>
    dsimp only
    split <;> exact hw.goto_plain (fun _ hs => nomatch hs) rfl
  | sweep unindexed =>
    dsimp only
    split <;> exact hw.goto_plain (fun _ hs => nomatch hs) rfl
  | backfill op started cursor =>
    dsimp only
    split
    · exact hidle
    · have hbook : ∀ b : TaskBooks, (b.doubts ≠ [] → (w.books i).doubts ≠ []) →
          Recalls F w (.task i t) ((w.book i { b with done := b.done ++ t.reply.2 }).goto i
            (if backfillBatch F.p t.reply.2 = [] then afterBatch op started t.reply.1
              else .index op started (backfillBatch F.p t.reply.2) t.reply.1)) := by
        intro b hb
        have h := hw.book (b := { b with done := b.done ++ t.reply.2 }) hb
        split
        · unfold afterBatch
          split
          · exact h.goto_plain (fun _ hs => nomatch hs) rfl
          · split <;> exact h.goto_plain (fun _ hs => nomatch hs) rfl
        · exact h.goto_plain (fun _ hs => nomatch hs) rfl
      refine hbook _ ?_
      split
      · exact fun hn => absurd rfl hn
      · exact fun hd => hd
  | index op started batch next =>
    refine FleetWorld.send_of (P := Recalls F w (.task i t)) hidle (hsidle _) (fun _ _ => ?_)
    unfold afterBatch
    split
    · exact (hsent _).goto_plain (fun _ hs => nomatch hs) rfl
    · split <;> exact (hsent _).goto_plain (fun _ hs => nomatch hs) rfl
  | forget c =>
    dsimp only
    split
    · exact hw
    · have hnone : Recalls F w (.task i t)
          { w with last := Function.update w.last (F.home i) none } := ⟨?_, hw.2⟩
      · have hbook := hnone.book (i := i) (b := { w.books i with
          before := (w.books i).creators
          kept := fun k => IsDataKey F.p k ∧ w.redis.Live k
          enrolled := Registered F.p w.redis }) (fun hd => hd)
        exact hbook.goto_plain (fun _ hs => nomatch hs) rfl
      rintro (hinv | hfound | ⟨x, sc, hx, hu⟩)
      · exact Or.inl (Or.inl hinv)
      · exact Or.inl (Or.inr (Or.inl hfound))
      · replace hx : Function.update w.last (F.home i) none x = some sc := hx
        by_cases hxi : x = F.home i
        · rw [hxi, Function.update_self] at hx
          exact nomatch hx
        · rw [Function.update_of_ne hxi] at hx
          exact Or.inl (Or.inr (Or.inr ⟨x, sc, hx, hu⟩))
  | mark op started =>
    dsimp only
    split
    · exact hidle
    · split <;> exact (hw.congr rfl rfl (fun _ => rfl)).goto_plain (fun _ hs => nomatch hs) rfl
  | ready => exact (hw.congr rfl rfl (fun _ => rfl)).goto_plain (fun _ hs => nomatch hs) rfl

theorem recalls_act (w : FleetWorld ι π) (e : FleetEvent ι) : Recalls F w e (F.act w e) := by
  cases e with
  | task i t => exact recalls_taskStep w i t
  | _ => exact ⟨Or.inl, fun _ hd => Or.inl hd⟩

/-! ## The mark -/

/-- A backfill that begins has not been doubted. -/
theorem doubts_of_begins {e : FleetEvent ι} (hb : Begins w i e) :
    ((F.act w e).books i).doubts = [] := by
  cases e with
  | task j t =>
    obtain ⟨rfl, hf, op, started, hst⟩ := hb
    have hstep : F.taskStep w j t = (w.book j { (w.books j).begun w.redis with
        done := ((w.books j).begun w.redis).done ++ t.reply.2 }).goto j
          (if backfillBatch F.p t.reply.2 = [] then afterBatch op started t.reply.1
            else .index op started (backfillBatch F.p t.reply.2) t.reply.1) := by
      unfold taskStep
      rw [hst]
      exact if_neg (by rw [hf]; exact Bool.false_ne_true)
    show ((F.taskStep w j t).books j).doubts = []
    rw [hstep]
    show ((w.book j _).books j).doubts = []
    rw [FleetWorld.book_books_self]
    rfl
  | _ => exact hb.elim

/-- **A mark that is there has not been taken back since its backfill began**,
and a completion that has been doubted, or may be, has been visited. -/
structure Trusted (F : Fleet ι π) (x : FleetWorld ι π × (ι → Prop)) : Prop where
  typed : IndexTyped F.p x.1.redis
  visited : ∀ i, (x.1.books i).doubts ≠ [] ∨ Remembers x.1 → x.2 i
  trusted : x.1.redis.Live (completeKey F.p) → ¬ x.1.stale

theorem trusted_step (hp : F.p ≠ "") (x : FleetWorld ι π × (ι → Prop)) (e : FleetEvent ι)
    (h : Trusted F x) (he : F.Promised x.1 e ∧ Unvisited x e) :
    Trusted F (F.visiting.step x e).2 := by
  obtain ⟨w, visited⟩ := x
  obtain ⟨hremembers, hdoubts⟩ := recalls_act (F := F) w e
  refine ⟨act_typed hp h.typed he.1, fun i hi => ?_, ?_⟩
  · show F.visit w e visited i
    replace hi : ((F.act w e).books i).doubts ≠ [] ∨ Remembers (F.act w e) := hi
    by_cases hb : Begins w i e
    · rcases hremembers (hi.resolve_left (not_not.mpr (doubts_of_begins hb))) with hr | hm
      · exact Or.inr (Or.inl ⟨hb, hr⟩)
      · exact Or.inr (Or.inr hm)
    · have hold : (w.books i).doubts ≠ [] ∨ Remembers w ∨ F.Meets w e := by
        rcases hi with hd | hr
        · exact (hdoubts i hd).imp_right Or.inl
        · exact Or.inr (hremembers hr)
      rcases hold with hd | hr | hm
      · exact Or.inl ⟨h.visited i (Or.inl hd), hb⟩
      · exact Or.inl ⟨h.visited i (Or.inr hr), hb⟩
      · exact Or.inr (Or.inr hm)
  · show (F.act w e).redis.Live (completeKey F.p) → ¬ (F.act w e).stale
    rcases act_mark hp h.typed he.1 with ⟨hs, hl⟩ | hdead | ⟨i, t, op, started, rfl, hst, hs⟩
    · intro hlive
      rw [hs]
      exact h.trusted (hl hlive)
    · exact fun hlive => absurd hlive hdead
    · intro _ hstale
      rw [hs] at hstale
      exact he.2 (by rw [hst]; rfl) (h.visited i (Or.inl hstale))

/-- **A mark is not brought back by a backfill under way**: in every state
where the index is marked complete, no replica has taken the mark back since
the start of the backfill that made it – in every run in which a completion
sends its mark only when no replica has read an older build's registration
since its backfill began, and none remembered one then. -/
theorem mark_not_brought_back (hp : F.p ≠ "") (hw : F.Starts w) {es : List (FleetEvent ι)}
    (hes : F.visiting.Along (fun x e => F.Promised x.1 e ∧ Unvisited x e) (w, fun _ => True) es)
    (hl : (F.system.final w es).redis.Live (completeKey F.p)) : ¬ (F.system.final w es).stale := by
  have hfinal := F.system.recording_final F.visit (w, fun _ => True) es
  have h := F.visiting.inv_final (I := Trusted F) (fun x e => trusted_step hp x e)
    ⟨hw.typed, fun _ _ => trivial, fun _ => hw.stale⟩ hes
  rw [← hfinal] at hl ⊢
  exact h.trusted hl

/-! ## Two replicas -/

/-- A step that sends no mark. -/
def marksNot (w : FleetWorld ι π) : FleetEvent ι → Bool
  | .task i _ => !isMark (w.stage i)
  | _ => true

omit [DecidableEq ι] [DecidableEq π] in
theorem unvisited_of_marksNot {x : FleetWorld ι π × (ι → Prop)} {e : FleetEvent ι}
    (h : marksNot x.1 e = true) : Unvisited x e := by
  cases e with
  | task i t =>
    intro hm
    rw [marksNot, hm] at h
    exact nomatch h
  | _ => trivial

/-- A step that reads no registration and begins no backfill. -/
def isQuiet (p : String) (w : FleetWorld ι π) : FleetEvent ι → Bool
  | .task i _ => (w.stage i).reads p = [] && match w.stage i with
    | .backfill _ _ cursor => cursor != 0
    | _ => true
  | _ => true

omit [DecidableEq ι] [DecidableEq π] in
/-- A quiet step visits no completion. -/
theorem visited_of_quiet {e : FleetEvent ι} (h : isQuiet F.p w e = true) {visited : ι → Prop}
    (hv : F.visit w e visited i) : visited i := by
  cases e with
  | task j t =>
    obtain ⟨hreads, hbegin⟩ := (Bool.and_eq_true _ _).mp h
    rcases hv with ⟨hv, -⟩ | ⟨⟨rfl, -, op, started, hst⟩, -⟩ | ⟨key, hkey, -⟩
    · exact hv
    · rw [hst] at hbegin
      exact nomatch hbegin
    · rw [of_decide_eq_true hreads] at hkey
      exact absurd hkey List.not_mem_nil
  | _ => exact hv.elim And.left (fun hv => hv.elim (fun hb => hb.1.elim) (fun hm => hm.elim))

/-- Two replicas, and nothing stored. -/
abbrev twinStart : FleetWorld Bool Bool := alikeStart Bool (Redis.empty 0)

/-- The first replica looks for older builds and finds none, -/
def looked : List (FleetEvent Bool) :=
  [] ++ (List.replicate 5 (turn true) ++ [lastTurnAt true 0 []])

/-- and backfills the index. -/
def backfilled : List (FleetEvent Bool) :=
  looked ++ (List.replicate 5 (turn true) ++ [lastTurnAt true 0 []])

/-- An older build registers. -/
def joined : List (FleetEvent Bool) :=
  backfilled ++ [.outside "ppeers/old" (some oldRegistration)]

/-- The second replica finds it, -/
def spotted : List (FleetEvent Bool) :=
  joined ++ (List.replicate 5 (turn false) ++ [lastTurnAt false 0 ["ppeers/old"]])

/-- and takes the mark back; the first finds it too, -/
def takenBack : List (FleetEvent Bool) :=
  spotted ++ (List.replicate 2 (turn false) ++ List.replicate 5 (turn true)
    ++ [lastTurnAt true 0 ["ppeers/old"]])

/-- and gives its completion up. -/
def refused : List (FleetEvent Bool) := takenBack ++ [turn true]

/-- The older build goes. -/
def departed : List (FleetEvent Bool) := refused ++ [.outside "ppeers/old" none]

/-- Both replicas look again, the second first, -/
def secondLooked : List (FleetEvent Bool) :=
  departed ++ (List.replicate 6 (turn false) ++ [turnAt false 20000] ++ [lastTurnAt false 20000 []])

def bothLooked : List (FleetEvent Bool) :=
  secondLooked ++ ([turnAt false 20000] ++ List.replicate 4 (turn true) ++ [turnAt true 20000]
    ++ [lastTurnAt true 20000 []])

/-- and the first backfills the index again, -/
def returned : List (FleetEvent Bool) :=
  bothLooked ++ ([turnAt true 20000] ++ List.replicate 4 (turn true))

def rebegun : List (FleetEvent Bool) := returned ++ ([] ++ [lastTurnAt true 0 []])

/-- looks, and comes to the mark. -/
def cleared : List (FleetEvent Bool) :=
  rebegun ++ (List.replicate 5 (turn true) ++ [lastTurnAt true 0 []]) ++ [turn true]

/-! The promises of the run. -/

theorem twinStart_keeps : Keeps [] [] (twins.system.final twinStart []) :=
  ⟨(IndexInv.empty "p" 0).toIndexTyped, (fun _ hl => nomatch hl), (fun _ hl => nomatch hl)⟩

theorem looked_keeps : Keeps [] [] (twins.system.final twinStart looked) :=
  Keeps.append .maintenance twinStart_keeps (by decide)

theorem backfilled_promised : twins.system.Along twins.Promised twinStart backfilled :=
  have hnone : twins.system.Along twins.Promised twinStart [] := trivial
  Keeps.append_data .maintenance
    (Keeps.append_peers .maintenance hnone twinStart_keeps (by decide) (by rfl) 0)
    looked_keeps (by decide) (by rfl) 0

theorem joined_keeps : Keeps ["ppeers/old"] [] (twins.system.final twinStart joined) := by
  rw [joined, System.final_append]
  exact Keeps.registers .maintenance (Keeps.append .maintenance looked_keeps (by decide)) _

/-- What is scanned from then on. -/
theorem cleared_scans :
    Keeps.scansAfter .maintenance twinStart false joined (List.replicate 5 (turn false)) = true
      ∧ Keeps.scansAfter .maintenance twinStart true spotted
        (List.replicate 2 (turn false) ++ List.replicate 5 (turn true)) = true
      ∧ Keeps.scansAfter .maintenance twinStart false departed
        (List.replicate 6 (turn false) ++ [turnAt false 20000]) = true
      ∧ Keeps.scansAfter .maintenance twinStart true secondLooked
        ([turnAt false 20000] ++ List.replicate 4 (turn true) ++ [turnAt true 20000]) = true
      ∧ Keeps.scansAfter .maintenance twinStart true returned [] = false
      ∧ Keeps.scansAfter .maintenance twinStart true rebegun (List.replicate 5 (turn true))
        = true := by
  decide +kernel

theorem refused_promised : twins.system.Along twins.Promised twinStart refused := by
  have hspotted : Keeps ["ppeers/old"] [] (twins.system.final twinStart spotted) :=
    Keeps.append .maintenance joined_keeps (by decide)
  have hjoined : twins.system.Along twins.Promised twinStart joined :=
    (System.along_append _ _ _ _).mpr ⟨backfilled_promised, promised_registration _ _, trivial⟩
  obtain ⟨hsecond, hfirst, -⟩ := cleared_scans
  have hfound : twins.system.Along twins.Promised twinStart spotted :=
    Keeps.append_peers .maintenance hjoined joined_keeps (by decide) hsecond 0
  have htaken : twins.system.Along twins.Promised twinStart takenBack :=
    Keeps.append_peers .maintenance hfound hspotted (by decide) hfirst 0
  exact (System.along_append _ _ _ _).mpr ⟨htaken, promised_turn _ _, trivial⟩

theorem departed_keeps : Keeps [] [] (twins.system.final twinStart departed) := by
  rw [departed, System.final_append]
  refine Keeps.leaves .maintenance ?_
  exact Keeps.append .maintenance (Keeps.append .maintenance (Keeps.append .maintenance joined_keeps
    (by decide)) (by decide)) (by decide)

theorem bothLooked_keeps : Keeps [] [] (twins.system.final twinStart bothLooked) :=
  Keeps.append .maintenance (Keeps.append .maintenance departed_keeps (by decide)) (by decide)

theorem bothLooked_promised : twins.system.Along twins.Promised twinStart bothLooked := by
  have hdeparted : twins.system.Along twins.Promised twinStart departed :=
    (System.along_append _ _ _ _).mpr ⟨refused_promised, promised_registration _ _, trivial⟩
  obtain ⟨-, -, hsecond, hfirst, -⟩ := cleared_scans
  have hlooked : twins.system.Along twins.Promised twinStart secondLooked :=
    Keeps.append_peers .maintenance hdeparted departed_keeps (by decide) hsecond 20000
  exact Keeps.append_peers .maintenance hlooked (Keeps.append .maintenance departed_keeps
    (by decide)) (by decide) hfirst 20000

theorem cleared_promised : twins.system.Along twins.Promised twinStart cleared := by
  have hreturned : Keeps [] [] (twins.system.final twinStart returned) :=
    Keeps.append .maintenance bothLooked_keeps (by decide)
  obtain ⟨-, -, -, -, hbackfill, hlast⟩ := cleared_scans
  have hbegun : twins.system.Along twins.Promised twinStart rebegun :=
    Keeps.append_data .maintenance ((System.along_append _ _ _ _).mpr
      ⟨bothLooked_promised, Keeps.promised_pauses .maintenance (by decide)⟩)
      hreturned (by decide) hbackfill 0
  exact (System.along_append _ _ _ _).mpr ⟨Keeps.append_peers .maintenance hbegun
    (hreturned.append .maintenance (by decide)) (by decide) hlast 0,
    promised_turn _ _, trivial⟩

/-! Its second backfill is not visited. -/

/-- The task takes the mark back next. -/
def isInvalidate : Stage → Bool
  | .invalidate _ => true
  | _ => false

/-- The task begins a backfill next. -/
def isBegin : Stage → Bool
  | .backfill _ _ cursor => cursor == 0
  | _ => false

omit [DecidableEq ι] [DecidableEq π] in
theorem not_remembers (hinv : ∀ i, isInvalidate (w.stage i) = false)
    (hfound : ∀ i, unindexedPeer (w.stage i).found = false)
    (hlast : ∀ x, (w.last x).all (fun sc => !unindexedPeer sc.found) = true) : ¬ Remembers w := by
  rintro (⟨i, seen, hst⟩ | ⟨i, hu⟩ | ⟨x, sc, hx, hu⟩)
  · have hno := hinv i
    rw [hst] at hno
    exact nomatch hno
  · rw [hfound i] at hu
    exact nomatch hu
  · have hno := hlast x
    rw [hx, Option.all_some, hu] at hno
    exact nomatch hno

omit [DecidableEq ι] [DecidableEq π] in
theorem begins_of_isBegin {t : Turn} (h : isBegin (w.stage i) = true) (hf : t.fault = none) :
    Begins w i (.task i t) := by
  cases hst : w.stage i with
  | backfill op started cursor =>
    rw [hst] at h
    exact ⟨rfl, hf, op, started, by rw [hst, eq_of_beq h]⟩
  | _ => rw [hst] at h; exact nomatch h

/-- Where the tasks stand when it begins, -/
theorem returned_states :
    isBegin ((twins.system.final twinStart returned).stage true) = true
      ∧ (∀ i, isInvalidate ((twins.system.final twinStart returned).stage i) = false)
      ∧ (∀ i, unindexedPeer ((twins.system.final twinStart returned).stage i).found = false)
      ∧ (∀ x, ((twins.system.final twinStart returned).last x).all
        (fun sc => !unindexedPeer sc.found) = true)
      ∧ ((twins.system.final twinStart returned).stage true).reads twins.p = [] := by
  decide +kernel

/-- and what they do then. -/
theorem cleared_states :
    twins.system.Along (fun w e => isQuiet "p" w e = true) (twins.system.final twinStart rebegun)
        ((List.replicate 5 (turn true) ++ [lastTurnAt true 0 []]) ++ [turn true])
      ∧ twins.system.Along (fun w e => marksNot w e = true) twinStart cleared
      ∧ (twins.system.final twinStart (cleared ++ [turn true])).redis.Live (completeKey "p") := by
  decide +kernel

theorem rebegun_unvisited :
    ¬ (twins.visiting.final (twinStart, fun _ => True) rebegun).2 true := by
  have hworld : (twins.visiting.final (twinStart, fun _ => True) returned).1
      = twins.system.final twinStart returned := System.recording_final _ _ _ _
  rw [rebegun, List.nil_append, System.final_append]
  show ¬ twins.visit (twins.visiting.final (twinStart, fun _ => True) returned).1 _ _ true
  rw [hworld]
  obtain ⟨hbegin, hinv, hfound, hlast, hreads⟩ := returned_states
  rintro (⟨-, hno⟩ | ⟨-, hremembers⟩ | ⟨key, hkey, -⟩)
  · exact hno (begins_of_isBegin hbegin rfl)
  · exact not_remembers hinv hfound hlast hremembers
  · rw [hreads] at hkey
    exact absurd hkey List.not_mem_nil

theorem cleared_unvisited :
    ¬ (twins.visiting.final (twinStart, fun _ => True) cleared).2 true := by
  have hworld : (twins.visiting.final (twinStart, fun _ => True) rebegun).1
      = twins.system.final twinStart rebegun := System.recording_final _ _ _ _
  obtain ⟨hquiets, -⟩ := cleared_states
  have hquiet : twins.system.Along (fun w e => isQuiet "p" w e = true)
      (twins.visiting.final (twinStart, fun _ => True) rebegun).1
      ((List.replicate 5 (turn true) ++ [lastTurnAt true 0 []]) ++ [turn true]) := by
    rw [hworld]
    exact hquiets
  rw [cleared, List.append_assoc, System.final_append]
  exact twins.visiting.inv_final (I := fun x => ¬ x.2 true)
    (fun x e hx hq hv => hx (visited_of_quiet hq hv)) rebegun_unvisited
    ((twins.system.recording_along _ _ _).mpr hquiet)

/-- **The mark that follows a refused completion stands.** -/
theorem mark_not_brought_back_cleared :
    ¬ (twins.system.final twinStart (cleared ++ [turn true])).stale := by
  obtain ⟨-, hmarks, hlive⟩ := cleared_states
  have hpromised : twins.system.Along twins.Promised twinStart (cleared ++ [turn true]) :=
    (System.along_concat _ _ _ _).mpr ⟨cleared_promised, promised_turn _ _⟩
  have hunvisited : twins.visiting.Along Unvisited (twinStart, fun _ => True)
      (cleared ++ [turn true]) := by
    refine (System.along_concat _ _ _ _).mpr ⟨?_, fun _ => cleared_unvisited⟩
    have hnot : twins.visiting.Along (fun x e => marksNot x.1 e = true)
        (twinStart, fun _ => True) cleared :=
      (twins.system.recording_along twins.visit (G := fun w e => marksNot w e = true) _ _).mpr
        hmarks
    exact hnot.mono (fun _ _ hm => unvisited_of_marksNot hm)
  exact mark_not_brought_back (F := twins) (by decide) (empty_starts Bool _)
    (((twins.system.recording_along _ _ _).mpr hpromised).and hunvisited) hlive

/-- A mark after a replica has taken the mark back. -/
theorem stale_of_mark {op : Bool} {started : ℕ} (hst : w.stage i = .mark op started)
    (hd : (w.books i).doubts ≠ []) : (F.system.step w (turn i)).2.stale := by
  show (F.taskStep w i ⟨0, 0, (1, []), true, none⟩).stale
  unfold taskStep
  rw [hst]
  exact hd

/-- A run of two replicas. One completes the index and comes to the mark;
an older build registers, and the other replica reads what it scanned. -/
def approaching : List (FleetEvent Bool) :=
  [turn true, turn true, turn true, turn true, turn true, lastTurn true [], turn true, turn true,
    turn true, turn true, turn true, lastTurn true [], turn true, turn true, turn true, turn true,
    turn true, lastTurn true [], turn true, .outside "ppeers/old" (some oldRegistration),
    turn false, turn false, turn false, turn false, turn false, lastTurn false ["ppeers/old"]]

theorem approaching_promised : twins.system.Along
    twins.Promised (alikeStart Bool (Redis.empty 0)) approaching :=
  ⟨promised_turn _ _, promised_turn _ _, promised_turn _ _, promised_turn _ _,
    promised_turn _ _, promised_peers rfl (fun _ hl => nomatch hl), promised_turn _ _,
    promised_turn _ _, promised_turn _ _, promised_turn _ _, promised_turn _ _,
    promised_data rfl (fun _ hl => nomatch hl), promised_turn _ _, promised_turn _ _,
    promised_turn _ _, promised_turn _ _, promised_turn _ _,
    promised_peers rfl (fun _ hl => nomatch hl), promised_turn _ _, promised_registration _ _,
    promised_turn _ _, promised_turn _ _, promised_turn _ _, promised_turn _ _, promised_turn _ _,
    promised_peers rfl (fun _ hl _ => List.mem_singleton.mpr (Redis.eq_of_live_put hl)), trivial⟩

/-- The other replica has seen the older build, and has taken the mark back.
Whether it has is read off the text of a registration, which is not to be
unfolded. -/
@[irreducible] def crossed : FleetWorld Bool Bool :=
  twins.system.final (alikeStart Bool (Redis.empty 0))
    (approaching ++ [turn false, turn false])

theorem crossed_states : isMark (crossed.stage true) = true
    ∧ (crossed.books true).doubts = [["old"]]
    ∧ (twins.system.step crossed (turn true)).2.redis.Live (completeKey "p") := by
  decide +kernel

theorem crossed_mark : ∃ op started, crossed.stage true = .mark op started := by
  obtain ⟨hmark, -⟩ := crossed_states
  cases hst : crossed.stage true with
  | mark op started => exact ⟨op, started, rfl⟩
  | _ => rw [hst] at hmark; exact nomatch hmark

/-- **The mark is brought back**: the first replica marks the index after
the other has taken the mark back. -/
theorem mark_brought_back :
    twins.system.Along twins.Promised
        (alikeStart Bool (Redis.empty 0)) (approaching ++ [turn false, turn false] ++ [turn true])
      ∧ twins.Starts (alikeStart Bool (Redis.empty 0))
      ∧ (twins.system.step crossed (turn true)).2.redis.Live (completeKey "p")
      ∧ (twins.system.step crossed (turn true)).2.stale := by
  obtain ⟨-, hdoubt, hlive⟩ := crossed_states
  refine ⟨?_, empty_starts Bool _, hlive, ?_⟩
  · rw [System.along_append, System.along_append]
    exact ⟨⟨approaching_promised, promised_turns (by simp)⟩, promised_turns (by simp)⟩
  · obtain ⟨op, started, hst⟩ := crossed_mark
    have hdoubts : (crossed.books true).doubts ≠ [] := by
      rw [hdoubt]
      exact List.cons_ne_nil _ _
    have hstale := stale_of_mark (F := twins) hst hdoubts
    exact hstale

end Fleet
