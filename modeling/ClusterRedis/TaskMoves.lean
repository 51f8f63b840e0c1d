import ClusterRedis.FreshScan

/-!
# Where the steps take a task

Every invariant about where the tasks stand needs the same of a step: which
stages it can take a task to, whether a scan of the registrations began or
ended with it, which scan a listing used, and what it did to what the process
shares. That is said once, in `Moved`; what a step sends to the server is in
`Maintenance`.
-/

open RedisKv Numerals

variable {ι π : Type}

/-! ## Where a task goes -/

/-- The callers a task has. -/
def Caller.fits : Duty → Caller → Bool
  | .maintenance, tick | .maintenance, completion _ | .operator, operator | .peers, peers => true
  | _, _ => false

/-- The stages a task comes to. -/
def Stage.Fits (d : Duty) : Stage → Prop
  | idle => True
  | range c | trim c _ _ | read c _ | enter c _ _ | scan c _ _ _ _ | fetch c _ _ _ =>
      c.fits d = true
  | forget c => c.fits d = true ∧ c.looks = true
  | invalidate _ | ask | told _ | lock _ | sweep _ => d = .maintenance
  | backfill op _ _ | index op _ _ _ | mark op _ => d = if op then .operator else .maintenance
  | ready => d ≠ .peers

/-- After the registrations are listed. -/
def Concluded (unindexed : Bool) : Caller → Stage → Prop
  | .tick, st => if unindexed then ∃ seen, st = .invalidate seen else st = .ask
  | .completion started, st => st = if unindexed then .idle else .mark false started
  | .operator, st => if unindexed then st = .idle else ∃ started, st = .backfill true started 0
  | .peers, st => st = .idle

/-- After a step of a backfill. -/
def Backfills (op : Bool) (st : Stage) : Prop :=
  st = .idle ∨ (∃ started cursor, st = .backfill op started cursor)
    ∨ (∃ started batch next, st = .index op started batch next)
    ∨ (∃ started, op = true ∧ st = .mark true started)
    ∨ ∃ started, op = false ∧ st = .forget (.completion started)

/-- **Where a step takes a task**, when what its process shares stays as it
was. -/
def Next (d : Duty) : Stage → Stage → Prop
  | .idle, st => st = match d with
    | .maintenance => .range .tick
    | .operator => .forget .operator
    | .peers => .range .peers
  | .range c, st => st = .idle ∨ ∃ ids now, st = .trim c ids now
  | .trim c ids _, st => st = .idle ∨ st = .read c ids
  | .read c ids, st => st = .idle ∨ ∃ found, st = .enter c ids found
  | .enter c ids found, st => st = .scan c ids found 0 []
  | .scan _ _ _ _ _, st | .fetch _ _ _ _, st => st = .idle
  | .invalidate _, st => st = .lock true
  | .ask, st => st = .lock false ∨ ∃ complete, st = .told complete
  | .lock unindexed, st => st = .idle ∨ st = .sweep unindexed
  | .sweep unindexed, st =>
      st = .idle ∨ unindexed = false ∧ ∃ started, st = .backfill false started 0
  | .backfill op _ _, st | .index op _ _ _, st => Backfills op st
  | .mark _ _, st => st = .idle ∨ st = .ready
  | .told _, _ | .forget _, _ | .ready, _ => False

namespace Fleet

section Events

variable (F : Fleet ι π) (w : FleetWorld ι π) (i : ι) (e : FleetEvent ι)

/-- **A scan of the registrations begins.** -/
def StartsScan : Prop :=
  ∃ t, e = .task i t ∧ t.fault = none ∧ ∃ c ids found keys, w.stage i = .scan c ids found 0 keys

/-- **It is over**: the registrations that it returned have been read. -/
def EndsScan : Prop :=
  ∃ t, e = .task i t ∧ t.fault = none ∧ ∃ c ids found keys values rs,
    w.stage i = .fetch c ids found keys ∧ (Redis.mget keys w.redis).1 = .ok values
      ∧ readRegistrations F.p keys values = some rs

/-- **The last scan is forgotten.** -/
def Forgets : Prop :=
  ∃ t, e = .task i t ∧ w.holder (F.home i) = none ∧ ∃ c, w.stage i = .forget c

/-- **The mark is taken back**: the `DEL` runs. -/
def TakesBack : Prop :=
  ∃ t, e = .task i t ∧ t.fault ≠ some false ∧ ∃ seen, w.stage i = .invalidate seen

end Events

variable [DecidableEq ι] [DecidableEq π] {F : Fleet ι π} {w v : FleetWorld ι π} {i : ι} {t : Turn}
  {e : FleetEvent ι}

/-- **The registrations that a listing uses** besides those of the sorted
set: of the scan that is remembered, or of the one that the task has made. -/
inductive Uses (F : Fleet ι π) (w v : FleetWorld ι π) (i : ι) (t : Turn) (c : Caller)
    (ids : List String) (found : List Registration) (sc : PeerScan ι) : Prop
  | remembered (hst : w.stage i = .enter c ids found) (hfree : w.holder (F.home i) = none)
      (hsc : w.last (F.home i) = some sc) (hlast : v.last = w.last)
  | scanned (keys : List String) (values : List (Option (List UInt8)))
      (hst : w.stage i = .fetch c ids found keys) (hf : t.fault = none)
      (hv : (Redis.mget keys w.redis).1 = .ok values)
      (hrs : readRegistrations F.p keys values = some sc.found)
      (hlast : v.last = Function.update w.last (F.home i) (some sc))

/-- **What a step of a task does** to where it stands and to what its process
shares. -/
inductive Moves (F : Fleet ι π) (w : FleetWorld ι π) (i : ι) (t : Turn) (v : FleetWorld ι π) : Prop
  | blocked (hv : v = w) (hst : (∃ c ids found, w.stage i = .enter c ids found)
      ∨ ∃ c, w.stage i = .forget c ∧ w.holder (F.home i) ≠ none)
  | goes (st : Stage) (hnext : Next (F.duty i) (w.stage i) st)
      (hend : ¬ F.EndsScan w i (.task i t)) (hst : v.stage = Function.update w.stage i st)
      (hready : v.ready = w.ready) (hlast : v.last = w.last)
      (hscanned : ∀ j, (v.books j).scanned = (w.books j).scanned)
  | tells (complete : Bool) (hat : w.stage i = .told complete)
      (hst : v.stage = Function.update w.stage i (.lock false))
      (hready : v.ready = Function.update w.ready (F.home i) complete) (hlast : v.last = w.last)
      (hscanned : ∀ j, (v.books j).scanned = (w.books j).scanned)
  | readies (hat : w.stage i = .ready) (hst : v.stage = Function.update w.stage i .idle)
      (hready : v.ready = Function.update w.ready (F.home i) true) (hlast : v.last = w.last)
      (hscanned : ∀ j, (v.books j).scanned = (w.books j).scanned)
  | scans (c : Caller) (ids : List String) (found : List Registration) (cursor : UInt64)
      (keys : List String) (hat : w.stage i = .scan c ids found cursor keys) (hf : t.fault = none)
      (hst : v.stage = Function.update w.stage i
        (if t.reply.1 = 0 then .fetch c ids found (keys ++ t.reply.2)
          else .scan c ids found t.reply.1 (keys ++ t.reply.2)))
      (hready : v.ready = w.ready) (hlast : v.last = w.last)
      (hself : (v.books i).scanned = if cursor = 0 then w.redis.Live else (w.books i).scanned)
      (hscanned : ∀ j, j ≠ i → (v.books j).scanned = (w.books j).scanned)
  | lists (c : Caller) (ids : List String) (found : List Registration) (sc : PeerScan ι)
      (st : Stage) (huses : Uses F w v i t c ids found sc)
      (hdone : Concluded (unindexedPeer (listedRegistrations ids found sc.found)) c st)
      (hst : v.stage = Function.update w.stage i st)
      (hready : v.ready = w.ready ∨ v.ready = Function.update w.ready (F.home i) false)
      (hgated : c = .tick → unindexedPeer (listedRegistrations ids found sc.found) = true →
        v.ready (F.home i) = false)
      (hscanned : ∀ j, (v.books j).scanned = (w.books j).scanned)
  | forgets (c : Caller) (hat : w.stage i = .forget c) (hfree : w.holder (F.home i) = none)
      (hst : v.stage = Function.update w.stage i (.range c)) (hready : v.ready = w.ready)
      (hlast : v.last = Function.update w.last (F.home i) none)
      (hscanned : ∀ j, (v.books j).scanned = (w.books j).scanned)

omit [DecidableEq ι] [DecidableEq π] in
theorem not_endsScan (h : ∀ c ids found keys, w.stage i ≠ .fetch c ids found keys) :
    ¬ F.EndsScan w i (.task i t) := by
  rintro ⟨-, -, -, c, ids, found, keys, values, rs, hst, -⟩
  exact h c ids found keys hst

omit [DecidableEq ι] [DecidableEq π] in
theorem EndsScan.fault (h : F.EndsScan w i (.task i t)) : t.fault = none := by
  obtain ⟨t', ht, hf, -⟩ := h
  obtain ⟨-, rfl⟩ := FleetEvent.task.inj ht
  exact hf

omit [DecidableEq ι] [DecidableEq π] in
theorem book_scanned [DecidableEq ι] (w : FleetWorld ι π) (i j : ι) {b : TaskBooks}
    (h : b.scanned = (w.books i).scanned) :
    ((w.book i b).books j).scanned = (w.books j).scanned := by
  by_cases hji : j = i
  · subst hji
    rw [FleetWorld.book_books_self, h]
  · rw [FleetWorld.book_books_of_ne w b hji]

/-- The registrations are listed, and the caller goes on. -/
theorem moves_concluded {c : Caller} {ids : List String} {found : List Registration}
    {sc : PeerScan ι} {u : FleetWorld ι π} (hst : u.stage = w.stage) (hready : u.ready = w.ready)
    (hbooks : u.books = w.books)
    (huses : ∀ v, v.last = u.last → Uses F w v i t c ids found sc) :
    Moves F w i t (F.concluded u i t c ids found sc) := by
  have hgo : ∀ (v : FleetWorld ι π) (st : Stage), v.stage = u.stage → v.last = u.last →
      v.ready = u.ready → (∀ j, (v.books j).scanned = (u.books j).scanned) →
      Concluded (unindexedPeer (listedRegistrations ids found sc.found)) c st →
      (c = .tick → unindexedPeer (listedRegistrations ids found sc.found) = false) →
      Moves F w i t (v.goto i st) := by
    intro v st hs hl hr hb hdone hno
    refine .lists c ids found sc st (huses _ hl) hdone ?_ (Or.inl (hr.trans hready)) ?_ ?_
    · rw [← hst, ← hs]
      rfl
    · intro hc hu
      rw [hno hc] at hu
      exact nomatch hu
    · intro j
      rw [← hbooks]
      exact hb j
  unfold concluded
  cases c with
  | tick =>
    dsimp only
    split
    · next hu =>
      refine .lists .tick ids found sc
        (.invalidate (unindexedIds (listedRegistrations ids found sc.found))) (huses _ rfl) ?_ ?_
        (Or.inr ?_) ?_ ?_
      · exact (if_pos hu).mpr ⟨_, rfl⟩
      · rw [← hst]
        rfl
      · rw [← hready]
        rfl
      · exact fun _ _ => Function.update_self _ _ _
      · intro j
        rw [← hbooks]
        rfl
    · next hu =>
      refine hgo u _ rfl rfl rfl (fun _ => rfl) ?_ (fun _ => Bool.eq_false_iff.mpr hu)
      exact (if_neg hu).mpr rfl
  | completion started =>
    dsimp only
    split
    · next hu => exact hgo u _ rfl rfl rfl (fun _ => rfl) (if_pos hu).symm (fun hc => nomatch hc)
    · next hu =>
      exact hgo (u.book i _) _ rfl rfl rfl (fun j => book_scanned u i j rfl) (if_neg hu).symm
        (fun hc => nomatch hc)
  | operator =>
    dsimp only
    split
    · next hu =>
      exact hgo u _ rfl rfl rfl (fun _ => rfl) ((if_pos hu).mpr rfl) (fun hc => nomatch hc)
    · next hu =>
      exact hgo (u.book i _) _ rfl rfl rfl (fun j => book_scanned u i j rfl)
        ((if_neg hu).mpr ⟨_, rfl⟩) (fun hc => nomatch hc)
  | peers => exact hgo u _ rfl rfl rfl (fun _ => rfl) rfl (fun hc => nomatch hc)

/-- A backfill goes on after a batch. -/
theorem backfills_afterBatch (op : Bool) (started : ℕ) (next : UInt64) :
    Backfills op (afterBatch op started next) := by
  unfold afterBatch
  split
  · exact Or.inr (Or.inl ⟨_, _, rfl⟩)
  · split
    · next hop => exact Or.inr (Or.inr (Or.inr (Or.inl ⟨_, hop, rfl⟩)))
    · next hop => exact Or.inr (Or.inr (Or.inr (Or.inr ⟨_, Bool.eq_false_iff.mpr hop, rfl⟩)))

/-- **A step of a task moves it.** -/
theorem moves_taskStep (w : FleetWorld ι π) (i : ι) (t : Turn) :
    Moves F w i t (F.taskStep w i t) := by
  -- the task goes on, and its process shares what it did
  have hgo : ∀ (v : FleetWorld ι π) (st : Stage), Next (F.duty i) (w.stage i) st →
      ¬ F.EndsScan w i (.task i t) → v.stage = w.stage → v.ready = w.ready → v.last = w.last →
      (∀ j, (v.books j).scanned = (w.books j).scanned) → Moves F w i t (v.goto i st) := by
    intro v st hn he hs hr hl hb
    refine .goes st hn he ?_ hr hl hb
    rw [← hs]
    rfl
  have hplain : ∀ (s : Redis) (st : Stage), Next (F.duty i) (w.stage i) st →
      ¬ F.EndsScan w i (.task i t) → Moves F w i t (({ w with redis := s }
        : FleetWorld ι π).goto i st) :=
    fun s st hn he => hgo { w with redis := s } st hn he rfl rfl rfl (fun _ => rfl)
  unfold taskStep
  cases hst : w.stage i with
  | idle =>
    have hend := not_endsScan (F := F) (w := w) (i := i) (t := t) (by simp [hst])
    dsimp only
    cases hd : F.duty i <;> exact hplain w.redis _ (by rw [hst, hd]; rfl) hend
  | range c =>
    have hend := not_endsScan (F := F) (w := w) (i := i) (t := t) (by simp [hst])
    have hidle : Next (F.duty i) (w.stage i) .idle := by rw [hst]; exact Or.inl rfl
    refine FleetWorld.send_of (P := Moves F w i t) (hplain w.redis _ hidle hend)
      (hplain _ _ hidle hend) (fun ids _ => hplain _ _ ?_ hend)
    rw [hst]
    exact Or.inr ⟨ids, _, rfl⟩
  | trim c ids now =>
    have hend := not_endsScan (F := F) (w := w) (i := i) (t := t) (by simp [hst])
    have hidle : Next (F.duty i) (w.stage i) .idle := by rw [hst]; exact Or.inl rfl
    refine FleetWorld.send_of (P := Moves F w i t) (hplain w.redis _ hidle hend)
      (hplain _ _ hidle hend) (fun _ _ => hplain _ _ ?_ hend)
    rw [hst]
    exact Or.inr rfl
  | read c ids =>
    have hend := not_endsScan (F := F) (w := w) (i := i) (t := t) (by simp [hst])
    have hidle : Next (F.duty i) (w.stage i) .idle := by rw [hst]; exact Or.inl rfl
    refine FleetWorld.send_of (P := Moves F w i t) (hplain w.redis _ hidle hend)
      (hplain _ _ hidle hend) (fun values _ => ?_)
    split
    · next found _ =>
      refine hplain _ _ ?_ hend
      rw [hst]
      exact Or.inr ⟨found, rfl⟩
    · exact hplain _ _ hidle hend
  | enter c ids found =>
    have hend := not_endsScan (F := F) (w := w) (i := i) (t := t) (by simp [hst])
    dsimp only
    split
    · exact .blocked rfl (Or.inl ⟨c, ids, found, hst⟩)
    · next hfree =>
      split
      · next sc hsc =>
        exact moves_concluded rfl rfl rfl
          (fun v hv => .remembered hst hfree (Option.filter_eq_some_iff.mp hsc).1 hv)
      · exact hgo { w with holder := _ } _ (by rw [hst]; rfl) hend rfl rfl rfl (fun _ => rfl)
  | scan c ids found cursor keys =>
    have hend := not_endsScan (F := F) (w := w) (i := i) (t := t) (by simp [hst])
    dsimp only
    split
    · exact hgo (F.unlock w i) _ (by rw [hst]; rfl) hend rfl rfl rfl (fun _ => rfl)
    · next hf =>
      refine .scans c ids found cursor keys hst (Option.not_isSome_iff_eq_none.mp hf) rfl rfl rfl
        ?_ ?_
      · show ((w.book i _).books i).scanned = _
        rw [FleetWorld.book_books_self]
      · intro j hj
        show ((w.book i _).books j).scanned = _
        rw [FleetWorld.book_books_of_ne w _ hj]
  | fetch c ids found keys =>
    have hquit : ¬ F.EndsScan w i (.task i t) → Moves F w i t ((F.unlock w i).goto i .idle) :=
      fun he => hgo (F.unlock w i) _ (by rw [hst]; rfl) he rfl rfl rfl (fun _ => rfl)
    dsimp only
    unfold FleetWorld.send
    split
    · next hf => exact hquit (fun he => nomatch hf.symm.trans he.fault)
    · next hf => exact hquit (fun he => nomatch hf.symm.trans he.fault)
    · next hf =>
      split
      · next values hv =>
        dsimp only
        split
        · next rs hrs =>
          exact moves_concluded (u := F.unlock { w with last := _ } i) rfl rfl rfl
            (fun v hl => .scanned keys values hst hf hv hrs hl)
        · next hrs =>
          refine hquit ?_
          rintro ⟨-, -, -, c', ids', found', keys', values', rs, hst', hv', hrs'⟩
          rw [hst] at hst'
          obtain ⟨-, -, -, rfl⟩ := Stage.fetch.inj hst'
          obtain rfl := Except.ok.inj (hv.symm.trans hv')
          rw [hrs] at hrs'
          exact nomatch hrs'
      · next hv =>
        refine hquit ?_
        rintro ⟨-, -, -, c', ids', found', keys', values', rs, hst', hv', -⟩
        rw [hst] at hst'
        obtain ⟨-, -, -, rfl⟩ := Stage.fetch.inj hst'
        exact nomatch hv.symm.trans hv'
  | invalidate seen =>
    have hend := not_endsScan (F := F) (w := w) (i := i) (t := t) (by simp [hst])
    dsimp only
    split
    · exact hplain w.redis _ (by rw [hst]; rfl) hend
    · exact hgo { w with redis := _, books := _, stale := _ } _ (by rw [hst]; rfl) hend rfl rfl rfl
        (fun _ => rfl)
  | ask =>
    have hend := not_endsScan (F := F) (w := w) (i := i) (t := t) (by simp [hst])
    have hlock : Next (F.duty i) (w.stage i) (.lock false) := by rw [hst]; exact Or.inl rfl
    refine FleetWorld.send_of (P := Moves F w i t) (hplain w.redis _ hlock hend)
      (hplain _ _ hlock hend) (fun n _ => hplain _ _ ?_ hend)
    rw [hst]
    exact Or.inr ⟨_, rfl⟩
  | told complete => exact .tells complete hst rfl rfl rfl (fun _ => rfl)
  | lock unindexed =>
    have hend := not_endsScan (F := F) (w := w) (i := i) (t := t) (by simp [hst])
    dsimp only
    refine hplain w.redis _ ?_ hend
    rw [hst]
    split
    · exact Or.inr rfl
    · exact Or.inl rfl
  | sweep unindexed =>
    have hend := not_endsScan (F := F) (w := w) (i := i) (t := t) (by simp [hst])
    dsimp only
    refine hplain w.redis _ ?_ hend
    rw [hst]
    split
    · next h => exact Or.inr ⟨h.1, _, rfl⟩
    · exact Or.inl rfl
  | backfill op started cursor =>
    have hend := not_endsScan (F := F) (w := w) (i := i) (t := t) (by simp [hst])
    dsimp only
    split
    · exact hplain w.redis _ (by rw [hst]; exact Or.inl rfl) hend
    · refine hgo (w.book i _) _ ?_ hend rfl rfl rfl (fun j => book_scanned w i j ?_)
      · rw [hst]
        split
        · exact backfills_afterBatch op started _
        · exact Or.inr (Or.inr (Or.inl ⟨_, _, _, rfl⟩))
      · split <;> rfl
  | index op started batch next =>
    have hend := not_endsScan (F := F) (w := w) (i := i) (t := t) (by simp [hst])
    have hidle : Next (F.duty i) (w.stage i) .idle := by rw [hst]; exact Or.inl rfl
    refine FleetWorld.send_of (P := Moves F w i t) (hplain w.redis _ hidle hend)
      (hplain _ _ hidle hend) (fun _ _ => hplain _ _ ?_ hend)
    rw [hst]
    exact backfills_afterBatch op started next
  | forget c =>
    dsimp only
    split
    · next hheld => exact .blocked rfl (Or.inr ⟨c, hst, by rw [hheld]; exact Option.some_ne_none _⟩)
    · next hfree =>
      exact .forgets c hst hfree rfl rfl rfl (fun j => book_scanned { w with last := _ } i j rfl)
  | mark op started =>
    have hend := not_endsScan (F := F) (w := w) (i := i) (t := t) (by simp [hst])
    dsimp only
    split
    · exact hplain w.redis _ (by rw [hst]; exact Or.inl rfl) hend
    · refine hgo { w with redis := _, stale := _ } _ ?_ hend rfl rfl rfl (fun _ => rfl)
      rw [hst]
      split
      · exact Or.inr rfl
      · exact Or.inl rfl
  | ready => exact .readies hst rfl rfl rfl (fun _ => rfl)

/-- **What a step of the fleet does** to where the tasks stand and to what
their processes share. -/
inductive Moved (F : Fleet ι π) (w : FleetWorld ι π) (e : FleetEvent ι) (v : FleetWorld ι π) : Prop
  | rests (he : ∀ i t, e ≠ .task i t) (hst : v.stage = w.stage) (hready : v.ready = w.ready)
      (hlast : v.last = w.last) (hbooks : v.books = w.books)
  | moves (i : ι) (t : Turn) (he : e = .task i t) (hm : Moves F w i t v)
      (hothers : ∀ j, j ≠ i → v.stage j = w.stage j)

/-- **A step of the fleet moves at most one task.** -/
theorem moved_act (w : FleetWorld ι π) (e : FleetEvent ι) : Moved F w e (F.act w e) := by
  cases e with
  | task i t =>
    refine .moves i t rfl (moves_taskStep w i t) (fun j hj => ?_)
    rcases moves_taskStep (F := F) w i t with ⟨hv, -⟩ | ⟨_, -, -, hst⟩ | ⟨_, -, hst⟩ | ⟨-, hst⟩
      | ⟨_, _, _, _, _, -, -, hst⟩ | ⟨_, _, _, _, _, -, -, hst⟩ | ⟨_, -, -, hst⟩
    · exact congrFun (congrArg FleetWorld.stage hv) j
    all_goals exact (congrFun hst j).trans (Function.update_of_ne hj _ _)
  | _ => exact .rests (fun _ _ h => nomatch h) rfl rfl rfl rfl

/-- What a scan of another task knows stays. -/
theorem Moves.scanned_of_ne {j : ι} (hm : Moves F w i t v) (hj : j ≠ i) :
    (v.books j).scanned = (w.books j).scanned := by
  cases hm with
  | blocked hv => rw [hv]
  | scans _ _ _ _ _ _ _ _ _ _ _ hscanned => exact hscanned j hj
  | goes _ _ _ _ _ _ hscanned | tells _ _ _ _ _ hscanned | readies _ _ _ _ hscanned
  | lists _ _ _ _ _ _ _ _ _ _ hscanned | forgets _ _ _ _ _ _ hscanned => exact hscanned j

/-! ## Tasks at their own stages -/

omit [DecidableEq ι] [DecidableEq π] in
theorem fits_of_backfills {d : Duty} {op : Bool} {st : Stage} (h : Backfills op st)
    (hd : d = if op then .operator else .maintenance) : st.Fits d := by
  rcases h with rfl | ⟨_, _, rfl⟩ | ⟨_, _, _, rfl⟩ | ⟨_, rfl, rfl⟩ | ⟨_, rfl, rfl⟩
  · exact trivial
  · exact hd
  · exact hd
  · exact hd
  · subst hd
    exact ⟨rfl, rfl⟩

omit [DecidableEq ι] [DecidableEq π] in
/-- A task goes on within what its duty is. -/
theorem fits_of_next {d : Duty} {st st' : Stage} (h : st.Fits d) (hn : Next d st st') :
    st'.Fits d := by
  cases st with
  | idle =>
    obtain rfl := hn
    cases d with
    | operator => exact ⟨rfl, rfl⟩
    | _ => exact rfl
  | range c =>
    rcases hn with rfl | ⟨ids, now, rfl⟩
    · exact trivial
    · exact h
  | trim c ids now =>
    rcases hn with rfl | rfl
    · exact trivial
    · exact h
  | read c ids =>
    rcases hn with rfl | ⟨found, rfl⟩
    · exact trivial
    · exact h
  | enter c ids found => exact hn ▸ h
  | scan c ids found cursor keys => exact hn ▸ trivial
  | fetch c ids found keys => exact hn ▸ trivial
  | invalidate seen => exact hn ▸ h
  | ask => rcases hn with rfl | ⟨complete, rfl⟩ <;> exact h
  | lock unindexed =>
    rcases hn with rfl | rfl
    · exact trivial
    · exact h
  | sweep unindexed =>
    rcases hn with rfl | ⟨-, started, rfl⟩
    · exact trivial
    · exact h
  | backfill op started cursor => exact fits_of_backfills hn h
  | index op started batch next => exact fits_of_backfills hn h
  | mark op started =>
    rcases hn with rfl | rfl
    · exact trivial
    · show d ≠ .peers
      rw [show d = if op then .operator else .maintenance from h]
      cases op <;> exact fun hd => nomatch hd
  | _ => exact hn.elim

omit [DecidableEq ι] [DecidableEq π] in
theorem fits_of_concluded {d : Duty} {c : Caller} {unindexed : Bool} {st : Stage}
    (h : c.fits d = true) (hc : Concluded unindexed c st) : st.Fits d := by
  cases c with
  | tick =>
    obtain rfl : d = .maintenance := by cases d <;> first | rfl | exact nomatch h
    cases unindexed with
    | true => obtain ⟨seen, rfl⟩ := hc; exact rfl
    | false => obtain rfl := hc; exact rfl
  | completion started =>
    obtain rfl : d = .maintenance := by cases d <;> first | rfl | exact nomatch h
    obtain rfl := hc
    cases unindexed with
    | true => exact trivial
    | false => exact rfl
  | operator =>
    obtain rfl : d = .operator := by cases d <;> first | rfl | exact nomatch h
    cases unindexed with
    | true => obtain rfl := hc; exact trivial
    | false => obtain ⟨started, rfl⟩ := hc; exact rfl
  | peers => obtain rfl := hc; exact trivial

/-- **Every task stands where its duty has it.** -/
theorem fits_act (h : ∀ i, (w.stage i).Fits (F.duty i)) (e : FleetEvent ι) (i : ι) :
    ((F.act w e).stage i).Fits (F.duty i) := by
  rcases moved_act (F := F) w e with ⟨-, hst, -⟩ | ⟨j, t, -, hm, hothers⟩
  · exact hst ▸ h i
  by_cases hij : i = j
  swap
  · exact hothers i hij ▸ h i
  subst hij
  have hi := h i
  cases hm with
  | blocked hv hat =>
    rw [hv]
    exact hi
  | goes st hn he hst =>
    rw [hst, Function.update_self]
    exact fits_of_next hi hn
  | tells complete hat hst =>
    rw [hat] at hi
    rw [hst, Function.update_self]
    exact hi
  | readies hat hst =>
    rw [hst, Function.update_self]
    exact trivial
  | scans c ids found cursor keys hat hf hst =>
    rw [hat] at hi
    rw [hst, Function.update_self]
    split <;> exact hi
  | lists c ids found sc st hu hc hst =>
    rw [hst, Function.update_self]
    refine fits_of_concluded ?_ hc
    cases hu with
    | remembered hat => rw [hat] at hi; exact hi
    | scanned keys values hat => rw [hat] at hi; exact hi
  | forgets c hat hfree hst =>
    rw [hat] at hi
    rw [hst, Function.update_self]
    exact hi.1

end Fleet
