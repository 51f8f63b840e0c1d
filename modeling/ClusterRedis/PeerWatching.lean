import ClusterRedis.PeerNames
import ClusterRedis.PeerRefresh

/-!
# A node as its watchers see it

Who watches the peers is told of a node by polls of a list, and a list is read
piece by piece: the ids of the sorted set, what is at their keys, and what a
scan for older builds has found. In between the node registers again, lists of
others take out what is past, and time passes.

What a watcher is told of a node is decided by what its polls say
(`sentAfter_about`): polls that agree are worth one event at most. So a node
that registers in time is told of once, and never as one that left
(`stays_in_sight`), and one that registers no more is told of once as one that
left, by the first poll after its lifetime (`drops_out_of_sight`).
-/

/-! ## Polls that agree -/

/-- **What a turn says of a node**, if it lists the peers: that it is there, or
that it is not. -/
def WatchTurn.Says (id : String) (b : Bool) (t : WatchTurn) : Prop :=
  ∀ peers, t.poll = .listed peers → (id ∈ peers.map ClusterPeer.nodeId ↔ b = true)

namespace PeerWatch

/-- The events of a run that goes on after another. -/
def sentAfter (ts us : List WatchTurn) : List PeerEvent := (system.answers (after ts) us).flatten

theorem sent_append (ts us : List WatchTurn) : sent (ts ++ us) = sent ts ++ sentAfter ts us := by
  rw [sent, System.answers_append, List.flatten_append]
  rfl

variable {id : String} {b : Bool}

/-- The events of a turn are about a node as the turn says. -/
theorem turn_about {w : PeerWatch} {t : WatchTurn} (hid : id ≠ "") (ht : t.Says id b) :
    ∀ x ∈ (w.turn t).1.filterMap (PeerEvent.about id), x = b := by
  have hevents : ∀ peers, t.poll = .listed peers → ∀ e ∈ events w.last (current peers),
      ∀ x, e.about id = some x → x = b := by
    intro peers hpoll e he x hx
    have hsays : id ∈ (current peers).keys ↔ b = true := by
      rw [← PeerMap.mem_ids, mem_ids_current, and_iff_right hid]
      exact ht peers hpoll
    rcases List.mem_append.mp he with he | he
    · obtain ⟨p, hp, rfl⟩ := List.mem_map.mp he
      by_cases hpid : p.nodeId = id
      · rw [PeerEvent.about, if_pos hpid] at hx
        rw [← Option.some.inj hx, hsays.mp (hpid ▸ List.mem_map_of_mem (List.mem_filter.mp hp).1)]
      · rw [PeerEvent.about, if_neg hpid] at hx
        cases hx
    · obtain ⟨id', hid', rfl⟩ := List.mem_map.mp he
      by_cases hsame : id' = id
      · rw [PeerEvent.about, if_pos hsame] at hx
        have hout := of_decide_eq_true (List.mem_filter.mp hid').2
        rw [← Option.some.inj hx]
        exact (Bool.eq_false_iff.mpr (fun hb => hout (hsame ▸ hsays.mpr hb))).symm
      · rw [PeerEvent.about, if_neg hsame] at hx
        cases hx
  have hsub : ∀ e ∈ (w.turn t).1, ∃ peers, t.poll = .listed peers
      ∧ e ∈ events w.last (current peers) := by
    unfold turn
    split_ifs
    · exact fun _ he => absurd he List.not_mem_nil
    · exact fun _ he => absurd he List.not_mem_nil
    · cases t.poll with
      | connectionFailed => exact fun _ he => absurd he List.not_mem_nil
      | listFailed => exact fun _ he => absurd he List.not_mem_nil
      | listed peers =>
        dsimp only
        split_ifs
        · exact fun e he => ⟨peers, rfl, List.mem_of_mem_take he⟩
        · exact fun e he => ⟨peers, rfl, he⟩
  intro x hx
  obtain ⟨e, he, hex⟩ := List.mem_filterMap.mp hx
  obtain ⟨peers, hpoll, hin⟩ := hsub e he
  exact hevents peers hpoll e hin x hex

/-- A list that alternates and does not: one of it at most. -/
theorem isChain_const {a : Bool} {l : List Bool} (hc : List.IsChain (· ≠ ·) (a :: l))
    (hl : ∀ x ∈ l, x = b) : l <+: if a = b then [] else [b] := by
  cases l with
  | nil => exact List.nil_prefix
  | cons x l =>
    obtain ⟨hax, hc⟩ := List.isChain_cons_cons.mp hc
    obtain rfl := hl x List.mem_cons_self
    rw [if_neg hax]
    cases l with
    | nil => exact List.prefix_rfl
    | cons y l =>
      obtain ⟨hxy, -⟩ := List.isChain_cons_cons.mp hc
      exact absurd (hl y (List.mem_cons_of_mem _ List.mem_cons_self)).symm hxy

/-- **What a watcher is told of a node** in turns that all say whether it is
there: one event at most, that which says what it did not know; and after one of
them that succeeds it knows, as long as the stream is taken. -/
structure Told (id : String) (b : Bool) (ts us : List WatchTurn) : Prop where
  about : (sentAfter ts us).filterMap (PeerEvent.about id)
    <+: if decide (id ∈ replayed ts) = b then [] else [b]
  knows : (∃ t ∈ us, t.poll.failed = false) → (after (ts ++ us)).running = true →
    decide (id ∈ replayed (ts ++ us)) = b

/-- The events of turns that agree. -/
theorem sentAfter_about (hid : id ≠ "") (ts : List WatchTurn) {us : List WatchTurn}
    (hus : ∀ t ∈ us, t.Says id b) :
    (sentAfter ts us).filterMap (PeerEvent.about id)
      <+: if decide (id ∈ replayed ts) = b then [] else [b] := by
  have hfits := (watched (ts ++ us)).fits
  rw [sent_append, System.along_append] at hfits
  -- the events of a node alternate, and these do not
  refine isChain_const (PeerEvent.isChain_about hfits.2 id) ?_
  have hall : ∀ (us : List WatchTurn) (w : PeerWatch), (∀ t ∈ us, t.Says id b) →
      ∀ x ∈ ((system.answers w us).flatten).filterMap (PeerEvent.about id), x = b := by
    intro us
    induction us with
    | nil => exact fun _ _ _ hx => absurd hx List.not_mem_nil
    | cons t us ih =>
      intro w hus x hx
      have hcons : system.answers w (t :: us) = (w.turn t).1 :: system.answers (w.turn t).2 us :=
        rfl
      rw [hcons, List.flatten_cons, List.filterMap_append] at hx
      rcases List.mem_append.mp hx with hx | hx
      · exact turn_about hid (hus t List.mem_cons_self) x hx
      · exact ih _ (fun t' ht' => hus t' (List.mem_cons_of_mem t ht')) x hx
  exact hall us (after ts) hus

/-- A task that goes on after a turn did so before. -/
theorem running_of_turn {w : PeerWatch} {t : WatchTurn} (h : (w.turn t).2.running = true) :
    w.running = true := by
  by_contra hno
  have hstopped : w.running = false := Bool.eq_false_iff.mpr hno
  rw [turn, if_pos hstopped] at h
  exact hno h

/-- The watcher after one of them that succeeds. -/
theorem mem_replayed_iff (hid : id ≠ "") (ts : List WatchTurn) {us : List WatchTurn}
    (hus : ∀ t ∈ us, t.Says id b) (hrun : (after (ts ++ us)).running = true)
    (hone : ∃ t ∈ us, t.poll.failed = false) : id ∈ replayed (ts ++ us) ↔ b = true := by
  rw [replayed, (watched (ts ++ us)).ids hrun]
  induction us using List.reverseRecOn with
  | nil =>
    obtain ⟨t, ht, -⟩ := hone
    exact absurd ht List.not_mem_nil
  | append_singleton us t ih =>
    rw [← List.append_assoc, after_concat] at hrun ⊢
    cases hpoll : t.poll with
    | listed peers =>
      rw [turn_listed hpoll hrun, mem_ids_current, and_iff_right hid]
      exact hus t (List.mem_append_right us List.mem_cons_self) peers hpoll
    | connectionFailed | listFailed =>
      have hfailed : t.poll.failed = true := by
        rw [hpoll]
        rfl
      rw [(turn_failed hfailed).2.1]
      refine ih (fun t' ht' => hus t' (List.mem_append_left _ ht')) (running_of_turn hrun) ?_
      obtain ⟨t', ht', hok⟩ := hone
      rcases List.mem_append.mp ht' with hmem | hmem
      · exact ⟨t', hmem, hok⟩
      · rw [List.mem_singleton.mp hmem, hfailed] at hok
        cases hok

/-- **Polls that agree are worth one event at most.** -/
theorem told_of_says (hid : id ≠ "") (ts : List WatchTurn) {us : List WatchTurn}
    (hus : ∀ t ∈ us, t.Says id b) : Told id b ts us where
  about := sentAfter_about hid ts hus
  knows hone hrun := by
    have hiff := mem_replayed_iff hid ts hus hrun hone
    cases b with
    | true => exact decide_eq_true (hiff.mpr rfl)
    | false => exact decide_eq_false (fun hin => Bool.false_ne_true (hiff.mp hin))

end PeerWatch

/-! ## Polls among the nodes -/

/-- How far a poll is. -/
inductive PollStage where
  | idle
  /-- It has the ids of the sorted set, -/
  | ranged (ids : List String)
  /-- and what is at their keys. -/
  | read (ids : List String) (found : List Registration)

/-- **A watcher's poll**, and a node's task among all nodes. -/
structure PollWorld where
  world : RefreshWorld
  poll : PollStage

/-- A step: of the world; or of the watcher: a poll gets the ids, reads their
keys, and ends with what a scan has found, or fails; or the stream is closed. -/
inductive PollEvent where
  | world (e : RefreshEvent)
  | range (clock : ℕ)
  | read
  | finish (legacy : List Registration) (accepted : ℕ)
  | fail
  | close

/-- The task has been spawned, and the watcher has not polled. -/
def PollWorld.start (s : Redis) : PollWorld := ⟨RefreshWorld.start s, .idle⟩

namespace Refresher

variable (R : Refresher)

/-- A poll that failed. -/
def failedTurn : WatchTurn := ⟨false, .listFailed, 0⟩

/-- The set is read, by the watcher's clock; what is past is taken out of it
by the command behind. -/
def rangePoll (w : PollWorld) (clock : ℕ) : Option WatchTurn × PollWorld :=
  match w.poll with
  | .idle =>
    match (PeerCommand.run R.p (.range clock) w.world.peers.redis).1 with
    | .ok ids => (none, ⟨{ w.world with peers := w.world.peers.send [.trim clock] }, .ranged ids⟩)
    | .error _ => (some failedTurn, w)
  | _ => (none, w)

/-- The keys of the ids are read. -/
def readPoll (w : PollWorld) : Option WatchTurn × PollWorld :=
  match w.poll with
  | .ranged ids =>
    match readAt R.p (ids.map (peerKey R.p)) w.world.peers.redis with
    | some found => (none, { w with poll := .read ids found })
    -- one value that is not text fails the whole request
    | none => (some failedTurn, { w with poll := .idle })
  | _ => (none, w)

/-- The poll ends, with what a scan has found. -/
def finishPoll (w : PollWorld) (legacy : List Registration) (accepted : ℕ) :
    Option WatchTurn × PollWorld :=
  match w.poll with
  | .read ids found =>
    (some ⟨false, .listed ((listedRegistrations ids found legacy).map clusterPeer), accepted⟩,
      { w with poll := .idle })
  | _ => (none, w)

/-- A request of the poll fails, or the connection. -/
def failPoll (w : PollWorld) : Option WatchTurn × PollWorld :=
  match w.poll with
  | .idle => (some ⟨false, .connectionFailed, 0⟩, w)
  | _ => (some failedTurn, { w with poll := .idle })

/-- The watcher finds its stream closed. -/
def closePoll (w : PollWorld) : Option WatchTurn × PollWorld :=
  match w.poll with
  | .idle => (some ⟨true, .listFailed, 0⟩, w)
  | _ => (none, w)

/-- **The polls of `watch_peers`**, among the calls of all nodes; a step's
answer is the turn of the watcher that it ends. -/
def polls : System PollWorld PollEvent (Option WatchTurn) where
  step w
    | .world e => (none, { w with world := (R.system.step w.world e).2 })
    | .range clock => R.rangePoll w clock
    | .read => R.readPoll w
    | .finish legacy accepted => finishPoll w legacy accepted
    | .fail => failPoll w
    | .close => closePoll w

/-- **The turns of a watcher** in a run. -/
def turns (w : PollWorld) (es : List PollEvent) : List WatchTurn := R.polls.outputs Prod.snd w es

/-- **The run is in time**, and the watcher's clock is not far ahead. -/
def PollInTime (T : Timing) (w : PollWorld) : PollEvent → Prop
  | .world e => R.InTime T w.world e
  | .range clock => clock ≤ w.world.peers.redis.now + T.ahead ∧ clock < Double.exact
  | _ => True

/-- **What a step does to the world**: a step of its own, or nothing but that a
command is on its way. -/
theorem world_step (w : PollWorld) (e : PollEvent) :
    (∃ v, e = .world v ∧ (R.polls.step w e).2.world = (R.system.step w.world v).2)
      ∨ ∃ peers : PeersWorld, peers.redis = w.world.peers.redis
        ∧ (R.polls.step w e).2.world = { w.world with peers := peers } := by
  have hsame : ∃ peers : PeersWorld, peers.redis = w.world.peers.redis
      ∧ w.world = { w.world with peers := peers } := ⟨w.world.peers, rfl, rfl⟩
  cases e with
  | world v => exact Or.inl ⟨v, rfl, rfl⟩
  | range clock =>
    refine Or.inr ?_
    show ∃ peers : PeersWorld, _ ∧ (R.rangePoll w clock).2.world = _
    unfold rangePoll
    split
    · split
      · exact ⟨w.world.peers.send [.trim clock], rfl, rfl⟩
      · exact hsame
    · exact hsame
  | read =>
    refine Or.inr ?_
    show ∃ peers : PeersWorld, _ ∧ (R.readPoll w).2.world = _
    unfold readPoll
    split
    · split <;> exact hsame
    · exact hsame
  | finish legacy accepted =>
    refine Or.inr ?_
    show ∃ peers : PeersWorld, _ ∧ (finishPoll w legacy accepted).2.world = _
    unfold finishPoll
    split <;> exact hsame
  | fail =>
    refine Or.inr ?_
    show ∃ peers : PeersWorld, _ ∧ (failPoll w).2.world = _
    unfold failPoll
    split <;> exact hsame
  | close =>
    refine Or.inr ?_
    show ∃ peers : PeersWorld, _ ∧ (closePoll w).2.world = _
    unfold closePoll
    split <;> exact hsame

/-- **What a step does to the poll**, and the turn that it ends. -/
inductive PollMoves (w : PollWorld) (e : PollEvent) : Option WatchTurn → PollStage → Prop
  | stays {t : Option WatchTurn} (ht : ∀ u, t = some u → u.poll.failed = true) :
      PollMoves w e t w.poll
  | fails : PollMoves w e (some failedTurn) .idle
  | ranged (clock : ℕ) (ids : List String) (he : e = .range clock)
      (hids : (PeerCommand.run R.p (.range clock) w.world.peers.redis).1 = .ok ids) :
      PollMoves w e none (.ranged ids)
  | read (ids : List String) (found : List Registration) (hw : w.poll = .ranged ids)
      (hfound : readAt R.p (ids.map (peerKey R.p)) w.world.peers.redis = some found) :
      PollMoves w e none (.read ids found)
  | finished (ids : List String) (found legacy : List Registration) (accepted : ℕ)
      (he : e = .finish legacy accepted) (hw : w.poll = .read ids found) :
      PollMoves w e
        (some ⟨false, .listed ((listedRegistrations ids found legacy).map clusterPeer), accepted⟩)
        .idle

theorem poll_moves (w : PollWorld) (e : PollEvent) :
    R.PollMoves w e (R.polls.step w e).1 (R.polls.step w e).2.poll := by
  have hquiet : R.PollMoves w e none w.poll := .stays (by rintro _ ⟨⟩)
  have hfailed : ∀ u : WatchTurn, u.poll.failed = true → R.PollMoves w e (some u) w.poll :=
    fun u hu => .stays (fun v hv => Option.some.inj hv ▸ hu)
  cases e with
  | world v => exact hquiet
  | range clock =>
    show R.PollMoves w _ (R.rangePoll w clock).1 (R.rangePoll w clock).2.poll
    unfold rangePoll
    split
    · split
      · next ids hids => exact .ranged clock ids rfl hids
      · exact hfailed failedTurn rfl
    · exact hquiet
  | read =>
    show R.PollMoves w _ (R.readPoll w).1 (R.readPoll w).2.poll
    unfold readPoll
    split
    · next ids hw =>
      split
      · next found hfound => exact .read ids found hw hfound
      · exact .fails
    · exact hquiet
  | finish legacy accepted =>
    show R.PollMoves w _ (finishPoll w legacy accepted).1 (finishPoll w legacy accepted).2.poll
    unfold finishPoll
    split
    · next ids found hw => exact .finished ids found legacy accepted rfl hw
    · exact hquiet
  | fail =>
    show R.PollMoves w _ (failPoll w).1 (failPoll w).2.poll
    unfold failPoll
    split
    · exact hfailed _ rfl
    · exact .fails
  | close =>
    show R.PollMoves w _ (closePoll w).1 (closePoll w).2.poll
    unfold closePoll
    split
    · exact hfailed _ rfl
    · exact hquiet

variable {R} {T : Timing} {w : PollWorld}

/-- A turn that failed says nothing. -/
theorem says_of_failed {id : String} {b : Bool} {t : WatchTurn} (h : t.poll.failed = true) :
    t.Says id b := by
  intro peers hpoll
  rw [hpoll] at h
  exact nomatch h

/-! ## A node that registers in time -/

/-- A node that has been registered stays so: what counts as its last round is
not forgotten. -/
theorem last_step {v : RefreshWorld} (e : RefreshEvent) (h : v.last ≠ none) :
    (R.system.step v e).2.last ≠ none := by
  cases e with
  | other e => exact h
  | tick =>
    show (R.tick v).last ≠ none
    unfold Refresher.tick
    split
    · split <;> exact h
    · exact h
  | connect ok lastSeen clock =>
    show (R.connect v ok lastSeen clock).last ≠ none
    unfold Refresher.connect
    split
    · split <;> exact h
    · exact h
  | run =>
    show (R.run v).last ≠ none
    unfold Refresher.run
    split
    · dsimp only
      split
      · exact Option.some_ne_none _
      · exact h
    · exact h
  | reply =>
    show (Refresher.reply v).last ≠ none
    unfold Refresher.reply
    split <;> exact h
  | fail =>
    show (Refresher.fail v).last ≠ none
    unfold Refresher.fail
    split <;> exact h
  | stop =>
    show (Refresher.stop v).last ≠ none
    unfold Refresher.stop
    split <;> exact h

/-- What a poll has of a node that is there. -/
def PollHas (id : String) : PollStage → Prop
  | .idle => True
  | .ranged ids => id ∈ ids
  | .read _ found => ∃ reg, (id, reg) ∈ found

/-- **A node in sight**: it is registered, and a poll under way has it. -/
structure InSight (R : Refresher) (T : Timing) (w : PollWorld) : Prop where
  registers : R.Registers T w.world
  last : w.world.last ≠ none
  poll : PollHas R.id w.poll

/-- The steps of a run in time keep what they keep without polls. -/
theorem registers_polls (hT : R.reach T + T.ahead + T.stale < R.ttl) (w : PollWorld)
    (e : PollEvent) (h : R.Registers T w.world) (he : R.PollInTime T w e) :
    R.Registers T (R.polls.step w e).2.world := by
  rcases R.world_step w e with ⟨v, rfl, hworld⟩ | ⟨peers, hr, hworld⟩
  · rw [hworld]
    exact registers_step hT w.world v h he
  · rw [hworld]
    exact h.congr hr

/-- **Every step keeps a node in sight**, and a turn that lists the peers has
it. -/
theorem inSight_step (hT : R.reach T + T.ahead + T.stale < R.ttl) (w : PollWorld) (e : PollEvent)
    (h : R.InSight T w) (he : R.PollInTime T w e) :
    R.InSight T (R.polls.step w e).2
      ∧ ∀ t, (R.polls.step w e).1 = some t → t.Says R.id true := by
  obtain ⟨f, hf⟩ := Option.ne_none_iff_exists'.mp h.last
  have hlast : (R.polls.step w e).2.world.last ≠ none := by
    rcases R.world_step w e with ⟨v, -, hworld⟩ | ⟨peers, -, hworld⟩
    · rw [hworld]
      exact last_step v h.last
    · rw [hworld]
      exact h.last
  suffices hpoll : PollHas R.id (R.polls.step w e).2.poll
      ∧ ∀ t, (R.polls.step w e).1 = some t → t.Says R.id true from
    ⟨⟨registers_polls hT w e h.registers he, hlast, hpoll.1⟩, hpoll.2⟩
  have hmoves := R.poll_moves w e
  generalize (R.polls.step w e).1 = answer at hmoves ⊢
  generalize (R.polls.step w e).2.poll = stage at hmoves ⊢
  cases hmoves with
  | stays ht => exact ⟨h.poll, fun t hs => says_of_failed (ht t hs)⟩
  | fails => exact ⟨trivial, fun t hs => says_of_failed (Option.some.inj hs ▸ rfl)⟩
  | ranged clock ids hrange hids =>
    subst hrange
    refine ⟨?_, by rintro _ ⟨⟩⟩
    exact ((Redis.zrangebyscore_eq_ok hids).2 R.id).mpr (h.registers.current hT hf he.1 he.2)
  | read ids found hw hfound =>
    have hin : R.id ∈ ids := by
      have hhas := h.poll
      rwa [hw] at hhas
    refine ⟨?_, by rintro _ ⟨⟩⟩
    obtain ⟨-, rfl⟩ := readAt_eq_some_iff.mp hfound
    obtain ⟨lastSeen, hreg⟩ := h.registers.reads hf
    refine ⟨R.registration lastSeen, List.mem_filterMap.mpr
      ⟨peerKey R.p R.id, List.mem_map_of_mem hin, ?_⟩⟩
    rw [hreg, Option.map_some, nodeId_peerKey]
  | finished ids found legacy accepted hfinish hw =>
    obtain ⟨reg, hreg⟩ : ∃ reg, (R.id, reg) ∈ found := by
      have hhas := h.poll
      rwa [hw] at hhas
    refine ⟨trivial, fun t ht peers hpeers => iff_of_true ?_ rfl⟩
    rw [← Option.some.inj ht] at hpeers
    rw [← Poll.listed.inj hpeers]
    exact List.mem_map.mpr ⟨clusterPeer (R.id, reg),
      List.mem_map_of_mem (List.mem_append_left _ hreg), rfl⟩

/-- **A node that refreshes its registration in time stays in sight.** When its
lifetime is long enough for the rounds that may fail, in every run in time: from
any moment at which it has registered and a watcher is between two polls, the
watcher is told of it at most that it joined, once, and nothing if it knew it;
never that it left. And after one more poll that succeeds the watcher knows it,
as long as the stream is taken. -/
theorem stays_in_sight (R : Refresher) (T : Timing) (hid : R.id ≠ "")
    (hT : R.reach T + T.ahead + T.stale < R.ttl) (s : Redis)
    (hs : s.ZKey (peersIndexKey R.p)) (es fs : List PollEvent)
    (hes : R.polls.Along (R.PollInTime T) (PollWorld.start s) (es ++ fs))
    (hlast : (R.polls.final (PollWorld.start s) es).world.last ≠ none)
    (hpoll : (R.polls.final (PollWorld.start s) es).poll = .idle) :
    PeerWatch.Told R.id true (R.turns (PollWorld.start s) es)
      (R.turns (R.polls.final (PollWorld.start s) es) fs) := by
  obtain ⟨hes, hfs⟩ := (R.polls.along_append _ es fs).mp hes
  have hregisters := R.polls.inv_final (I := fun w => R.Registers T w.world)
    (registers_polls hT) (registers_start hs) hes
  have hsight : R.InSight T (R.polls.final (PollWorld.start s) es) :=
    ⟨hregisters, hlast, by rw [hpoll]; trivial⟩
  refine PeerWatch.told_of_says hid _ ?_
  exact R.polls.outputs_of_inv Prod.snd (fun w e h he => (inSight_step hT w e h he).1)
    (fun w e t h he => (inSight_step hT w e h he).2 t) hsight hfs

/-- A run of the world without polls is in time as it was. -/
theorem along_world {es : List RefreshEvent} {w : PollWorld}
    (h : R.system.Along (R.InTime T) w.world es) :
    R.polls.Along (R.PollInTime T) w (es.map .world) := by
  induction es generalizing w with
  | nil => trivial
  | cons e es ih => exact ⟨h.1, ih h.2⟩

/-- A poll. -/
def polled (clock : ℕ) : List PollEvent := [.range clock, .read, .finish [] 256]

/-- A poll is in time when its clock is. -/
theorem along_polled {clock : ℕ} (hclock : clock ≤ w.world.peers.redis.now + T.ahead)
    (hroom : clock < Double.exact) : R.polls.Along (R.PollInTime T) w (polled clock) :=
  ⟨⟨hclock, hroom⟩, trivial, trivial, trivial⟩

/-- The node is seen by a poll after a round of it has failed and another has
registered it. -/
theorem stays_in_sight_polled :
    (∃ t ∈ tenfold.turns (tenfold.polls.final (PollWorld.start (Redis.empty 0))
          (failedRound.map .world)) (polled 21), t.poll.failed = false)
      ∧ PeerWatch.Told tenfold.id true
        (tenfold.turns (PollWorld.start (Redis.empty 0)) (failedRound.map .world))
        (tenfold.turns (tenfold.polls.final (PollWorld.start (Redis.empty 0))
          (failedRound.map .world)) (polled 21)) :=
  ⟨by decide +kernel, stays_in_sight tenfold ⟨0, 1, 1, 0, 0⟩ (by decide) (by decide)
    (Redis.empty 0) (zkey_empty 0 _) (failedRound.map .world) (polled 21)
    ((tenfold.polls.along_append _ _ _).mpr ⟨along_world inTime_failedRound,
      along_polled (by decide +kernel) (by decide)⟩)
    (fun hc => nomatch hc) rfl⟩

/-! ## A node that registers no more -/

/-- Whoever registers under the node's id does so for its lifetime. -/
def PollOwnLifetime (R : Refresher) (w : PollWorld) : PollEvent → Prop
  | .world e => R.OwnLifetime w.world e
  | _ => True

/-- **Nobody registers under the node's id**, and no scan finds an older build
under it. -/
def PollNoRegistration (R : Refresher) (w : PollWorld) : PollEvent → Prop
  | .world e => R.NoRegistration w.world e
  | .finish legacy _ => ∀ reg, (R.id, reg) ∈ legacy → reg.kvIndex = true
  | _ => True

/-- **A node out of sight**: its key has ended, and no poll under way has read
it. -/
structure OutOfSight (R : Refresher) (t : ℕ) (w : PollWorld) : Prop where
  ends : R.Ends t w.world.peers.redis
  late : t + R.ttl < w.world.peers.redis.now
  poll : ∀ ids found, w.poll = .read ids found → ∀ reg, (R.id, reg) ∉ found

theorem ends_polls (w : PollWorld) (e : PollEvent)
    (h : R.Ends w.world.peers.redis.now w.world.peers.redis) (he : R.PollOwnLifetime w e) :
    R.Ends (R.polls.step w e).2.world.peers.redis.now (R.polls.step w e).2.world.peers.redis := by
  rcases R.world_step w e with ⟨v, rfl, hworld⟩ | ⟨peers, hr, hworld⟩
  · rw [hworld]
    exact ends_step w.world v h he
  · rw [hworld, show ({ w.world with peers := peers } : RefreshWorld).peers.redis = _ from hr]
    exact h

theorem ends_polls_kept {t : ℕ} (w : PollWorld) (e : PollEvent)
    (h : R.Ends t w.world.peers.redis) (he : R.PollNoRegistration w e) :
    R.Ends t (R.polls.step w e).2.world.peers.redis := by
  rcases R.world_step w e with ⟨v, rfl, hworld⟩ | ⟨peers, hr, hworld⟩
  · rw [hworld]
    exact ends_kept w.world v h he
  · rw [hworld, show ({ w.world with peers := peers } : RefreshWorld).peers.redis = _ from hr]
    exact h

/-- Time does not go back. -/
theorem now_polls (w : PollWorld) (e : PollEvent)
    (h : w.world.peers.redis.ZKey (peersIndexKey R.p)) :
    w.world.peers.redis.now ≤ (R.polls.step w e).2.world.peers.redis.now := by
  rcases R.world_step w e with ⟨v, rfl, hworld⟩ | ⟨peers, hr, hworld⟩
  · rw [hworld]
    rcases step_redis (R := R) w.world v with ⟨d, hr⟩ | ⟨cmd, -, hr⟩ | hr
    · rw [hr]
      exact Nat.le_add_right _ _
    · rw [hr, run_now h]
    · rw [hr]
  · rw [hworld, show ({ w.world with peers := peers } : RefreshWorld).peers.redis = _ from hr]

/-- **Every step keeps a node out of sight**, and no turn that lists the peers
has it. -/
theorem outOfSight_step {t : ℕ} (w : PollWorld) (e : PollEvent) (h : R.OutOfSight t w)
    (he : R.PollNoRegistration w e) :
    R.OutOfSight t (R.polls.step w e).2
      ∧ ∀ u, (R.polls.step w e).1 = some u → u.Says R.id false := by
  have hends := ends_polls_kept w e h.ends he
  have hlate := Nat.lt_of_lt_of_le h.late (now_polls w e h.ends.zkey)
  suffices hpoll : (∀ ids found, (R.polls.step w e).2.poll = .read ids found →
      ∀ reg, (R.id, reg) ∉ found) ∧ ∀ u, (R.polls.step w e).1 = some u → u.Says R.id false from
    ⟨⟨hends, hlate, hpoll.1⟩, hpoll.2⟩
  have hmoves := R.poll_moves w e
  generalize (R.polls.step w e).1 = answer at hmoves ⊢
  generalize (R.polls.step w e).2.poll = stage at hmoves ⊢
  cases hmoves with
  | stays ht => exact ⟨h.poll, fun u hu => says_of_failed (ht u hu)⟩
  | fails =>
    exact ⟨by rintro _ _ ⟨⟩, fun u hu => says_of_failed (Option.some.inj hu ▸ rfl)⟩
  | ranged clock ids hrange hids => exact ⟨by rintro _ _ ⟨⟩, by rintro _ ⟨⟩⟩
  | read ids found hw hfound =>
    refine ⟨fun ids' found' hp reg hreg => ?_, by rintro _ ⟨⟩⟩
    obtain ⟨rfl, rfl⟩ := PollStage.read.inj hp
    have hkeys : ∀ k ∈ ids.map (peerKey R.p), ∃ id, k = peerKey R.p id := by
      intro k hk
      obtain ⟨id, -, rfl⟩ := List.mem_map.mp hk
      exact ⟨id, rfl⟩
    have hread := mem_readAt hkeys hfound hreg
    have hgone : w.world.peers.redis.lookup (peerKey R.p R.id) = none :=
      Option.not_isSome_iff_eq_none.mp (h.ends.unlisted h.late).1
    rw [PeersWorld.valueAt, hgone] at hread
    cases hread
  | finished ids found legacy accepted hfinish hw =>
    subst hfinish
    refine ⟨by rintro _ _ ⟨⟩, fun u hu peers hpeers =>
      iff_of_false (fun hin => ?_) Bool.false_ne_true⟩
    rw [← Option.some.inj hu] at hpeers
    rw [← Poll.listed.inj hpeers, List.map_map] at hin
    obtain ⟨r, hr, hrid⟩ := List.mem_map.mp hin
    replace hrid : r.1 = R.id := hrid
    rcases List.mem_append.mp hr with hr | hr
    · exact h.poll ids found hw r.2 (hrid ▸ hr)
    -- from a scan: only older builds are taken, and it has found none under the id
    · obtain ⟨hr, hold⟩ := List.mem_filter.mp hr
      have hnew : r.2.kvIndex = true := he r.2 (hrid ▸ hr)
      rw [hnew] at hold
      cases hold

/-- **A node that registers no more drops out of sight.** In every run that
starts where the node is not registered and in which it registers for its own
lifetime: from any moment more than a lifetime after the last registration can
have run, at which a watcher is between two polls, the watcher is told of the
node at most that it left, once, and nothing if it did not know it; and after
one more poll that succeeds it does not know it, as long as the stream is
taken. -/
theorem drops_out_of_sight (R : Refresher) (hid : R.id ≠ "") (s : Redis)
    (hs : s.ZKey (peersIndexKey R.p)) (hk : s.lookup (peerKey R.p R.id) = none)
    (es fs gs : List PollEvent) (hes : R.polls.Along R.PollOwnLifetime (PollWorld.start s) es)
    (hfs : R.polls.Along R.PollNoRegistration (R.polls.final (PollWorld.start s) es) (fs ++ gs))
    (hlong : (R.polls.final (PollWorld.start s) es).world.peers.redis.now + R.ttl
      < (R.polls.final (PollWorld.start s) (es ++ fs)).world.peers.redis.now)
    (hpoll : (R.polls.final (PollWorld.start s) (es ++ fs)).poll = .idle) :
    PeerWatch.Told R.id false (R.turns (PollWorld.start s) (es ++ fs))
      (R.turns (R.polls.final (PollWorld.start s) (es ++ fs)) gs) := by
  obtain ⟨hfs, hgs⟩ := (R.polls.along_append _ fs gs).mp hfs
  rw [← System.final_append] at hgs
  have hends := R.polls.inv_final
    (I := fun w => R.Ends w.world.peers.redis.now w.world.peers.redis) ends_polls
    (ends_start hs hk) hes
  have hkept := R.polls.inv_final (I := fun w => R.Ends _ w.world.peers.redis) ends_polls_kept
    hends hfs
  rw [← System.final_append] at hkept
  have hsight : R.OutOfSight _ (R.polls.final (PollWorld.start s) (es ++ fs)) :=
    ⟨hkept, hlong, fun ids found hp => nomatch hpoll.symm.trans hp⟩
  refine PeerWatch.told_of_says hid _ ?_
  exact R.polls.outputs_of_inv Prod.snd (fun w e h he => (outOfSight_step w e h he).1)
    (fun w e t h he => (outOfSight_step w e h he).2 t) hsight hgs

/-- A poll is over when it has been run. -/
theorem poll_polled (R : Refresher) {w : PollWorld} (h : w.poll = .idle) (clock : ℕ) :
    (R.polls.final w (polled clock)).poll = .idle := by
  show (finishPoll (R.readPoll (R.rangePoll w clock).2).2 [] 256).2.poll = .idle
  rcases hids : (PeerCommand.run R.p (.range clock) w.world.peers.redis).1 with err | ids
  · have hrange : (R.rangePoll w clock).2 = w := by
      rw [rangePoll, h]
      dsimp only
      rw [hids]
    rw [hrange, readPoll, h]
    dsimp only
    rw [finishPoll, h]
    exact h
  · have hrange : (R.rangePoll w clock).2.poll = .ranged ids := by
      rw [rangePoll, h]
      dsimp only
      rw [hids]
    rw [readPoll, hrange]
    dsimp only
    split <;> rfl

/-- The first round of a node. -/
def registered : List PollEvent :=
  [.world .tick, .world (.connect true "t" 0), .world .run, .world .run]

theorem ownLifetime_registered :
    tenfold.polls.Along tenfold.PollOwnLifetime (PollWorld.start (Redis.empty 0)) registered := by
  refine ⟨?_, ?_, ?_, ?_, trivial⟩
  · exact fun _ _ hc => nomatch hc
  · exact fun _ _ hc => nomatch hc
  · intro json ttl hc
    obtain ⟨-, -, rfl⟩ := PeerCommand.set.inj (Option.some.inj hc)
    rfl
  · exact fun _ _ hc => nomatch Option.some.inj hc

/-- The node is cut off, and a hundred and one milliseconds pass. -/
def cutOff : List PollEvent := [.world .stop, .world (.other (.tick 101))]

theorem cutOff_polled (R : Refresher) (w : PollWorld) :
    R.polls.Along R.PollNoRegistration w (cutOff ++ polled 101) :=
  ⟨(fun _ _ hc => nomatch hc), (fun _ _ hc => nomatch hc), trivial, trivial,
    (fun _ hr => absurd hr List.not_mem_nil), trivial⟩

/-- The node is seen, and when it has been cut off for longer than its lifetime
it is told of as one that left. -/
theorem drops_out_of_sight_polled :
    tenfold.id ∈ PeerWatch.replayed
        (tenfold.turns (PollWorld.start (Redis.empty 0)) (registered ++ polled 0 ++ cutOff))
      ∧ PeerWatch.Told tenfold.id false
        (tenfold.turns (PollWorld.start (Redis.empty 0)) (registered ++ polled 0 ++ cutOff))
        (tenfold.turns (tenfold.polls.final (PollWorld.start (Redis.empty 0))
          (registered ++ polled 0 ++ cutOff)) (polled 101)) := by
  refine ⟨by decide +kernel, drops_out_of_sight tenfold (by decide) (Redis.empty 0)
    (zkey_empty 0 _) rfl
    (registered ++ polled 0) cutOff (polled 101) ?_ (cutOff_polled _ _) (by decide +kernel) ?_⟩
  · exact (tenfold.polls.along_append _ _ _).mpr
      ⟨ownLifetime_registered, trivial, trivial, trivial, trivial⟩
  · rw [System.final_append, System.final_append]
    exact poll_polled tenfold
      (w := tenfold.polls.final (PollWorld.start (Redis.empty 0)) registered) rfl 0

end Refresher
