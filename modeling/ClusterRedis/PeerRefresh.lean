import ClusterRedis.Departures
import ClusterRedis.Registering

/-!
# A node that registers again and again

A node's registration lives for `peer_ttl_ms`, and a task of the node
registers again at every tick of an interval. A tick may be late, and a round
may fail: the connection is not there, or the registration is not answered.
So how long a node stays in the lists of the others is a matter of how many
rounds fail in a row, and of clocks: its key lives on the server's, its entry
in the sorted set ends by its own, and a reader compares that with a third.

`listed_while_refreshed` says how much of the lifetime must be left over for
the node to be in every list, and `unlisted_after_lifetime` that a node which
registers no more leaves the lists by itself. How many rounds may fail in a
row is `listed_iff_rounds_left`. The interval that is taken when none is
configured, half the lifetime, leaves nothing over for one that fails:
`missed_round_unlisted`.
-/

open Numerals

namespace RedisBackendConfig

/-- `effective_peer_refresh_interval_ms`. -/
def effectivePeerRefreshIntervalMs (cfg : RedisBackendConfig) : ℕ :=
  cfg.peerRefreshIntervalMs.getD (max (cfg.peerTtlMs / 2) 1)

end RedisBackendConfig

/-- **What a node registers**, and how often. -/
structure Refresher where
  p : String
  id : String
  address : String
  /-- `peer_ttl_ms`. -/
  ttl : ℕ
  ttl_pos : 0 < ttl
  /-- The interval of its ticks. -/
  interval : ℕ

/-- The task of a configuration. -/
def RedisBackendConfig.refresher (cfg : RedisBackendConfig) (h : 0 < cfg.peerTtlMs)
    (id address : String) : Refresher :=
  ⟨cfg.keyPrefix, id, address, cfg.peerTtlMs, h, max cfg.effectivePeerRefreshIntervalMs 1⟩

/-- Where the task stands. -/
inductive RefreshStage where
  /-- It waits for the next tick, -/
  | waiting
  /-- asks for the connection, -/
  | connecting
  /-- or registers; some commands have still to run. -/
  | registering (rest : List PeerCommand)
  | stopped

/-- **The task**, and the registrations of all nodes. -/
structure RefreshWorld where
  peers : PeersWorld
  stage : RefreshStage
  /-- When it came to where it stands. -/
  since : ℕ
  /-- When the next tick is due. -/
  deadline : ℕ
  /-- When the last tick came. -/
  fired : ℕ
  /-- The tick of the last round that registered the node. -/
  last : Option ℕ
  /-- How many rounds have failed since. -/
  missed : ℕ

/-- A step: of anybody, of time or of a command of another call; or of the
task: a tick comes, the connection is there or not, a command runs, the reply
comes, or the registration fails, and what has not run of it may run yet. -/
inductive RefreshEvent where
  | other (e : PeersEvent)
  | tick
  | connect (ok : Bool) (lastSeen : String) (clock : ℕ)
  | run
  | reply
  | fail
  | stop

namespace RefreshWorld

/-- The task has been spawned; its first tick is due. -/
def start (s : Redis) : RefreshWorld :=
  ⟨PeersWorld.start s, .waiting, s.now, s.now, s.now, none, 0⟩

/-- The task goes on. -/
def goto (w : RefreshWorld) (st : RefreshStage) : RefreshWorld :=
  { w with stage := st, since := w.peers.redis.now }

end RefreshWorld

namespace Refresher

variable (R : Refresher)

/-- What it says of itself. -/
def registration (lastSeen : String) : PeerRegistration := ⟨R.address, lastSeen, [], true⟩

/-- `register_peer`, by the node's clock. -/
def register (lastSeen : String) (clock : ℕ) : List PeerCommand :=
  registerPeer R.id (asBytes (R.registration lastSeen).text) clock R.ttl

/-- A tick comes, if it is due. One that is more than 5 ms late delays the
next. -/
def tick (w : RefreshWorld) : RefreshWorld :=
  match w.stage with
  | .waiting =>
    if w.deadline ≤ w.peers.redis.now then
      { w.goto .connecting with
        fired := w.peers.redis.now
        deadline := (if w.deadline + 5 < w.peers.redis.now then w.peers.redis.now else w.deadline)
          + R.interval }
    else w
  | _ => w

/-- The connection is there, or not. -/
def connect (w : RefreshWorld) (ok : Bool) (lastSeen : String) (clock : ℕ) : RefreshWorld :=
  match w.stage with
  | .connecting =>
    if ok then w.goto (.registering (R.register lastSeen clock))
    else { w.goto .waiting with missed := w.missed + 1 }
  | _ => w

/-- The next command of the registration runs. -/
def run (w : RefreshWorld) : RefreshWorld :=
  match w.stage with
  | .registering (cmd :: rest) =>
    { w with
      peers := { w.peers with
        redis := (cmd.run R.p w.peers.redis).2
        entered := cmd.enters w.peers.entered }
      stage := .registering rest
      last := if rest = [] then some w.fired else w.last
      missed := if rest = [] then 0 else w.missed }
  | _ => w

/-- The reply comes. -/
def reply (w : RefreshWorld) : RefreshWorld :=
  match w.stage with
  | .registering [] => w.goto .waiting
  | _ => w

/-- The registration fails, or its reply is lost. -/
def fail (w : RefreshWorld) : RefreshWorld :=
  match w.stage with
  | .registering rest =>
    { w.goto .waiting with
      peers := w.peers.send rest
      missed := if rest = [] then w.missed else w.missed + 1 }
  | _ => w

/-- The task is aborted, wherever it stands. -/
def stop (w : RefreshWorld) : RefreshWorld :=
  match w.stage with
  | .registering rest => { w.goto .stopped with peers := w.peers.send rest }
  | _ => w.goto .stopped

/-- **`spawn_peer_refresher_lazy`**, step by step, among the calls of all
nodes. -/
def system : System RefreshWorld RefreshEvent Unit where
  step w e := ((), match e with
    | .other e => { w with peers := ((PeersWorld.system R.p).step w.peers e).2 }
    | .tick => R.tick w
    | .connect ok lastSeen clock => R.connect w ok lastSeen clock
    | .run => R.run w
    | .reply => reply w
    | .fail => fail w
    | .stop => stop w)

/-! ## A refresher in time -/

/-- **What is known of the node's world**: how late a tick comes, how long a
round takes, how many rounds fail in a row, how far the node's clock was behind
at the tick of a round when it was read for the entry in the sorted set, and how
far a reader's clock is ahead. -/
structure Timing where
  late : ℕ
  round : ℕ
  missed : ℕ
  stale : ℕ
  ahead : ℕ

/-- How far two ticks are apart, at most. -/
def period (T : Timing) : ℕ := max R.interval T.round + T.late

/-- How long after the last round that registered it the node has registered
again, at most. -/
def reach (T : Timing) : ℕ := (T.missed + 1) * R.period T + T.round

/-- **A command in order**, at a time: nobody but the node registers under its
id, for its lifetime and with an entry that is not stale for a registration of
a time `base`, nobody takes it out by its id, and no reader's clock is far
ahead; all clocks are below what a double holds. -/
def InOrder (T : Timing) (base now : ℕ) : PeerCommand → Prop
  | .set id json ttl => id = R.id →
    (∃ lastSeen, json = asBytes (R.registration lastSeen).text) ∧ ttl = R.ttl
      ∧ now + R.ttl < Double.exact
  | .zadd id d => id = R.id → base + R.ttl ≤ d + T.stale ∧ d < Double.exact
  | .del id => id ≠ R.id
  | .zrem id => id ≠ R.id
  | .range _ => True
  | .trim clock => clock ≤ now + T.ahead ∧ clock < Double.exact

/-- Until when the task stays where it stands. -/
def limit (T : Timing) (w : RefreshWorld) : ℕ :=
  match w.stage with
  | .waiting => max w.deadline w.since + T.late
  | _ => w.fired + T.round

/-- **The task is in time**: no time passes but what its stage has left; what
runs is in order, for the round under way if it is the task's, and if it is
another's – the rest of a round that failed, which may run late – for the round
that registered the node last; once it has registered no more rounds fail in a
row than are known to, and it is not stopped. -/
def InTime (T : Timing) (w : RefreshWorld) : RefreshEvent → Prop
  | .other (.tick d) => w.peers.redis.now + d ≤ limit T w
  | .other (.run c) => ∀ cmd rest, w.peers.pipelines[c]? = some (cmd :: rest) →
    R.InOrder T (w.last.getD 0) w.peers.redis.now cmd
  | .run => ∀ cmd rest, w.stage = .registering (cmd :: rest) →
    R.InOrder T w.fired w.peers.redis.now cmd
  | .connect ok _ _ => ok = false → w.stage = .connecting → w.missed + 1 ≤ T.missed ∨ w.last = none
  | .fail => ∀ cmd rest, w.stage = .registering (cmd :: rest) →
    w.missed + 1 ≤ T.missed ∨ w.last = none
  | .stop => False
  | _ => True

/-! ## What a command does to the node's registration -/

/-- **The node's key** is there, until a lifetime after a time at least. -/
def KeyFrom (f : ℕ) (s : Redis) : Prop :=
  ∃ lastSeen e, s.lookup (peerKey R.p R.id)
    = some ⟨.str (asBytes (R.registration lastSeen).text), some e⟩ ∧ f + R.ttl ≤ e

/-- **The node's entry** is there, and does not end long before that. -/
def EntryFrom (T : Timing) (f : ℕ) (s : Redis) : Prop :=
  ∃ d : ℕ, s.score (peersIndexKey R.p) R.id = some (d : ℤ) ∧ f + R.ttl ≤ d + T.stale

variable {R} {T : Timing} {s : Redis} {cmd : PeerCommand} {f base : ℕ}

theorem round_natCast {n : ℕ} (h : n < Double.exact) : Double.round n = n :=
  Double.round_of_lt (by rwa [Int.natAbs_natCast])

/-- Keys of other nodes are other keys. -/
theorem peerKey_inj {p a b : String} : peerKey p a = peerKey p b ↔ a = b := by
  refine ⟨fun h => ?_, fun h => congrArg _ h⟩
  rw [← nodeId_peerKey p a, h, nodeId_peerKey]

theorem KeyFrom.mono (h : R.KeyFrom f s) {f' : ℕ} (hf : f' ≤ f) : R.KeyFrom f' s := by
  obtain ⟨lastSeen, e, hl, he⟩ := h
  exact ⟨lastSeen, e, hl, (Nat.add_le_add_right hf _).trans he⟩

/-- **The node's key is set**, for a lifetime. -/
theorem keyFrom_set {json : List UInt8} {ttl : ℕ}
    (hc : R.InOrder T base s.now (.set R.id json ttl)) :
    R.KeyFrom s.now (PeerCommand.run R.p (.set R.id json ttl) s).2 := by
  obtain ⟨⟨lastSeen, rfl⟩, rfl, hroom⟩ := hc rfl
  have hok : ExpireOk s.now R.ttl :=
    ⟨R.ttl_pos, hroom.trans (by decide)⟩
  have hlive : Obj.liveAt ⟨.str (asBytes (R.registration lastSeen).text), some (s.now + R.ttl)⟩
      s.now = true := decide_eq_true (Nat.le_add_right _ _)
  refine ⟨lastSeen, s.now + R.ttl, ?_, le_refl _⟩
  rw [PeerCommand.run, Script.discard_snd, Redis.set, if_neg (by simpa using hok)]
  exact Redis.lookup_put_self s hlive

/-- **A command in order keeps the node's key.** -/
theorem KeyFrom.run (h : R.KeyFrom f s) (hz : s.ZKey (peersIndexKey R.p)) (hf : f ≤ s.now)
    (hc : R.InOrder T base s.now cmd) : R.KeyFrom f (cmd.run R.p s).2 := by
  obtain ⟨lastSeen, e, hl, he⟩ := h
  have hframe : ∀ t : Redis, t.lookup (peerKey R.p R.id) = s.lookup (peerKey R.p R.id) →
      R.KeyFrom f t := fun t ht => ⟨lastSeen, e, ht.trans hl, he⟩
  cases cmd with
  | set id json ttl =>
    by_cases hid : id = R.id
    · subst hid
      exact (keyFrom_set hc).mono hf
    · exact hframe _ ((PeerCommand.run_set_within R.p id json ttl).frame s _
        (fun h => hid (peerKey_inj.mp h).symm))
  | del id =>
    exact hframe _ ((PeerCommand.run_del_within R.p id).frame s _
      (fun h => hc (peerKey_inj.mp h).symm))
  | range now =>
    have hsame : (PeerCommand.run R.p (.range now) s).2 = s := Redis.zrangebyscore_snd
    rw [hsame]
    exact hframe s rfl
  | zadd id d =>
    rw [PeerCommand.run_zadd hz]
    exact hframe _ (Redis.lookup_zins_of_ne s (PeersWorld.peerKey_ne_peersIndexKey _))
  | zrem id =>
    rw [PeerCommand.run_zrem hz]
    exact hframe _ (Redis.lookup_zdel_of_ne s (PeersWorld.peerKey_ne_peersIndexKey _))
  | trim clock =>
    rw [PeerCommand.run_trim hz]
    exact hframe _ ((Redis.zremrangebyscore_snd _).1 _ (PeersWorld.peerKey_ne_peersIndexKey _))

theorem EntryFrom.mono (h : R.EntryFrom T f s) {f' : ℕ} (hf : f' ≤ f) : R.EntryFrom T f' s := by
  obtain ⟨d, hd, hfresh⟩ := h
  exact ⟨d, hd, (Nat.add_le_add_right hf _).trans hfresh⟩

/-- **The node is entered**, with an end that is not stale. -/
theorem entryFrom_zadd (hz : s.ZKey (peersIndexKey R.p)) {d : ℕ}
    (hc : R.InOrder T base s.now (.zadd R.id d)) :
    R.EntryFrom T base (PeerCommand.run R.p (.zadd R.id d) s).2 := by
  obtain ⟨hfresh, hroom⟩ := hc rfl
  refine ⟨d, ?_, hfresh⟩
  rw [PeerCommand.run_zadd hz, Redis.score_zins, if_pos rfl, round_natCast hroom]

/-- **A command in order keeps the node's entry**, while it is before its end
by every clock. -/
theorem EntryFrom.run (h : R.EntryFrom T f s) (hz : s.ZKey (peersIndexKey R.p)) (hf : f ≤ base)
    (hsoon : s.now + T.ahead + T.stale < f + R.ttl) (hc : R.InOrder T base s.now cmd) :
    R.EntryFrom T f (cmd.run R.p s).2 := by
  obtain ⟨d, hd, hfresh⟩ := h
  have hframe : ∀ t : Redis, t.score (peersIndexKey R.p) R.id = s.score (peersIndexKey R.p) R.id →
      R.EntryFrom T f t := fun t ht => ⟨d, ht.trans hd, hfresh⟩
  cases cmd with
  | set id json ttl =>
    exact hframe _ (Redis.score_congr ((PeerCommand.run_set_within R.p id json ttl).frame s _
      (fun h => PeersWorld.peerKey_ne_peersIndexKey id h.symm)))
  | del id =>
    exact hframe _ (Redis.score_congr ((PeerCommand.run_del_within R.p id).frame s _
      (fun h => PeersWorld.peerKey_ne_peersIndexKey id h.symm)))
  | range now =>
    have hsame : (PeerCommand.run R.p (.range now) s).2 = s := Redis.zrangebyscore_snd
    rw [hsame]
    exact hframe s rfl
  | zadd id d' =>
    by_cases hid : id = R.id
    · subst hid
      exact (entryFrom_zadd hz hc).mono hf
    · refine hframe _ ?_
      rw [PeerCommand.run_zadd hz, Redis.score_zins, if_neg (Ne.symm hid)]
  | zrem id =>
    refine hframe _ ?_
    rw [PeerCommand.run_zrem hz, Redis.score_zdel, if_neg (Ne.symm hc)]
  | trim clock =>
    obtain ⟨hahead, hroom⟩ := hc
    refine hframe _ ?_
    rw [PeerCommand.run_trim hz, Redis.score_zremrangebyscore hz, hd, round_natCast hroom]
    refine Option.filter_some_pos (decide_eq_true ?_)
    omega

/-- Time passes. -/
theorem KeyFrom.tick (h : R.KeyFrom f s) {d : ℕ} (hd : s.now + d ≤ f + R.ttl) :
    R.KeyFrom f (s.tick d) := by
  obtain ⟨lastSeen, e, hl, he⟩ := h
  refine ⟨lastSeen, e, ?_, he⟩
  rw [Redis.lookup_tick, hl]
  exact Option.filter_some_pos (decide_eq_true (hd.trans he))

theorem EntryFrom.tick (h : R.EntryFrom T f s) (hz : s.ZKey (peersIndexKey R.p)) (d : ℕ) :
    R.EntryFrom T f (s.tick d) := by
  obtain ⟨x, hx, hfresh⟩ := h
  exact ⟨x, (Redis.score_congr (hz.lookup_tick d)).trans hx, hfresh⟩

/-! ## What a run keeps -/

/-- **The task and its clock.** -/
structure Ticking (R : Refresher) (T : Timing) (w : RefreshWorld) : Prop where
  fired : w.fired ≤ w.peers.redis.now
  deadline : w.deadline ≤ w.fired + R.interval
  since : w.stage = .waiting → w.since ≤ w.fired + T.round
  now : w.peers.redis.now ≤ limit T w

/-- How many rounds have failed since the last that registered the node, the
one under way among them. -/
def rounds (w : RefreshWorld) : ℕ :=
  match w.stage with
  | .waiting => w.missed
  | .registering [] => w.missed
  | _ => w.missed + 1

/-- **Since the round that registered the node last**: few rounds have
failed, and what it registered is there. -/
structure Since (R : Refresher) (T : Timing) (w : RefreshWorld) (f : ℕ) : Prop where
  key : R.KeyFrom f w.peers.redis
  entry : R.EntryFrom T f w.peers.redis
  before : f ≤ w.fired
  missed : w.missed ≤ T.missed
  fired : w.fired ≤ f + rounds w * R.period T

/-- A registration under way: what has run of it. -/
def Partly (R : Refresher) (w : RefreshWorld) (rest : List PeerCommand) : Prop :=
  (rest = [] ∧ w.last = some w.fired)
    ∨ (∃ d, rest = [.zadd R.id d] ∧ R.KeyFrom w.fired w.peers.redis)
    ∨ ∃ lastSeen clock, rest = R.register lastSeen clock

/-- **What a run in time keeps.** -/
structure Registers (R : Refresher) (T : Timing) (w : RefreshWorld) : Prop where
  zkey : w.peers.redis.ZKey (peersIndexKey R.p)
  ticking : R.Ticking T w
  partly : ∀ rest, w.stage = .registering rest → R.Partly w rest
  last : ∀ f, w.last = some f → R.Since T w f

variable {w : RefreshWorld}

/-- A task that waits was at its last tick a period ago at most. -/
theorem Ticking.waiting (h : R.Ticking T w) (hs : w.stage = .waiting) :
    w.peers.redis.now ≤ w.fired + R.period T := by
  have hnow := h.now
  have hsince := h.since hs
  have hdeadline := h.deadline
  rw [limit, hs] at hnow
  unfold period
  dsimp only at hnow
  omega

/-- A task that does not wait was at its last tick a round ago at most. -/
theorem Ticking.busy (h : R.Ticking T w) (hs : w.stage ≠ .waiting) :
    w.peers.redis.now ≤ w.fired + T.round := by
  have hnow := h.now
  unfold limit at hnow
  revert hs hnow
  cases w.stage with
  | waiting => exact fun hs _ => absurd rfl hs
  | _ => exact fun _ hnow => hnow

/-- **The last round that registered the node is not long ago.** -/
theorem Ticking.reach (h : R.Ticking T w) (hm : w.missed ≤ T.missed)
    (hf : w.fired ≤ f + rounds w * R.period T) : w.peers.redis.now ≤ f + R.reach T := by
  have hle : w.missed * R.period T ≤ T.missed * R.period T := Nat.mul_le_mul_right _ hm
  have hreach : R.reach T = T.missed * R.period T + R.period T + T.round := by
    rw [Refresher.reach, Nat.succ_mul]
  rw [hreach]
  by_cases hs : w.stage = .waiting
  · have hnow := h.waiting hs
    rw [rounds, hs] at hf
    dsimp only at hf
    omega
  · have hnow := h.busy hs
    have hrounds : rounds w ≤ w.missed + 1 := by
      unfold rounds
      split <;> omega
    have hmul := Nat.mul_le_mul_right (R.period T) hrounds
    rw [Nat.succ_mul] at hmul
    omega

/-- A command takes no time. -/
theorem run_now {s : Redis} (hz : s.ZKey (peersIndexKey R.p)) (cmd : PeerCommand) :
    (cmd.run R.p s).2.now = s.now := by
  cases cmd with
  | set id json ttl => exact (PeerCommand.run_set_within R.p id json ttl).now s
  | del id => exact (PeerCommand.run_del_within R.p id).now s
  | range now =>
    have hsame : (PeerCommand.run R.p (.range now) s).2 = s := Redis.zrangebyscore_snd
    rw [hsame]
  | zadd id d =>
    rw [PeerCommand.run_zadd hz]
    exact Redis.zins_now s
  | zrem id =>
    rw [PeerCommand.run_zrem hz]
    exact Redis.zdel_now s
  | trim clock =>
    rw [PeerCommand.run_trim hz]
    exact Redis.zremrangebyscore_now _

/-- A step that does not concern the server. -/
theorem Registers.congr (h : R.Registers T w) {peers : PeersWorld}
    (hr : peers.redis = w.peers.redis) : R.Registers T { w with peers := peers } where
  zkey := by
    show peers.redis.ZKey _
    rw [hr]
    exact h.zkey
  ticking := by
    obtain ⟨hf, hd, hs, hn⟩ := h.ticking
    refine ⟨?_, hd, hs, ?_⟩
    · show w.fired ≤ peers.redis.now
      rwa [hr]
    · show peers.redis.now ≤ limit T w
      rwa [hr]
  partly rest hs := by
    have hpartly := h.partly rest hs
    unfold Partly at hpartly ⊢
    dsimp only
    rwa [hr]
  last f hf := by
    obtain ⟨hk, he, hb, hm, hfired⟩ := h.last f hf
    refine ⟨?_, ?_, hb, hm, hfired⟩
    · show R.KeyFrom f peers.redis
      rwa [hr]
    · show R.EntryFrom T f peers.redis
      rwa [hr]

/-- A round is shorter than the lifetime. -/
theorem round_le_reach : T.round ≤ R.reach T := Nat.le_add_left _ _

/-- **Time passes** that the stage has left. -/
theorem Registers.tick (hT : R.reach T + T.ahead + T.stale < R.ttl) (h : R.Registers T w) {d : ℕ}
    (hd : w.peers.redis.now + d ≤ limit T w) :
    R.Registers T { w with peers := { w.peers with redis := w.peers.redis.tick d } } := by
  have hticking : R.Ticking T
      { w with peers := { w.peers with redis := w.peers.redis.tick d } } :=
    ⟨h.ticking.fired.trans (Nat.le_add_right _ _), h.ticking.deadline, h.ticking.since, hd⟩
  refine ⟨h.zkey.congr (h.zkey.lookup_tick d), hticking, fun rest hs => ?_, fun f hf => ?_⟩
  · refine (h.partly rest hs).imp_right (Or.imp_left ?_)
    rintro ⟨d', hrest, hkey⟩
    refine ⟨d', hrest, hkey.tick ?_⟩
    have hbusy : w.peers.redis.now + d ≤ w.fired + T.round :=
      hticking.busy (fun hc => nomatch hc.symm.trans hs)
    have hround := round_le_reach (R := R) (T := T)
    omega
  · obtain ⟨hk, he, hb, hm, hfired⟩ := h.last f hf
    have hreach : w.peers.redis.now + d ≤ f + R.reach T := hticking.reach hm hfired
    exact ⟨hk.tick (by omega), he.tick h.zkey d, hb, hm, hfired⟩

/-- **A command of anybody runs**, in order. -/
theorem Registers.other (hT : R.reach T + T.ahead + T.stale < R.ttl) (h : R.Registers T w)
    {cmd : PeerCommand} (hbase : ∀ f, w.last = some f → f ≤ base)
    (hc : R.InOrder T base w.peers.redis.now cmd) {peers : PeersWorld}
    (hr : peers.redis = (cmd.run R.p w.peers.redis).2) :
    R.Registers T { w with peers := peers } := by
  have hnow : peers.redis.now = w.peers.redis.now := by
    rw [hr]
    exact run_now h.zkey cmd
  refine ⟨?_, ⟨?_, h.ticking.deadline, h.ticking.since, ?_⟩, fun rest hs => ?_, fun f hf => ?_⟩
  · show peers.redis.ZKey _
    rw [hr]
    exact (PeerCommand.run_index h.zkey cmd).1
  · show w.fired ≤ peers.redis.now
    rw [hnow]
    exact h.ticking.fired
  · show peers.redis.now ≤ limit T w
    rw [hnow]
    exact h.ticking.now
  · refine (h.partly rest hs).imp_right (Or.imp_left ?_)
    rintro ⟨d', hrest, hkey⟩
    refine ⟨d', hrest, ?_⟩
    show R.KeyFrom w.fired peers.redis
    rw [hr]
    exact hkey.run h.zkey h.ticking.fired hc
  · obtain ⟨hk, he, hb, hm, hfired⟩ := h.last f hf
    have hreach := h.ticking.reach hm hfired
    have hbefore := hb.trans h.ticking.fired
    refine ⟨?_, ?_, hb, hm, hfired⟩
    · show R.KeyFrom f peers.redis
      rw [hr]
      exact hk.run h.zkey hbefore hc
    · show R.EntryFrom T f peers.redis
      rw [hr]
      exact he.run h.zkey (hbase f hf) (by omega) hc

/-- A tick of the interval comes, if it is due. -/
theorem Registers.fires (h : R.Registers T w) : R.Registers T (R.tick w) := by
  unfold Refresher.tick
  split
  · next hs =>
    split
    · next hdue =>
      refine ⟨h.zkey, ⟨le_refl _, ?_, (fun hc => nomatch hc), Nat.le_add_right _ _⟩,
        (fun _ hc => nomatch hc), fun f hf => ?_⟩
      · show (if _ then _ else _) + R.interval ≤ w.peers.redis.now + R.interval
        refine Nat.add_le_add_right ?_ _
        split
        · exact le_refl _
        · exact hdue
      · obtain ⟨hk, he, hb, hm, hfired⟩ := h.last f hf
        refine ⟨hk, he, hb.trans h.ticking.fired, hm, ?_⟩
        have hnow := h.ticking.waiting hs
        rw [rounds, hs] at hfired
        show w.peers.redis.now ≤ f + (w.missed + 1) * R.period T
        rw [Nat.succ_mul]
        dsimp only at hfired
        omega
    · exact h
  · exact h

/-- A round is over, and the task waits. -/
theorem Registers.waits (h : R.Registers T w) (hs : w.stage ≠ .waiting) {peers : PeersWorld}
    (hr : peers.redis = w.peers.redis) {missed : ℕ} (hm : w.last = none ∨ missed ≤ T.missed)
    (hrounds : missed = rounds w) :
    R.Registers T { w.goto .waiting with peers := peers, missed := missed } := by
  have hbusy := h.ticking.busy hs
  refine ⟨?_, ⟨?_, h.ticking.deadline, fun _ => hbusy, ?_⟩, (fun _ hc => nomatch hc),
    fun f hf => ?_⟩
  · show peers.redis.ZKey _
    rw [hr]
    exact h.zkey
  · show w.fired ≤ peers.redis.now
    rw [hr]
    exact h.ticking.fired
  · show peers.redis.now ≤ max w.deadline w.peers.redis.now + T.late
    rw [hr]
    omega
  · obtain ⟨hk, he, hb, -, hfired⟩ := h.last f hf
    refine ⟨?_, ?_, hb, hm.resolve_left (fun hno => nomatch hno.symm.trans hf), ?_⟩
    · show R.KeyFrom f peers.redis
      rwa [hr]
    · show R.EntryFrom T f peers.redis
      rwa [hr]
    · show w.fired ≤ f + missed * R.period T
      rw [hrounds]
      exact hfired

/-- The connection is there, or not. -/
theorem Registers.connect (h : R.Registers T w) {ok : Bool} {lastSeen : String} {clock : ℕ}
    (he : R.InTime T w (.connect ok lastSeen clock)) :
    R.Registers T (R.connect w ok lastSeen clock) := by
  unfold Refresher.connect
  split
  · next hs =>
    have hwait : w.stage ≠ .waiting := fun hc => nomatch hs.symm.trans hc
    split
    · refine ⟨h.zkey, ⟨h.ticking.fired, h.ticking.deadline, (fun hc => nomatch hc),
        h.ticking.busy hwait⟩, fun rest hrest => ?_, fun f hf => ?_⟩
      · exact Or.inr (Or.inr ⟨lastSeen, clock, (RefreshStage.registering.inj hrest).symm⟩)
      · obtain ⟨hk, he, hb, hm, hfired⟩ := h.last f hf
        rw [rounds, hs] at hfired
        exact ⟨hk, he, hb, hm, hfired⟩
    · next hok =>
      refine h.waits hwait rfl ((he (Bool.eq_false_iff.mpr hok) hs).symm) ?_
      rw [rounds, hs]
  · exact h

/-- **The next command of the registration runs.** -/
theorem Registers.run (hT : R.reach T + T.ahead + T.stale < R.ttl) (h : R.Registers T w)
    (he : R.InTime T w .run) : R.Registers T (R.run w) := by
  unfold Refresher.run
  split
  · next cmd rest hs =>
    have hc : R.InOrder T w.fired w.peers.redis.now cmd := he cmd rest hs
    have hwait : w.stage ≠ .waiting := fun hw => nomatch hs.symm.trans hw
    have hrun : R.Registers T { w with peers := { w.peers with
      redis := (cmd.run R.p w.peers.redis).2
      entered := cmd.enters w.peers.entered } } :=
      h.other hT (fun f hf => (h.last f hf).before) hc rfl
    have hbusy := hrun.ticking.busy hwait
    rcases h.partly _ hs with ⟨hrest, -⟩ | ⟨d, hrest, hkey⟩ | ⟨lastSeen, clock, hrest⟩
    · exact nomatch hrest
    · -- the entry: the node is registered
      obtain ⟨rfl, rfl⟩ := List.cons.inj hrest
      refine ⟨hrun.zkey, ⟨hrun.ticking.fired, hrun.ticking.deadline, (fun hw => nomatch hw),
        hbusy⟩, fun rest hr => ?_, fun f hf => ?_⟩
      · exact Or.inl ⟨(RefreshStage.registering.inj hr).symm, rfl⟩
      · obtain rfl : w.fired = f := Option.some.inj hf
        exact ⟨hkey.run h.zkey h.ticking.fired hc, entryFrom_zadd h.zkey hc, le_refl _,
          Nat.zero_le _, Nat.le_add_right _ _⟩
    · -- the key, and the entry is to come
      obtain ⟨rfl, rfl⟩ := List.cons.inj hrest
      refine ⟨hrun.zkey, ⟨hrun.ticking.fired, hrun.ticking.deadline, (fun hw => nomatch hw),
        hbusy⟩, fun rest hr => ?_, fun f hf => ?_⟩
      · exact Or.inr (Or.inl ⟨_, (RefreshStage.registering.inj hr).symm,
          (keyFrom_set hc).mono h.ticking.fired⟩)
      · obtain ⟨hk, hen, hb, hm, hfired⟩ := hrun.last f hf
        refine ⟨hk, hen, hb, hm, ?_⟩
        rw [rounds, show w.stage = _ from hs] at hfired
        exact hfired
  · exact h

/-- The reply comes. -/
theorem Registers.reply (h : R.Registers T w) : R.Registers T (Refresher.reply w) := by
  unfold Refresher.reply
  split
  · next hs =>
    have hrounds : w.missed = rounds w := by
      rw [rounds, hs]
    refine h.waits (fun hw => nomatch hs.symm.trans hw) rfl ?_ hrounds
    cases hl : w.last with
    | none => exact Or.inl rfl
    | some f => exact Or.inr (h.last f hl).missed
  · exact h

/-- **The registration fails**, and what has not run of it may run yet. -/
theorem Registers.fail (h : R.Registers T w) (he : R.InTime T w .fail) :
    R.Registers T (Refresher.fail w) := by
  unfold Refresher.fail
  split
  · next rest hs =>
    have hwait : w.stage ≠ .waiting := fun hw => nomatch hs.symm.trans hw
    cases rest with
    | nil =>
      refine h.waits hwait (show (w.peers.send []).redis = _ from rfl) ?_
        (show w.missed = _ by rw [rounds, hs])
      cases hl : w.last with
      | none => exact Or.inl rfl
      | some f => exact Or.inr (h.last f hl).missed
    | cons cmd rest =>
      exact h.waits hwait (show (w.peers.send (cmd :: rest)).redis = _ from rfl)
        (he cmd rest hs).symm (show w.missed + 1 = _ by rw [rounds, hs])
  · exact h

/-- **Every step keeps the node registered**, in time. -/
theorem registers_step (hT : R.reach T + T.ahead + T.stale < R.ttl) (w : RefreshWorld)
    (e : RefreshEvent) (h : R.Registers T w) (he : R.InTime T w e) :
    R.Registers T (R.system.step w e).2 := by
  cases e with
  | other e =>
    show R.Registers T { w with peers := ((PeersWorld.system R.p).step w.peers e).2 }
    cases e with
    | tick d => exact h.tick hT he
    | register id json clock ttl => exact h.congr rfl
    | deregister id => exact h.congr rfl
    | list clock => exact h.congr rfl
    | lose c => exact h.congr rfl
    | run c =>
      show R.Registers T { w with peers := w.peers.runNext R.p c }
      unfold PeersWorld.runNext
      split
      · next cmd rest hc =>
        refine h.other hT (fun f hf => ?_) (he cmd rest hc) rfl
        rw [hf, Option.getD_some]
      · exact h
  | tick => exact h.fires
  | connect ok lastSeen clock => exact h.connect he
  | run => exact h.run hT he
  | reply => exact h.reply
  | fail => exact h.fail he
  | stop => exact he.elim

/-- On an empty server every key is free for a sorted set. -/
theorem zkey_empty (now : ℕ) (k : String) : (Redis.empty now).ZKey k := fun _ ho => nomatch ho

theorem registers_start {s : Redis} (hs : s.ZKey (peersIndexKey R.p)) :
    R.Registers T (RefreshWorld.start s) where
  zkey := hs
  ticking := ⟨le_refl _, Nat.le_add_right _ _, fun _ => Nat.le_add_right _ _,
    (le_max_left _ _).trans (Nat.le_add_right _ _)⟩
  partly _ hc := nomatch hc
  last _ hf := nomatch hf

/-! ## What the others list -/

/-- **What is read at the key of a node in the set is in the list.** -/
theorem mem_listRegistrations {p : String} {s : Redis} {clock : ℕ} {legacy rs : List Registration}
    (hrs : PeersWorld.listRegistrations p s clock legacy = some rs) (hz : s.ZKey (peersIndexKey p))
    {id : String} {reg : PeerRegistration} (hid : PeersWorld.Current p s clock id)
    (hreg : PeersWorld.registration (PeersWorld.valueAt s (peerKey p id)) = some reg) :
    (id, reg) ∈ rs := by
  obtain ⟨ids, hids, hmem⟩ := Redis.mem_zrangebyscore hz (Double.round clock)
  rw [PeersWorld.listRegistrations, hids] at hrs
  obtain ⟨found, hfound, hlisted⟩ := Option.bind_eq_some_iff.mp
    (show (readRegistrations p (ids.map (peerKey p))
      ((ids.map (peerKey p)).map (PeersWorld.valueAt s))).bind
        (fun found => some (listedRegistrations ids found legacy)) = some rs from hrs)
  obtain ⟨-, rfl⟩ := PeersWorld.readRegistrations_eq_some_iff.mp hfound
  rw [← Option.some.inj hlisted]
  refine List.mem_append_left _ (List.mem_filterMap.mpr ⟨id, (hmem id).mpr hid, ?_⟩)
  rw [hreg]
  rfl

/-- **A node is in every list**: by a reader's clock that is not far ahead,
with what it says of itself. -/
def Listed (R : Refresher) (T : Timing) (s : Redis) : Prop :=
  s.Live (peerKey R.p R.id) ∧ ∀ clock legacy rs, clock ≤ s.now + T.ahead → clock < Double.exact →
    PeersWorld.listRegistrations R.p s clock legacy = some rs →
    ∃ lastSeen, (R.id, R.registration lastSeen) ∈ rs

/-- The node's entry is not past for a reader whose clock is not far ahead, -/
theorem Registers.current (hT : R.reach T + T.ahead + T.stale < R.ttl) (h : R.Registers T w)
    (hf : w.last = some f) {clock : ℕ} (hclock : clock ≤ w.peers.redis.now + T.ahead)
    (hroom : clock < Double.exact) : PeersWorld.Current R.p w.peers.redis clock R.id := by
  obtain ⟨-, he, -, hm, hfired⟩ := h.last f hf
  have hreach := h.ticking.reach hm hfired
  obtain ⟨d, hd, hfresh⟩ := he
  refine ⟨d, hd, ?_⟩
  rw [round_natCast hroom]
  exact Int.ofNat_lt.mpr (by omega)

/-- and what is read at its key is what it says of itself. -/
theorem Registers.reads (h : R.Registers T w) (hf : w.last = some f) :
    ∃ lastSeen, PeersWorld.registration (PeersWorld.valueAt w.peers.redis (peerKey R.p R.id))
      = some (R.registration lastSeen) := by
  obtain ⟨lastSeen, e, hl, -⟩ := (h.last f hf).key
  have hread : utf8Text (asBytes (R.registration lastSeen).text)
      = some (R.registration lastSeen).text := utf8Text_eq_some_iff.mpr rfl
  refine ⟨lastSeen, ?_⟩
  rw [PeersWorld.valueAt, hl, PeersWorld.registration]
  dsimp only
  rw [Option.bind_some, hread, Option.bind_some, PeerRegistration.ofText_text]

theorem Registers.listed (hT : R.reach T + T.ahead + T.stale < R.ttl) (h : R.Registers T w)
    (hf : w.last = some f) : R.Listed T w.peers.redis := by
  obtain ⟨_, e, hl, -⟩ := (h.last f hf).key
  obtain ⟨lastSeen, hreg⟩ := h.reads hf
  exact ⟨Option.isSome_iff_exists.mpr ⟨_, hl⟩, fun clock legacy rs hclock hroom hrs =>
    ⟨lastSeen, mem_listRegistrations hrs h.zkey (h.current hT hf hclock hroom) hreg⟩⟩

/-- **A node that refreshes its registration in time is in every list.** When
the lifetime of a registration is longer than the periods of the rounds that
may fail in a row and of one more, the round after them, and the clocks'
differences together, then in every run – of all nodes, their registrations,
departures and lists, and of the task – that is in time: from the first round
on that registers the node its key is live, and it is in every list that a
replica reads, with what it says of itself. -/
theorem listed_while_refreshed (R : Refresher) (T : Timing)
    (hT : R.reach T + T.ahead + T.stale < R.ttl) (s : Redis)
    (hs : s.ZKey (peersIndexKey R.p)) (es : List RefreshEvent)
    (hes : R.system.Along (R.InTime T) (RefreshWorld.start s) es)
    (hlast : (R.system.final (RefreshWorld.start s) es).last ≠ none) :
    R.Listed T (R.system.final (RefreshWorld.start s) es).peers.redis := by
  obtain ⟨f, hf⟩ := Option.ne_none_iff_exists'.mp hlast
  exact Registers.listed hT (R.system.inv_final (registers_step hT) (registers_start hs) hes) hf

/-- A node that registers every ten milliseconds for a hundred. -/
def tenfold : Refresher := ⟨"p:", "a", "a:1", 10 * 10, by decide, 10⟩

/-- A command of the task's own is in time when it is in order. -/
theorem inTime_run {cmd : PeerCommand} {rest : List PeerCommand}
    (hs : w.stage = .registering (cmd :: rest))
    (hc : R.InOrder T w.fired w.peers.redis.now cmd) : R.InTime T w .run := by
  intro cmd' rest' hs'
  obtain ⟨rfl, -⟩ := List.cons.inj (RefreshStage.registering.inj (hs.symm.trans hs'))
  exact hc

/-- So is another's. -/
theorem inTime_other_run {c : ℕ} {cmd : PeerCommand} {rest : List PeerCommand}
    (hs : w.peers.pipelines[c]? = some (cmd :: rest))
    (hc : R.InOrder T (w.last.getD 0) w.peers.redis.now cmd) :
    R.InTime T w (.other (.run c)) := by
  intro cmd' rest' hs'
  obtain ⟨rfl, -⟩ := List.cons.inj (Option.some.inj (hs.symm.trans hs'))
  exact hc

/-- Its first round; a second, of which only the key is set before it fails; a
list of another node's; what is left of the second round; and a third round,
whose commands run a millisecond after its tick. -/
def failedRound : List RefreshEvent :=
  [.tick, .connect true "t" 0, .run, .run, .reply, .other (.tick 10), .tick, .connect true "u" 10,
    .run, .fail, .other (.list 10), .other (.run 1), .other (.run 1), .other (.run 0),
    .other (.tick 10), .tick, .connect true "v" 20, .other (.tick 1), .run, .run]

theorem inTime_failedRound :
    tenfold.system.Along (tenfold.InTime ⟨0, 1, 1, 0, 0⟩) (RefreshWorld.start (Redis.empty 0))
      failedRound := by
  refine ⟨trivial, (fun hc => nomatch hc), ?_, ?_, trivial, ?_, trivial, (fun hc => nomatch hc),
    ?_, ?_, trivial, ?_, ?_, ?_, ?_, trivial, (fun hc => nomatch hc), ?_, ?_, ?_, trivial⟩
  · exact inTime_run rfl (fun _ => ⟨⟨"t", rfl⟩, rfl, (by decide : 0 + 100 < Double.exact)⟩)
  · exact inTime_run rfl (fun _ => (by decide : 0 + 100 ≤ registrationEnd 0 100 + 0
      ∧ registrationEnd 0 100 < Double.exact))
  · exact (by decide : 0 + 10 ≤ 10)
  · exact inTime_run rfl (fun _ => ⟨⟨"u", rfl⟩, rfl, (by decide : 10 + 100 < Double.exact)⟩)
  · exact fun _ _ _ => Or.inl (le_refl 1)
  · exact inTime_other_run rfl trivial
  · exact inTime_other_run rfl (by decide : 10 ≤ 10 + 0 ∧ 10 < Double.exact)
  · exact inTime_other_run rfl (fun _ => (by decide : 0 + 100 ≤ registrationEnd 10 100 + 0
      ∧ registrationEnd 10 100 < Double.exact))
  · exact (by decide : 10 + 10 ≤ 20)
  · exact (by decide : 20 + 1 ≤ 21)
  · exact inTime_run rfl (fun _ => ⟨⟨"v", rfl⟩, rfl, (by decide : 21 + 100 < Double.exact)⟩)
  · exact inTime_run rfl (fun _ => (by decide : 20 + 100 ≤ registrationEnd 20 100 + 0
      ∧ registrationEnd 20 100 < Double.exact))

/-- The node is listed all along. -/
theorem listed_while_refreshed_failed :
    tenfold.Listed ⟨0, 1, 1, 0, 0⟩ (tenfold.system.final (RefreshWorld.start (Redis.empty 0))
      failedRound).peers.redis :=
  listed_while_refreshed tenfold ⟨0, 1, 1, 0, 0⟩ (by decide) (Redis.empty 0) (zkey_empty 0 _)
    failedRound inTime_failedRound (fun hc => nomatch hc)

/-! ## A node that registers no more -/

/-- The node's key, if it is there, does not outlive a lifetime from a time. -/
def KeyUntil (R : Refresher) (t : ℕ) (s : Redis) : Prop :=
  ∀ o, s.lookup (peerKey R.p R.id) = some o → ∃ e, o.expireAt = some e ∧ e ≤ t + R.ttl

/-- What runs in a step. -/
def commandOf (w : RefreshWorld) : RefreshEvent → Option PeerCommand
  | .other (.run c) => (w.peers.pipelines[c]?).bind List.head?
  | .run => match w.stage with
    | .registering (cmd :: _) => some cmd
    | _ => none
  | _ => none

/-- Whoever registers under the node's id does so for its lifetime. -/
def OwnLifetime (R : Refresher) (w : RefreshWorld) (e : RefreshEvent) : Prop :=
  ∀ json ttl, commandOf w e = some (.set R.id json ttl) → ttl = R.ttl

/-- Nobody registers under the node's id. -/
def NoRegistration (R : Refresher) (w : RefreshWorld) (e : RefreshEvent) : Prop :=
  ∀ json ttl, commandOf w e ≠ some (.set R.id json ttl)

theorem KeyUntil.mono {t t' : ℕ} (h : R.KeyUntil t s) (ht : t ≤ t') : R.KeyUntil t' s := by
  intro o ho
  obtain ⟨e, he, hle⟩ := h o ho
  exact ⟨e, he, hle.trans (Nat.add_le_add_right ht _)⟩

/-- A state whose key is there only if it was. -/
theorem KeyUntil.congr {t : ℕ} (h : R.KeyUntil t s) {s' : Redis}
    (hs : ∀ o, s'.lookup (peerKey R.p R.id) = some o → s.lookup (peerKey R.p R.id) = some o) :
    R.KeyUntil t s' := fun o ho => h o (hs o ho)

/-- `DEL` leaves no key. -/
theorem PeerCommand.run_del_lookup (p id : String) (s : Redis) :
    (PeerCommand.run p (.del id) s).2.lookup (peerKey p id) = none := by
  rw [PeerCommand.run, Script.discard_snd, Redis.delete]
  split
  · exact Redis.lookup_del_self s
  · next h => simpa using h

/-- **A command keeps the key's end**, unless it registers the node. -/
theorem KeyUntil.run {t : ℕ} (h : R.KeyUntil t s) (hz : s.ZKey (peersIndexKey R.p))
    (hc : ∀ json ttl, cmd ≠ .set R.id json ttl) : R.KeyUntil t (cmd.run R.p s).2 := by
  have hframe : ∀ t' : Redis, t'.lookup (peerKey R.p R.id) = s.lookup (peerKey R.p R.id) →
      R.KeyUntil t t' := fun t' ht => h.congr (fun o ho => ht.symm.trans ho)
  cases cmd with
  | set id json ttl =>
    exact hframe _ ((PeerCommand.run_set_within R.p id json ttl).frame s _
      (fun hk => hc json ttl (by rw [peerKey_inj.mp hk])))
  | del id =>
    by_cases hid : id = R.id
    · subst hid
      intro o ho
      rw [PeerCommand.run_del_lookup] at ho
      cases ho
    · exact hframe _ ((PeerCommand.run_del_within R.p id).frame s _
        (fun hk => hid (peerKey_inj.mp hk).symm))
  | range now =>
    have hsame : (PeerCommand.run R.p (.range now) s).2 = s := Redis.zrangebyscore_snd
    rw [hsame]
    exact h
  | zadd id d =>
    rw [PeerCommand.run_zadd hz]
    exact hframe _ (Redis.lookup_zins_of_ne s (PeersWorld.peerKey_ne_peersIndexKey _))
  | zrem id =>
    rw [PeerCommand.run_zrem hz]
    exact hframe _ (Redis.lookup_zdel_of_ne s (PeersWorld.peerKey_ne_peersIndexKey _))
  | trim clock =>
    rw [PeerCommand.run_trim hz]
    exact hframe _ ((Redis.zremrangebyscore_snd _).1 _ (PeersWorld.peerKey_ne_peersIndexKey _))

/-- **A registration sets the key's end**: a lifetime from then. -/
theorem KeyUntil.run_set (h : R.KeyUntil s.now s) (json : List UInt8) :
    R.KeyUntil s.now (PeerCommand.run R.p (.set R.id json R.ttl) s).2 := by
  rw [PeerCommand.run, Script.discard_snd, Redis.set]
  split
  · exact h
  · have hlive : Obj.liveAt ⟨.str json, some (s.now + R.ttl)⟩ s.now = true :=
      decide_eq_true (Nat.le_add_right _ _)
    intro o ho
    obtain rfl := Option.some.inj ((Redis.lookup_put_self s hlive).symm.trans ho)
    exact ⟨_, rfl, le_refl _⟩

theorem KeyUntil.tick {t : ℕ} (h : R.KeyUntil t s) (d : ℕ) : R.KeyUntil t (s.tick d) :=
  h.congr (fun _ ho => Redis.lookup_of_tick ho)

/-- **What a step does to the server**: time passes, or a command runs, or
nothing. -/
theorem step_redis (w : RefreshWorld) (e : RefreshEvent) :
    (∃ d, (R.system.step w e).2.peers.redis = w.peers.redis.tick d)
      ∨ (∃ cmd, commandOf w e = some cmd
        ∧ (R.system.step w e).2.peers.redis = (cmd.run R.p w.peers.redis).2)
      ∨ (R.system.step w e).2.peers.redis = w.peers.redis := by
  cases e with
  | other e =>
    cases e with
    | tick d => exact Or.inl ⟨d, rfl⟩
    | run c =>
      refine Or.inr ?_
      show (∃ cmd, (w.peers.pipelines[c]?).bind List.head? = some cmd
        ∧ (w.peers.runNext R.p c).redis = _) ∨ (w.peers.runNext R.p c).redis = _
      unfold PeersWorld.runNext
      split
      · next cmd rest hc =>
        refine Or.inl ⟨cmd, ?_, rfl⟩
        rw [hc]
        rfl
      · exact Or.inr rfl
    | _ => exact Or.inr (Or.inr rfl)
  | run =>
    refine Or.inr ?_
    show (∃ cmd, commandOf w .run = some cmd ∧ (R.run w).peers.redis = _)
      ∨ (R.run w).peers.redis = _
    unfold Refresher.run
    split
    · next cmd rest hs =>
      refine Or.inl ⟨cmd, ?_, rfl⟩
      rw [commandOf, hs]
    · exact Or.inr rfl
  | tick =>
    refine Or.inr (Or.inr ?_)
    show (R.tick w).peers.redis = _
    unfold Refresher.tick
    split
    · split <;> rfl
    · rfl
  | connect ok lastSeen clock =>
    refine Or.inr (Or.inr ?_)
    show (R.connect w ok lastSeen clock).peers.redis = _
    unfold Refresher.connect
    split
    · split <;> rfl
    · rfl
  | reply =>
    refine Or.inr (Or.inr ?_)
    show (Refresher.reply w).peers.redis = _
    unfold Refresher.reply
    split <;> rfl
  | fail =>
    refine Or.inr (Or.inr ?_)
    show (Refresher.fail w).peers.redis = _
    unfold Refresher.fail
    split <;> rfl
  | stop =>
    refine Or.inr (Or.inr ?_)
    show (Refresher.stop w).peers.redis = _
    unfold Refresher.stop
    split <;> rfl

/-- **What a run keeps** of a node whose key ends. -/
structure Ends (R : Refresher) (t : ℕ) (s : Redis) : Prop where
  zkey : s.ZKey (peersIndexKey R.p)
  key : R.KeyUntil t s

/-- **No step lets the key outlive a lifetime from then.** -/
theorem ends_step (w : RefreshWorld) (e : RefreshEvent)
    (h : R.Ends w.peers.redis.now w.peers.redis) (he : R.OwnLifetime w e) :
    R.Ends (R.system.step w e).2.peers.redis.now (R.system.step w e).2.peers.redis := by
  rcases step_redis (R := R) w e with ⟨d, hr⟩ | ⟨cmd, hcmd, hr⟩ | hr
  · rw [hr]
    exact ⟨h.zkey.congr (h.zkey.lookup_tick d), (h.key.tick d).mono (Nat.le_add_right _ _)⟩
  · rw [hr, run_now h.zkey]
    refine ⟨(PeerCommand.run_index h.zkey cmd).1, ?_⟩
    by_cases hset : ∃ json ttl, cmd = .set R.id json ttl
    · obtain ⟨json, ttl, rfl⟩ := hset
      obtain rfl := he json ttl hcmd
      exact h.key.run_set json
    · exact h.key.run h.zkey (fun json ttl hc => hset ⟨json, ttl, hc⟩)
  · rw [hr]
    exact h

/-- **No step moves the key's end**, when nobody registers the node. -/
theorem ends_kept {t : ℕ} (w : RefreshWorld) (e : RefreshEvent) (h : R.Ends t w.peers.redis)
    (he : R.NoRegistration w e) : R.Ends t (R.system.step w e).2.peers.redis := by
  rcases step_redis (R := R) w e with ⟨d, hr⟩ | ⟨cmd, hcmd, hr⟩ | hr
  · rw [hr]
    exact ⟨h.zkey.congr (h.zkey.lookup_tick d), h.key.tick d⟩
  · rw [hr]
    exact ⟨(PeerCommand.run_index h.zkey cmd).1,
      h.key.run h.zkey (fun json ttl hc => he json ttl (hcmd.trans (congrArg some hc)))⟩
  · rw [hr]
    exact h

/-- **A node is in no list**: whatever a reader's clock says and whatever a
scan remembers of the older builds, of which the node is none. -/
def Unlisted (R : Refresher) (s : Redis) : Prop :=
  ¬ s.Live (peerKey R.p R.id) ∧ ∀ clock legacy,
    (∀ reg, (R.id, reg) ∈ legacy → reg.kvIndex = true) →
    ¬ PeersWorld.Lists R.p s clock legacy R.id

/-- A key whose end is past is not there. -/
theorem Ends.unlisted {t : ℕ} (h : R.Ends t s) (ht : t + R.ttl < s.now) : R.Unlisted s := by
  have hgone : s.lookup (peerKey R.p R.id) = none := by
    cases hl : s.lookup (peerKey R.p R.id) with
    | none => rfl
    | some o =>
      obtain ⟨e, he, hle⟩ := h.key o hl
      have hlive := Redis.liveAt_of_lookup hl
      rw [Obj.liveAt, he] at hlive
      have hnow : s.now ≤ e := of_decide_eq_true hlive
      exact absurd (hnow.trans hle) (Nat.not_le.mpr ht)
  refine ⟨?_, fun clock legacy hlegacy hlists => ?_⟩
  · rw [Redis.Live, hgone]
    exact Bool.false_ne_true
  · rcases ((PeersWorld.lists_iff h.zkey).mp hlists).2 with ⟨-, hreg⟩ | ⟨-, reg, hreg, hold⟩
    · rw [PeersWorld.valueAt, hgone] at hreg
      cases hreg
    · rw [hlegacy reg hreg] at hold
      cases hold

theorem ends_start {s : Redis} (hs : s.ZKey (peersIndexKey R.p))
    (hk : s.lookup (peerKey R.p R.id) = none) : R.Ends s.now s where
  zkey := hs
  key _ ho := nomatch hk.symm.trans ho

/-- What a run keeps whose last part registers the node no more. -/
theorem ends_run {s : Redis} (hs : s.ZKey (peersIndexKey R.p))
    (hk : s.lookup (peerKey R.p R.id) = none) {es fs : List RefreshEvent}
    (hes : R.system.Along R.OwnLifetime (RefreshWorld.start s) es)
    (hfs : R.system.Along R.NoRegistration (R.system.final (RefreshWorld.start s) es) fs) :
    R.Ends (R.system.final (RefreshWorld.start s) es).peers.redis.now
      (R.system.final (RefreshWorld.start s) (es ++ fs)).peers.redis := by
  have hends : R.Ends (R.system.final (RefreshWorld.start s) es).peers.redis.now
      (R.system.final (RefreshWorld.start s) es).peers.redis :=
    R.system.inv_final (I := fun w => R.Ends w.peers.redis.now w.peers.redis) ends_step
      (ends_start hs hk) hes
  rw [System.final_append]
  exact R.system.inv_final (I := fun w => R.Ends _ w.peers.redis) ends_kept hends hfs

/-- **A node that registers no more is in no list after its lifetime.** In
every run, of whatever length, speed and outcome, that starts where the node
is not registered and in which it registers for its own lifetime: once no
registration of it has run for longer than that, its key is gone, and it is in
no list that a replica reads, by whatever clock – also when its task was
stopped, was cut off or hangs, and its entry is in the sorted set still. -/
theorem unlisted_after_lifetime (R : Refresher) (s : Redis)
    (hs : s.ZKey (peersIndexKey R.p)) (hk : s.lookup (peerKey R.p R.id) = none)
    (es fs : List RefreshEvent)
    (hes : R.system.Along R.OwnLifetime (RefreshWorld.start s) es)
    (hfs : R.system.Along R.NoRegistration (R.system.final (RefreshWorld.start s) es) fs)
    (hlong : (R.system.final (RefreshWorld.start s) es).peers.redis.now + R.ttl
      < (R.system.final (RefreshWorld.start s) (es ++ fs)).peers.redis.now) :
    R.Unlisted (R.system.final (RefreshWorld.start s) (es ++ fs)).peers.redis :=
  (ends_run hs hk hes hfs).unlisted hlong

/-- The node registers, is cut off, and a hundred and one milliseconds pass. -/
theorem unlisted_after_lifetime_cut_off :
    tenfold.Unlisted (tenfold.system.final (RefreshWorld.start (Redis.empty 0))
      ([.tick, .connect true "t" 0, .run, .run] ++ [.stop, .other (.tick 101)])).peers.redis := by
  refine unlisted_after_lifetime tenfold (Redis.empty 0) (zkey_empty 0 _) rfl
    [.tick, .connect true "t" 0, .run, .run] [.stop, .other (.tick 101)] ?_ ?_ (by decide)
  · refine ⟨?_, ?_, ?_, ?_, trivial⟩
    · exact fun _ _ hc => nomatch hc
    · exact fun _ _ hc => nomatch hc
    · intro json ttl hc
      obtain ⟨-, -, rfl⟩ := PeerCommand.set.inj (Option.some.inj hc)
      rfl
    · exact fun _ _ hc => nomatch Option.some.inj hc
  · exact ⟨(fun _ _ hc => nomatch hc), (fun _ _ hc => nomatch hc), trivial⟩

/-! ## Rounds that fail -/

/-- The first round registers the node, as the first tick comes. -/
def firstRound : List RefreshEvent := [.tick, .connect true "t" 0, .run, .run, .reply]

/-- A round that finds no connection. -/
def missedRound (R : Refresher) : List RefreshEvent :=
  [.other (.tick R.interval), .tick, .connect false "" 0]

/-- A round that takes its time. -/
def slowRound (R : Refresher) (r : ℕ) : List RefreshEvent :=
  [.other (.tick R.interval), .tick, .other (.tick r)]

/-- Where the task stands when it waits for the next of its rounds, some of
which have failed since it registered the node. -/
structure Missed (R : Refresher) (k : ℕ) (w : RefreshWorld) : Prop where
  zkey : w.peers.redis.ZKey (peersIndexKey R.p)
  stage : w.stage = .waiting
  now : w.peers.redis.now = k * R.interval
  deadline : w.deadline = w.peers.redis.now + R.interval
  last : w.last = some 0
  missed : w.missed = k

theorem missed_firstRound (R : Refresher) :
    R.Missed 0 (R.system.final (RefreshWorld.start (Redis.empty 0)) firstRound) := by
  have hz : (Redis.empty 0).ZKey (peersIndexKey R.p) := zkey_empty 0 _
  have hnow : (R.system.final (RefreshWorld.start (Redis.empty 0)) firstRound).peers.redis.now
      = 0 := (run_now (PeerCommand.run_index hz _).1 _).trans (run_now hz _)
  exact ⟨(PeerCommand.run_index (PeerCommand.run_index hz _).1 _).1, rfl,
    by rw [hnow, Nat.zero_mul], by rw [hnow]; rfl, rfl, rfl⟩

variable {k r : ℕ}

/-- A tick that comes when it is due. -/
theorem tick_due (hs : w.stage = .waiting) (hd : w.deadline = w.peers.redis.now) :
    R.tick w = { w.goto .connecting with
      fired := w.peers.redis.now
      deadline := w.peers.redis.now + R.interval } := by
  unfold Refresher.tick
  rw [hs]
  dsimp only
  rw [if_pos hd.le, if_neg (by omega), hd]

/-- **A tick comes an interval after the last one.** -/
theorem Missed.tick (h : R.Missed k w) :
    R.system.final w [.other (.tick R.interval), .tick]
      = ⟨{ w.peers with redis := w.peers.redis.tick R.interval }, .connecting,
        w.peers.redis.now + R.interval, w.peers.redis.now + R.interval + R.interval,
        w.peers.redis.now + R.interval, w.last, w.missed⟩ :=
  tick_due (R := R)
    (w := { w with peers := { w.peers with redis := w.peers.redis.tick R.interval } })
    h.stage h.deadline

/-- A round is missed. -/
theorem Missed.missedRound (h : R.Missed k w) :
    R.Missed (k + 1) (R.system.final w R.missedRound) := by
  have hfinal : R.system.final w R.missedRound
      = R.connect (R.system.final w [.other (.tick R.interval), .tick]) false "" 0 := rfl
  rw [hfinal, h.tick]
  refine ⟨h.zkey.congr (h.zkey.lookup_tick _), rfl, ?_, rfl, h.last,
    congrArg (· + 1) h.missed⟩
  show w.peers.redis.now + R.interval = _
  rw [h.now, Nat.succ_mul]

/-- It takes no time but that of the interval. -/
theorem Missed.redis_missedRound (h : R.Missed k w) :
    (R.system.final w R.missedRound).peers.redis = w.peers.redis.tick R.interval := by
  have hfinal : R.system.final w R.missedRound
      = R.connect (R.system.final w [.other (.tick R.interval), .tick]) false "" 0 := rfl
  rw [hfinal, h.tick]
  rfl

/-- It is in time, when another round may fail. -/
theorem Missed.along (h : R.Missed k w) {m : ℕ} (hk : k < m) :
    R.system.Along (R.InTime ⟨0, r, m, 0, 0⟩) w R.missedRound := by
  refine ⟨?_, trivial, fun _ _ => Or.inl ?_, trivial⟩
  · show w.peers.redis.now + R.interval ≤ limit _ w
    rw [limit, h.stage]
    dsimp only
    rw [h.deadline]
    omega
  · show (R.system.final w [.other (.tick R.interval), .tick]).missed + 1 ≤ m
    rw [h.tick]
    show w.missed + 1 ≤ m
    rw [h.missed]
    exact hk

/-- A round that takes its time is in time. -/
theorem Missed.along_slowRound (h : R.Missed k w) {m : ℕ} :
    R.system.Along (R.InTime ⟨0, r, m, 0, 0⟩) w (R.slowRound r) := by
  refine ⟨?_, trivial, ?_, trivial⟩
  · show w.peers.redis.now + R.interval ≤ limit _ w
    rw [limit, h.stage]
    dsimp only
    rw [h.deadline]
    omega
  · show (R.system.final w [.other (.tick R.interval), .tick]).peers.redis.now + r
      ≤ limit _ (R.system.final w [.other (.tick R.interval), .tick])
    rw [h.tick]
    exact le_refl _

/-- The rounds that fail, and the one after them. -/
def missedRounds (R : Refresher) (r : ℕ) : ℕ → List RefreshEvent
  | 0 => R.slowRound r
  | m + 1 => R.missedRound ++ missedRounds R r m

/-- **As many rounds fail as may.** -/
theorem Missed.missedRounds (j : ℕ) (h : R.Missed k w) :
    R.system.Along (R.InTime ⟨0, r, k + j, 0, 0⟩) w (R.missedRounds r j)
      ∧ R.system.Along R.NoRegistration w (R.missedRounds r j)
      ∧ (R.system.final w (R.missedRounds r j)).last = some 0
      ∧ ∃ d, (R.system.final w (R.missedRounds r j)).peers.redis = w.peers.redis.tick d
        ∧ w.peers.redis.now + d = (k + j + 1) * R.interval + r := by
  induction j generalizing k w with
  | zero =>
    refine ⟨h.along_slowRound, ⟨?_, ?_, ?_, trivial⟩, ?_, R.interval + r, ?_, ?_⟩
    · exact fun _ _ hc => nomatch hc
    · exact fun _ _ hc => nomatch hc
    · exact fun _ _ hc => nomatch hc
    · show (R.system.final w [.other (.tick R.interval), .tick]).last = some 0
      rw [h.tick]
      exact h.last
    · show ((R.system.final w [.other (.tick R.interval), .tick]).peers.redis.tick r) = _
      rw [h.tick]
      show (⟨_, _⟩ : Redis) = ⟨_, _⟩
      rw [← Nat.add_assoc]
      rfl
    · rw [h.now, Nat.add_zero, Nat.succ_mul, Nat.add_assoc]
  | succ j ih =>
    obtain ⟨htime, hno, hlast, d, hredis, hnow⟩ := ih h.missedRound
    refine ⟨(System.along_append _ _ _ _).mpr ⟨h.along (by omega), ?_⟩,
      (System.along_append _ _ _ _).mpr ⟨⟨?_, ?_, ?_, trivial⟩, hno⟩, ?_, R.interval + d, ?_, ?_⟩
    · rwa [show k + (j + 1) = k + 1 + j by omega]
    · exact fun _ _ hc => nomatch hc
    · exact fun _ _ hc => nomatch hc
    · exact fun _ _ hc => nomatch hc
    · show (R.system.final w (R.missedRound ++ R.missedRounds r j)).last = some 0
      rwa [System.final_append]
    · show (R.system.final w (R.missedRound ++ R.missedRounds r j)).peers.redis = _
      rw [System.final_append, hredis, h.redis_missedRound]
      show (⟨_, _⟩ : Redis) = ⟨_, _⟩
      rw [← Nat.add_assoc]
      rfl
    · rw [h.redis_missedRound] at hnow
      have hnow : w.peers.redis.now + R.interval + d = (k + 1 + j + 1) * R.interval + r := hnow
      rw [show k + (j + 1) + 1 = k + 1 + j + 1 by omega, ← hnow, Nat.add_assoc]

/-- The first round is in time, and it registers the node for its lifetime. -/
theorem inTime_firstRound (hroom : R.ttl < Double.exact) {m : ℕ} :
    R.system.Along (R.InTime ⟨0, r, m, 0, 0⟩) (RefreshWorld.start (Redis.empty 0)) firstRound := by
  refine ⟨trivial, (fun hc => nomatch hc), ?_, ?_, trivial, trivial⟩
  · refine inTime_run rfl (fun _ => ⟨⟨"t", rfl⟩, rfl, ?_⟩)
    show 0 + R.ttl < Double.exact
    omega
  · have hend : registrationEnd 0 R.ttl = R.ttl := by
      have hmax : Double.exact < 2 ^ 64 - 1 := by decide
      rw [registrationEnd, Nat.zero_add]
      exact Nat.min_eq_left (by omega)
    refine inTime_run rfl (fun _ => ⟨?_, hend.le.trans_lt hroom⟩)
    show 0 + R.ttl ≤ registrationEnd 0 R.ttl + 0
    rw [hend]
    exact (Nat.zero_add _).le

/-- Where nothing in the sorted set is current the list is empty. -/
theorem listRegistrations_of_not_current {p : String} {s : Redis} (hz : s.ZKey (peersIndexKey p))
    {clock : ℕ} (hno : ∀ id, ¬ PeersWorld.Current p s clock id) :
    PeersWorld.listRegistrations p s clock [] = some [] := by
  obtain ⟨ids, hids, hmem⟩ := Redis.mem_zrangebyscore hz (Double.round clock)
  obtain rfl : ids = [] :=
    List.eq_nil_iff_forall_not_mem.mpr (fun id hid => hno id ((hmem id).mp hid))
  rw [PeersWorld.listRegistrations, hids]
  rfl

/-- What the first round leaves in the sorted set. -/
theorem score_firstRound (hroom : R.ttl < Double.exact) (id : String) :
    (R.system.final (RefreshWorld.start (Redis.empty 0)) firstRound).peers.redis.score
        (peersIndexKey R.p) id
      = if id = R.id then some (R.ttl : ℤ) else none := by
  have hz : (Redis.empty 0).ZKey (peersIndexKey R.p) := zkey_empty 0 _
  have hend : registrationEnd 0 R.ttl = R.ttl := by
    have hmax : Double.exact < 2 ^ 64 - 1 := by decide
    rw [registrationEnd, Nat.zero_add]
    exact Nat.min_eq_left (by omega)
  have hset : ∀ json, (PeerCommand.run R.p (.set R.id json R.ttl) (Redis.empty 0)).2.score
      (peersIndexKey R.p) id = none := fun json =>
    Redis.score_congr ((PeerCommand.run_set_within R.p R.id json R.ttl).frame _ _
      (fun h => PeersWorld.peerKey_ne_peersIndexKey R.id h.symm))
  show (PeerCommand.run R.p (.zadd R.id (registrationEnd 0 R.ttl)) (PeerCommand.run R.p
    (.set R.id _ R.ttl) (Redis.empty 0)).2).2.score _ id = _
  rw [PeerCommand.run_zadd (PeerCommand.run_index hz _).1, Redis.score_zins, hset, hend,
    round_natCast hroom]

/-- **As many rounds as may fail do**, and the node is not listed when its
lifetime ends before the round after them. -/
theorem not_listed (hroom : R.ttl < Double.exact) {m : ℕ}
    (hend : R.ttl ≤ (m + 1) * R.interval + r) :
    ∃ es, R.system.Along (R.InTime ⟨0, r, m, 0, 0⟩) (RefreshWorld.start (Redis.empty 0)) es
      ∧ (R.system.final (RefreshWorld.start (Redis.empty 0)) es).last ≠ none
      ∧ ¬ R.Listed ⟨0, r, m, 0, 0⟩
        (R.system.final (RefreshWorld.start (Redis.empty 0)) es).peers.redis := by
  have hfirst := R.missed_firstRound
  obtain ⟨htime, hno, hlast, d, hredis, hnow⟩ := Missed.missedRounds (r := r) m hfirst
  rw [Nat.zero_add] at htime hnow
  have hbase : (R.system.final (RefreshWorld.start (Redis.empty 0)) firstRound).peers.redis.now
      = 0 := hfirst.now.trans (Nat.zero_mul _)
  refine ⟨firstRound ++ R.missedRounds r m,
    (System.along_append _ _ _ _).mpr ⟨inTime_firstRound hroom, htime⟩, ?_, ?_⟩
  · rw [System.final_append, hlast]
    exact Option.some_ne_none 0
  have hown : R.system.Along R.OwnLifetime (RefreshWorld.start (Redis.empty 0)) firstRound := by
    refine ⟨?_, ?_, ?_, ?_, ?_, trivial⟩
    · exact fun _ _ hc => nomatch hc
    · exact fun _ _ hc => nomatch hc
    · intro json ttl hc
      obtain ⟨-, -, rfl⟩ := PeerCommand.set.inj (Option.some.inj hc)
      rfl
    · exact fun _ _ hc => nomatch Option.some.inj hc
    · exact fun _ _ hc => nomatch hc
  have hends := ends_run (zkey_empty 0 _) rfl hown hno
  rw [hbase] at hends hnow
  rw [System.final_append, hredis] at hends ⊢
  have hthen : ((R.system.final (RefreshWorld.start (Redis.empty 0))
      firstRound).peers.redis.tick d).now = (m + 1) * R.interval + r :=
    (congrArg (· + d) hbase).trans hnow
  rintro ⟨hlive, hlisted⟩
  rcases hend.lt_or_eq with hlt | heq
  · exact (hends.unlisted (by rwa [hthen, Nat.zero_add])).1 hlive
  · -- the lifetime ends now: the key is there still, and the entry is past
    have hpast : ∀ id, ¬ PeersWorld.Current R.p ((R.system.final (RefreshWorld.start
        (Redis.empty 0)) firstRound).peers.redis.tick d) R.ttl id := by
      rintro id ⟨x, hx, hlt⟩
      have hz := hfirst.zkey
      rw [Redis.score_congr (hz.lookup_tick d), score_firstRound hroom] at hx
      split at hx
      · rw [← Option.some.inj hx, round_natCast hroom] at hlt
        exact absurd hlt (lt_irrefl _)
      · cases hx
    have hempty := listRegistrations_of_not_current hends.zkey hpast
    obtain ⟨lastSeen, hmem⟩ := hlisted R.ttl [] [] (by rw [hthen, heq]; rfl) hroom hempty
    exact nomatch hmem

/-- **How many rounds may fail in a row.** When no tick is late, no round
takes longer than an interval, all clocks are one – each round reads it at its
tick or later – and nothing of a round that failed runs once a later one has
registered the node, then the node is listed in every run in which at most so
many rounds fail in a row if and only if its lifetime is longer than one
interval more than that and a round. -/
theorem listed_iff_rounds_left (R : Refresher) (hroom : R.ttl < Double.exact) (r m : ℕ)
    (hr : r ≤ R.interval) :
    (∀ es, R.system.Along (R.InTime ⟨0, r, m, 0, 0⟩) (RefreshWorld.start (Redis.empty 0)) es →
        (R.system.final (RefreshWorld.start (Redis.empty 0)) es).last ≠ none →
        R.Listed ⟨0, r, m, 0, 0⟩
          (R.system.final (RefreshWorld.start (Redis.empty 0)) es).peers.redis)
      ↔ (m + 1) * R.interval + r < R.ttl := by
  constructor
  · intro h
    by_contra hend
    obtain ⟨es, htime, hlast, hnot⟩ := not_listed hroom (Nat.not_lt.mp hend)
    exact hnot (h es htime hlast)
  · intro h es hes hlast
    have hreach : R.reach ⟨0, r, m, 0, 0⟩ = (m + 1) * R.interval + r := by
      simp only [Refresher.reach, Refresher.period, Nat.add_zero, max_eq_left hr]
    obtain ⟨f, hf⟩ := Option.ne_none_iff_exists'.mp hlast
    refine Registers.listed ?_ (R.system.inv_final (registers_step ?_)
      (registers_start (zkey_empty 0 _)) hes) hf
    all_goals
      rw [hreach]
      exact h

/-- Every ten milliseconds for a hundred: eight rounds may fail, of nine
milliseconds each. -/
theorem listed_iff_rounds_left_tenfold :
    (∀ es, tenfold.system.Along (tenfold.InTime ⟨0, 9, 8, 0, 0⟩)
          (RefreshWorld.start (Redis.empty 0)) es →
        (tenfold.system.final (RefreshWorld.start (Redis.empty 0)) es).last ≠ none →
        tenfold.Listed ⟨0, 9, 8, 0, 0⟩
          (tenfold.system.final (RefreshWorld.start (Redis.empty 0)) es).peers.redis)
      ↔ (8 + 1) * 10 + 9 < 100 :=
  listed_iff_rounds_left tenfold (by decide) 9 8 (by decide)

/-- **Without a configured interval one round that fails costs the node its
place.** For every configuration that leaves `peer_refresh_interval_ms` out
and every duration of the rounds there is a run in which no tick is late, all
clocks are one and no two rounds fail in a row, and a node that has registered
is not listed: two halves of the lifetime and a round are never less than the
lifetime. -/
theorem missed_round_unlisted (cfg : RedisBackendConfig) (h : 0 < cfg.peerTtlMs)
    (hnone : cfg.peerRefreshIntervalMs = none) (hroom : cfg.peerTtlMs < Double.exact)
    (id address : String) (r : ℕ) (hr : 0 < r) :
    ∃ es, (cfg.refresher h id address).system.Along
        ((cfg.refresher h id address).InTime ⟨0, r, 1, 0, 0⟩)
        (RefreshWorld.start (Redis.empty 0)) es
      ∧ ((cfg.refresher h id address).system.final (RefreshWorld.start (Redis.empty 0)) es).last
        ≠ none
      ∧ ¬ (cfg.refresher h id address).Listed ⟨0, r, 1, 0, 0⟩ ((cfg.refresher h id
        address).system.final (RefreshWorld.start (Redis.empty 0)) es).peers.redis := by
  refine not_listed hroom ?_
  show cfg.peerTtlMs ≤ (1 + 1) * max cfg.effectivePeerRefreshIntervalMs 1 + r
  have hinterval : cfg.effectivePeerRefreshIntervalMs = max (cfg.peerTtlMs / 2) 1 := by
    rw [RedisBackendConfig.effectivePeerRefreshIntervalMs, hnone]
    rfl
  rw [hinterval]
  omega

/-- Of a configuration of a url alone, with rounds of five milliseconds. -/
theorem missed_round_unlisted_default :
    ∃ es, ((configOf "redis://h").refresher (by decide) "a" "a:1").system.Along
        (((configOf "redis://h").refresher (by decide) "a" "a:1").InTime ⟨0, 5, 1, 0, 0⟩)
        (RefreshWorld.start (Redis.empty 0)) es
      ∧ (((configOf "redis://h").refresher (by decide) "a" "a:1").system.final
        (RefreshWorld.start (Redis.empty 0)) es).last ≠ none
      ∧ ¬ ((configOf "redis://h").refresher (by decide) "a" "a:1").Listed ⟨0, 5, 1, 0, 0⟩
        (((configOf "redis://h").refresher (by decide) "a" "a:1").system.final
          (RefreshWorld.start (Redis.empty 0)) es).peers.redis :=
  missed_round_unlisted (configOf "redis://h") (by decide) rfl (by decide) "a" "a:1" 5 (by decide)

end Refresher
