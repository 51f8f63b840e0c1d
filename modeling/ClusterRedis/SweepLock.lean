import ClusterRedis.LeaseKept

/-!
# The sweep lock

One replica at a time sweeps, and completes the key index: the one that holds
a lock. Each replica's maintenance renews the lock at every tick if it has it,
tries for it if not, and works when it has been told that the lock is its own.

What it has been given is a state with a renewal task of its own, and the task
goes on when the maintenance gives the state up. So there are many who renew,
under one name for each replica, and of them only the maintenance works. No two
replicas work at a time, unless the work of one outlasts the lock
(`works_alone`).

Each step is a step of one replica's maintenance, of a task, of time, or a
script of another call for the same lock, which any caller may name.
-/

open Numerals

/-- The lock whose holder sweeps. -/
def SWEEP_LOCK : String := "mcpg-kv-sweep"

/-- Milliseconds between ticks when sweeping is off. -/
def IDLE_INTERVAL_MS : ℕ := 30000

/-- **Replicas** of one deployment. -/
structure SweepFleet (ι : Type) where
  /-- `key_prefix`. -/
  p : String
  node : ι → String
  /-- No two replicas have one node id. -/
  node_injective : Function.Injective node
  /-- `kv_sweep_interval_ms`. -/
  configured : ℕ
  configured_lt : configured < 2 ^ 64

/-- A lock that a replica has been given: its state, where the state's renewal
task stands, and when it came there. -/
structure SweepState where
  released : Bool
  task : RenewalTask
  since : ℕ

/-- **Where the maintenance of a replica stands.** -/
inductive RoundStage where
  /-- It waits for a tick, and then looks at the registrations; -/
  | waiting
  /-- renews the lock it has, -/
  | renewing
  | renewed (reply : Option ℕ)
  /-- tries for the lock, -/
  | acquiring
  | acquired (reply : Option (Option ℤ))
  /-- or sweeps, and completes the index. -/
  | working
  deriving DecidableEq

/-- **A replica.** -/
structure SweepReplica where
  stage : RoundStage
  /-- When it came to where it stands. -/
  since : ℕ
  /-- The lock it takes for its own. -/
  held : Option ℕ
  /-- The states it has been given, in that order. -/
  states : List SweepState
  /-- When a script last gave it the lock, or more time. -/
  lastOk : ℕ
  /-- How many rounds it has begun, -/
  rounds : ℕ
  /-- and in how many it has worked. -/
  works : ℕ

/-- **The replicas and the server.** -/
structure SweepWorld (ι : Type) where
  redis : Redis
  replicas : ι → SweepReplica

/-- One step. A request may fail before it reaches the server (`some false`)
or its reply may be lost (`some true`). -/
inductive SweepEvent (ι : Type) where
  | tick (d : ℕ)
  /-- A script of another call for the lock. -/
  | acquire (holder : String) (ttl : ℕ)
  | request (kind : CallKind) (holder : String) (ttl : ℕ)
  /-- A tick of the interval; the registrations have been listed, or not. -/
  | round (i : ι) (listed : Bool)
  | run (i : ι) (fault : Option Bool)
  | reply (i : ι)
  | done (i : ι)
  | wake (i : ι) (h : ℕ)
  | taskRun (i : ι) (h : ℕ) (fault : Option Bool)
  | taskReturn (i : ι) (h : ℕ)

/-- A request is sent; what comes back of it, and the server. -/
def Script.sent {α : Type} (x : Script α) (s : Redis) : Option Bool → Option α × Redis
  | none => ((x s).1.toOption, (x s).2)
  | some true => (none, (x s).2)
  | some false => (none, s)

namespace SweepFleet

variable {ι : Type} (F : SweepFleet ι)

/-- The interval of the ticks. -/
def interval : ℕ := if 0 < F.configured then F.configured else IDLE_INTERVAL_MS

theorem interval_lt : F.interval < 2 ^ 64 := by
  unfold interval
  split
  · exact F.configured_lt
  · decide

/-- How long the lock is asked for. -/
def ttl : Duration := (Duration.ofMillis F.interval F.interval_lt).saturatingMul 2

/-- The terms of a replica's lock, with the percentage for its task. -/
def terms (i : ι) : LeaseTerms := LeaseTerms.ofTtl F.p ⟨.locks, SWEEP_LOCK⟩ (F.node i) F.ttl

def percent : ℕ := 50

/-- The lock's key. -/
def lease : String := LeaseId.leaseKey F.p ⟨.locks, SWEEP_LOCK⟩

/-- The script of a replica's renewals. -/
def renewal (i : ι) : Script ℕ := renewLua F.lease (F.node i) (clampMs F.ttl.asMillis)

/-- The script of a replica's attempts. -/
def attempt (i : ι) : Script (Option ℤ) :=
  acquireLua F.lease (LeaseId.fenceKey F.p ⟨.locks, SWEEP_LOCK⟩) (F.node i)
    (clampMs F.ttl.asMillis)

/-- Nobody has the lock, and no maintenance has had a tick. -/
def start (s : Redis) : SweepWorld ι := ⟨s, fun _ => ⟨.waiting, s.now, none, [], s.now, 0, 0⟩⟩

end SweepFleet

namespace SweepReplica

/-- The maintenance goes on. -/
def goto (r : SweepReplica) (now : ℕ) (st : RoundStage) : SweepReplica :=
  { r with stage := st, since := now }

/-- A state is changed. -/
def onState (r : SweepReplica) (h : ℕ) (f : SweepState → SweepState) : SweepReplica :=
  { r with states := r.states.modify h f }

/-- A lock that it takes for its own has been released already. -/
def lapsed (r : SweepReplica) : Bool :=
  (r.held.bind (fun h => r.states[h]?)).any SweepState.released

/-- **A round begins**: with a renewal, if it takes the lock for its own and
has not been told otherwise. -/
def begin (r : SweepReplica) (now : ℕ) : SweepReplica :=
  { (if r.held.isSome && !r.lapsed then r.goto now .renewing
      else { r.goto now .acquiring with held := none }) with
    rounds := r.rounds + 1 }

/-- It works. -/
def work (r : SweepReplica) (now : ℕ) : SweepReplica :=
  { r.goto now .working with works := r.works + 1 }

/-- **The reply to its request is read.** -/
def read (r : SweepReplica) (now : ℕ) : SweepReplica :=
  match r.stage with
  | .renewed (some n) =>
    if n = 0 then
      { (match r.held with
          | some h => r.onState h (fun st => { st with released := true })
          | none => r).goto now .acquiring with held := none }
    else r.work now
  -- the server did not answer: the state is given up, and its task goes on
  | .renewed none => { r.goto now .acquiring with held := none }
  | .acquired (some (some _)) =>
    { r.work now with
      held := some r.states.length
      states := r.states ++ [⟨false, .sleeping, now⟩] }
  | .acquired _ => r.goto now .waiting
  | _ => r

/-- A replica has been given the lock for this round: it works, or its reply
says that it may. -/
def Given (q : SweepReplica) : Prop :=
  match q.stage with
  | .renewed (some n) => n ≠ 0
  | .acquired (some (some _)) => True
  | .working => True
  | _ => False

/-- Reading a reply is no script. -/
theorem read_lastOk (q : SweepReplica) (now : ℕ) : (q.read now).lastOk = q.lastOk := by
  unfold read
  split
  · split
    · split <;> rfl
    · rfl
  all_goals rfl

/-- What the maintenance reads gives it nothing that its reply has not. -/
theorem given_of_read {q : SweepReplica} {now : ℕ} (h : (q.read now).Given) :
    q.Given := by
  unfold read at h
  split at h
  · next n hs =>
    split at h
    · exact h.elim
    · next hn =>
      unfold Given
      rw [hs]
      exact hn
  · exact h.elim
  · next hs =>
    unfold Given
    rw [hs]
    trivial
  · exact h.elim
  · exact h

end SweepReplica

namespace SweepState

/-- The task goes on. -/
def goto (st : SweepState) (now : ℕ) (task : RenewalTask) : SweepState :=
  { st with task := task, since := now }

/-- The task wakes up. -/
def wake (st : SweepState) (now : ℕ) : SweepState :=
  if st.task = .sleeping then st.goto now (if st.released then .ended else .renewing) else st

/-- Its renewal returns, and it goes on or ends. -/
def taskReturn (st : SweepState) (now : ℕ) : SweepState :=
  match st.task with
  | .renewed (some n) =>
    if n = 0 then { st.goto now .ended with released := true } else st.goto now .sleeping
  | .renewed none => st.goto now .ended
  | _ => st

end SweepState

namespace SweepWorld

variable {ι : Type} [DecidableEq ι]

/-- A replica is changed. -/
def onReplica (w : SweepWorld ι) (i : ι) (f : SweepReplica → SweepReplica) : SweepWorld ι :=
  { w with replicas := Function.update w.replicas i (f (w.replicas i)) }

end SweepWorld

namespace SweepFleet

variable {ι : Type} [DecidableEq ι] (F : SweepFleet ι)

/-- A renewal of a replica is sent, and its reply noted. -/
def renew (w : SweepWorld ι) (i : ι) (fault : Option Bool)
    (note : SweepReplica → Option ℕ → SweepReplica) : SweepWorld ι :=
  let r := (F.renewal i).sent w.redis fault
  { SweepWorld.onReplica w i (fun q =>
      { note q r.1 with
        lastOk := if fault ≠ some false ∧ (F.renewal i w.redis).1.toOption = some 1
          then w.redis.now else q.lastOk }) with
    redis := r.2 }

/-- A replica tries for the lock. -/
def tryFor (w : SweepWorld ι) (i : ι) (fault : Option Bool) : SweepWorld ι :=
  let r := (F.attempt i).sent w.redis fault
  { w.onReplica i (fun q =>
      { q.goto w.redis.now (.acquired r.1) with
        lastOk := if fault ≠ some false ∧ (F.attempt i w.redis).1.toOption.join.isSome = true
          then w.redis.now else q.lastOk }) with
    redis := r.2 }

/-- The maintenance's request reaches the server. -/
def run (w : SweepWorld ι) (i : ι) (fault : Option Bool) : SweepWorld ι :=
  match (w.replicas i).stage with
  | .renewing => F.renew w i fault (fun q reply => q.goto w.redis.now (.renewed reply))
  | .acquiring => F.tryFor w i fault
  | _ => w

/-- The request of a state's task reaches the server. -/
def taskRun (w : SweepWorld ι) (i : ι) (h : ℕ) (fault : Option Bool) : SweepWorld ι :=
  match (w.replicas i).states[h]? with
  | some ⟨_, .renewing, _⟩ =>
    F.renew w i fault (fun q reply =>
      q.onState h (fun st => st.goto w.redis.now (.renewed reply)))
  | _ => w

/-- **The maintenance of all replicas, step by step.** -/
def system : System (SweepWorld ι) (SweepEvent ι) Unit where
  step w e := ((), match e with
    | .tick d => { w with redis := w.redis.tick d }
    | .acquire holder ttl =>
      { w with redis := (acquireLua F.lease (LeaseId.fenceKey F.p ⟨.locks, SWEEP_LOCK⟩) holder ttl
          w.redis).2 }
    | .request .renew holder ttl => { w with redis := (renewLua F.lease holder ttl w.redis).2 }
    | .request .release holder _ => { w with redis := (releaseLua F.lease holder w.redis).2 }
    | .round i listed =>
      if (w.replicas i).stage = .waiting ∧ listed = true
      then w.onReplica i (fun q => q.begin w.redis.now) else w
    | .run i fault => F.run w i fault
    | .reply i => w.onReplica i (fun q => q.read w.redis.now)
    | .done i =>
      if (w.replicas i).stage = .working
      then w.onReplica i (fun q => q.goto w.redis.now .waiting) else w
    | .wake i h => w.onReplica i (fun q => q.onState h (fun st => st.wake w.redis.now))
    | .taskRun i h fault => F.taskRun w i h fault
    | .taskReturn i h =>
      w.onReplica i (fun q => q.onState h (fun st => st.taskReturn w.redis.now)))

/-! ## What a request does -/

variable {F} {w : SweepWorld ι} {i : ι}

theorem toOption_eq_some {ε α : Type} {x : Except ε α} {a : α} (h : x.toOption = some a) :
    x = .ok a := by
  cases x with
  | error e => cases h
  | ok b => rw [Option.some.inj h]

/-- **A renewal is sent**: nothing changes, and a reply says that the lock is
not the replica's; or it is and lives on from now, and no reply says that it is
gone. -/
theorem renew_cases (fault : Option Bool) (note : SweepReplica → Option ℕ → SweepReplica) :
    ∃ reply lastOk s, F.renew w i fault note
        = ⟨s, Function.update w.replicas i
          { note (w.replicas i) reply with lastOk := lastOk }⟩
      ∧ ((s = w.redis ∧ lastOk = (w.replicas i).lastOk
          ∧ ∀ n, reply = some n → n = 0 ∧ ¬ w.redis.HeldBy F.lease (F.node i))
        ∨ (w.redis.HeldBy F.lease (F.node i) ∧ lastOk = w.redis.now
          ∧ s = w.redis.put F.lease (leaseObj w.redis (F.node i) (clampMs F.ttl.asMillis))
          ∧ ∀ n, reply = some n → n = 1)) := by
  refine ⟨_, _, _, rfl, ?_⟩
  by_cases hsent : fault = some false
  · subst hsent
    exact Or.inl ⟨rfl, if_neg (fun h => h.1 rfl), by rintro n ⟨⟩⟩
  -- what its reply says, if it is not lost
  have hreply : ∀ n, ((F.renewal i).sent w.redis fault).1 = some n →
      (F.renewal i w.redis).1 = .ok n := by
    intro n hn
    rcases fault with - | - | -
    · exact toOption_eq_some hn
    · exact absurd rfl hsent
    · cases hn
  have hserver : ((F.renewal i).sent w.redis fault).2 = (F.renewal i w.redis).2 := by
    rcases fault with - | - | -
    · rfl
    · exact absurd rfl hsent
    · rfl
  by_cases hheld : w.redis.HeldBy F.lease (F.node i)
  · by_cases hok : ExpireOk w.redis.now (clampMs F.ttl.asMillis)
    · have hrun : F.renewal i w.redis = _ := renewLua_held hheld hok
      have hone : (F.renewal i w.redis).1 = .ok 1 := congrArg Prod.fst hrun
      refine Or.inr ⟨hheld, if_pos ⟨hsent, congrArg Except.toOption hone⟩,
        hserver.trans (congrArg Prod.snd hrun), fun n hn => ?_⟩
      exact (Except.ok.inj (hone.symm.trans (hreply n hn))).symm
    · have hrun : F.renewal i w.redis = _ :=
        renewLua_refused hheld (clampMs_pos F.ttl.asMillis) hok
      have herror : (F.renewal i w.redis).1 = .error _ := congrArg Prod.fst hrun
      exact Or.inl ⟨hserver.trans (congrArg Prod.snd hrun),
        if_neg (fun h => nomatch herror.symm.trans (toOption_eq_some h.2)),
        fun n hn => nomatch herror.symm.trans (hreply n hn)⟩
  · obtain ⟨hsame, hquiet⟩ : (F.renewal i w.redis).2 = w.redis ∧ (F.renewal i w.redis).1 ∈ quiet :=
      casLua_not_held hheld
    exact Or.inl ⟨hserver.trans hsame,
      if_neg (fun h => absurd (hquiet 1 (toOption_eq_some h.2)) (by decide)),
      fun n hn => ⟨hquiet n (hreply n hn), hheld⟩⟩

/-- **A renewal is answered** that fits the server's clock, of the replica's
own lock. -/
theorem renew_answered (hheld : w.redis.HeldBy F.lease (F.node i))
    (hroom : w.redis.now + clampMs F.ttl.asMillis < 2 ^ 63)
    (note : SweepReplica → Option ℕ → SweepReplica) :
    F.renew w i none note
      = ⟨w.redis.put F.lease (leaseObj w.redis (F.node i) (clampMs F.ttl.asMillis)),
        Function.update w.replicas i
          { note (w.replicas i) (some 1) with lastOk := w.redis.now }⟩ := by
  have hrun : F.renewal i w.redis = _ := renewLua_held hheld ⟨clampMs_pos _, hroom⟩
  rw [renew, Script.sent, hrun]
  rfl

/-- **An attempt is sent**: nothing changes, and it is not given the lock; or
the lock was free and is the replica's from now, and it is given the lock or
told nothing. -/
theorem tryFor_cases (fault : Option Bool) :
    ∃ reply lastOk s, F.tryFor w i fault
        = ⟨s, Function.update w.replicas i
          { (w.replicas i).goto w.redis.now (.acquired reply) with lastOk := lastOk }⟩
      ∧ ((s = w.redis ∧ lastOk = (w.replicas i).lastOk ∧ reply.join = none)
        ∨ (w.redis.lookup F.lease = none ∧ s.now = w.redis.now
          ∧ s.lookup F.lease = some (leaseObj w.redis (F.node i) (clampMs F.ttl.asMillis))
          ∧ (lastOk = w.redis.now ∨ reply.join = none))) := by
  refine ⟨_, _, _, rfl, ?_⟩
  by_cases hsent : fault = some false
  · subst hsent
    exact Or.inl ⟨rfl, if_neg (fun h => h.1 rfl), rfl⟩
  have hreply : ∀ tok, ((F.attempt i).sent w.redis fault).1.join = some tok →
      (F.attempt i w.redis).1 = .ok (some tok) := by
    intro tok htok
    rcases fault with - | - | -
    · exact toOption_eq_some (Option.join_eq_some_iff.mp htok)
    · exact absurd rfl hsent
    · cases htok
  have hserver : ((F.attempt i).sent w.redis fault).2 = (F.attempt i w.redis).2 := by
    rcases fault with - | - | -
    · rfl
    · exact absurd rfl hsent
    · rfl
  have hne : F.lease ≠ LeaseId.fenceKey F.p ⟨.locks, SWEEP_LOCK⟩ := LeaseId.leaseKey_ne_fenceKey _ _
  rcases acquireLua_cases hne (F.node i) (clampMs F.ttl.asMillis) w.redis with
    ⟨hsame, hno⟩ | ⟨hfree, n, -, hrun⟩ | ⟨hfree, e, -, hrun⟩
  · refine Or.inl ⟨hserver.trans hsame, if_neg ?_, Option.eq_none_iff_forall_ne_some.mpr
      (fun tok htok => hno tok (hreply tok htok))⟩
    rintro ⟨-, hsome⟩
    obtain ⟨tok, htok⟩ := Option.isSome_iff_exists.mp hsome
    exact hno tok (toOption_eq_some (Option.join_eq_some_iff.mp htok))
  · have hput : (F.attempt i w.redis).2 = _ := congrArg Prod.snd hrun
    refine Or.inr ⟨hfree, ?_, ?_, Or.inl (if_pos ⟨hsent, ?_⟩)⟩
    · rw [hserver, hput]
      rfl
    · rw [hserver, hput, Redis.lookup_put_of_ne _ hne]
      exact Redis.lookup_put_self _ (liveAt_leaseObj _ _ _)
    · have hok : (F.attempt i w.redis).1 = _ := congrArg Prod.fst hrun
      rw [hok]
      rfl
  · have hput : (F.attempt i w.redis).2 = _ := congrArg Prod.snd hrun
    have herror : (F.attempt i w.redis).1 = _ := congrArg Prod.fst hrun
    refine Or.inr ⟨hfree, ?_, ?_, Or.inr (Option.eq_none_iff_forall_ne_some.mpr
      (fun tok htok => nomatch herror.symm.trans (hreply tok htok)))⟩
    · rw [hserver, hput]
      rfl
    · rw [hserver, hput]
      exact Redis.lookup_put_self _ (liveAt_leaseObj _ _ _)

/-! ## Nobody else works -/

variable (F)

/-- **The lock is a replica's**, for its lifetime from the last script that
said so. -/
def Owns (w : SweepWorld ι) (i : ι) : Prop :=
  w.redis.lookup F.lease = some ⟨.str (holderBytes (F.node i)),
    some ((w.replicas i).lastOk + clampMs F.ttl.asMillis)⟩

/-- **No work outlasts the lock**: while a replica has been given it, no time
passes but what its lifetime has left, and no other call renews or releases it
in the replica's name. -/
def InTime (w : SweepWorld ι) : SweepEvent ι → Prop
  | .tick d => ∀ i, (w.replicas i).Given →
    w.redis.now + d ≤ (w.replicas i).lastOk + clampMs F.ttl.asMillis
  | .request _ holder _ => ∀ i, (w.replicas i).Given → holder ≠ F.node i
  | _ => True

/-- Who has been given the lock owns it. -/
def Alone (w : SweepWorld ι) : Prop := ∀ i, (w.replicas i).Given → F.Owns w i

variable {F} {j : ι}

omit [DecidableEq ι] in
theorem Owns.heldBy (h : F.Owns w i) : w.redis.HeldBy F.lease (F.node i) := ⟨_, h⟩

omit [DecidableEq ι] in
theorem heldBy_unique (hi : w.redis.HeldBy F.lease (F.node i))
    (hj : w.redis.HeldBy F.lease (F.node j)) : i = j := by
  obtain ⟨e, hi⟩ := hi
  obtain ⟨e', hj⟩ := hj
  have hbytes := congrArg Obj.value (Option.some.inj (hi.symm.trans hj))
  exact F.node_injective (holderBytes_injective (Value.str.inj hbytes))

omit [DecidableEq ι] in
/-- The server changes, and the lock of whoever owns it does not. -/
theorem Alone.congr (h : F.Alone w) {s : Redis}
    (hs : ∀ i, (w.replicas i).Given → F.Owns w i → s.lookup F.lease = w.redis.lookup F.lease) :
    F.Alone { w with redis := s } :=
  fun i hi => (hs i hi (h i hi)).trans (h i hi)

/-- A replica changes that is not given the lock by it. -/
theorem Alone.onReplica (h : F.Alone w) {f : SweepReplica → SweepReplica}
    (hf : (f (w.replicas i)).Given → (w.replicas i).Given)
    (hl : (f (w.replicas i)).lastOk = (w.replicas i).lastOk) : F.Alone (w.onReplica i f) := by
  intro j hj
  by_cases hij : j = i
  · subst hij
    unfold Owns
    simp only [SweepWorld.onReplica, Function.update_self] at hj ⊢
    rw [hl]
    exact h j (hf hj)
  · unfold Owns
    simp only [SweepWorld.onReplica, Function.update_of_ne hij] at hj ⊢
    exact h j hj

/-- A replica renews, for its maintenance or for a task. -/
theorem Alone.renew (h : F.Alone w) (fault : Option Bool)
    {note : SweepReplica → Option ℕ → SweepReplica}
    (hnote : ∀ reply, (∀ n, reply = some n → n = 0) →
      (note (w.replicas i) reply).Given → (w.replicas i).Given) :
    F.Alone (F.renew w i fault note) := by
  obtain ⟨reply, lastOk, s, hrun, hcase⟩ := renew_cases (F := F) (w := w) (i := i) fault note
  rw [hrun]
  intro j hj
  by_cases hij : j = i
  · subst hij
    unfold Owns
    simp only [Function.update_self] at hj ⊢
    rcases hcase with ⟨rfl, rfl, hno⟩ | ⟨-, rfl, rfl, -⟩
    · exact h j (hnote reply (fun n hn => (hno n hn).1) hj)
    · exact Redis.lookup_put_self _ (liveAt_leaseObj _ _ _)
  · unfold Owns
    simp only [Function.update_of_ne hij] at hj ⊢
    rcases hcase with ⟨rfl, -⟩ | ⟨hheld, -⟩
    · exact h j hj
    · exact absurd (heldBy_unique (h j hj).heldBy hheld) hij

/-- **A replica tries for the lock**: nobody has been given it if it is free. -/
theorem Alone.tryFor (h : F.Alone w) (fault : Option Bool) : F.Alone (F.tryFor w i fault) := by
  obtain ⟨reply, lastOk, s, hrun, hcase⟩ := tryFor_cases (F := F) (w := w) (i := i) fault
  rw [hrun]
  intro j hj
  by_cases hij : j = i
  · subst hij
    unfold Owns
    simp only [Function.update_self] at hj ⊢
    have hgiven : reply.join ≠ none := by
      rintro hno
      cases reply with
      | none => exact hj
      | some t =>
        obtain rfl : t = none := hno
        exact hj
    rcases hcase with ⟨-, -, hno⟩ | ⟨-, -, hlock, hlast⟩
    · exact absurd hno hgiven
    · rw [hlock, hlast.resolve_right hgiven]
      rfl
  · unfold Owns
    simp only [Function.update_of_ne hij] at hj ⊢
    rcases hcase with ⟨rfl, -⟩ | ⟨hfree, -⟩
    · exact h j hj
    · exact nomatch hfree.symm.trans (h j hj)

/-- **Every step keeps it so**, in time. -/
theorem alone_step (w : SweepWorld ι) (e : SweepEvent ι) (h : F.Alone w) (he : F.InTime w e) :
    F.Alone (F.system.step w e).2 := by
  cases e with
  | tick d =>
    intro i hi
    have hlive : w.redis.now + d ≤ (w.replicas i).lastOk + clampMs F.ttl.asMillis := he i hi
    show (w.redis.tick d).lookup F.lease = _
    rw [Redis.lookup_tick, h i hi]
    exact Option.filter_some_pos (decide_eq_true hlive)
  | acquire holder ttl =>
    exact h.congr (fun i _ ho => congrArg (fun s => s.lookup F.lease)
      (acquireLua_held (Option.isSome_iff_exists.mpr ⟨_, ho⟩)).1)
  | request kind holder ttl =>
    cases kind with
    | renew =>
      exact h.congr (fun i hi ho => congrArg (fun s => s.lookup F.lease)
        (LeaseTerms.scriptBy_heldBy (L := F.terms i) ho.heldBy (he i hi) ttl .renew))
    | release =>
      exact h.congr (fun i hi ho => congrArg (fun s => s.lookup F.lease)
        (LeaseTerms.scriptBy_heldBy (L := F.terms i) ho.heldBy (he i hi) ttl .release))
  | round i listed =>
    show F.Alone (if _ then _ else w)
    split
    · refine h.onReplica (f := fun q => q.begin w.redis.now) ?_ ?_ <;>
        unfold SweepReplica.begin <;> split
      · exact fun hq => hq.elim
      · exact fun hq => hq.elim
      · rfl
      · rfl
    · exact h
  | run i fault =>
    show F.Alone (F.run w i fault)
    unfold SweepFleet.run
    split
    · refine h.renew fault (fun reply hno hq => ?_)
      cases reply with
      | none => exact hq.elim
      | some n => exact absurd (hno n rfl) hq
    · exact h.tryFor fault
    · exact h
  | reply i =>
    exact h.onReplica (f := fun q => q.read w.redis.now) SweepReplica.given_of_read
      (SweepReplica.read_lastOk _ _)
  | done i =>
    show F.Alone (if _ then _ else w)
    split
    · exact h.onReplica (f := fun q => q.goto w.redis.now .waiting) (fun hq => hq.elim) rfl
    · exact h
  | wake i k =>
    exact h.onReplica (f := fun q => q.onState k (fun st => st.wake w.redis.now)) (fun hq => hq) rfl
  | taskRun i k fault =>
    show F.Alone (F.taskRun w i k fault)
    unfold SweepFleet.taskRun
    split
    · exact h.renew fault (fun _ _ hq => hq)
    · exact h
  | taskReturn i k =>
    exact h.onReplica (f := fun q => q.onState k (fun st => st.taskReturn w.redis.now))
      (fun hq => hq) rfl

/-- **One replica works at a time.** In every run of the maintenance of all
replicas, of the tasks of the locks they have been given, whether these have
been given up or not, and of other calls for the lock, in which no work
outlasts the lock: no two replicas work, or have been told that they may. -/
theorem works_alone (F : SweepFleet ι) (s : Redis) (es : List (SweepEvent ι))
    (hes : F.system.Along F.InTime (start s) es) {i j : ι} (hij : i ≠ j) :
    ¬ (((F.system.final (start s) es).replicas i).Given
      ∧ ((F.system.final (start s) es).replicas j).Given) := by
  rintro ⟨hi, hj⟩
  have hstart : F.Alone (start s) := fun i hi => absurd hi id
  have halone := F.system.inv_final alone_step hstart hes
  exact hij (heldBy_unique (halone i hi).heldBy (halone j hj).heldBy)

/-- The first that asks gets the lock. -/
theorem gets_first (F : SweepFleet ι) (i : ι) (hlt : clampMs F.ttl.asMillis < 2 ^ 63) :
    ((F.run (F.system.step (start (Redis.empty 0)) (.round i true)).2 i none).replicas i).stage
      = .acquired (some (some (Double.round 1))) := by
  have hround : (F.system.step (start (Redis.empty 0)) (.round i true)).2
      = (start (Redis.empty 0)).onReplica i (fun q => q.begin 0) := rfl
  obtain ⟨s, hs, -⟩ := LeaseTerms.acquire_empty (L := F.terms i) hlt
  have hattempt : F.attempt i (Redis.empty 0) = (.ok (some (Double.round 1)), s) := hs
  rw [hround]
  simp only [SweepFleet.run, SweepWorld.onReplica, Function.update_self]
  simp only [SweepReplica.begin, SweepReplica.goto, start, Option.isSome_none, Bool.false_and,
    Bool.false_eq_true, if_false, SweepFleet.tryFor, SweepWorld.onReplica, Function.update_self,
    Script.sent, hattempt]
  rfl

/-- Two replicas, with 25 milliseconds between their ticks. -/
def pair : SweepFleet Bool :=
  ⟨"p:", fun b => if b then "a" else "b", by unfold Function.Injective; decide, 25, by decide⟩

/-- One of them works, and the other does not. -/
theorem works_alone_pair :
    ¬ (((pair.system.final (start (Redis.empty 0)) [.round true true, .run true none, .reply true,
          .round false true, .run false none, .reply false]).replicas true).Given
      ∧ ((pair.system.final (start (Redis.empty 0)) [.round true true, .run true none, .reply true,
          .round false true, .run false none, .reply false]).replicas false).Given) :=
  works_alone pair (Redis.empty 0) [.round true true, .run true none, .reply true,
    .round false true, .run false none, .reply false]
    ⟨trivial, trivial, trivial, trivial, trivial, trivial, trivial⟩ (by decide)

end SweepFleet
