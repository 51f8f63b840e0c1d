import Mathlib.Data.List.Forall2
import ClusterRedis.Lease
import ClusterRedis.Runs

/-!
# Runs on one lease

Nodes acquire a lease, renew it from their callers and from a task of their
own, and release it, while the server expires the key. A call is three
steps – it starts, its script runs on the server, it returns – and other
calls may come between any two of them; a call that is given up, or whose
reply is lost, ends without its reply being read.

A `Handle` is what an acquisition leaves with its node: the token, and the
flag that says the handle has been ended. Beside what the code keeps, it
records the times its validity is reckoned from: when its acquire script
ran, when its last script succeeded, and when its release deleted the key.

The scripts compare holders, and all handles of a node have the same holder.
So whether a handle acts on its own acquisition or on a later one of its
node is decided by what the node still has in hand when it acquires again.
`Disciplined` is the discipline under which a script only ever acts on the
newest acquisition (`LeaseInv.owner`): a node starts an acquisition only when
its earlier handles are ended, with no call of theirs under way, and no
other acquisition of its own is under way.
-/

open Numerals

/-! ## The world -/

/-- **What an acquisition leaves with its node.** -/
structure Handle where
  node : String
  ttl : ℕ
  ttl_pos : 0 < ttl
  token : ℕ
  /-- Ended by a release or by an expired renewal. -/
  released : Bool
  /-- When the acquire script ran. -/
  acquiredAt : ℕ
  /-- When a script last gave the handle a lifetime. -/
  lastOk : ℕ
  /-- When the handle's release deleted the key. -/
  deletedAt : Option ℕ
  deriving DecidableEq

/-- The end of a handle's validity: a lifetime after its last successful
script, or when its release deleted the key, if that is first. -/
def Handle.validUntil (h : Handle) : ℕ :=
  match h.deletedAt with
  | none => h.lastOk + h.ttl
  | some d => min d (h.lastOk + h.ttl)

/-- **The handle is valid at a time.** -/
def Handle.ValidAt (h : Handle) (t : ℕ) : Prop := h.acquiredAt ≤ t ∧ t < h.validUntil

instance (h : Handle) (t : ℕ) : Decidable (h.ValidAt t) := inferInstanceAs (Decidable (_ ∧ _))

/-- An acquisition under way; `outcome` is none until its script has run,
then the handle it got, if it got one. -/
structure Acquire where
  node : String
  ttl : ℕ
  ttl_pos : 0 < ttl
  outcome : Option (Option ℕ)
  deriving DecidableEq

/-- What a handle is asked to do. -/
inductive CallKind where
  | renew
  | release
  deriving DecidableEq

/-- A renewal or release under way; `reply` is none until its script has
run, then what the script replied, if it did not raise. -/
structure LeaseCall where
  handle : ℕ
  kind : CallKind
  reply : Option (Option ℕ)
  deriving DecidableEq

/-- **What the nodes have in hand of a lease.** Handles are in the order
their acquire scripts ran in. -/
structure LeaseBooks where
  handles : List Handle
  acquires : List Acquire
  calls : List LeaseCall

/-- **The nodes and the server.** -/
structure LeaseWorld extends LeaseBooks where
  redis : Redis

/-- Nobody has asked for the lease yet. -/
def LeaseBooks.none : LeaseBooks := ⟨[], [], []⟩

/-- The server, and nobody has asked for the lease yet. -/
def LeaseWorld.start (s : Redis) : LeaseWorld := ⟨LeaseBooks.none, s⟩

/-- What a call returns to its caller; the reason of an unavailable backend
is left out. -/
inductive LeaseReply where
  | ok
  | leaseExpired
  | unavailable
  deriving DecidableEq

/-- One step on a lease. -/
inductive LeaseEvent where
  | tick (d : ℕ)
  | acquire (node : String) (ttl : Duration)
  | acquireRun (k : ℕ)
  | acquireReturn (k : ℕ) (lost : Bool)
  | renew (i : ℕ)
  | release (i : ℕ)
  | callRun (c : ℕ)
  | callReturn (c : ℕ)
  | callAbort (c : ℕ)

namespace LeaseWorld

variable (lease fence : String)

/-- Change a handle. -/
def onHandle (w : LeaseWorld) (i : ℕ) (f : Handle → Handle) : LeaseWorld :=
  { w with handles := w.handles.modify i f }

/-- The handle an acquire script that replied a token makes. -/
def newHandle (w : LeaseWorld) (a : Acquire) (token : ℤ) : Handle :=
  { node := a.node, ttl := a.ttl, ttl_pos := a.ttl_pos, token := (token % 2 ^ 64).toNat,
    released := false, acquiredAt := w.redis.now, lastOk := w.redis.now, deletedAt := none }

/-- The script of an acquisition runs. -/
def runAcquire (w : LeaseWorld) (k : ℕ) (a : Acquire) : LeaseWorld :=
  match acquireLua lease fence a.node a.ttl w.redis with
  | (.ok (some token), s) =>
    { w with
      redis := s
      handles := w.handles ++ [w.newHandle a token]
      acquires := w.acquires.set k { a with outcome := some (some w.handles.length) } }
  | (_, s) =>
    { w with redis := s, acquires := w.acquires.set k { a with outcome := some none } }

/-- The script a call runs. -/
def script (h : Handle) : CallKind → Script ℕ
  | .renew => renewLua lease h.node h.ttl
  | .release => releaseLua lease h.node

/-- What a script that succeeded does for its handle. -/
def succeed (t : ℕ) (h : Handle) : CallKind → Handle
  | .renew => { h with lastOk := t }
  | .release => { h with deletedAt := some t }

/-- The script of a call runs. -/
def runCall (w : LeaseWorld) (c : ℕ) (h : Handle) (call : LeaseCall) : LeaseWorld :=
  let r := script lease h call.kind w.redis
  { w with
    redis := r.2
    calls := w.calls.set c { call with reply := some r.1.toOption }
    handles := if r.1.toOption = some 1
      then w.handles.modify call.handle (fun h => succeed w.redis.now h call.kind)
      else w.handles }

/-- A call returns. A renewal that found the key not its holder's ends its
handle. -/
def returnCall (w : LeaseWorld) (c : ℕ) (call : LeaseCall) : LeaseReply × LeaseWorld :=
  let w' := { w with calls := w.calls.eraseIdx c }
  match call.kind, call.reply with
  | .release, _ => (.ok, w')
  | .renew, some (some n) =>
    if n = 0 then (.leaseExpired, w'.onHandle call.handle (fun h => { h with released := true }))
    else (.ok, w')
  | .renew, _ => (.unavailable, w')

/-- A renewal or release starts. On an ended handle it returns at once; a
release ends its handle before anything else. -/
def startCall (w : LeaseWorld) (i : ℕ) (kind : CallKind) : Option LeaseReply × LeaseWorld :=
  match w.handles[i]? with
  | none => (none, w)
  | some h =>
    if h.released then (some (match kind with | .renew => .leaseExpired | .release => .ok), w)
    else match kind with
      | .renew => (none, { w with calls := w.calls ++ [⟨i, .renew, none⟩] })
      | .release => (none, { w with
          calls := w.calls ++ [⟨i, .release, none⟩]
          handles := w.handles.modify i (fun h => { h with released := true }) })

/-- An acquisition returns. When its reply is lost nobody has its handle. -/
def returnAcquire (w : LeaseWorld) (k : ℕ) (a : Acquire) (lost : Bool) : LeaseWorld :=
  let w' := { w with acquires := w.acquires.eraseIdx k }
  match a.outcome with
  | some (some i) => if lost then w'.onHandle i (fun h => { h with released := true }) else w'
  | _ => w'

end LeaseWorld

/-- **The nodes and the server, step by step.** A step that names nothing
under way does nothing. -/
def leaseSystem (lease fence : String) : System LeaseWorld LeaseEvent (Option LeaseReply) where
  step w
    | .tick d => (none, { w with redis := w.redis.tick d })
    | .acquire node ttl =>
      (none, { w with
        acquires := w.acquires ++ [⟨node, clampMs ttl.asMillis, clampMs_pos _, none⟩] })
    | .acquireRun k => match w.acquires[k]? with
      | some a => if a.outcome = none then (none, w.runAcquire lease fence k a) else (none, w)
      | none => (none, w)
    | .acquireReturn k lost => match w.acquires[k]? with
      | some a => (none, w.returnAcquire k a lost)
      | none => (none, w)
    | .renew i => w.startCall i .renew
    | .release i => w.startCall i .release
    | .callRun c => match w.calls[c]? with
      | some call => match w.handles[call.handle]? with
        | some h => if call.reply = none then (none, w.runCall lease c h call) else (none, w)
        | none => (none, w)
      | none => (none, w)
    | .callReturn c => match w.calls[c]? with
      | some call => (some (w.returnCall c call).1, (w.returnCall c call).2)
      | none => (none, w)
    | .callAbort c => (none, { w with calls := w.calls.eraseIdx c })

/-- The system of a lease: its key and its counter. -/
def LeaseId.system (p : String) (l : LeaseId) :
    System LeaseWorld LeaseEvent (Option LeaseReply) :=
  leaseSystem (l.leaseKey p) (l.fenceKey p)

/-- The nodes and the server after a run. -/
def LeaseId.after (p : String) (l : LeaseId) (s : Redis) (es : List LeaseEvent) : LeaseWorld :=
  (l.system p).final (LeaseWorld.start s) es

/-! ## The discipline -/

/-- **A handle is ended** and no call on it is under way. -/
def LeaseWorld.Ended (w : LeaseWorld) (i : ℕ) : Prop :=
  (∀ h ∈ w.handles[i]?, h.released = true) ∧ ∀ c ∈ w.calls, c.handle ≠ i

instance (w : LeaseWorld) (i : ℕ) : Decidable (w.Ended i) :=
  inferInstanceAs (Decidable (_ ∧ _))

/-- Every earlier handle of a node is ended. -/
def LeaseWorld.AllEnded (w : LeaseWorld) (node : String) : Prop :=
  ∀ i < w.handles.length, (∀ h ∈ w.handles[i]?, h.node = node → w.Ended i)

instance (w : LeaseWorld) (node : String) : Decidable (w.AllEnded node) :=
  inferInstanceAs (Decidable (∀ i < w.handles.length, _))

/-- **A node acquires after its earlier handles are ended.** -/
def EndsFirst (w : LeaseWorld) : LeaseEvent → Prop
  | .acquire node _ => w.AllEnded node
  | _ => True

/-- **A node acquires after its earlier handles are ended, one acquisition
at a time.** -/
def Disciplined (w : LeaseWorld) : LeaseEvent → Prop
  | .acquire node _ => w.AllEnded node ∧ ∀ a ∈ w.acquires, a.node ≠ node
  | _ => True

instance (w : LeaseWorld) : ∀ e, Decidable (EndsFirst w e)
  | .acquire node _ => inferInstanceAs (Decidable (w.AllEnded node))
  | .tick _ | .acquireRun _ | .acquireReturn _ _ | .renew _ | .release _ | .callRun _
  | .callReturn _ | .callAbort _ => isTrue trivial

instance (w : LeaseWorld) : ∀ e, Decidable (Disciplined w e)
  | .acquire node _ => inferInstanceAs (Decidable (w.AllEnded node ∧ ∀ a ∈ w.acquires, _))
  | .tick _ | .acquireRun _ | .acquireReturn _ _ | .renew _ | .release _ | .callRun _
  | .callReturn _ | .callAbort _ => isTrue trivial

/-! ## What a step can do -/

/-- What bookkeeping makes of a handle: at most it is ended. -/
structure Handle.Evolves (h h' : Handle) : Prop where
  node : h'.node = h.node
  ttl : h'.ttl = h.ttl
  token : h'.token = h.token
  acquiredAt : h'.acquiredAt = h.acquiredAt
  lastOk : h'.lastOk = h.lastOk
  deletedAt : h'.deletedAt = h.deletedAt
  released : h.released = true → h'.released = true

theorem Handle.Evolves.refl (h : Handle) : h.Evolves h := ⟨rfl, rfl, rfl, rfl, rfl, rfl, id⟩

theorem Handle.Evolves.release (h : Handle) : h.Evolves { h with released := true } :=
  ⟨rfl, rfl, rfl, rfl, rfl, rfl, fun _ => rfl⟩

/-- **Bookkeeping**: the server is not touched, handles are at most ended,
calls start only on handles that are not, and no acquisition starts. -/
structure LeaseWorld.Books (w w' : LeaseWorld) : Prop where
  redis : w'.redis = w.redis
  length : w'.handles.length = w.handles.length
  handles : ∀ (i : ℕ) (h' : Handle), w'.handles[i]? = some h' →
    ∃ h : Handle, w.handles[i]? = some h ∧ h.Evolves h'
  calls : ∀ c ∈ w'.calls, (∃ c₀ ∈ w.calls, c₀.handle = c.handle)
    ∨ ∃ h, w.handles[c.handle]? = some h ∧ h.released = false
  waiting : ∀ a ∈ w'.acquires, a.outcome = none → a ∈ w.acquires
  nodes : List.Sublist (w'.acquires.map Acquire.node) (w.acquires.map Acquire.node)

/-- **What a step can do.** -/
inductive LeaseWorld.Change (lease fence : String) (w : LeaseWorld) :
    LeaseEvent → LeaseWorld → Prop
  | books {e : LeaseEvent} {w' : LeaseWorld} (h : w.Books w') : Change lease fence w e w'
  | tick (d : ℕ) : Change lease fence w (.tick d) { w with redis := w.redis.tick d }
  | start (node : String) (ttl : Duration) : Change lease fence w (.acquire node ttl)
      { w with acquires := w.acquires ++ [⟨node, clampMs ttl.asMillis, clampMs_pos _, none⟩] }
  | acquired {k : ℕ} {a : Acquire} {n : ℤ} (hk : w.acquires[k]? = some a)
      (hwait : a.outcome = none) (hfree : w.redis.lookup lease = none)
      (hn : w.redis.count fence (some 1) = .ok n) :
      Change lease fence w (.acquireRun k)
        { w with
          redis := (w.redis.put lease (leaseObj w.redis a.node a.ttl)).put fence
            (w.redis.counted fence n)
          handles := w.handles ++ [w.newHandle a (Double.round n)]
          acquires := w.acquires.set k { a with outcome := some (some w.handles.length) } }
  | stuck {k : ℕ} {a : Acquire} {e : CmdError} (hk : w.acquires[k]? = some a)
      (hwait : a.outcome = none) (hfree : w.redis.lookup lease = none)
      (he : w.redis.count fence (some 1) = .error e) :
      Change lease fence w (.acquireRun k)
        { w with
          redis := w.redis.put lease (leaseObj w.redis a.node a.ttl)
          acquires := w.acquires.set k { a with outcome := some none } }
  | renewed {c : ℕ} {call : LeaseCall} {h : Handle} (hc : w.calls[c]? = some call)
      (hh : w.handles[call.handle]? = some h) (held : w.redis.HeldBy lease h.node) :
      Change lease fence w (.callRun c)
        { w with
          redis := w.redis.put lease (leaseObj w.redis h.node h.ttl)
          calls := w.calls.set c { call with reply := some (some 1) }
          handles := w.handles.modify call.handle (fun h => { h with lastOk := w.redis.now }) }
  | deleted {c : ℕ} {call : LeaseCall} {h : Handle} (hc : w.calls[c]? = some call)
      (hh : w.handles[call.handle]? = some h) (held : w.redis.HeldBy lease h.node) :
      Change lease fence w (.callRun c)
        { w with
          redis := w.redis.del lease
          calls := w.calls.set c { call with reply := some (some 1) }
          handles := w.handles.modify call.handle
            (fun h => { h with deletedAt := some w.redis.now }) }

namespace LeaseWorld

variable {w w' : LeaseWorld} {lease fence : String}

theorem getElem?_modify_evolves {l : List Handle} {f : Handle → Handle}
    (hf : ∀ h : Handle, h.Evolves (f h)) (j i : ℕ) {h' : Handle}
    (hm : (l.modify j f)[i]? = some h') : ∃ h, l[i]? = some h ∧ h.Evolves h' := by
  rw [List.getElem?_modify] at hm
  cases hl : l[i]? with
  | none =>
    rw [hl] at hm
    exact absurd hm (by simp)
  | some h =>
    rw [hl] at hm
    refine ⟨h, rfl, ?_⟩
    by_cases hji : j = i
    · have : f h = h' := by simpa [hji] using hm
      exact this ▸ hf h
    · have : h = h' := by simpa [hji] using hm
      exact this ▸ Handle.Evolves.refl h

/-- A step that does nothing. -/
theorem Books.refl (w : LeaseWorld) : w.Books w where
  redis := rfl
  length := rfl
  handles := fun _ h' hh' => ⟨h', hh', Handle.Evolves.refl h'⟩
  calls := fun c hc => Or.inl ⟨c, hc, rfl⟩
  waiting := fun _ ha _ => ha
  nodes := List.Sublist.refl _

/-- A script that ran and did nothing is noted with its acquisition. -/
theorem Books.set_acquire {k : ℕ} {a : Acquire} (hk : w.acquires[k]? = some a) (o : Option ℕ) :
    w.Books { w with acquires := w.acquires.set k { a with outcome := some o } } where
  redis := rfl
  length := rfl
  handles := fun _ h' hh' => ⟨h', hh', Handle.Evolves.refl h'⟩
  calls := fun c hc => Or.inl ⟨c, hc, rfl⟩
  waiting := by
    intro b hb hnone
    rcases List.mem_or_eq_of_mem_set hb with hb | rfl
    · exact hb
    · exact absurd hnone (by simp)
  nodes := by
    have hset : (w.acquires.set k { a with outcome := some o }).map Acquire.node
        = w.acquires.map Acquire.node := by
      obtain ⟨hlt, hget⟩ := List.getElem?_eq_some_iff.mp hk
      refine List.ext_getElem? (fun m => ?_)
      rw [List.getElem?_map, List.getElem?_map, List.getElem?_set]
      by_cases hm : k = m
      · subst hm
        rw [if_pos rfl, if_pos hlt, hk]
        rfl
      · rw [if_neg hm]
    rw [hset]

/-- A script that ran and did nothing is noted with its call. -/
theorem Books.set_call {c : ℕ} {call : LeaseCall} (hc : w.calls[c]? = some call)
    (r : Option ℕ) : w.Books { w with calls := w.calls.set c { call with reply := some r } } where
  redis := rfl
  length := rfl
  handles := fun _ h' hh' => ⟨h', hh', Handle.Evolves.refl h'⟩
  calls := by
    intro c' hc'
    rcases List.mem_or_eq_of_mem_set hc' with hm | rfl
    · exact Or.inl ⟨c', hm, rfl⟩
    · exact Or.inl ⟨call, List.mem_of_getElem? hc, rfl⟩
  waiting := fun _ ha _ => ha
  nodes := List.Sublist.refl _

/-- Handles may be ended, and calls and acquisitions dropped. -/
theorem Books.drop {f : Handle → Handle} (hf : ∀ h : Handle, h.Evolves (f h)) (j : ℕ)
    {calls : List LeaseCall} {acquires : List Acquire} (hc : List.Sublist calls w.calls)
    (ha : List.Sublist acquires w.acquires) :
    w.Books ⟨⟨w.handles.modify j f, acquires, calls⟩, w.redis⟩ where
  redis := rfl
  length := List.length_modify _ _ _
  handles := fun i _ hh' => getElem?_modify_evolves hf j i hh'
  calls := fun c hm => Or.inl ⟨c, hc.mem hm, rfl⟩
  waiting := fun _ hm _ => ha.mem hm
  nodes := ha.map Acquire.node

theorem Books.of_startCall (i : ℕ) (kind : CallKind) : w.Books (w.startCall i kind).2 := by
  unfold startCall
  cases hl : w.handles[i]? with
  | none => exact Books.refl w
  | some h =>
    dsimp only
    by_cases hr : h.released = true
    · rw [if_pos hr]
      exact Books.refl w
    · rw [if_neg hr]
      have hnew : ∀ k, ∀ c ∈ w.calls ++ [⟨i, k, none⟩], (∃ c₀ ∈ w.calls, c₀.handle = c.handle)
          ∨ ∃ h, w.handles[c.handle]? = some h ∧ h.released = false := by
        intro k c hc
        rcases List.mem_append.mp hc with hc | hc
        · exact Or.inl ⟨c, hc, rfl⟩
        · obtain rfl := List.mem_singleton.mp hc
          exact Or.inr ⟨h, hl, by simpa using hr⟩
      cases kind with
      | renew => exact { Books.refl w with calls := hnew _ }
      | release =>
        exact { Books.drop Handle.Evolves.release i (List.Sublist.refl _) (List.Sublist.refl _)
          with calls := hnew _ }

theorem Books.of_returnCall (c : ℕ) (call : LeaseCall) : w.Books (w.returnCall c call).2 := by
  have hsub := List.eraseIdx_sublist w.calls c
  have herase : w.Books { w with calls := w.calls.eraseIdx c } :=
    { Books.refl w with calls := fun c' hc' => Or.inl ⟨c', hsub.mem hc', rfl⟩ }
  unfold returnCall
  split
  · exact herase
  · split
    · exact Books.drop Handle.Evolves.release call.handle hsub (List.Sublist.refl _)
    · exact herase
  · exact herase

theorem Books.of_returnAcquire (k : ℕ) (a : Acquire) (lost : Bool) :
    w.Books (w.returnAcquire k a lost) := by
  have hsub := List.eraseIdx_sublist w.acquires k
  have herase : w.Books { w with acquires := w.acquires.eraseIdx k } :=
    { Books.refl w with
      waiting := fun b hb _ => hsub.mem hb
      nodes := hsub.map Acquire.node }
  unfold returnAcquire
  split
  · split
    · exact Books.drop Handle.Evolves.release _ (List.Sublist.refl _) hsub
    · exact herase
  · exact herase

/-- What an acquire script can do. -/
theorem runAcquire_change (hne : lease ≠ fence) {k : ℕ} {a : Acquire}
    (hk : w.acquires[k]? = some a) (hwait : a.outcome = none) :
    Change lease fence w (.acquireRun k) (w.runAcquire lease fence k a) := by
  unfold runAcquire
  rcases acquireLua_cases hne a.node a.ttl w.redis with
    ⟨hs, hr⟩ | ⟨hfree, n, hn, hrun⟩ | ⟨hfree, e, he, hrun⟩
  · split
    · next token s hrun => exact absurd (congrArg Prod.fst hrun) (hr token)
    · next hrun =>
      rw [hrun] at hs
      obtain rfl := hs
      exact .books (Books.set_acquire hk none)
  · rw [hrun]
    exact .acquired hk hwait hfree hn
  · rw [hrun]
    exact .stuck hk hwait hfree he

/-- What the script of a call can do. -/
theorem runCall_change {c : ℕ} {call : LeaseCall} {h : Handle} (hc : w.calls[c]? = some call)
    (hh : w.handles[call.handle]? = some h) :
    Change lease fence w (.callRun c) (w.runCall lease c h call) := by
  obtain ⟨i, kind, reply⟩ := call
  have hquiet : (script lease h kind w.redis).2 = w.redis
        ∧ (script lease h kind w.redis).1 ∈ quiet →
      Change lease fence w (.callRun c) (w.runCall lease c h ⟨i, kind, reply⟩) := by
    rintro ⟨hs, hr⟩
    have hne : ¬ (script lease h kind w.redis).1.toOption = some 1 := by
      cases hr1 : (script lease h kind w.redis).1 with
      | error e => simp [Except.toOption]
      | ok n => simp [Except.toOption, hr n hr1]
    unfold runCall
    dsimp only
    rw [if_neg hne, hs]
    exact .books (Books.set_call hc _)
  cases kind with
  | renew =>
    rcases renewLua_cases lease h.node h.ttl_pos w.redis with hq | ⟨held, hrun⟩
    · exact hquiet hq
    · have hscr : script lease h .renew w.redis
          = (.ok 1, w.redis.put lease (leaseObj w.redis h.node h.ttl)) := hrun
      unfold runCall
      rw [hscr]
      exact .renewed hc hh held
  | release =>
    rcases releaseLua_cases lease h.node w.redis with hq | ⟨held, hrun⟩
    · exact hquiet hq
    · have hscr : script lease h .release w.redis = (.ok 1, w.redis.del lease) := hrun
      unfold runCall
      rw [hscr]
      exact .deleted hc hh held

/-- **What a step can do**, guards included. -/
theorem step_change (hne : lease ≠ fence) (w : LeaseWorld) (e : LeaseEvent) :
    Change lease fence w e ((leaseSystem lease fence).step w e).2 := by
  cases e with
  | tick d => exact .tick d
  | acquire node ttl => exact .start node ttl
  | acquireRun k =>
    simp only [leaseSystem]
    split
    · next a hk =>
      split
      · next hwait => exact runAcquire_change hne hk hwait
      · exact .books (Books.refl w)
    · exact .books (Books.refl w)
  | acquireReturn k lost =>
    simp only [leaseSystem]
    split
    · exact .books (Books.of_returnAcquire k _ lost)
    · exact .books (Books.refl w)
  | renew i => exact .books (Books.of_startCall i .renew)
  | release i => exact .books (Books.of_startCall i .release)
  | callRun c =>
    simp only [leaseSystem]
    split
    · next call hc =>
      split
      · next h hh =>
        split
        · exact runCall_change hc hh
        · exact .books (Books.refl w)
      · exact .books (Books.refl w)
    · exact .books (Books.refl w)
  | callReturn c =>
    simp only [leaseSystem]
    split
    · exact .books (Books.of_returnCall c _)
    · exact .books (Books.refl w)
  | callAbort c =>
    exact .books { Books.refl w with
      calls := fun c' hc' => Or.inl ⟨c', (List.eraseIdx_sublist w.calls c).mem hc', rfl⟩ }

end LeaseWorld
