import ClusterRedis.PeerPattern

/-!
# Nodes that have left

A list of the registrations is put together from three reads of different
ages: the node ids of the sorted set, the registrations at their keys, and a
scan that may have been made half a minute ago by another task of the
process. A node that has left may still be in the scan.

What keeps it out of the list is that a current build says of itself, in
its registration, that it keeps the key index: the scan is for the older
builds, and of what it found only registrations that do not say so are
listed. So of the nodes that always say so the list holds what it read at
their keys and nothing else, whatever is remembered
(`departed_stay_gone`).

A step of `Replicas.system` is a command of a registration, a departure or a
list, or a step of time, or a write by anybody else. What a list is judged
by is kept beside its reads: the nodes that had left when it read the sorted
set, and the server as it read the registrations.
-/

open PeersWorld

/-! ## What the commands do to the server -/

/-- A script whose reply is dropped. -/
theorem Script.discard_snd {α β : Type} (x : Script α) (b : β) (s : Redis) :
    ((x >>= fun _ => pure b) s).2 = (x s).2 := by
  rw [Script.bind_apply]
  cases x s with
  | mk r t =>
    cases r with
    | ok a => rfl
    | error e => rfl

namespace PeerCommand

variable {p : String} {s : Redis} {z : String}

/-- **What a command does to the sorted set**: it enters a node or takes some
out, and a node that is taken out by its id is out. -/
theorem run_index (h : s.ZKey (peersIndexKey p)) (cmd : PeerCommand) :
    (cmd.run p s).2.ZKey (peersIndexKey p)
      ∧ ∀ m, (cmd.run p s).2.Mem (peersIndexKey p) m →
        (s.Mem (peersIndexKey p) m ∨ ∃ d, cmd = .zadd m d) ∧ cmd ≠ .zrem m := by
  have hframe : ∀ id, peersIndexKey p ∉ ({peerKey p id} : Set String) :=
    fun id he => peerKey_ne_peersIndexKey id he.symm
  cases cmd with
  | set id json ttl =>
    have hsame := (run_set_within p id json ttl).frame s _ (hframe id)
    exact ⟨h.congr hsame, fun m hm => ⟨Or.inl ((Redis.mem_congr hsame).mp hm), by simp⟩⟩
  | del id =>
    have hsame := (run_del_within p id).frame s _ (hframe id)
    exact ⟨h.congr hsame, fun m hm => ⟨Or.inl ((Redis.mem_congr hsame).mp hm), by simp⟩⟩
  | range now =>
    have hsame : (run p (.range now) s).2 = s := Redis.zrangebyscore_snd
    rw [hsame]
    exact ⟨h, fun m hm => ⟨Or.inl hm, by simp⟩⟩
  | zadd id d =>
    rw [run_zadd h]
    refine ⟨h.zins, fun m hm => ⟨?_, by simp⟩⟩
    rcases (Redis.mem_zins s).mp hm with rfl | hm
    · exact Or.inr ⟨d, rfl⟩
    · exact Or.inl hm
  | zrem id =>
    rw [run_zrem h]
    refine ⟨h.zdel, fun m hm => ?_⟩
    obtain ⟨hne, hm⟩ := (Redis.mem_zdel s).mp hm
    exact ⟨Or.inl hm, fun he => hne (PeerCommand.zrem.inj he).symm⟩
  | trim now =>
    rw [run_trim h]
    refine ⟨h.zremrangebyscore _, fun m hm => ⟨Or.inl ?_, by simp⟩⟩
    exact (Redis.zremrangebyscore_snd _).2 m hm

/-- What `SET` leaves at its key: its value, unless it is refused. -/
theorem run_set_value (p id : String) (json : List UInt8) (ttl : ℕ) (s : Redis) :
    valueAt (run p (.set id json ttl) s).2 (peerKey p id) = valueAt s (peerKey p id)
      ∨ valueAt (run p (.set id json ttl) s).2 (peerKey p id) = some json := by
  rw [run, Script.discard_snd, Redis.set]
  split
  · exact Or.inl rfl
  · have hlive : Obj.liveAt ⟨.str json, (some ttl).map (s.now + ·)⟩ s.now = true := by
      simp [Obj.liveAt]
    refine Or.inr ?_
    show valueAt (s.put (peerKey p id) _) (peerKey p id) = some json
    rw [valueAt, Redis.lookup_put_self s hlive]

/-- `DEL` leaves nothing at its key. -/
theorem run_del_value (p id : String) (s : Redis) :
    valueAt (run p (.del id) s).2 (peerKey p id) = none := by
  have hgone : (run p (.del id) s).2.lookup (peerKey p id) = none := by
    rw [run, Script.discard_snd, Redis.delete]
    split
    · exact Redis.lookup_del_self s
    · next h => simpa using h
  rw [valueAt, hgone]

/-- **What a command leaves at a key**: what was there, or nothing that is
read as a registration, or the registration it sets. -/
theorem run_value (h : s.ZKey (peersIndexKey p)) (cmd : PeerCommand) (k : String) :
    valueAt (cmd.run p s).2 k = valueAt s k ∨ valueAt (cmd.run p s).2 k = none
      ∨ ∃ id json ttl, cmd = .set id json ttl ∧ k = peerKey p id
        ∧ valueAt (cmd.run p s).2 k = some json := by
  have hvalue : ∀ t : Redis, t.lookup k = s.lookup k → valueAt t k = valueAt s k :=
    fun t ht => by rw [valueAt, valueAt, ht]
  -- at its own key the sorted set is read as nothing
  have hset : ∀ t : Redis, t.ZKey (peersIndexKey p) →
      (∀ k', k' ≠ peersIndexKey p → t.lookup k' = s.lookup k') →
      valueAt t k = valueAt s k ∨ valueAt t k = none := by
    intro t ht hother
    by_cases hk : k = peersIndexKey p
    · refine Or.inr ?_
      subst hk
      cases hl : t.lookup (peersIndexKey p) with
      | none => rw [valueAt, hl]
      | some o =>
        obtain ⟨m, rfl⟩ := ht o hl
        rw [valueAt, hl]
    · exact Or.inl (hvalue t (hother k hk))
  have hindex := run_index h cmd
  cases cmd with
  | set id json ttl =>
    by_cases hk : k = peerKey p id
    · subst hk
      exact (run_set_value p id json ttl s).imp_right (fun h => Or.inr ⟨id, json, ttl, rfl, rfl, h⟩)
    · exact Or.inl (hvalue _ ((run_set_within p id json ttl).frame s _ hk))
  | del id =>
    by_cases hk : k = peerKey p id
    · subst hk
      exact Or.inr (Or.inl (run_del_value p id s))
    · exact Or.inl (hvalue _ ((run_del_within p id).frame s _ hk))
  | range now =>
    have hsame : (run p (.range now) s).2 = s := Redis.zrangebyscore_snd
    rw [hsame]
    exact Or.inl rfl
  | zadd id d =>
    refine (hset _ hindex.1 (fun k' hk' => ?_)).imp_right Or.inl
    rw [run_zadd h]
    exact Redis.lookup_zins_of_ne s hk'
  | zrem id =>
    refine (hset _ hindex.1 (fun k' hk' => ?_)).imp_right Or.inl
    rw [run_zrem h]
    exact Redis.lookup_zdel_of_ne s hk'
  | trim now =>
    refine (hset _ hindex.1 (fun k' hk' => ?_)).imp_right Or.inl
    rw [run_trim h]
    exact (Redis.zremrangebyscore_snd _).1 k' hk'

end PeerCommand

/-! ## Lists of the registrations -/

/-- **What a list has read**, and beside it the nodes that had left when the
sorted set was read, and the server as the registrations were. -/
structure ListReads where
  ids : List String
  left : String → Prop
  seen : Redis

/-- **Where a list stands**: the command it sends next, or the lock it waits
for. -/
inductive ListStage where
  | idle
  /-- Dropping the node ids that are past, -/
  | trim (r : ListReads) (now : ℕ)
  /-- reading the registrations, -/
  | read (r : ListReads)
  /-- the lock of the last scan, -/
  | enter (r : ListReads) (found : List Registration)
  /-- a step of a scan, -/
  | scan (r : ListReads) (found : List Registration) (cursor : UInt64) (keys : List String)
  /-- and reading what it found. -/
  | fetch (r : ListReads) (found : List Registration) (keys : List String)

/-- **Replicas**: lists `ι` in processes `π`. -/
structure Replicas (ι π : Type) where
  /-- `key_prefix`. -/
  p : String
  /-- How old the last scan may be. -/
  maxAge : ℕ
  home : ι → π

/-- **The state of the replicas.** -/
structure ListsWorld (ι π : Type) where
  /-- The server, and the commands of registrations and departures. -/
  peers : PeersWorld
  /-- The nodes whose departure is complete and who have not registered
  since. -/
  left : String → Prop
  /-- The last scan: when it ended, and what it found. -/
  last : π → Option (ℕ × List Registration)
  /-- Which list has the lock of the last scan. -/
  holder : π → Option ι
  stage : ι → ListStage

/-- **A step of the replicas.** -/
inductive ListsEvent (ι π : Type) where
  /-- A registration or a departure, or time. -/
  | peers (e : PeersEvent)
  /-- Anybody else writes or deletes a key. -/
  | write (k : String) (o : Option Obj)
  /-- The last scan is forgotten. -/
  | forget (x : π)
  /-- A command of a list. -/
  | list (i : ι) (t : Turn)

/-- Who has left, after a command. -/
def PeerCommand.leaves (left : String → Prop) : PeerCommand → String → Prop
  | zrem id => fun m => m = id ∨ left m
  | zadd id _ => fun m => m ≠ id ∧ left m
  | _ => left

section Steps

variable {ι π : Type} [DecidableEq ι] [DecidableEq π] {α : Type}

/-- What a list answers: what it read, and the registrations. -/
abbrev ListAnswer : Type := Option (ListReads × List Registration)

namespace ListsWorld

/-- The list goes on with a stage. -/
def goto (w : ListsWorld ι π) (i : ι) (st : ListStage) : ListsWorld ι π :=
  { w with stage := Function.update w.stage i st }

/-- The server is changed. -/
def withRedis (w : ListsWorld ι π) (s : Redis) : ListsWorld ι π :=
  { w with peers := { w.peers with redis := s } }

/-- **Send a command**: it may fail before the server ran it or after, or the
server may refuse it. -/
def send (w : ListsWorld ι π) (t : Turn) (x : Script α)
    (ok : α → ListsWorld ι π → ListAnswer × ListsWorld ι π)
    (err : ListsWorld ι π → ListsWorld ι π) : ListAnswer × ListsWorld ι π :=
  match t.fault with
  | some false => (none, err w)
  | some true => (none, err (w.withRedis (x w.peers.redis).2))
  | none => match (x w.peers.redis).1 with
    | .ok a => ok a (w.withRedis (x w.peers.redis).2)
    | .error _ => (none, err (w.withRedis (x w.peers.redis).2))

/-- Read the registrations at keys, if there are any. -/
def readKeys (w : ListsWorld ι π) (t : Turn) (p : String) (keys : List String)
    (ok : List Registration → ListsWorld ι π → ListAnswer × ListsWorld ι π)
    (err : ListsWorld ι π → ListsWorld ι π) : ListAnswer × ListsWorld ι π :=
  if keys = [] then ok [] w
  else w.send t (Redis.mget keys)
    (fun values w => match readRegistrations p keys values with
      | some found => ok found w
      | none => (none, err w))
    err

end ListsWorld

variable (F : Replicas ι π)

namespace Replicas

/-- The lock of the last scan is given up. -/
def unlock (w : ListsWorld ι π) (i : ι) : ListsWorld ι π :=
  { w with holder := Function.update w.holder (F.home i) none }

/-- **A step of `list_registrations`.** -/
def listStep (w : ListsWorld ι π) (i : ι) (t : Turn) : ListAnswer × ListsWorld ι π :=
  match w.stage i with
  | .idle =>
    w.send t (Redis.zrangebyscore (peersIndexKey F.p) (Double.round t.clock))
      (fun ids v => (none, v.goto i (.trim ⟨ids, w.left, w.peers.redis⟩ t.clock)))
      (fun v => v.goto i .idle)
  | .trim r now =>
    w.send t (Redis.zremrangebyscore (peersIndexKey F.p) (Double.round now))
      (fun _ v => (none, v.goto i (.read r))) (fun v => v.goto i .idle)
  | .read r =>
    w.readKeys t F.p (r.ids.map (peerKey F.p))
      (fun found v => (none, v.goto i (.enter { r with seen := w.peers.redis } found)))
      (fun v => v.goto i .idle)
  | .enter r found => match w.holder (F.home i) with
    -- another list of the process is scanning
    | some _ => (none, w)
    | none => match (w.last (F.home i)).filter (fun sc => t.instant - sc.1 < F.maxAge) with
      | some sc => (some (r, listedRegistrations r.ids found sc.2), w.goto i .idle)
      | none => (none, { w with holder := Function.update w.holder (F.home i) (some i) }.goto i
          (.scan r found 0 []))
  | .scan r found _ keys =>
    if t.fault.isSome then (none, (F.unlock w i).goto i .idle)
    else (none, w.goto i (if t.reply.1 = 0 then .fetch r found (keys ++ t.reply.2)
      else .scan r found t.reply.1 (keys ++ t.reply.2)))
  | .fetch r found keys =>
    w.readKeys t F.p keys
      (fun rs v =>
        let v := { v with last := Function.update v.last (F.home i) (some (t.instant, rs)) }
        (some (r, listedRegistrations r.ids found rs), (F.unlock v i).goto i .idle))
      (fun v => (F.unlock v i).goto i .idle)

/-- The command of a registration or a departure that runs next, if it is
one's turn. -/
def nextCommand (w : ListsWorld ι π) : PeersEvent → Option PeerCommand
  | .run c => (w.peers.pipelines[c]?).bind List.head?
  | _ => none

/-- **Replicas that come, go and list**, in any interleaving. -/
def system : System (ListsWorld ι π) (ListsEvent ι π) ListAnswer where
  step w
    | .peers e => (none, { w with
        peers := ((PeersWorld.system F.p).step w.peers e).2
        left := (nextCommand w e).elim w.left (PeerCommand.leaves w.left) })
    | .write k o => (none, w.withRedis (w.peers.redis.update k (some o)))
    | .forget x => (none, match w.holder x with
        | some _ => w
        | none => { w with last := Function.update w.last x none })
    | .list i t => F.listStep w i t

end Replicas

end Steps

/-! ## What holds of the replicas -/

/-- What is read at a key, if it is a registration of one of the nodes, says
that the node keeps the index. -/
def SaysIndexed (current : String → Bool) (p k : String) (v : Option (List UInt8)) : Prop :=
  current (nodeId p k) = true → ∀ reg, registration v = some reg → reg.kvIndex = true

theorem SaysIndexed.none {current : String → Bool} {p k : String} :
    SaysIndexed current p k none := by
  intro _ reg hreg
  cases hreg

/-- **What a list may return of the nodes that always say so.** -/
structure ListReads.Sound (current : String → Bool) (p : String) (r : ListReads)
    (rs : List Registration) : Prop where
  /-- The key of every one was there when the registrations were read. -/
  live : ∀ id reg, current id = true → (id, reg) ∈ rs → r.seen.Live (peerKey p id)
  /-- None of them had left when the sorted set was read. -/
  present : ∀ id reg, current id = true → (id, reg) ∈ rs → ¬ r.left id
  /-- They are those that were read at their keys, whatever was remembered. -/
  uncached : ∃ found, readAt p (r.ids.map (peerKey p)) r.seen = some found
    ∧ rs.filter (fun x => current x.1) = found.filter (fun x => current x.1)

/-- What a list has read. -/
def ListStage.Reads (p : String) : ListStage → Prop
  | idle => True
  | trim r _ | read r => ∀ id ∈ r.ids, ¬ r.left id
  | enter r found | scan r found _ _ | fetch r found _ =>
    (∀ id ∈ r.ids, ¬ r.left id) ∧ readAt p (r.ids.map (peerKey p)) r.seen = some found

section Invariant

variable {ι π : Type} {F : Replicas ι π} {current : String → Bool}
  {w : ListsWorld ι π}

/-- **The replicas are in order**: nobody who has left is in the sorted set,
and what is stored, on its way or remembered of the nodes says that they keep
the index. -/
structure Replicas.Ordered (F : Replicas ι π) (current : String → Bool) (w : ListsWorld ι π) :
    Prop where
  zkey : w.peers.redis.ZKey (peersIndexKey F.p)
  left : ∀ id, w.left id → ¬ w.peers.redis.Mem (peersIndexKey F.p) id
  values : ∀ k, SaysIndexed current F.p k (valueAt w.peers.redis k)
  coming : ∀ cs ∈ w.peers.pipelines, ∀ id json ttl, .set id json ttl ∈ cs →
    SaysIndexed current F.p (peerKey F.p id) (some json)
  last : ∀ x sc, w.last x = some sc → ∀ r ∈ sc.2, current r.1 = true → r.2.kvIndex = true
  stages : ∀ i, (w.stage i).Reads F.p

/-- **The nodes say that they keep the index**, in whatever is written at
their keys; and the sorted set is left to registrations, departures and
lists. -/
def Replicas.Current (F : Replicas ι π) (current : String → Bool) (w : ListsWorld ι π) :
    ListsEvent ι π → Prop
  | .peers (.register id json _ _) => SaysIndexed current F.p (peerKey F.p id) (some json)
  | .write k o => k ≠ peersIndexKey F.p
    ∧ SaysIndexed current F.p k (valueAt (w.peers.redis.update k (some o)) k)
  | _ => True

/-- **Of the nodes that say so the list holds what was read at their keys.** -/
theorem sound_of_reads {p : String} {r : ListReads} {found legacy : List Registration}
    (hleft : ∀ id ∈ r.ids, ¬ r.left id)
    (hfound : readAt p (r.ids.map (peerKey p)) r.seen = some found)
    (hlegacy : ∀ x ∈ legacy, current x.1 = true → x.2.kvIndex = true) :
    r.Sound current p (listedRegistrations r.ids found legacy) := by
  have hnone : (legacy.filter (fun x => !x.2.kvIndex && !r.ids.contains x.1)).filter
      (fun x => current x.1) = [] := by
    refine List.filter_eq_nil_iff.mpr (fun x hx hcur => ?_)
    obtain ⟨hx, hkind⟩ := List.mem_filter.mp hx
    rw [hlegacy x hx hcur] at hkind
    exact absurd hkind (by simp)
  have hfilter : (listedRegistrations r.ids found legacy).filter (fun x => current x.1)
      = found.filter (fun x => current x.1) := by
    rw [listedRegistrations, List.filter_append, hnone, List.append_nil]
  have hmem : ∀ id reg, current id = true → (id, reg) ∈ listedRegistrations r.ids found legacy →
      (id, reg) ∈ found := by
    intro id reg hcur hm
    have hin : (id, reg) ∈ (listedRegistrations r.ids found legacy).filter
        (fun x => current x.1) := List.mem_filter.mpr ⟨hm, hcur⟩
    rw [hfilter] at hin
    exact (List.mem_filter.mp hin).1
  have hkey : ∀ id reg, (id, reg) ∈ found →
      id ∈ r.ids ∧ registration (valueAt r.seen (peerKey p id)) = some reg := by
    intro id reg hm
    obtain ⟨k, hk, hid, hreg⟩ := exists_key_of_mem_readAt hfound hm
    obtain ⟨id', hin, rfl⟩ := List.mem_map.mp hk
    obtain rfl : id = id' := hid.trans (nodeId_peerKey p id')
    exact ⟨hin, hreg⟩
  refine ⟨fun id reg hcur hm => ?_, fun id reg hcur hm => ?_, ⟨found, hfound, hfilter⟩⟩
  · obtain ⟨-, hreg⟩ := hkey id reg (hmem id reg hcur hm)
    by_contra hgone
    have hl : r.seen.lookup (peerKey p id) = none := by simpa [Redis.Live] using hgone
    rw [valueAt, hl] at hreg
    cases hreg
  · exact hleft id (hkey id reg (hmem id reg hcur hm)).1

/-! ## Steps -/

namespace ListsWorld

variable {α : Type} {P : ListAnswer × ListsWorld ι π → Prop} {t : Turn}
  {err : ListsWorld ι π → ListsWorld ι π}

/-- **The ends of a command.** -/
theorem send_of {x : Script α} {ok : α → ListsWorld ι π → ListAnswer × ListsWorld ι π}
    (herr : P (none, err w)) (herr' : P (none, err (w.withRedis (x w.peers.redis).2)))
    (hok : ∀ a, (x w.peers.redis).1 = .ok a → P (ok a (w.withRedis (x w.peers.redis).2))) :
    P (w.send t x ok err) := by
  unfold send
  split
  · exact herr
  · exact herr'
  · split
    · next a ha => exact hok a ha
    · exact herr'

/-- The ends of a command that only reads. -/
theorem send_of_read {x : Script α} {ok : α → ListsWorld ι π → ListAnswer × ListsWorld ι π}
    (hx : (x w.peers.redis).2 = w.peers.redis) (herr : P (none, err w))
    (hok : ∀ a, (x w.peers.redis).1 = .ok a → P (ok a w)) : P (w.send t x ok err) := by
  have hw : w.withRedis (x w.peers.redis).2 = w := by rw [hx]; rfl
  refine send_of herr (hw.symm ▸ herr) (fun a ha => ?_)
  rw [hw]
  exact hok a ha

/-- The ends of reading the registrations at keys. -/
theorem readKeys_of {p : String} {keys : List String}
    {ok : List Registration → ListsWorld ι π → ListAnswer × ListsWorld ι π}
    (herr : P (none, err w))
    (hok : ∀ found, readAt p keys w.peers.redis = some found → P (ok found w)) :
    P (w.readKeys t p keys ok err) := by
  unfold readKeys
  split
  · next hk =>
    subst hk
    exact hok [] rfl
  · refine send_of_read rfl herr (fun values hvalues => ?_)
    obtain rfl := Except.ok.inj hvalues
    split
    · next found hfound => exact hok found hfound
    · exact herr

end ListsWorld

namespace Replicas

/-- A world in order and an answer that may be given. -/
def Good (F : Replicas ι π) (current : String → Bool) (x : ListAnswer × ListsWorld ι π) : Prop :=
  F.Ordered current x.2
    ∧ ∀ r rs, x.1 = some (r, rs) → r.Sound current F.p rs

theorem Ordered.good (h : F.Ordered current w) : F.Good current (none, w) :=
  ⟨h, fun _ _ he => nomatch he⟩

theorem Ordered.goto [DecidableEq ι] (h : F.Ordered current w) {i : ι} {st : ListStage}
    (hst : st.Reads F.p) :
    F.Ordered current (w.goto i st) where
  zkey := h.zkey
  left := h.left
  values := h.values
  coming := h.coming
  last := h.last
  stages := by
    intro j
    by_cases hj : j = i
    · subst hj
      rw [show (w.goto j st).stage j = st from Function.update_self _ _ _]
      exact hst
    · rw [show (w.goto i st).stage j = w.stage j from Function.update_of_ne hj _ _]
      exact h.stages j

/-- A list goes on. -/
theorem Ordered.stay [DecidableEq ι] (h : F.Ordered current w) (i : ι) {st : ListStage}
    (hst : st.Reads F.p) : F.Good current (none, w.goto i st) := (h.goto hst).good

/-- A list answers. -/
theorem Ordered.answer [DecidableEq ι] (h : F.Ordered current w) (i : ι) {r : ListReads}
    {rs : List Registration} (hs : r.Sound current F.p rs) :
    F.Good current (some (r, rs), w.goto i .idle) := by
  refine ⟨(@Ordered.stay _ _ F current w _ h i .idle trivial).1, fun r' rs' he => ?_⟩
  obtain ⟨rfl, rfl⟩ := Prod.mk.inj (Option.some.inj he)
  exact hs

theorem Ordered.unlock [DecidableEq π] (h : F.Ordered current w) (i : ι) :
    F.Ordered current (F.unlock w i) :=
  ⟨h.zkey, h.left, h.values, h.coming, h.last, h.stages⟩

/-- **A server that holds no more than it did** keeps the replicas in
order. -/
theorem Ordered.withRedis (h : F.Ordered current w) {s : Redis} (hz : s.ZKey (peersIndexKey F.p))
    (hmem : ∀ id, s.Mem (peersIndexKey F.p) id → w.peers.redis.Mem (peersIndexKey F.p) id)
    (hvalues : ∀ k, SaysIndexed current F.p k (valueAt s k)) :
    F.Ordered current (w.withRedis s) :=
  ⟨hz, fun id hid hm => h.left id hid (hmem id hm), hvalues, h.coming, h.last, h.stages⟩

/-- What a command leaves says that the nodes keep the index. -/
theorem Ordered.says_run (h : F.Ordered current w) (cmd : PeerCommand)
    (hset : ∀ id json ttl, cmd = .set id json ttl →
      SaysIndexed current F.p (peerKey F.p id) (some json)) (k : String) :
    SaysIndexed current F.p k (valueAt (cmd.run F.p w.peers.redis).2 k) := by
  rcases PeerCommand.run_value h.zkey cmd k with hv | hv | ⟨id, json, ttl, hcmd, rfl, hv⟩
  · rw [hv]
    exact h.values k
  · rw [hv]
    exact SaysIndexed.none
  · rw [hv]
    exact hset id json ttl hcmd

/-- A list takes nodes out of the sorted set. -/
theorem Ordered.trimmed (h : F.Ordered current w) (now : ℕ) :
    F.Ordered current (w.withRedis
      (Redis.zremrangebyscore (peersIndexKey F.p) (Double.round now) w.peers.redis).2) := by
  have hsays := h.says_run (.trim now) (fun id json ttl he => nomatch he)
  rw [PeerCommand.run_trim h.zkey] at hsays
  exact h.withRedis (h.zkey.zremrangebyscore _) (Redis.zremrangebyscore_snd _).2 hsays

/-- **A command of a registration or a departure.** -/
theorem Ordered.ran (h : F.Ordered current w) (cmd : PeerCommand)
    {pipelines : List (List PeerCommand)} (entered : String → Option ℕ)
    (hset : ∀ id json ttl, cmd = .set id json ttl →
      SaysIndexed current F.p (peerKey F.p id) (some json))
    (hcoming : ∀ cs ∈ pipelines, ∀ id json ttl, .set id json ttl ∈ cs →
      SaysIndexed current F.p (peerKey F.p id) (some json)) :
    F.Ordered current { w with
      peers := ⟨(cmd.run F.p w.peers.redis).2, pipelines, entered⟩
      left := cmd.leaves w.left } := by
  obtain ⟨hz, hmem⟩ := PeerCommand.run_index h.zkey cmd
  refine ⟨hz, fun id hid hm => ?_, h.says_run cmd hset, hcoming, h.last, h.stages⟩
  obtain ⟨hfrom, hnot⟩ := hmem id hm
  have hstay : w.left id → ∃ d, cmd = .zadd id d := fun hl => hfrom.resolve_left (h.left id hl)
  cases cmd with
  | zrem id' =>
    rcases hid with rfl | hid
    · exact hnot rfl
    · obtain ⟨d, hd⟩ := hstay hid
      exact nomatch hd
  | zadd id' d =>
    obtain ⟨d', hd⟩ := hstay hid.2
    exact hid.1 (PeerCommand.zadd.inj hd).1.symm
  | set id' json ttl => exact nomatch (hstay hid).choose_spec
  | del id' => exact nomatch (hstay hid).choose_spec
  | range now => exact nomatch (hstay hid).choose_spec
  | trim now => exact nomatch (hstay hid).choose_spec

/-- A scan that is remembered. -/
theorem Ordered.remember [DecidableEq π] (h : F.Ordered current w) (x : π)
    {sc : Option (ℕ × List Registration)}
    (hsc : ∀ a, sc = some a → ∀ r ∈ a.2, current r.1 = true → r.2.kvIndex = true) :
    F.Ordered current { w with last := Function.update w.last x sc } where
  zkey := h.zkey
  left := h.left
  values := h.values
  coming := h.coming
  stages := h.stages
  last := by
    intro y a ha
    replace ha : Function.update w.last x sc y = some a := ha
    by_cases hy : y = x
    · rw [hy, Function.update_self] at ha
      exact hsc a ha
    · rw [Function.update_of_ne hy] at ha
      exact h.last y a ha

/-- What is read of the nodes says that they keep the index. -/
theorem Ordered.says (h : F.Ordered current w) {keys : List String} {rs : List Registration}
    (hrs : readAt F.p keys w.peers.redis = some rs) :
    ∀ r ∈ rs, current r.1 = true → r.2.kvIndex = true := by
  intro r hr hcur
  obtain ⟨k, -, hid, hreg⟩ := exists_key_of_mem_readAt hrs hr
  rw [hid] at hcur
  exact h.values k hcur _ hreg

/-- **A step of a list.** -/
theorem Ordered.listStep [DecidableEq ι] [DecidableEq π] (h : F.Ordered current w) (i : ι)
    (t : Turn) :
    F.Good current (F.listStep w i t) := by
  unfold Replicas.listStep
  have hst := h.stages i
  cases hs : w.stage i with
  | idle =>
    refine ListsWorld.send_of_read Redis.zrangebyscore_snd (h.stay i trivial) (fun ids hids => ?_)
    refine h.stay i (fun id hid hleft => ?_)
    exact h.left id hleft (Redis.mem_of_zrangebyscore hids id hid)
  | trim r now =>
    rw [hs] at hst
    have htrim := h.trimmed now
    exact ListsWorld.send_of (h.stay i trivial) (htrim.stay i trivial) (fun _ _ => htrim.stay i hst)
  | read r =>
    rw [hs] at hst
    exact ListsWorld.readKeys_of (h.stay i trivial) (fun found hfound => h.stay i ⟨hst, hfound⟩)
  | enter r found =>
    rw [hs] at hst
    dsimp only
    split
    · exact h.good
    · split
      · next sc hsc =>
        obtain ⟨hlast, -⟩ := Option.filter_eq_some_iff.mp hsc
        exact h.answer i (sound_of_reads hst.1 hst.2 (h.last _ sc hlast))
      · have hlocked : F.Ordered current
            { w with holder := Function.update w.holder (F.home i) (some i) } :=
          ⟨h.zkey, h.left, h.values, h.coming, h.last, h.stages⟩
        exact hlocked.stay i hst
  | scan r found cursor keys =>
    rw [hs] at hst
    dsimp only
    split
    · exact (h.unlock i).stay i trivial
    · split
      · exact h.stay i hst
      · exact h.stay i hst
  | fetch r found keys =>
    rw [hs] at hst
    refine ListsWorld.readKeys_of ((h.unlock i).stay i trivial) (fun rs hrs => ?_)
    have hsays := h.says hrs
    have hlast := @Ordered.remember _ _ F current w _ h (F.home i) (some (t.instant, rs))
      (fun a ha => Option.some.inj ha ▸ hsays)
    exact (hlast.unlock i).answer i (sound_of_reads hst.1 hst.2 hsays)

/-- A call sends its commands. -/
theorem Ordered.sent (h : F.Ordered current w) {cs : List PeerCommand}
    (hcs : ∀ id json ttl, .set id json ttl ∈ cs →
      SaysIndexed current F.p (peerKey F.p id) (some json)) :
    F.Ordered current { w with peers := w.peers.send cs } where
  zkey := h.zkey
  left := h.left
  values := h.values
  last := h.last
  stages := h.stages
  coming := by
    intro cs' hcs'
    rcases List.mem_append.mp hcs' with hcs' | hcs'
    · exact h.coming cs' hcs'
    · obtain rfl := List.mem_singleton.mp hcs'
      exact hcs

/-- What is left of a call. -/
theorem Ordered.coming_set (h : F.Ordered current w) {c : ℕ} {rest : List PeerCommand}
    (hrest : ∀ id json ttl, .set id json ttl ∈ rest →
      SaysIndexed current F.p (peerKey F.p id) (some json)) :
    ∀ cs ∈ w.peers.pipelines.set c rest, ∀ id json ttl, .set id json ttl ∈ cs →
      SaysIndexed current F.p (peerKey F.p id) (some json) := by
  intro cs hcs
  rcases List.mem_or_eq_of_mem_set hcs with hcs | rfl
  · exact h.coming cs hcs
  · exact hrest

/-- **A step of a registration or a departure.** -/
theorem Ordered.peersStep (h : F.Ordered current w) {e : PeersEvent}
    (he : F.Current current w (.peers e)) :
    F.Ordered current { w with
      peers := ((PeersWorld.system F.p).step w.peers e).2
      left := (nextCommand w e).elim w.left (PeerCommand.leaves w.left) } := by
  cases e with
  | tick d =>
    have hl := h.zkey.lookup_tick d
    refine h.withRedis (h.zkey.congr hl) (fun id hm => (Redis.mem_congr hl).mp hm) (fun k => ?_)
    cases ht : (w.peers.redis.tick d).lookup k with
    | none =>
      rw [valueAt, ht]
      exact SaysIndexed.none
    | some o =>
      have hsame : valueAt (w.peers.redis.tick d) k = valueAt w.peers.redis k := by
        rw [valueAt, valueAt, ht, Redis.lookup_of_tick ht]
      rw [hsame]
      exact h.values k
  | register id json clock ttl =>
    refine h.sent (fun id' json' ttl' hm => ?_)
    rcases List.mem_cons.mp hm with heq | hm
    · obtain ⟨rfl, rfl, -⟩ := PeerCommand.set.inj heq
      exact he
    · exact PeerCommand.noConfusion (List.mem_singleton.mp hm)
  | deregister id =>
    exact h.sent (fun id' json' ttl' hm => by simp [deregisterPeer] at hm)
  | list clock =>
    exact h.sent (fun id' json' ttl' hm => by simp [listPeers] at hm)
  | lose c =>
    exact ⟨h.zkey, h.left, h.values,
      h.coming_set (fun _ _ _ hm => absurd hm List.not_mem_nil), h.last, h.stages⟩
  | run c =>
    show F.Ordered current { w with
      peers := w.peers.runNext F.p c
      left := ((w.peers.pipelines[c]?).bind List.head?).elim w.left (PeerCommand.leaves w.left) }
    rw [PeersWorld.runNext]
    split
    · next cmd rest hc =>
      have hcs := h.coming _ (List.mem_of_getElem? hc)
      rw [hc]
      refine h.ran cmd _ (fun id json ttl he => ?_)
        (h.coming_set (fun id json ttl hm => hcs id json ttl (List.mem_cons_of_mem cmd hm)))
      exact hcs id json ttl (he ▸ List.mem_cons_self)
    · next hnot =>
      have hnone : (w.peers.pipelines[c]?).bind List.head? = none := by
        cases hc : w.peers.pipelines[c]? with
        | none => rfl
        | some cs =>
          cases cs with
          | nil => rfl
          | cons cmd rest => exact absurd hc (hnot cmd rest)
      rw [hnone]
      exact h

/-- **A step of the replicas.** -/
theorem Ordered.step [DecidableEq ι] [DecidableEq π] (h : F.Ordered current w)
    {e : ListsEvent ι π} (he : F.Current current w e) :
    F.Good current (F.system.step w e) := by
  cases e with
  | peers e => exact (h.peersStep he).good
  | list i t => exact h.listStep i t
  | write k o =>
    obtain ⟨hk, hsays⟩ := he
    have hframe : ∀ k', k' ≠ k →
        (w.peers.redis.update k (some o)).lookup k' = w.peers.redis.lookup k' :=
      fun k' hk' => Redis.lookup_update_of_ne _ _ hk'
    have hz := hframe _ hk.symm
    refine (h.withRedis (h.zkey.congr hz) (fun id hm => (Redis.mem_congr hz).mp hm)
      (fun k' => ?_)).good
    by_cases hk' : k' = k
    · rw [hk']
      exact hsays
    · rw [valueAt, hframe k' hk']
      exact h.values k'
  | forget x =>
    refine Ordered.good ?_
    cases hx : w.holder x with
    | some i => exact h
    | none => exact h.remember x (fun a ha => absurd ha (Option.some_ne_none a).symm)

end Replicas

end Invariant

/-- **Nodes that have left stay gone**: in any run of registrations,
departures, lists and other writes, with anything remembered, of the nodes
that always say that they keep the index a list returns only those whose key
was there when it read the registrations, and none that had left – and not
registered since – when it read the sorted set; and which it returns does not
depend on what was remembered. -/
theorem departed_stay_gone {ι π : Type} [DecidableEq ι] [DecidableEq π] (F : Replicas ι π)
    (current : String → Bool) {w : ListsWorld ι π} (hw : F.Ordered current w)
    {es : List (ListsEvent ι π)} (hes : F.system.Along (F.Current current) w es) :
    ∀ x ∈ F.system.trace w es, ∀ r rs, x.2 = some (r, rs) → r.Sound current F.p rs := by
  refine (F.system.along_iff_trace
    (P := fun x => ∀ r rs, x.2 = some (r, rs) → r.Sound current F.p rs)).mp ?_
  exact System.Along.of_inv (fun _ _ h he => (h.step he).1) (fun _ _ h he => (h.step he).2) hw hes

/-- One replica. -/
def oneReplica : Replicas Unit Unit := ⟨"p:", 30000, fun _ => ()⟩

/-- It remembers a node that keeps the index. -/
def remembering : ListsWorld Unit Unit where
  peers := PeersWorld.start (Redis.empty 0)
  left := fun _ => False
  last := fun _ => some (0, [("a", ⟨"a:1", "t", [], true⟩)])
  holder := fun _ => none
  stage := fun _ => .idle

/-- The node registers and leaves, and the replica lists. -/
def registersAndLeaves : List (ListsEvent Unit Unit) :=
  [.peers (.register "a" (currentText.toList.flatMap String.utf8EncodeChar) 0 15000),
    .peers (.run 0), .peers (.run 0), .peers (.deregister "a"), .peers (.run 1), .peers (.run 1),
    .list () ⟨1, 1, (0, []), false, none⟩, .list () ⟨1, 1, (0, []), false, none⟩,
    .list () ⟨1, 1, (0, []), false, none⟩, .list () ⟨1, 1, (0, []), false, none⟩]

/-- The list is answered from the remembered scan, and is empty. -/
theorem departed_stay_gone_one :
    (oneReplica.system.answers remembering registersAndLeaves).filterMap (Option.map Prod.snd)
        = [[]]
      ∧ ∀ x ∈ oneReplica.system.trace remembering registersAndLeaves, ∀ r rs,
        x.2 = some (r, rs) → r.Sound (fun _ => true) "p:" rs := by
  refine ⟨by decide +kernel, departed_stay_gone oneReplica (fun _ => true) ?_ ?_⟩
  · refine ⟨fun o ho => (nomatch ho), fun _ h => h.elim,
      fun k => ?_,
      fun cs hcs => absurd hcs List.not_mem_nil, fun x sc hsc r hr _ => ?_, fun _ => trivial⟩
    · exact SaysIndexed.none
    · obtain rfl := Option.some.inj hsc
      rw [List.mem_singleton.mp hr]
  · refine ⟨fun _ reg hreg => ?_, trivial, trivial, trivial, trivial, trivial, trivial, trivial,
      trivial, trivial, trivial⟩
    have hread : registration (some (currentText.toList.flatMap String.utf8EncodeChar))
        = some ⟨"a:1", "t", [], true⟩ := by decide +kernel
    rw [← Option.some.inj (hread.symm.trans hreg)]
