import ClusterRedis.Footprint
import ClusterRedis.FreshScan

/-!
# The list of peers and its clocks

A node registers with a key that lives on the server's clock, and enters its
id in a sorted set with the end of its registration by its own clock. Who
lists the peers reads the set by a third clock, and takes out of it for
everybody what that clock finds past.

The three clocks are related by nothing. What is taken out is known exactly
(`score_zremrangebyscore`), and what a node's score says is known from the
run (`Entered`): so a list takes out no node whose key is live if and only
if the reader's clock is before the end that the node entered.

The commands of a call go to the server together and run there one by one;
those of other calls come in between, and the rest of a call's may be lost.
-/

open Numerals

/-! ## Removing by score -/

namespace Redis

variable {s : Redis} {z : String}

theorem score_foldl_zdel (ms : List String) (m : String) :
    (ms.foldl (fun t m => t.zdel z m) s).score z m = if m ∈ ms then none else s.score z m := by
  induction ms generalizing s with
  | nil => exact (if_neg List.not_mem_nil).symm
  | cons x ms ih =>
    rw [List.foldl_cons, ih, score_zdel]
    by_cases hx : m = x
    · rw [if_pos hx, ite_self, hx]
      exact (if_pos List.mem_cons_self).symm
    · rw [if_neg hx]
      exact if_congr (by rw [List.mem_cons, or_iff_right hx]) rfl rfl

/-- **What is left of a sorted set**: the members above the bound, with
their scores. -/
theorem score_zremrangebyscore (h : s.ZKey z) (hi : ℤ) (m : String) :
    (zremrangebyscore z hi s).2.score z m = (s.score z m).filter (fun x => decide (hi < x)) := by
  have hin : m ∈ (s.zmembers z).keys.filter (fun m => decide ((s.score z m).getD 0 ≤ hi))
      ↔ ∃ x, s.score z m = some x ∧ x ≤ hi := by
    rw [List.mem_filter, mem_keys_iff]
    constructor
    · rintro ⟨⟨x, hx⟩, hle⟩
      rw [hx] at hle
      exact ⟨x, hx, of_decide_eq_true hle⟩
    · rintro ⟨x, hx, hle⟩
      rw [hx]
      exact ⟨⟨x, rfl⟩, decide_eq_true hle⟩
  rw [zremrangebyscore, onZSet_run h, score_foldl_zdel]
  by_cases hm : ∃ x, s.score z m = some x ∧ x ≤ hi
  · obtain ⟨x, hx, hle⟩ := hm
    rw [if_pos (hin.mpr ⟨x, hx, hle⟩), hx]
    exact (Option.filter_some_neg (p := fun x => decide (hi < x))
      (decide_eq_false (Int.not_lt.mpr hle))).symm
  · rw [if_neg (fun h => hm (hin.mp h))]
    cases hx : s.score z m with
    | none => rfl
    | some x =>
      have hlt : hi < x := Int.not_le.mp (fun hle => hm ⟨x, hx, hle⟩)
      exact (Option.filter_some_pos (p := fun x => decide (hi < x)) (decide_eq_true hlt)).symm

theorem ZKey.foldl_zdel {ms : List String} (h : s.ZKey z) :
    (ms.foldl (fun t m => t.zdel z m) s).ZKey z := by
  induction ms generalizing s with
  | nil => exact h
  | cons m ms ih => exact ih h.zdel

theorem zremrangebyscore_now (hi : ℤ) : (zremrangebyscore z hi s).2.now = s.now := by
  have hfold : ∀ (ms : List String) (s : Redis),
      (ms.foldl (fun t m => t.zdel z m) s).now = s.now := by
    intro ms
    induction ms with
    | nil => exact fun _ => rfl
    | cons m ms ih => exact fun s => (ih (s.zdel z m)).trans (zdel_now s)
  unfold Redis.zremrangebyscore onZSet
  split
  · rfl
  · exact hfold _ s

theorem ZKey.zremrangebyscore (h : s.ZKey z) (hi : ℤ) : (zremrangebyscore z hi s).2.ZKey z := by
  rw [Redis.zremrangebyscore, onZSet_run h]
  exact h.foldl_zdel

/-- **What a range is**: the members above the bound, each once. -/
theorem zrangebyscore_eq_ok {lo : ℤ} {ids : List String} (h : (zrangebyscore z lo s).1 = .ok ids) :
    ids.Nodup ∧ ∀ m, m ∈ ids ↔ ∃ x, s.score z m = some x ∧ lo < x := by
  obtain rfl := onZSet_eq_ok h
  refine ⟨(List.perm_insertionSort _ _).nodup_iff.mpr ((s.zmembers z).keys_nodup.filter _),
    fun m => ?_⟩
  rw [List.mem_insertionSort, List.mem_filter, mem_keys_iff]
  constructor
  · rintro ⟨⟨x, hx⟩, hlt⟩
    rw [hx] at hlt
    exact ⟨x, hx, of_decide_eq_true hlt⟩
  · rintro ⟨x, hx, hlt⟩
    rw [hx]
    exact ⟨⟨x, rfl⟩, decide_eq_true hlt⟩

/-- **What a list reads of a sorted set.** -/
theorem mem_zrangebyscore (h : s.ZKey z) (lo : ℤ) : ∃ ids, (zrangebyscore z lo s).1 = .ok ids
    ∧ ∀ m, m ∈ ids ↔ ∃ x, s.score z m = some x ∧ lo < x := by
  have hok : (zrangebyscore z lo s).1 = .ok _ := congrArg Prod.fst (onZSet_run h)
  exact ⟨_, hok, (zrangebyscore_eq_ok hok).2⟩

end Redis

/-! ## The calls -/

/-- The commands of the calls. -/
inductive PeerCommand where
  | set (id : String) (json : List UInt8) (ttl : ℕ)
  | zadd (id : String) (deadline : ℕ)
  | del (id : String)
  | zrem (id : String)
  | range (now : ℕ)
  | trim (now : ℕ)
  deriving DecidableEq

/-- The end of a registration by its node's clock, in 64 bits. -/
def registrationEnd (clock ttl : ℕ) : ℕ := min (clock + ttl) (2 ^ 64 - 1)

/-- **`register_peer`**, by the node's clock. -/
def registerPeer (id : String) (json : List UInt8) (clock ttl : ℕ) : List PeerCommand :=
  [.set id json ttl, .zadd id (registrationEnd clock ttl)]

/-- **`deregister_peer`.** -/
def deregisterPeer (id : String) : List PeerCommand := [.del id, .zrem id]

/-- **`list_registrations`** up to its ids, by the reader's clock. -/
def listPeers (clock : ℕ) : List PeerCommand := [.range clock, .trim clock]

namespace PeerCommand

/-- A command as the server runs it; a list's replies with ids. -/
def run (p : String) : PeerCommand → Script (List String)
  | set id json ttl => do
    let _ ← Redis.set (peerKey p id) json (some ttl) false
    pure []
  | zadd id d => do
    Redis.zadd (peersIndexKey p) (Double.round d) id
    pure []
  | del id => do
    let _ ← Redis.delete (peerKey p id)
    pure []
  | zrem id => do
    Redis.zrem (peersIndexKey p) id
    pure []
  | range now => Redis.zrangebyscore (peersIndexKey p) (Double.round now)
  | trim now => do
    Redis.zremrangebyscore (peersIndexKey p) (Double.round now)
    pure []

/-- What a list takes out of the set. -/
theorem run_trim {p : String} {s : Redis} (h : s.ZKey (peersIndexKey p)) {now : ℕ} :
    (run p (.trim now) s).2
      = (Redis.zremrangebyscore (peersIndexKey p) (Double.round now) s).2 := by
  have hok : Redis.zremrangebyscore (peersIndexKey p) (Double.round now) s
      = (.ok (), (Redis.zremrangebyscore (peersIndexKey p) (Double.round now) s).2) := by
    rw [Redis.zremrangebyscore, Redis.onZSet_run h]
  exact congrArg Prod.snd (Script.bind_ok hok)

theorem run_zadd {p : String} {s : Redis} (h : s.ZKey (peersIndexKey p)) {id : String} {d : ℕ} :
    (run p (.zadd id d) s).2 = s.zins (peersIndexKey p) id (Double.round d) :=
  congrArg Prod.snd (Script.bind_ok (Redis.zadd_run h))

theorem run_zrem {p : String} {s : Redis} (h : s.ZKey (peersIndexKey p)) {id : String} :
    (run p (.zrem id) s).2 = s.zdel (peersIndexKey p) id :=
  congrArg Prod.snd (Script.bind_ok (Redis.zrem_run h))

/-- A registration is written at its own key. -/
theorem run_set_within (p id : String) (json : List UInt8) (ttl : ℕ) :
    Script.Within {peerKey p id} (run p (.set id json ttl)) :=
  .bind (.set (Set.mem_singleton _) json (some ttl) false) (fun _ => .pure _)

theorem run_del_within (p id : String) : Script.Within {peerKey p id} (run p (.del id)) :=
  .bind (.delete (Set.mem_singleton _)) (fun _ => .pure _)

/-- The ends of registrations as their nodes have entered them. -/
def enters (entered : String → Option ℕ) : PeerCommand → String → Option ℕ
  | zadd id d => Function.update entered id (some d)
  | _ => entered

end PeerCommand

/-- **The server, and the commands on their way to it.** -/
structure PeersWorld where
  redis : Redis
  /-- What each call has still to run, in order. -/
  pipelines : List (List PeerCommand)
  /-- The end of its registration that each node entered last. -/
  entered : String → Option ℕ

/-- Nobody has registered in the set. -/
def PeersWorld.start (s : Redis) : PeersWorld := ⟨s, [], fun _ => none⟩

/-- One step of anybody: a call begins, the next command of a call runs, or
the rest of a call is lost. -/
inductive PeersEvent where
  | tick (d : ℕ)
  | register (id : String) (json : List UInt8) (clock ttl : ℕ)
  | deregister (id : String)
  | list (clock : ℕ)
  | run (c : ℕ)
  | lose (c : ℕ)
  deriving DecidableEq

namespace PeersWorld

variable (p : String)

/-- A call sends its commands. -/
def send (w : PeersWorld) (cs : List PeerCommand) : PeersWorld :=
  { w with pipelines := w.pipelines ++ [cs] }

/-- The next command of a call runs. -/
def runNext (w : PeersWorld) (c : ℕ) : PeersWorld :=
  match w.pipelines[c]? with
  | some (cmd :: rest) =>
    { redis := (cmd.run p w.redis).2
      pipelines := w.pipelines.set c rest
      entered := cmd.enters w.entered }
  | _ => w

/-- **Registrations, deregistrations and lists**, of any number of nodes. -/
def system : System PeersWorld PeersEvent Unit where
  step w
    | .tick d => ((), { w with redis := w.redis.tick d })
    | .register id json clock ttl => ((), w.send (registerPeer id json clock ttl))
    | .deregister id => ((), w.send (deregisterPeer id))
    | .list clock => ((), w.send (listPeers clock))
    | .run c => ((), w.runNext p c)
    | .lose c => ((), { w with pipelines := w.pipelines.set c [] })

end PeersWorld

namespace PeersWorld

variable {p : String} {w : PeersWorld}

/-- The registrations' key is not the sorted set's. -/
theorem peerKey_ne_peersIndexKey (id : String) : peerKey p id ≠ peersIndexKey p := by
  intro h
  have := congrArg String.toList h
  simp [peerKey, peersIndexKey] at this

/-- **The set holds what the nodes entered.** -/
structure Entered (p : String) (w : PeersWorld) : Prop where
  zkey : w.redis.ZKey (peersIndexKey p)
  score : ∀ id x, w.redis.score (peersIndexKey p) id = some x →
    ∃ d, w.entered id = some d ∧ x = Double.round d

theorem Entered.start {s : Redis} (hs : s.lookup (peersIndexKey p) = none) :
    Entered p (PeersWorld.start s) where
  zkey o ho := absurd (hs.symm.trans ho) (by simp)
  score id x hx := by
    rw [PeersWorld.start, Redis.score, Redis.zmembers, hs] at hx
    cases hx

theorem Entered.congr (h : Entered p w) {w' : PeersWorld}
    (hr : w'.redis.lookup (peersIndexKey p) = w.redis.lookup (peersIndexKey p))
    (he : w'.entered = w.entered) : Entered p w' where
  zkey := h.zkey.congr hr
  score id x hx := by
    rw [he]
    exact h.score id x ((Redis.score_congr hr).symm.trans hx)

/-- A set that only loses members. -/
theorem Entered.shrink (h : Entered p w) {w' : PeersWorld} (hz : w'.redis.ZKey (peersIndexKey p))
    (hs : ∀ id x, w'.redis.score (peersIndexKey p) id = some x →
      w.redis.score (peersIndexKey p) id = some x)
    (he : w'.entered = w.entered) : Entered p w' where
  zkey := hz
  score id x hx := by
    rw [he]
    exact h.score id x (hs id x hx)

/-- A command leaves the set in order. -/
theorem Entered.run (h : Entered p w) (cmd : PeerCommand) (pipelines : List (List PeerCommand)) :
    Entered p ⟨(cmd.run p w.redis).2, pipelines, cmd.enters w.entered⟩ := by
  cases cmd with
  | set id json ttl =>
    exact h.congr ((PeerCommand.run_set_within p id json ttl).frame _ _
      (fun he => peerKey_ne_peersIndexKey id he.symm)) rfl
  | del id =>
    exact h.congr ((PeerCommand.run_del_within p id).frame _ _
      (fun he => peerKey_ne_peersIndexKey id he.symm)) rfl
  | range now =>
    have hsame : (PeerCommand.run p (.range now) w.redis).2 = w.redis := Redis.zrangebyscore_snd
    exact h.congr (by rw [hsame]) rfl
  | zadd id d =>
    have hrun := @PeerCommand.run_zadd p _ h.zkey id d
    refine ⟨?_, fun id' x hx => ?_⟩
    · show Redis.ZKey _ _
      rw [hrun]
      exact h.zkey.zins
    · replace hx : (PeerCommand.run p (.zadd id d) w.redis).2.score (peersIndexKey p) id'
          = some x := hx
      rw [hrun, Redis.score_zins] at hx
      show ∃ d', Function.update w.entered id (some d) id' = some d' ∧ _
      by_cases hid : id' = id
      · rw [if_pos hid] at hx
        rw [hid, Function.update_self]
        exact ⟨d, rfl, (Option.some.inj hx).symm⟩
      · rw [if_neg hid] at hx
        rw [Function.update_of_ne hid]
        exact h.score id' x hx
  | zrem id =>
    have hrun := @PeerCommand.run_zrem p _ h.zkey id
    refine h.shrink ?_ (fun id' x hx => ?_) rfl
    · show Redis.ZKey _ _
      rw [hrun]
      exact h.zkey.zdel
    · replace hx : (PeerCommand.run p (.zrem id) w.redis).2.score (peersIndexKey p) id'
          = some x := hx
      rw [hrun, Redis.score_zdel] at hx
      by_cases hid : id' = id
      · rw [if_pos hid] at hx
        exact nomatch hx
      · rwa [if_neg hid] at hx
  | trim now =>
    refine h.shrink ?_ (fun id x hx => ?_) rfl
    · show Redis.ZKey _ _
      rw [PeerCommand.run_trim h.zkey]
      exact h.zkey.zremrangebyscore _
    · replace hx : (PeerCommand.run p (.trim now) w.redis).2.score (peersIndexKey p) id
          = some x := hx
      rw [PeerCommand.run_trim h.zkey, Redis.score_zremrangebyscore h.zkey] at hx
      exact (Option.filter_eq_some_iff.mp hx).1

theorem entered_step (w : PeersWorld) (e : PeersEvent) (h : Entered p w) :
    Entered p ((system p).step w e).2 := by
  cases e with
  | tick d => exact h.congr (h.zkey.lookup_tick d) rfl
  | register id json clock ttl => exact h.congr rfl rfl
  | deregister id => exact h.congr rfl rfl
  | list clock => exact h.congr rfl rfl
  | lose c => exact h.congr rfl rfl
  | run c =>
    show Entered p (w.runNext p c)
    unfold runNext
    split
    · next cmd rest hc => exact h.run cmd _
    · exact h

/-! ## What a list returns -/

/-- A value that is read as text, if there is one. -/
def Readable (v : Option (List UInt8)) : Prop := ∀ b, v = some b → (utf8Text b).isSome = true

/-- The registration a value is. -/
def registration (v : Option (List UInt8)) : Option PeerRegistration :=
  (v.bind utf8Text).bind PeerRegistration.ofText

/-- A traversal that yields a function's values, where it is defined. -/
theorem mapM_eq_some_iff {β γ : Type} {g : β → Option γ} {q : β → Prop} {h : β → γ}
    (hg : ∀ b c, g b = some c ↔ q b ∧ c = h b) {l : List β} {out : List γ} :
    l.mapM g = some out ↔ (∀ b ∈ l, q b) ∧ out = l.map h := by
  induction l generalizing out with
  | nil =>
    rw [List.mapM_nil, List.map_nil]
    exact ⟨fun he => ⟨fun b hb => absurd hb List.not_mem_nil, (Option.some.inj he).symm⟩,
      fun he => congrArg some he.2.symm⟩
  | cons b l ih =>
    rw [List.mapM_cons, List.forall_mem_cons, List.map_cons]
    constructor
    · intro he
      obtain ⟨c, hc, he⟩ := Option.bind_eq_some_iff.mp he
      obtain ⟨cs, hcs, he⟩ := Option.bind_eq_some_iff.mp he
      obtain ⟨hall, rfl⟩ := ih.mp hcs
      obtain ⟨hgood, rfl⟩ := (hg b c).mp hc
      exact ⟨⟨hgood, hall⟩, (Option.some.inj he).symm⟩
    · rintro ⟨⟨hgood, hall⟩, rfl⟩
      refine Option.bind_eq_some_iff.mpr ⟨h b, (hg b _).mpr ⟨hgood, rfl⟩, ?_⟩
      exact Option.bind_eq_some_iff.mpr ⟨_, ih.mpr ⟨hall, rfl⟩, rfl⟩

/-- What is made of the values of a traversal. -/
theorem bind_mapM_eq_some_iff {β γ δ : Type} {g : β → Option γ} {q : β → Prop} {h : β → γ}
    (hg : ∀ b c, g b = some c ↔ q b ∧ c = h b) {l : List β} {k : List γ → δ} {out : δ} :
    ((l.mapM g).bind fun cs => some (k cs)) = some out ↔ (∀ b ∈ l, q b) ∧ out = k (l.map h) := by
  constructor
  · intro he
    obtain ⟨cs, hcs, he⟩ := Option.bind_eq_some_iff.mp he
    obtain ⟨hgood, rfl⟩ := (mapM_eq_some_iff hg).mp hcs
    exact ⟨hgood, (Option.some.inj he).symm⟩
  · rintro ⟨hgood, rfl⟩
    exact Option.bind_eq_some_iff.mpr ⟨_, (mapM_eq_some_iff hg).mpr ⟨hgood, rfl⟩, rfl⟩

/-- **What is read at keys.** -/
theorem readRegistrations_keys {v : String → Option (List UInt8)} {keys : List String}
    {found : List Registration} :
    readRegistrations p keys (keys.map v) = some found
      ↔ (∀ k ∈ keys, Readable (v k))
        ∧ found = keys.filterMap
          (fun k => (registration (v k)).map (fun r => (nodeId p k, r))) := by
  have hzip : (keys.zip ((keys.map v).map (fun o => o.bind utf8Text))).filterMap
        (fun r => (r.2.bind PeerRegistration.ofText).map (fun reg => (nodeId p r.1, reg)))
      = keys.filterMap (fun k => (registration (v k)).map (fun r => (nodeId p k, r))) := by
    rw [List.map_map]
    have hself : keys.zip (keys.map ((fun o => o.bind utf8Text) ∘ v))
        = keys.map (fun k => (k, (v k).bind utf8Text)) := by
      have hboth := @List.zip_map' _ _ _ id ((fun o => o.bind utf8Text) ∘ v) keys
      rwa [List.map_id] at hboth
    rw [hself, List.filterMap_map]
    rfl
  have hall : (∀ o ∈ keys.map v, Readable o) ↔ ∀ k ∈ keys, Readable (v k) := List.forall_mem_map
  rw [← hall, ← hzip]
  refine bind_mapM_eq_some_iff (q := Readable) (h := fun o => o.bind utf8Text) (fun o c => ?_)
  cases o with
  | none =>
    constructor
    · intro h
      refine ⟨fun b hb => ?_, (Option.some.inj h).symm⟩
      cases hb
    · exact fun h => congrArg some h.2.symm
  | some b =>
    show (utf8Text b).map some = some c ↔ _ ∧ c = utf8Text b
    constructor
    · intro h
      obtain ⟨x, hx, rfl⟩ := Option.map_eq_some_iff.mp h
      refine ⟨fun b' hb' => ?_, hx.symm⟩
      rw [← Option.some.inj hb', hx]
      rfl
    · rintro ⟨hb, rfl⟩
      obtain ⟨x, hx⟩ := Option.isSome_iff_exists.mp (hb b rfl)
      rw [hx]
      rfl

/-- **What is read at the keys of node ids.** -/
theorem readRegistrations_eq_some_iff {v : String → Option (List UInt8)} {ids : List String}
    {found : List Registration} :
    readRegistrations p (ids.map (peerKey p)) ((ids.map (peerKey p)).map v) = some found
      ↔ (∀ id ∈ ids, Readable (v (peerKey p id)))
        ∧ found = ids.filterMap
          (fun id => (registration (v (peerKey p id))).map (fun r => (id, r))) := by
  rw [readRegistrations_keys, List.forall_mem_map, List.filterMap_map]
  have hids : (fun k => (registration (v k)).map (fun r => (nodeId p k, r))) ∘ peerKey p
      = fun id => (registration (v (peerKey p id))).map (fun r => (id, r)) := by
    funext id
    simp only [Function.comp_apply, nodeId_peerKey]
  rw [hids]

/-- **`list_registrations`** at one moment: the ids of the set, what is read
at their keys, and the older builds a scan has found. -/
def listRegistrations (p : String) (s : Redis) (clock : ℕ) (legacy : List Registration) :
    Option (List Registration) := do
  let ids ← (Redis.zrangebyscore (peersIndexKey p) (Double.round clock) s).1.toOption
  let values ← (Redis.mget (ids.map (peerKey p)) s).1.toOption
  let found ← readRegistrations p (ids.map (peerKey p)) values
  some (listedRegistrations ids found legacy)

/-- A node is in the list. -/
def Lists (p : String) (s : Redis) (clock : ℕ) (legacy : List Registration) (id : String) : Prop :=
  ∃ rs, listRegistrations p s clock legacy = some rs ∧ ∃ reg, (id, reg) ∈ rs

/-- The node's end of registration is past for no clock reading so far. -/
def Current (p : String) (s : Redis) (clock : ℕ) (id : String) : Prop :=
  ∃ x, s.score (peersIndexKey p) id = some x ∧ Double.round clock < x

/-- A key's value as it is read. -/
def valueAt (s : Redis) (k : String) : Option (List UInt8) :=
  match s.lookup k with
  | some ⟨.str b, _⟩ => some b
  | _ => none

/-- **Which nodes are in a list**: when what it reads is text, those of the
set whose key holds a registration, and outside the set those that a scan
found as older builds. -/
theorem lists_iff {s : Redis} (h : s.ZKey (peersIndexKey p)) {clock : ℕ}
    {legacy : List Registration} {id : String} :
    Lists p s clock legacy id ↔ (∀ m, Current p s clock m → Readable (valueAt s (peerKey p m)))
      ∧ ((Current p s clock id ∧ (registration (valueAt s (peerKey p id))).isSome = true)
        ∨ (¬ Current p s clock id ∧ ∃ reg, (id, reg) ∈ legacy ∧ reg.kvIndex = false)) := by
  obtain ⟨ids, hids, hmem⟩ := Redis.mem_zrangebyscore h (Double.round clock)
  have hlist : ∀ rs, listRegistrations p s clock legacy = some rs
      ↔ ∃ found, readRegistrations p (ids.map (peerKey p))
          ((ids.map (peerKey p)).map (valueAt s)) = some found
        ∧ rs = listedRegistrations ids found legacy := by
    intro rs
    rw [listRegistrations, hids]
    show (readRegistrations p (ids.map (peerKey p)) ((ids.map (peerKey p)).map (valueAt s))).bind _
      = _ ↔ _
    rw [Option.bind_eq_some_iff]
    exact exists_congr (fun found => and_congr_right (fun _ =>
      ⟨fun he => (Option.some.inj he).symm, fun he => congrArg some he.symm⟩))
  have hin : ∀ reg, (id, reg) ∈ listedRegistrations ids (ids.filterMap (fun id =>
        (registration (valueAt s (peerKey p id))).map (fun r => (id, r)))) legacy
      ↔ (id ∈ ids ∧ registration (valueAt s (peerKey p id)) = some reg)
        ∨ (id ∉ ids ∧ (id, reg) ∈ legacy ∧ reg.kvIndex = false) := by
    intro reg
    rw [listedRegistrations, List.mem_append, List.mem_filterMap, List.mem_filter]
    refine or_congr ?_ ?_
    · constructor
      · rintro ⟨m, hm, hread⟩
        obtain ⟨r, hr, he⟩ := Option.map_eq_some_iff.mp hread
        obtain ⟨rfl, rfl⟩ := Prod.mk.inj he
        exact ⟨hm, hr⟩
      · rintro ⟨hm, hr⟩
        exact ⟨id, hm, by rw [hr]; rfl⟩
    · simp only [Bool.and_eq_true, Bool.not_eq_true', List.contains_eq_mem, decide_eq_false_iff_not]
      tauto
  have hcur : ∀ m, Current p s clock m ↔ m ∈ ids := fun m => (hmem m).symm
  simp only [hcur]
  constructor
  · rintro ⟨rs, hrs, reg, hm⟩
    obtain ⟨found, hfound, rfl⟩ := (hlist rs).mp hrs
    obtain ⟨hgood, rfl⟩ := readRegistrations_eq_some_iff.mp hfound
    refine ⟨hgood, ((hin reg).mp hm).imp ?_ ?_⟩
    · exact fun ⟨hid, hr⟩ => ⟨hid, by rw [hr]; rfl⟩
    · exact fun ⟨hid, hl, hk⟩ => ⟨hid, reg, hl, hk⟩
  · rintro ⟨hgood, hid⟩
    have hfound := readRegistrations_eq_some_iff.mpr ⟨hgood, rfl⟩
    refine ⟨_, (hlist _).mpr ⟨_, hfound, rfl⟩, ?_⟩
    rcases hid with ⟨hid, hr⟩ | ⟨hid, reg, hl, hk⟩
    · obtain ⟨reg, hr⟩ := Option.isSome_iff_exists.mp hr
      exact ⟨reg, (hin reg).mpr (Or.inl ⟨hid, hr⟩)⟩
    · exact ⟨reg, (hin reg).mpr (Or.inr ⟨hid, hl, hk⟩)⟩

/-! ## A list takes out no live node -/

/-- **The reader's clock is in time**: whenever a list takes nodes out of
the set, of every node in it whose key is live the reader's clock is before
the end of registration that the node entered. -/
def ReadsInTime (p : String) (w : PeersWorld) : PeersEvent → Prop
  | .run c => ∀ now rest, w.pipelines[c]? = some (.trim now :: rest) →
    ∀ id, w.redis.Live (peerKey p id) → w.redis.Mem (peersIndexKey p) id →
      ∀ d, w.entered id = some d → Double.round now < Double.round d
  | _ => True

/-- **No list takes a live node out of the set**, nor out of a list by the
server's clock. -/
def KeepsLive (p : String) (w : PeersWorld) : PeersEvent → Prop
  | .run c => ∀ now rest, w.pipelines[c]? = some (.trim now :: rest) →
    ∀ id, w.redis.Live (peerKey p id) →
      (w.redis.Mem (peersIndexKey p) id → (w.runNext p c).redis.Mem (peersIndexKey p) id)
        ∧ ∀ legacy, Lists p (w.runNext p c).redis (w.runNext p c).redis.now legacy id
          ↔ Lists p w.redis w.redis.now legacy id
  | _ => True

/-- A list by the same clock of two sets that agree on the nodes whose keys
are live. -/
theorem lists_congr {s t : Redis} (hs : s.ZKey (peersIndexKey p)) (ht : t.ZKey (peersIndexKey p))
    (hkeys : ∀ m, t.lookup (peerKey p m) = s.lookup (peerKey p m))
    (hlive : ∀ m, s.Live (peerKey p m) →
      t.score (peersIndexKey p) m = s.score (peersIndexKey p) m)
    (hless : ∀ m x, t.score (peersIndexKey p) m = some x → s.score (peersIndexKey p) m = some x)
    {clock : ℕ} {legacy : List Registration} {id : String} (hid : s.Live (peerKey p id)) :
    Lists p t clock legacy id ↔ Lists p s clock legacy id := by
  have hvalue : ∀ m, valueAt t (peerKey p m) = valueAt s (peerKey p m) := by
    intro m
    rw [valueAt, valueAt, hkeys m]
  have hcur : ∀ m, s.Live (peerKey p m) → (Current p t clock m ↔ Current p s clock m) := by
    intro m hm
    rw [Current, Current, hlive m hm]
  rw [lists_iff hs, lists_iff ht, hcur id hid]
  simp only [hvalue]
  refine and_congr_left (fun _ => ⟨fun h m hm => ?_, fun h m hm => ?_⟩)
  · by_cases hml : s.Live (peerKey p m)
    · exact h m ((hcur m hml).mpr hm)
    · -- a node whose key is gone is read as nothing
      have hgone : s.lookup (peerKey p m) = none := by
        simpa [Redis.Live] using hml
      intro b hb
      rw [valueAt, hgone] at hb
      cases hb
  · obtain ⟨x, hx, hlt⟩ := hm
    exact h m ⟨x, hless m x hx, hlt⟩

theorem keepsLive_of_readsInTime (h : Entered p w) {e : PeersEvent} (he : ReadsInTime p w e) :
    KeepsLive p w e := by
  cases e with
  | run c =>
    intro now rest hc id hid
    have hredis : (w.runNext p c).redis
        = (Redis.zremrangebyscore (peersIndexKey p) (Double.round now) w.redis).2 := by
      rw [runNext, hc]
      exact PeerCommand.run_trim h.zkey
    have hscore := Redis.score_zremrangebyscore h.zkey (Double.round now)
    have hkeep : ∀ m, w.redis.Live (peerKey p m) →
        (w.runNext p c).redis.score (peersIndexKey p) m = w.redis.score (peersIndexKey p) m := by
      intro m hm
      rw [hredis, hscore]
      cases hx : w.redis.score (peersIndexKey p) m with
      | none => rfl
      | some x =>
        obtain ⟨d, hd, rfl⟩ := h.score m x hx
        have hin : w.redis.Mem (peersIndexKey p) m := by
          rw [Redis.Mem, hx]
          rfl
        exact Option.filter_some_pos (p := fun x => decide (Double.round now < x))
          (decide_eq_true (he now rest hc m hm hin d hd))
    refine ⟨fun hin => ?_, fun legacy => ?_⟩
    · rw [Redis.Mem, hkeep id hid]
      exact hin
    · have hnow : (w.runNext p c).redis.now = w.redis.now := by
        rw [hredis]
        exact Redis.zremrangebyscore_now _
      rw [hnow]
      refine lists_congr h.zkey ?_ ?_ hkeep ?_ hid
      · rw [hredis]
        exact h.zkey.zremrangebyscore _
      · intro m
        rw [hredis]
        exact (Redis.zremrangebyscore_snd _).1 _ (peerKey_ne_peersIndexKey m)
      · intro m x hx
        rw [hredis, hscore] at hx
        exact (Option.filter_eq_some_iff.mp hx).1
  | _ => trivial

/-- **Listing peers evicts no live peer**: in every run in which whenever a
list takes nodes out the reader's clock is in time, no list takes a node out
of the set whose key is live, nor out of what another replica lists whose
clock is the server's. -/
theorem listing_keeps_live {s : Redis} (hs : s.lookup (peersIndexKey p) = none)
    {es : List PeersEvent} (hes : (system p).Along (ReadsInTime p) (PeersWorld.start s) es) :
    (system p).Along (KeepsLive p) (PeersWorld.start s) es :=
  System.Along.of_inv (fun w e h _ => entered_step w e h) (fun _ _ h => keepsLive_of_readsInTime h)
    (Entered.start hs) hes

/-- A registration of a node that keeps the index. -/
def currentText : String :=
  "\x7b\"address\":\"a:1\",\"last_seen\":\"t\",\"roles\":[],\"kv_index\":true\x7d"

/-- A node registers for ten milliseconds, and somebody reads the list by a
clock. -/
abbrev registeredThenRead (clock : ℕ) : List PeersEvent :=
  [.register "a" (currentText.toList.flatMap String.utf8EncodeChar) 0 10, .run 0, .run 0,
    .list clock, .run 1, .run 1]

/-- A reader whose clock is three milliseconds ahead. -/
theorem listing_keeps_live_ahead :
    (system "p:").Along (KeepsLive "p:") (PeersWorld.start (Redis.empty 0))
      (registeredThenRead 3) := by
  refine listing_keeps_live rfl ⟨trivial, ?_, ?_, trivial, ?_, ?_, trivial⟩
  · exact fun now rest h => nomatch h
  · exact fun now rest h => nomatch h
  · exact fun now rest h => nomatch h
  · intro now rest hc id _ _ d hd
    have hnow : 3 = now := PeerCommand.trim.inj (List.cons.inj (Option.some.inj hc)).1
    replace hd : Function.update (fun _ => none) "a" (some 10) id = some d := hd
    have hid : id = "a" := by
      by_contra hne
      rw [Function.update_of_ne hne] at hd
      exact nomatch hd
    rw [hid, Function.update_self] at hd
    rw [← hnow, ← Option.some.inj hd]
    decide

/-- The list is about to take out what the reader's clock finds past. -/
def aboutToTrim : PeersWorld :=
  (system "p:").final (PeersWorld.start (Redis.empty 0)) ((registeredThenRead 20).take 5)

/-- **A reader whose clock is twenty milliseconds ahead**: it takes out of
the set a node whose key is live, and a replica whose clock is the server's
no longer lists the node. -/
theorem listing_evicts_live :
    aboutToTrim.redis.Live (peerKey "p:" "a")
      ∧ aboutToTrim.redis.Mem (peersIndexKey "p:") "a"
      ∧ (listRegistrations "p:" aboutToTrim.redis 0 []).map (List.map Prod.fst) = some ["a"]
      ∧ (aboutToTrim.runNext "p:" 1).redis.Live (peerKey "p:" "a")
      ∧ ¬ (aboutToTrim.runNext "p:" 1).redis.Mem (peersIndexKey "p:") "a"
      ∧ listRegistrations "p:" (aboutToTrim.runNext "p:" 1).redis 0 [] = some []
      ∧ ¬ (system "p:").Along (KeepsLive "p:") (PeersWorld.start (Redis.empty 0))
        (registeredThenRead 20) := by
  have hlive : aboutToTrim.redis.Live (peerKey "p:" "a") := by decide +kernel
  have hin : aboutToTrim.redis.Mem (peersIndexKey "p:") "a" := by decide +kernel
  have hout : ¬ (aboutToTrim.runNext "p:" 1).redis.Mem (peersIndexKey "p:") "a" := by decide +kernel
  refine ⟨hlive, hin, by decide +kernel, by decide +kernel, hout, by decide +kernel, fun h => ?_⟩
  have hkeeps : KeepsLive "p:" aboutToTrim (.run 1) := h.2.2.2.2.2.1
  exact hout ((hkeeps 20 [] rfl "a" hlive).1 hin)

end PeersWorld
