import Mathlib.Data.Finset.Basic
import Mathlib.Data.Finset.Dedup
import Mathlib.Data.Finset.Lattice.Lemmas
import Mathlib.Data.List.Chain
import ClusterRedis.ByteOrder
import ClusterRedis.Runs

/-!
# The events of the peers

Who watches the peers is told of the nodes that joined and of those that
left. The task behind the stream polls the list of peers, keeps the last
list that it got as a map by node id, and sends what is in the new map only
and what is in the old one only. A poll that fails leaves the map, so that
nothing is taken for a departure.

The events are a log of the set of node ids: `replayer` applies them one by
one. What holds of a task and of the events it has sent is `Watched`: each
event fits the set it is applied to, and while the task runs the set is that
of the map's node ids.
-/

/-! ## Peers -/

/-- The health of a peer, as far as it is set. -/
inductive PeerHealth where
  | healthy
  deriving DecidableEq

/-- **A peer.** -/
structure ClusterPeer where
  nodeId : String
  address : String
  lastSeen : String
  health : PeerHealth
  roles : List String
  deriving DecidableEq

/-- **An event.** -/
inductive PeerEvent where
  | joined (peer : ClusterPeer)
  | left (nodeId : String)
  deriving DecidableEq

/-- The order of a map by node id. -/
def peerLe (a b : ClusterPeer) : Prop := byteLe a.nodeId b.nodeId

instance : DecidableRel peerLe := fun a b => inferInstanceAs (Decidable (byteLe a.nodeId b.nodeId))

instance : Std.Total peerLe :=
  ⟨fun a b => (inferInstance : Std.Total byteLe).total a.nodeId b.nodeId⟩

instance : IsTrans ClusterPeer peerLe := ⟨fun _ _ _ h k => le_trans (α := List ℕ) h k⟩

/-- **A map of peers by node id**, in the order of the ids' bytes. -/
structure PeerMap where
  peers : List ClusterPeer
  sorted : peers.Pairwise (fun a b => utf8 a.nodeId < utf8 b.nodeId)

namespace PeerMap

/-- The node ids of a map. -/
def keys (m : PeerMap) : List String := m.peers.map ClusterPeer.nodeId

/-- No peers. -/
def empty : PeerMap := ⟨[], List.Pairwise.nil⟩

theorem nodup_keys (m : PeerMap) : m.keys.Nodup := by
  refine List.pairwise_map.mpr (m.sorted.imp (fun hlt he => ?_))
  rw [he] at hlt
  exact lt_irrefl _ hlt

/-- The order of a list of peers with distinct node ids is strict. -/
theorem sorted_of_nodup {l : List ClusterPeer} (hs : l.Pairwise peerLe)
    (hn : (l.map ClusterPeer.nodeId).Nodup) :
    l.Pairwise (fun a b => utf8 a.nodeId < utf8 b.nodeId) :=
  hs.imp₂ (fun _ _ hle hne => byteLe.lt_of_ne hle hne) (List.pairwise_map.mp hn)

/-- **Set the peer of a node id**, in place of the one there was. -/
def insert (m : PeerMap) (peer : ClusterPeer) : PeerMap where
  peers := (m.peers.filter (fun p => p.nodeId ≠ peer.nodeId)).orderedInsert peerLe peer
  sorted := by
    have hle : m.peers.Pairwise peerLe := m.sorted.imp le_of_lt
    refine sorted_of_nodup ((hle.filter _).orderedInsert peer _) ?_
    have hperm := (List.perm_orderedInsert peerLe peer
      (m.peers.filter (fun p => p.nodeId ≠ peer.nodeId))).map ClusterPeer.nodeId
    rw [hperm.nodup_iff, List.map_cons, List.nodup_cons]
    refine ⟨fun h => ?_, m.nodup_keys.sublist (List.filter_sublist.map _)⟩
    obtain ⟨p, hp, hid⟩ := List.mem_map.mp h
    exact of_decide_eq_true (List.mem_filter.mp hp).2 hid

theorem mem_keys_insert {m : PeerMap} {peer : ClusterPeer} {id : String} :
    id ∈ (m.insert peer).keys ↔ id = peer.nodeId ∨ id ∈ m.keys := by
  have hperm := (List.perm_orderedInsert peerLe peer
    (m.peers.filter (fun p => p.nodeId ≠ peer.nodeId))).map ClusterPeer.nodeId
  rw [keys, insert, hperm.mem_iff, List.map_cons, List.mem_cons]
  refine or_congr_right' (fun hne => ⟨fun h => ?_, fun h => ?_⟩)
  · obtain ⟨p, hp, rfl⟩ := List.mem_map.mp h
    exact List.mem_map_of_mem (List.mem_filter.mp hp).1
  · obtain ⟨p, hp, rfl⟩ := List.mem_map.mp h
    exact List.mem_map_of_mem (List.mem_filter.mpr ⟨hp, decide_eq_true hne⟩)

/-- **The map of a list of peers**: of two with one node id, the later. -/
def ofPeers (peers : List ClusterPeer) : PeerMap := peers.foldl insert empty

theorem mem_keys_ofPeers {peers : List ClusterPeer} {id : String} :
    id ∈ (ofPeers peers).keys ↔ id ∈ peers.map ClusterPeer.nodeId := by
  have hfold : ∀ m : PeerMap, id ∈ (peers.foldl insert m).keys
      ↔ id ∈ m.keys ∨ id ∈ peers.map ClusterPeer.nodeId := by
    induction peers with
    | nil => exact fun m => (or_iff_left List.not_mem_nil).symm
    | cons p ps ih =>
      intro m
      rw [List.foldl_cons, ih, mem_keys_insert, List.map_cons, List.mem_cons, or_assoc,
        or_left_comm]
  exact (hfold empty).trans (or_iff_right List.not_mem_nil)

/-- The set of a map's node ids. -/
def ids (m : PeerMap) : Finset String := m.keys.toFinset

theorem mem_ids {m : PeerMap} {id : String} : id ∈ m.ids ↔ id ∈ m.keys := List.mem_toFinset

end PeerMap

/-! ## Replaying events -/

namespace PeerEvent

/-- The set of node ids after an event. -/
def apply (s : Finset String) : PeerEvent → Finset String
  | joined peer => insert peer.nodeId s
  | left id => s.erase id

/-- **An event fits a set**: who joins is not in it, who leaves is. -/
def Fits (s : Finset String) : PeerEvent → Prop
  | joined peer => peer.nodeId ∉ s
  | left id => id ∈ s

/-- Whether an event is a node's, and whether it is that the node joined. -/
def about (id : String) : PeerEvent → Option Bool
  | joined peer => if peer.nodeId = id then some true else none
  | left id' => if id' = id then some false else none

/-- **The replay of events** on a set of node ids. -/
def replayer : System (Finset String) PeerEvent Unit where
  step s e := ((), e.apply s)

/-- An event about another node leaves a node where it is. -/
theorem mem_apply_of_about_eq_none {s : Finset String} {e : PeerEvent} {id : String}
    (h : e.about id = none) : id ∈ e.apply s ↔ id ∈ s := by
  cases e with
  | joined peer =>
    have hne : peer.nodeId ≠ id := by
      intro he
      rw [about, if_pos he] at h
      exact nomatch h
    rw [apply, Finset.mem_insert, or_iff_right (Ne.symm hne)]
  | left id' =>
    have hne : id' ≠ id := by
      intro he
      rw [about, if_pos he] at h
      exact nomatch h
    rw [apply, Finset.mem_erase, and_iff_right (Ne.symm hne)]

/-- An event about a node that fits says what was not so. -/
theorem about_of_fits {s : Finset String} {e : PeerEvent} {id : String} {b : Bool}
    (h : e.Fits s) (hb : e.about id = some b) :
    decide (id ∈ s) ≠ b ∧ decide (id ∈ e.apply s) = b := by
  cases e with
  | joined peer =>
    by_cases he : peer.nodeId = id
    · subst he
      rw [about, if_pos rfl] at hb
      obtain rfl := Option.some.inj hb
      have hout : peer.nodeId ∉ s := h
      refine ⟨?_, decide_eq_true (Finset.mem_insert_self _ _)⟩
      rw [decide_eq_false hout]
      exact Bool.false_ne_true
    · rw [about, if_neg he] at hb
      exact nomatch hb
  | left id' =>
    by_cases he : id' = id
    · subst he
      rw [about, if_pos rfl] at hb
      obtain rfl := Option.some.inj hb
      have hin : id' ∈ s := h
      refine ⟨?_, decide_eq_false (Finset.notMem_erase _ _)⟩
      rw [decide_eq_true hin]
      exact Bool.noConfusion
    · rw [about, if_neg he] at hb
      exact nomatch hb

/-- **The events of each node alternate**, and the first of them says what
is not so at the start. -/
theorem isChain_about {es : List PeerEvent} {s : Finset String}
    (h : replayer.Along (fun s e => e.Fits s) s es) (id : String) :
    List.IsChain (· ≠ ·) (decide (id ∈ s) :: es.filterMap (about id)) := by
  induction es generalizing s with
  | nil => exact List.IsChain.singleton _
  | cons e es ih =>
    have ih := ih h.2
    cases hb : e.about id with
    | none =>
      rw [List.filterMap_cons_none hb]
      have hsame : decide (id ∈ (replayer.step s e).2) = decide (id ∈ s) :=
        decide_eq_decide.mpr (mem_apply_of_about_eq_none hb)
      rwa [hsame] at ih
    | some b =>
      obtain ⟨hne, hnow⟩ := about_of_fits h.1 hb
      rw [List.filterMap_cons_some hb, List.isChain_cons_cons]
      refine ⟨hne, ?_⟩
      replace hnow : decide (id ∈ (replayer.step s e).2) = b := hnow
      rwa [hnow] at ih

/-- **Nodes join** that are not in the set, each once. -/
theorem replay_joined {peers : List ClusterPeer} {s : Finset String}
    (hn : (peers.map ClusterPeer.nodeId).Nodup) (hs : ∀ p ∈ peers, p.nodeId ∉ s) :
    replayer.Along (fun s e => e.Fits s) s (peers.map joined)
      ∧ replayer.final s (peers.map joined) = s ∪ (peers.map ClusterPeer.nodeId).toFinset := by
  induction peers generalizing s with
  | nil => exact ⟨trivial, (Finset.union_empty s).symm⟩
  | cons p ps ih =>
    rw [List.map_cons, List.nodup_cons] at hn
    obtain ⟨halong, hfinal⟩ := ih (s := insert p.nodeId s) hn.2 (fun q hq hin => by
      rcases Finset.mem_insert.mp hin with he | hin
      · exact hn.1 (he ▸ List.mem_map_of_mem hq)
      · exact hs q (List.mem_cons_of_mem p hq) hin)
    refine ⟨⟨hs p List.mem_cons_self, halong⟩, hfinal.trans ?_⟩
    rw [List.map_cons, List.toFinset_cons, Finset.insert_union, Finset.union_insert]

/-- **Nodes leave** that are in the set, each once. -/
theorem replay_left {ids : List String} {s : Finset String} (hn : ids.Nodup)
    (hs : ∀ id ∈ ids, id ∈ s) :
    replayer.Along (fun s e => e.Fits s) s (ids.map left)
      ∧ replayer.final s (ids.map left) = s \ ids.toFinset := by
  induction ids generalizing s with
  | nil => exact ⟨trivial, (Finset.sdiff_empty).symm⟩
  | cons id ids ih =>
    rw [List.nodup_cons] at hn
    obtain ⟨halong, hfinal⟩ := ih (s := s.erase id) hn.2 (fun id' hid' =>
      Finset.mem_erase.mpr ⟨fun he => hn.1 (he ▸ hid'), hs id' (List.mem_cons_of_mem id hid')⟩)
    refine ⟨⟨hs id List.mem_cons_self, halong⟩, hfinal.trans ?_⟩
    rw [List.toFinset_cons, Finset.sdiff_insert, Finset.erase_sdiff_comm]

end PeerEvent

/-! ## The task -/

/-- What a poll of the list of peers comes to. -/
inductive Poll where
  | connectionFailed
  | listFailed
  | listed (peers : List ClusterPeer)

/-- The poll failed. -/
def Poll.failed : Poll → Bool
  | connectionFailed | listFailed => true
  | listed _ => false

/-- **A turn of the task's loop**: whether the stream is closed when it
begins, what the poll comes to, and how many events can be sent before the
stream is closed. -/
structure WatchTurn where
  closed : Bool
  poll : Poll
  accepted : ℕ

/-- **The task**: the last list of peers, and whether the task goes on. -/
structure PeerWatch where
  last : PeerMap
  running : Bool

namespace PeerWatch

/-- The task begins. -/
def start : PeerWatch := ⟨PeerMap.empty, true⟩

/-- The map of a list of peers without those that have no node id. -/
def current (peers : List ClusterPeer) : PeerMap :=
  PeerMap.ofPeers (peers.filter (fun p => !p.nodeId.isEmpty))

/-- **What is sent** when one map follows another. -/
def events (last cur : PeerMap) : List PeerEvent :=
  (cur.peers.filter (fun p => p.nodeId ∉ last.keys)).map .joined
    ++ (last.keys.filter (fun id => id ∉ cur.keys)).map .left

/-- A turn, and the events it sends. -/
def turn (w : PeerWatch) (t : WatchTurn) : List PeerEvent × PeerWatch :=
  if w.running = false then ([], w)
  else if t.closed = true then ([], { w with running := false })
  else match t.poll with
    | .connectionFailed => ([], w)
    | .listFailed => ([], w)
    | .listed peers =>
      let es := events w.last (current peers)
      if t.accepted < es.length then (es.take t.accepted, { w with running := false })
      else (es, { w with last := current peers })

/-- **`watch_peers`**, turn by turn. -/
def system : System PeerWatch WatchTurn (List PeerEvent) where
  step := turn

/-- **The events of a run.** -/
def sent (ts : List WatchTurn) : List PeerEvent := (system.answers start ts).flatten

/-- The task after a run. -/
def after (ts : List WatchTurn) : PeerWatch := system.final start ts

/-- The set of node ids that a run's events lead to. -/
def replayed (ts : List WatchTurn) : Finset String := PeerEvent.replayer.final ∅ (sent ts)

theorem sent_concat (ts : List WatchTurn) (t : WatchTurn) :
    sent (ts ++ [t]) = sent ts ++ ((after ts).turn t).1 := by
  rw [sent, System.answers_concat, List.flatten_append, List.flatten_singleton]
  rfl

theorem after_concat (ts : List WatchTurn) (t : WatchTurn) :
    after (ts ++ [t]) = ((after ts).turn t).2 := system.final_append start ts [t]

/-- **The events between two maps** lead from the node ids of the one to
those of the other. -/
theorem replay_events (last cur : PeerMap) :
    PeerEvent.replayer.Along (fun s e => e.Fits s) last.ids (events last cur)
      ∧ PeerEvent.replayer.final last.ids (events last cur) = cur.ids := by
  obtain ⟨hjoin, hjoined⟩ := @PeerEvent.replay_joined
    (cur.peers.filter (fun p => p.nodeId ∉ last.keys)) last.ids
    (cur.nodup_keys.sublist (List.filter_sublist.map _))
    (fun p hp hin => of_decide_eq_true (List.mem_filter.mp hp).2 (PeerMap.mem_ids.mp hin))
  obtain ⟨hleave, hleft⟩ := @PeerEvent.replay_left (last.keys.filter (fun id => id ∉ cur.keys))
    (last.ids ∪ ((cur.peers.filter (fun p => p.nodeId ∉ last.keys)).map
      ClusterPeer.nodeId).toFinset)
    (last.nodup_keys.filter _)
    (fun id hid => Finset.mem_union_left _ (PeerMap.mem_ids.mpr (List.mem_filter.mp hid).1))
  rw [events, System.along_append, System.final_append, hjoined, hleft]
  refine ⟨⟨hjoin, hleave⟩, Finset.ext (fun id => ?_)⟩
  have hnew : id ∈ (cur.peers.filter (fun p => p.nodeId ∉ last.keys)).map ClusterPeer.nodeId
      ↔ id ∈ cur.keys ∧ id ∉ last.keys := by
    constructor
    · intro h
      obtain ⟨p, hp, rfl⟩ := List.mem_map.mp h
      obtain ⟨hp, hout⟩ := List.mem_filter.mp hp
      exact ⟨List.mem_map_of_mem hp, of_decide_eq_true hout⟩
    · rintro ⟨h, hout⟩
      obtain ⟨p, hp, rfl⟩ := List.mem_map.mp h
      exact List.mem_map_of_mem (List.mem_filter.mpr ⟨hp, decide_eq_true hout⟩)
  rw [Finset.mem_sdiff, Finset.mem_union, List.mem_toFinset, List.mem_toFinset, hnew,
    List.mem_filter, decide_eq_true_eq, PeerMap.mem_ids, PeerMap.mem_ids]
  tauto

/-- **What holds of a task and the events it has sent.** -/
structure Watched (w : PeerWatch) (es : List PeerEvent) : Prop where
  fits : PeerEvent.replayer.Along (fun s e => e.Fits s) ∅ es
  ids : w.running = true → PeerEvent.replayer.final ∅ es = w.last.ids

theorem Watched.turn {w : PeerWatch} {es : List PeerEvent} (h : Watched w es) (t : WatchTurn) :
    Watched (w.turn t).2 (es ++ (w.turn t).1) := by
  have hquiet : ∀ v : PeerWatch, v.last = w.last → (v.running = true → w.running = true) →
      Watched v (es ++ []) := by
    intro v hlast hrun
    rw [List.append_nil]
    exact ⟨h.fits, fun hv => (h.ids (hrun hv)).trans (congrArg PeerMap.ids hlast.symm)⟩
  unfold PeerWatch.turn
  split_ifs with hrun hclosed
  · exact hquiet w rfl id
  · exact hquiet _ rfl (fun hv => nomatch hv)
  · cases hpoll : t.poll with
    | connectionFailed => exact hquiet w rfl id
    | listFailed => exact hquiet w rfl id
    | listed peers =>
      obtain ⟨hfits, hfinal⟩ := replay_events w.last (current peers)
      rw [← h.ids ((Bool.not_eq_false _).mp hrun)] at hfits hfinal
      dsimp only
      split_ifs
      · -- the stream is closed before all events are sent
        refine ⟨(System.along_append _ _ _ _).mpr ⟨h.fits, ?_⟩, fun hv => nomatch hv⟩
        rw [← List.take_append_drop t.accepted (events w.last (current peers)),
          System.along_append] at hfits
        exact hfits.1
      · refine ⟨(System.along_append _ _ _ _).mpr ⟨h.fits, hfits⟩, fun _ => ?_⟩
        rw [System.final_append]
        exact hfinal

theorem watched (ts : List WatchTurn) : Watched (after ts) (sent ts) := by
  induction ts using List.reverseRecOn with
  | nil => exact ⟨trivial, fun _ => rfl⟩
  | append_singleton ts t ih =>
    rw [sent_concat, after_concat]
    exact ih.turn t

/-- After a poll that succeeded the map is that of the poll. -/
theorem turn_listed {w : PeerWatch} {t : WatchTurn} {peers : List ClusterPeer}
    (hpoll : t.poll = .listed peers) (hrun : (w.turn t).2.running = true) :
    (w.turn t).2.last = current peers := by
  unfold turn at hrun ⊢
  rw [hpoll] at hrun ⊢
  dsimp only at hrun ⊢
  split_ifs at hrun ⊢ with hstopped hclosed hcut
  · rw [hstopped] at hrun
    exact nomatch hrun
  · rfl

/-- A poll that failed sends nothing and leaves the map. -/
theorem turn_failed {w : PeerWatch} {t : WatchTurn} (hpoll : t.poll.failed = true) :
    (w.turn t).1 = [] ∧ (w.turn t).2.last = w.last
      ∧ (t.closed = false → (w.turn t).2 = w) := by
  unfold turn
  split_ifs with hstopped hclosed
  · exact ⟨rfl, rfl, fun _ => rfl⟩
  · exact ⟨rfl, rfl, fun h => absurd (h.symm.trans hclosed) Bool.false_ne_true⟩
  · cases hp : t.poll with
    | connectionFailed => exact ⟨rfl, rfl, fun _ => rfl⟩
    | listFailed => exact ⟨rfl, rfl, fun _ => rfl⟩
    | listed peers =>
      rw [hp] at hpoll
      exact nomatch hpoll

theorem mem_ids_current {peers : List ClusterPeer} {id : String} :
    id ∈ (current peers).ids ↔ id ≠ "" ∧ id ∈ peers.map ClusterPeer.nodeId := by
  rw [PeerMap.mem_ids, current, PeerMap.mem_keys_ofPeers, List.mem_map, List.mem_map]
  constructor
  · rintro ⟨p, hp, rfl⟩
    obtain ⟨hp, hid⟩ := List.mem_filter.mp hp
    refine ⟨fun he => ?_, p, hp, rfl⟩
    rw [he] at hid
    exact nomatch hid
  · rintro ⟨hid, p, hp, rfl⟩
    refine ⟨p, List.mem_filter.mpr ⟨hp, ?_⟩, rfl⟩
    rw [Bool.not_eq_true', Bool.eq_false_iff]
    exact fun h => hid (String.isEmpty_iff.mp h)

/-- **The events reproduce the set of peers.** In every run each event fits
the set that the events before it lead to, and each node's events alternate,
the first saying that it joined; after every poll that succeeded, and whose
events the stream took, the events lead to the poll's node ids but the empty
one; and a poll that failed sends nothing and leaves the task as it was. -/
theorem events_reproduce_peers :
    (∀ ts, PeerEvent.replayer.Along (fun s e => e.Fits s) ∅ (sent ts))
      ∧ (∀ ts id, List.IsChain (· ≠ ·) (false :: (sent ts).filterMap (PeerEvent.about id)))
      ∧ (∀ ts t peers, t.poll = .listed peers → (after (ts ++ [t])).running = true →
          ∀ id, id ∈ replayed (ts ++ [t]) ↔ id ≠ "" ∧ id ∈ peers.map ClusterPeer.nodeId)
      ∧ ∀ ts t, t.poll.failed = true → sent (ts ++ [t]) = sent ts
          ∧ (after (ts ++ [t])).last = (after ts).last
          ∧ (t.closed = false → after (ts ++ [t]) = after ts) := by
  refine ⟨fun ts => (watched ts).fits, fun ts id => ?_, fun ts t peers hpoll hrun id => ?_,
    fun ts t hpoll => ?_⟩
  · have hnone : decide (id ∈ (∅ : Finset String)) = false :=
      decide_eq_false (Finset.notMem_empty id)
    rw [← hnone]
    exact PeerEvent.isChain_about (watched ts).fits id
  · rw [replayed, (watched (ts ++ [t])).ids hrun]
    rw [after_concat] at hrun ⊢
    rw [turn_listed hpoll hrun, mem_ids_current]
  · obtain ⟨hsent, hlast, hsame⟩ := turn_failed (w := after ts) hpoll
    rw [sent_concat, after_concat, hsent, List.append_nil]
    exact ⟨rfl, hlast, hsame⟩

/-- A peer of a node id. -/
abbrev peerOf (id : String) : ClusterPeer := ⟨id, "a:1", "t", .healthy, []⟩

/-- A poll that finds a node twice, and one without an id. -/
abbrev pollTwice : WatchTurn := ⟨false, .listed [peerOf "a", peerOf "", peerOf "a"], 256⟩

/-- A node is listed, a poll fails, and the node is not listed. -/
theorem events_of_a_node :
    ("a" ∈ replayed [pollTwice] ↔ "a" ≠ "" ∧ "a" ∈ ["a", "", "a"])
      ∧ sent [pollTwice, ⟨false, .listFailed, 256⟩] = [.joined (peerOf "a")]
      ∧ sent [pollTwice, ⟨false, .listFailed, 256⟩, ⟨false, .listed [], 256⟩]
        = [.joined (peerOf "a"), .left "a"] :=
  ⟨events_reproduce_peers.2.2.1 [] pollTwice _ rfl (by decide +kernel) "a",
    (events_reproduce_peers.2.2.2 [pollTwice] ⟨false, .listFailed, 256⟩ rfl).1.trans
      (by decide +kernel), by decide +kernel⟩

end PeerWatch
