import ClusterRedis.Listing
import ClusterRedis.PeerPattern
import ClusterRedis.WatchPeers

/-!
# The names in a list of peers

A list of peers is put together from the sorted set, which holds a node id
once, and from a scan for older builds, which may be one that is remembered.
Of what the scan found, the ids of the set are left out. Nothing else is: a
scan may return a key more than once, and then its node is in the list more
than once.

How often a node is in the list is counted (`count_ids`): once at most from
the set, and outside it as often as the scan found it as an older build. So
the names are distinct exactly when no scan found a node twice
(`peer_list_names_once_iff`). Who watches the peers does not see the
difference, as the watch keeps them in a map by node id.
-/

open RedisKv PeersWorld

/-- **A list of peers**: the server at its commands with the replies to its
scan, and the last scan as it is remembered. -/
structure PeerListing extends FreshList where
  /-- When the last scan ended, and what it found; -/
  last : Option (ℕ × List Registration)
  /-- how old it may be, -/
  maxAge : ℕ
  /-- and the time by the process. -/
  instant : ℕ

/-- The peer of a registration. -/
def clusterPeer (r : Registration) : ClusterPeer where
  nodeId := r.1
  address := r.2.address
  lastSeen := r.2.lastSeen
  health := .healthy
  roles := r.2.roles

/-- An older build's registration of a node. -/
def OlderOf (id : String) (r : Registration) : Bool := decide (r.1 = id) && !r.2.kvIndex

/-- A key that is read as an older build's registration of a node. -/
def ReadsOlder (p id : String) (s : Redis) (k : String) : Bool :=
  (registration (valueAt s k)).any (fun reg => OlderOf id (nodeId p k, reg))

namespace PeerListing

variable (p : String) (c : PeerListing)

/-- What the last scan found, if it is young enough. -/
def cached : Option (List Registration) :=
  (c.last.filter (fun sc => c.instant - sc.1 < c.maxAge)).map Prod.snd

/-- **`LegacyPeerScan::registrations`.** -/
def registrations : Option (List Registration) :=
  match c.cached with
  | some found => some found
  | none => readAt p c.keys c.fetched

/-- **`list_registrations`.** -/
def listRegistrations : Option (List Registration) := do
  let ids ← (Redis.zrangebyscore (peersIndexKey p) (Double.round c.clock) c.ranged).1.toOption
  let found ← readAt p (ids.map (peerKey p)) c.read
  let legacy ← c.registrations p
  some (listedRegistrations ids found legacy)

/-- **`list_peers`.** -/
def listPeers : Option (List ClusterPeer) := (c.listRegistrations p).map (List.map clusterPeer)

/-- **How often a scan found a node as an older build**: the one remembered,
or at the keys that the list's own returned. -/
def timesFound (id : String) : ℕ :=
  match c.cached with
  | some found => found.countP (OlderOf id)
  | none => c.keys.countP (ReadsOlder p id c.fetched)

/-- **Every node outside the set is found once at most.** -/
def FindsOnce : Prop := ∀ id, ¬ Current p c.ranged c.clock id → c.timesFound p id ≤ 1

end PeerListing

namespace PeerListing

variable {p : String} {c : PeerListing}

/-! ## Counting a node -/

theorem listRegistrations_eq_some_iff {rs : List Registration} :
    c.listRegistrations p = some rs ↔ ∃ ids found legacy,
      (Redis.zrangebyscore (peersIndexKey p) (Double.round c.clock) c.ranged).1 = .ok ids
        ∧ readAt p (ids.map (peerKey p)) c.read = some found
        ∧ c.registrations p = some legacy
        ∧ rs = listedRegistrations ids found legacy :=
  listed_eq_some_iff

/-- **What a scan found of a node** is counted at the keys it returned. -/
theorem countP_readAt {keys : List String} {s : Redis} {found : List Registration}
    (h : readAt p keys s = some found) (id : String) :
    found.countP (OlderOf id) = keys.countP (ReadsOlder p id s) := by
  rw [(readAt_eq_some_iff.mp h).2, List.countP_filterMap]
  refine List.countP_congr (fun k _ => ?_)
  rw [ReadsOlder]
  cases registration (valueAt s k) with
  | none => exact Iff.rfl
  | some reg => exact Iff.rfl

theorem countP_registrations {legacy : List Registration} (h : c.registrations p = some legacy)
    (id : String) : legacy.countP (OlderOf id) = c.timesFound p id := by
  unfold registrations at h
  unfold timesFound
  cases hcached : c.cached with
  | some found =>
    rw [hcached] at h
    exact congrArg _ (Option.some.inj h).symm
  | none =>
    rw [hcached] at h
    exact countP_readAt h id

/-- How often a node is in what a list keeps of a scan. -/
theorem count_kept (ids : List String) (legacy : List Registration) (id : String) :
    ((legacy.filter (fun r => !r.2.kvIndex && !ids.contains r.1)).map Prod.fst).count id
      = if id ∈ ids then 0 else legacy.countP (OlderOf id) := by
  rw [List.count_eq_countP, List.countP_map, List.countP_filter]
  by_cases hid : id ∈ ids
  · rw [if_pos hid, List.countP_eq_zero]
    intro r _ hr
    simp only [Function.comp_apply, Bool.and_eq_true, beq_iff_eq, Bool.not_eq_true',
      List.contains_eq_mem, decide_eq_false_iff_not] at hr
    exact hr.2.2 (hr.1 ▸ hid)
  · rw [if_neg hid]
    refine List.countP_congr (fun r _ => ?_)
    simp only [Function.comp_apply, OlderOf, Bool.and_eq_true, beq_iff_eq, Bool.not_eq_true',
      List.contains_eq_mem, decide_eq_false_iff_not, decide_eq_true_eq]
    constructor
    · exact fun h => ⟨h.1, h.2.1⟩
    · exact fun h => ⟨h.1, h.2, h.1 ▸ hid⟩

/-- What is read at the keys of ids is named by ids of them, in their
order. -/
theorem sublist_readAt {ids : List String} {s : Redis} {found : List Registration}
    (h : readAt p (ids.map (peerKey p)) s = some found) : (found.map Prod.fst).Sublist ids := by
  have hfound := (readRegistrations_eq_some_iff (v := valueAt s) |>.mp h).2
  have hsub := sublist_map_filterMap (fun id => registration (valueAt s (peerKey p id))) id ids
  rw [List.map_id] at hsub
  rw [hfound]
  exact hsub

/-- **How often a list names a node**: once at most, if the set has its id,
and else as often as the scan found it as an older build. -/
theorem count_listed {rs : List Registration} (h : c.listRegistrations p = some rs)
    (id : String) :
    (Current p c.ranged c.clock id → (rs.map Prod.fst).count id ≤ 1)
      ∧ (¬ Current p c.ranged c.clock id → (rs.map Prod.fst).count id = c.timesFound p id) := by
  obtain ⟨ids, found, legacy, hids, hfound, hlegacy, rfl⟩ := listRegistrations_eq_some_iff.mp h
  obtain ⟨hnodup, hmem⟩ := Redis.zrangebyscore_eq_ok hids
  have hsub : (found.map Prod.fst).Sublist ids := sublist_readAt hfound
  rw [listedRegistrations, List.map_append, List.count_append, count_kept,
    countP_registrations hlegacy]
  constructor
  · intro hcur
    rw [if_pos ((hmem id).mpr hcur), Nat.add_zero]
    exact List.nodup_iff_count_le_one.mp (hnodup.sublist hsub) id
  · intro hcur
    have hid : id ∉ ids := fun hid => hcur ((hmem id).mp hid)
    rw [if_neg hid, List.count_eq_zero_of_not_mem (fun hm => hid (hsub.subset hm)), Nat.zero_add]

/-- **The names of a list are distinct** exactly when every node outside the
set was found once at most. -/
theorem nodup_listed_iff {rs : List Registration} (h : c.listRegistrations p = some rs) :
    (rs.map Prod.fst).Nodup ↔ c.FindsOnce p := by
  rw [List.nodup_iff_count_le_one]
  constructor
  · intro hall id hcur
    rw [← (count_listed h id).2 hcur]
    exact hall id
  · intro honce id
    by_cases hcur : Current p c.ranged c.clock id
    · exact (count_listed h id).1 hcur
    · rw [(count_listed h id).2 hcur]
      exact honce id hcur

/-! ## Under a plain prefix -/

/-- What is read as an older build's, is registered as one is. -/
theorem registered_iff {s : Redis} {id : String} :
    Registered p s id
      ↔ ∃ reg, registration (valueAt s (peerKey p id)) = some reg ∧ reg.kvIndex = false := by
  constructor
  · rintro ⟨b, e, t, reg, hl, ht, hreg, hidx⟩
    refine ⟨reg, ?_, hidx⟩
    rw [valueAt, hl]
    show (utf8Text b).bind PeerRegistration.ofText = some reg
    rw [ht]
    exact hreg
  · rintro ⟨reg, hreg, hidx⟩
    obtain ⟨t, ht, hof⟩ := Option.bind_eq_some_iff.mp hreg
    obtain ⟨b, hb, hbt⟩ := Option.bind_eq_some_iff.mp ht
    unfold valueAt at hb
    split at hb
    · next b' e hl =>
      obtain rfl : b' = b := Option.some.inj hb
      exact ⟨b', e, t, reg, hl, hbt, hof, hidx⟩
    · cases hb

theorem readsOlder_peerKey {s : Redis} {id m : String} :
    ReadsOlder p id s (peerKey p m) = true ↔ m = id ∧ Registered p s m := by
  rw [ReadsOlder, registered_iff, nodeId_peerKey]
  cases registration (valueAt s (peerKey p m)) with
  | none => simp
  | some reg => simp [OlderOf]

/-- **Under a plain prefix** a scan of its own finds a node as often as it
returns the node's key. -/
theorem timesFound_of_plain (hp : PlainPrefix p)
    (hmatched : ∀ k ∈ c.keys, KeyMatch (peersPattern p) k) (hcached : c.cached = none)
    (id : String) :
    (Registered p c.fetched id → c.timesFound p id = c.keys.count (peerKey p id))
      ∧ (¬ Registered p c.fetched id → c.timesFound p id = 0) := by
  have hkeys : c.timesFound p id = c.keys.countP (ReadsOlder p id c.fetched) := by
    rw [timesFound, hcached]
  rw [hkeys]
  constructor
  · intro hreg
    refine List.countP_congr (fun k hk => ?_)
    obtain ⟨m, rfl⟩ := (keyMatch_of_plain hp k).mp (hmatched k hk)
    rw [readsOlder_peerKey, beq_iff_eq]
    constructor
    · exact fun h => congrArg (peerKey p) h.1
    · intro h
      obtain rfl : m = id := by simpa using congrArg (nodeId p) h
      exact ⟨rfl, hreg⟩
  · intro hreg
    refine List.countP_eq_zero.mpr (fun k hk hread => ?_)
    obtain ⟨m, rfl⟩ := (keyMatch_of_plain hp k).mp (hmatched k hk)
    obtain ⟨rfl, h⟩ := readsOlder_peerKey.mp hread
    exact hreg h

theorem findsOnce_of_plain (hp : PlainPrefix p)
    (hmatched : ∀ k ∈ c.keys, KeyMatch (peersPattern p) k) (hcached : c.cached = none) :
    c.FindsOnce p ↔ ∀ id, Registered p c.fetched id → ¬ Current p c.ranged c.clock id →
      c.keys.count (peerKey p id) ≤ 1 := by
  constructor
  · intro honce id hreg hcur
    rw [← (timesFound_of_plain hp hmatched hcached id).1 hreg]
    exact honce id hcur
  · intro hkeys id hcur
    by_cases hreg : Registered p c.fetched id
    · rw [(timesFound_of_plain hp hmatched hcached id).1 hreg]
      exact hkeys id hreg hcur
    · rw [(timesFound_of_plain hp hmatched hcached id).2 hreg]
      exact Nat.zero_le 1

/-- **A scan that is remembered** has found a node as often as it was read
at the keys that it returned then. -/
theorem findsOnce_of_cached {keys : List String} {s : Redis} {found : List Registration}
    (hfound : readAt p keys s = some found) (hcached : c.cached = some found) :
    c.FindsOnce p ↔ ∀ id, ¬ Current p c.ranged c.clock id →
      keys.countP (ReadsOlder p id s) ≤ 1 := by
  refine forall_congr' (fun id => imp_congr_right (fun _ => ?_))
  rw [timesFound, hcached, ← countP_readAt hfound id]

theorem listPeers_names {rs : List Registration} (h : c.listRegistrations p = some rs) :
    ∃ peers, c.listPeers p = some peers ∧ peers.map ClusterPeer.nodeId = rs.map Prod.fst := by
  refine ⟨rs.map clusterPeer, ?_, List.map_map⟩
  rw [listPeers, h]
  rfl

/-- **A list of peers names each node once exactly when its scan found each
once**: for every state of the server at its commands, every reply of the
scan, and whatever is remembered of the last one. Of a node that the set
has the id of, it does not matter what was scanned. Under a plain prefix, a
scan finds a node twice exactly when it returns the node's key twice. -/
theorem peer_list_names_once_iff (p : String) (c : PeerListing) (rs : List Registration)
    (h : c.listRegistrations p = some rs) :
    ((rs.map Prod.fst).Nodup ↔ c.FindsOnce p)
      ∧ (∃ peers, c.listPeers p = some peers
        ∧ ((peers.map ClusterPeer.nodeId).Nodup ↔ c.FindsOnce p))
      ∧ (PlainPrefix p → (∀ k ∈ c.keys, KeyMatch (peersPattern p) k) → c.cached = none →
        (c.FindsOnce p ↔ ∀ id, Registered p c.fetched id → ¬ Current p c.ranged c.clock id →
          c.keys.count (peerKey p id) ≤ 1))
      ∧ ∀ keys s found, readAt p keys s = some found → c.cached = some found →
        (c.FindsOnce p ↔ ∀ id, ¬ Current p c.ranged c.clock id →
          keys.countP (ReadsOlder p id s) ≤ 1) := by
  refine ⟨nodup_listed_iff h, ?_, findsOnce_of_plain, fun keys s found => findsOnce_of_cached⟩
  obtain ⟨peers, hpeers, hnames⟩ := listPeers_names h
  exact ⟨peers, hpeers, hnames ▸ nodup_listed_iff h⟩

/-! ## A key that is returned twice -/

/-- A list whose set is empty, and whose scan returns the only key there is
as often as given, once a step. -/
def scannedTimes (k : String) (n : ℕ) : PeerListing where
  clock := 0
  ranged := Redis.empty 0
  read := Redis.empty 0
  scan := List.replicate n (loneRegistration k, [k])
  fetched := loneRegistration k
  last := none
  maxAge := 30000
  instant := 0

theorem keys_scannedTimes (k : String) (n : ℕ) :
    (scannedTimes k n).keys = List.replicate n k := by
  rw [FreshList.keys, scannedTimes, List.flatMap_replicate]
  exact List.flatten_replicate_singleton

theorem listRegistrations_scannedTimes (k : String) (n : ℕ) :
    (scannedTimes k n).listRegistrations p
      = some (List.replicate n (nodeId p k, oldDecoded)) := by
  refine listRegistrations_eq_some_iff.mpr
    ⟨[], [], List.replicate n (nodeId p k, oldDecoded), rfl, rfl, ?_, ?_⟩
  · show readAt p (scannedTimes k n).keys _ = _
    rw [keys_scannedTimes]
    exact readAt_replicate k n
  · exact (List.filter_replicate_of_pos rfl).symm

/-- The scan is one that a server may do. -/
theorem honest_scannedTimes {k : String} (hk : KeyMatch (peersPattern p) k) {n : ℕ} (hn : n ≠ 0) :
    (scannedTimes k n).Honest p where
  begun := by simpa [scannedTimes] using hn
  matched := by
    intro k' hk'
    rw [keys_scannedTimes] at hk'
    rwa [List.eq_of_mem_replicate hk']
  complete := by
    intro k' _ hlive
    have hstep : (loneRegistration k, [k]) ∈ (scannedTimes k n).scan :=
      List.mem_replicate.mpr ⟨hn, rfl⟩
    rw [keys_scannedTimes, Redis.eq_of_live_put (hlive _ hstep)]
    exact List.mem_replicate.mpr ⟨hn, rfl⟩

/-- A node of this build, in the set, and one of an older build. -/
def bothBuilds : Redis :=
  (((Redis.empty 0).put "p:peers/n" Fleet.oldRegistration).put "p:peers/m"
    ⟨.str "\x7b\"address\":\"b:1\",\"last_seen\":\"t\",\"kv_index\":true\x7d".toUTF8.data.toList,
      some 15000⟩).zins "p:#peers" "m" 15000

/-- A list of both, whose scan returns the older build's key once and the
other's twice. -/
def scannedBoth : PeerListing where
  clock := 0
  ranged := bothBuilds
  read := bothBuilds
  scan := [(bothBuilds, ["p:peers/m", "p:peers/n"]), (bothBuilds, ["p:peers/m"])]
  fetched := bothBuilds
  last := none
  maxAge := 30000
  instant := 0

theorem listRegistrations_scannedBoth :
    scannedBoth.listRegistrations "p:"
      = some [("m", ⟨"b:1", "t", [], true⟩), ("n", oldDecoded)] := by
  decide +kernel

/-- Each is named once: what a scan finds of a node in the set does not count. -/
theorem scanned_once_listed_once :
    scannedBoth.FindsOnce "p:"
      ∧ (([("m", ⟨"b:1", "t", [], true⟩), ("n", oldDecoded)] : List Registration).map
        Prod.fst).Nodup := by
  have hnames := peer_list_names_once_iff "p:" scannedBoth _ listRegistrations_scannedBoth
  have hcurrent : Current "p:" bothBuilds 0 "m" :=
    ⟨15000, by decide +kernel, by decide⟩
  have hmatched : ∀ k ∈ scannedBoth.keys, KeyMatch (peersPattern "p:") k := by decide +kernel
  have honce : scannedBoth.FindsOnce "p:" := by
    refine (hnames.2.2.1 (by decide) hmatched rfl).mpr (fun id _ hno => ?_)
    have hm : peerKey "p:" id ≠ "p:peers/m" := by
      intro hkey
      have hid : id = "m" := by
        rw [← nodeId_peerKey "p:" id, hkey]
        exact nodeId_peerKey "p:" "m"
      exact hno (hid ▸ hcurrent)
    show ["p:peers/m", "p:peers/n", "p:peers/m"].count (peerKey "p:" id) ≤ 1
    rw [List.count_cons_of_ne hm.symm, List.count_cons, List.count_cons_of_ne hm.symm,
      List.count_nil]
    split <;> decide
  exact ⟨honce, hnames.1.mpr honce⟩

/-- **A key that is returned at two steps of a scan**: the list names its
node twice. -/
theorem scanned_twice_listed_twice :
    (scannedTimes "p:peers/n" 2).Honest "p:"
      ∧ (scannedTimes "p:peers/n" 2).listRegistrations "p:"
        = some [("n", oldDecoded), ("n", oldDecoded)]
      ∧ ((scannedTimes "p:peers/n" 2).listPeers "p:").map (List.map ClusterPeer.nodeId)
        = some ["n", "n"]
      ∧ ¬ (["n", "n"] : List String).Nodup := by
  have hnode : nodeId "p:" "p:peers/n" = "n" := nodeId_peerKey "p:" "n"
  have hlist := @listRegistrations_scannedTimes "p:" "p:peers/n" 2
  rw [hnode] at hlist
  refine ⟨honest_scannedTimes (by decide +kernel) (by decide), hlist, ?_, by decide⟩
  rw [listPeers, hlist]
  rfl

end PeerListing
