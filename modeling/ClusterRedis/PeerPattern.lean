import ClusterRedis.Completion
import ClusterRedis.Config
import ClusterRedis.PeerList
import ClusterRedis.PlainPrefix

/-!
# The pattern of the registrations

Older builds are found by a scan for `{key_prefix}peers/*`. The prefix is the
operator's and is not escaped, so the pattern says what it should only for
some prefixes: `keyMatch_peersPattern_iff`. A prefix with a star, a question
mark, an opening bracket or a backslash makes a pattern that does not match
the registrations under it, or one that matches other keys too
(`exists_stray_key`).

What follows for a list of the registrations is followed through a
`FreshList`: a list by a process that has forgotten its last scan. What the
server holds may change between any two of its commands, so the list has a
state for each; what the server replies to the scan is bound by what is
promised of `SCAN` alone.
-/

open RedisKv PeersWorld

/-! ## The pattern -/

/-- The text a scan for registrations puts a star behind. -/
abbrev peersPrefix (p : String) : String := p ++ "peers/"

theorem peersPattern_eq (p : String) : peersPattern p = peersPrefix p ++ "*" := by
  refine String.toList_inj.mp ?_
  simp [peersPattern, peersPrefix]

theorem peersPrefix_ne_empty (p : String) : peersPrefix p ≠ "" := by
  intro h
  have := congrArg String.toList h
  simp [peersPrefix] at this

/-- What starts as a registration is the key of one. -/
theorem startsWith_peersPrefix {p k : String} :
    StartsWith (peersPrefix p) k ↔ ∃ id, k = peerKey p id := startsWith_iff

/-- **A plain prefix makes the pattern of its registrations.** -/
theorem keyMatch_of_plain {p : String} (h : PlainPrefix p) (k : String) :
    KeyMatch (peersPattern p) k ↔ ∃ id, k = peerKey p id := by
  have hplain : PlainPrefix (peersPrefix p) := plainPrefix_append.mpr ⟨h, by decide⟩
  rw [peersPattern_eq, keyMatch_plain_star hplain (peersPrefix_ne_empty p)]
  exact startsWith_peersPrefix

/-- **A prefix that is not plain** makes a pattern that misses a registration
under it, or matches another key. -/
theorem exists_stray_key {p : String} (h : ¬ PlainPrefix p) :
    ¬ KeyMatch (peersPattern p) (peerKey p "")
      ∨ ∃ k, KeyMatch (peersPattern p) k ∧ ∀ id, k ≠ peerKey p id := by
  have hsplit : p ++ "peers" ++ "/" = peersPrefix p := by
    rw [String.append_assoc]
    rfl
  have hq : ¬ PlainPrefix (p ++ "peers") := fun hq => h (plainPrefix_append.mp hq).1
  have hstray := exists_stray (show utf8 "/" = [0x2F] from by decide) (by decide) (by decide) hq ""
  rw [hsplit, ← peersPattern_eq, String.append_empty] at hstray
  refine hstray.imp ?_ ?_
  · intro hmiss
    rwa [peerKey, String.append_empty]
  · rintro ⟨k, hk, hno⟩
    exact ⟨k, hk, fun id he => hno (startsWith_peersPrefix.mpr ⟨id, he⟩)⟩

/-- **The pattern is exact for the plain prefixes**, and for no other. -/
theorem keyMatch_peersPattern_iff {p : String} :
    (∀ k, KeyMatch (peersPattern p) k ↔ ∃ id, k = peerKey p id) ↔ PlainPrefix p := by
  refine ⟨fun hexact => ?_, keyMatch_of_plain⟩
  by_contra h
  rcases exists_stray_key h with hmiss | ⟨k, hk, hstray⟩
  · exact hmiss ((hexact _).mpr ⟨"", rfl⟩)
  · obtain ⟨id, rfl⟩ := (hexact k).mp hk
    exact hstray id rfl

/-! ## Lists -/

/-- **A list by a process that has forgotten its last scan**: the reader's
clock, the server as each of the commands found it, and the keys that it
replied to each step of the scan. -/
structure FreshList where
  clock : ℕ
  /-- `ZRANGEBYSCORE` of the sorted set, -/
  ranged : Redis
  /-- `MGET` of its registrations, -/
  read : Redis
  /-- the steps of the scan, -/
  scan : List (Redis × List String)
  /-- and `MGET` of what it found. -/
  fetched : Redis

/-- The registrations at keys. -/
def readAt (p : String) (keys : List String) (s : Redis) : Option (List Registration) :=
  (Redis.mget keys s).1.toOption.bind (readRegistrations p keys)

namespace FreshList

variable (p : String) (c : FreshList)

/-- The keys the scan returned. -/
def keys : List String := c.scan.flatMap Prod.snd

/-- The server at every command of the list. -/
def states : List Redis := c.ranged :: c.read :: c.fetched :: c.scan.map Prod.fst

/-- **`list_registrations`** after `forget`. -/
def result : Option (List Registration) := do
  let ids ← (Redis.zrangebyscore (peersIndexKey p) (Double.round c.clock) c.ranged).1.toOption
  let found ← readAt p (ids.map (peerKey p)) c.read
  let legacy ← readAt p c.keys c.fetched
  some (listedRegistrations ids found legacy)

/-- **The promise of `SCAN`**: it returns keys that match, and every one that
is there at all of its steps. -/
structure Honest : Prop where
  begun : c.scan ≠ []
  matched : ∀ k ∈ c.keys, KeyMatch (peersPattern p) k
  complete : ∀ k, KeyMatch (peersPattern p) k → (∀ x ∈ c.scan, x.1.Live k) → k ∈ c.keys

/-- **The older builds are found**: of every node that is registered as one
throughout, a registration is returned; and every registration returned is
one that was read at its node's key. -/
structure FindsOlder : Prop where
  all : ∀ rs, c.result p = some rs → ∀ id, (∀ s ∈ c.states, Registered p s id) →
    ∃ reg, (id, reg) ∈ rs ∧ reg.kvIndex = false
  own : ∀ rs, c.result p = some rs → ∀ r ∈ rs, ∃ s ∈ c.states,
    registration (valueAt s (peerKey p r.1)) = some r.2

end FreshList

section Lists

variable {p : String} {c : FreshList}

/-- What a list is put together from: the ids of the set, what is read at
their keys, and what a scan found. -/
theorem listed_eq_some_iff {replied : Except RedisError (List String)}
    {reads : List String → Option (List Registration)} {scanned : Option (List Registration)}
    {rs : List Registration} :
    (replied.toOption.bind fun ids => (reads ids).bind fun found => scanned.bind fun legacy =>
        some (listedRegistrations ids found legacy)) = some rs
      ↔ ∃ ids found legacy, replied = .ok ids ∧ reads ids = some found ∧ scanned = some legacy
        ∧ rs = listedRegistrations ids found legacy := by
  constructor
  · intro h
    obtain ⟨ids, hids, h⟩ := Option.bind_eq_some_iff.mp h
    obtain ⟨found, hfound, h⟩ := Option.bind_eq_some_iff.mp h
    obtain ⟨legacy, hlegacy, h⟩ := Option.bind_eq_some_iff.mp h
    refine ⟨ids, found, legacy, ?_, hfound, hlegacy, (Option.some.inj h).symm⟩
    cases replied with
    | ok a => exact congrArg Except.ok (Option.some.inj hids)
    | error e => cases hids
  · rintro ⟨ids, found, legacy, rfl, hfound, hlegacy, rfl⟩
    refine Option.bind_eq_some_iff.mpr ⟨ids, rfl, ?_⟩
    refine Option.bind_eq_some_iff.mpr ⟨found, hfound, ?_⟩
    exact Option.bind_eq_some_iff.mpr ⟨legacy, hlegacy, rfl⟩

theorem FreshList.result_eq_some_iff {rs : List Registration} :
    c.result p = some rs ↔ ∃ ids found legacy,
      (Redis.zrangebyscore (peersIndexKey p) (Double.round c.clock) c.ranged).1 = .ok ids
        ∧ readAt p (ids.map (peerKey p)) c.read = some found
        ∧ readAt p c.keys c.fetched = some legacy
        ∧ rs = listedRegistrations ids found legacy :=
  listed_eq_some_iff

/-- A registration of an older build that is there when its key is read. -/
theorem Registered.mem_readAt {s : Redis} {id : String} (h : Registered p s id)
    {keys : List String} (hk : peerKey p id ∈ keys) {found : List Registration}
    (hf : readAt p keys s = some found) : ∃ reg, (id, reg) ∈ found ∧ reg.kvIndex = false := by
  obtain ⟨values, hv, hread⟩ := Option.bind_eq_some_iff.mp hf
  exact h.mem_found hk (congrArg Except.ok (Option.some.inj hv)) hread

/-- **What is read at keys is what their values are.** -/
theorem readAt_eq_some_iff {s : Redis} {keys : List String} {found : List Registration} :
    readAt p keys s = some found ↔ (∀ k ∈ keys, Readable (valueAt s k))
      ∧ found = keys.filterMap
        (fun k => (registration (valueAt s k)).map (fun r => (nodeId p k, r))) :=
  readRegistrations_keys (v := valueAt s)

theorem exists_key_of_mem_readAt {s : Redis} {keys : List String}
    {found : List Registration} (hf : readAt p keys s = some found) {r : Registration}
    (hr : r ∈ found) :
    ∃ k ∈ keys, r.1 = nodeId p k ∧ registration (valueAt s k) = some r.2 := by
  obtain ⟨-, rfl⟩ := readAt_eq_some_iff.mp hf
  obtain ⟨k, hk, hkr⟩ := List.mem_filterMap.mp hr
  obtain ⟨reg, hreg, rfl⟩ := Option.map_eq_some_iff.mp hkr
  exact ⟨k, hk, rfl, hreg⟩

/-- What is read at the keys of nodes is theirs. -/
theorem mem_readAt {s : Redis} {keys : List String} (hkeys : ∀ k ∈ keys, ∃ id, k = peerKey p id)
    {found : List Registration} (hf : readAt p keys s = some found) {r : Registration}
    (hr : r ∈ found) : registration (valueAt s (peerKey p r.1)) = some r.2 := by
  obtain ⟨k, hk, hid, hreg⟩ := exists_key_of_mem_readAt hf hr
  obtain ⟨id, rfl⟩ := hkeys k hk
  rwa [hid, nodeId_peerKey]

/-- **Under a plain prefix the older builds are found.** -/
theorem findsOlder_of_plain (hp : PlainPrefix p) (hc : c.Honest p) : c.FindsOlder p where
  all := by
    intro rs hrs id hid
    obtain ⟨ids, found, legacy, -, hfound, hlegacy, rfl⟩ := FreshList.result_eq_some_iff.mp hrs
    by_cases hin : id ∈ ids
    · obtain ⟨reg, hm, hreg⟩ := (hid c.read (by simp [FreshList.states])).mem_readAt
        (List.mem_map_of_mem hin) hfound
      exact ⟨reg, List.mem_append_left _ hm, hreg⟩
    · have hscan : peerKey p id ∈ c.keys := by
        refine hc.complete _ ((keyMatch_of_plain hp _).mpr ⟨id, rfl⟩) (fun x hx => ?_)
        refine (hid x.1 ?_).live
        simp only [FreshList.states, List.mem_cons]
        exact Or.inr (Or.inr (Or.inr (List.mem_map_of_mem hx)))
      obtain ⟨reg, hm, hreg⟩ := (hid c.fetched (by simp [FreshList.states])).mem_readAt
        hscan hlegacy
      refine ⟨reg, List.mem_append_right _ (List.mem_filter.mpr ⟨hm, ?_⟩), hreg⟩
      simp [hreg, hin]
  own := by
    intro rs hrs r hr
    obtain ⟨ids, found, legacy, -, hfound, hlegacy, rfl⟩ := FreshList.result_eq_some_iff.mp hrs
    rcases List.mem_append.mp hr with hr | hr
    · refine ⟨c.read, by simp [FreshList.states], mem_readAt (fun k hk => ?_) hfound hr⟩
      obtain ⟨id, -, rfl⟩ := List.mem_map.mp hk
      exact ⟨id, rfl⟩
    · refine ⟨c.fetched, by simp [FreshList.states],
        mem_readAt (fun k hk => ?_) hlegacy (List.mem_filter.mp hr).1⟩
      exact (keyMatch_of_plain hp k).mp (hc.matched k hk)

/-- An older build's registration, at a key and alone. -/
def loneRegistration (k : String) : Redis := (Redis.empty 0).put k Fleet.oldRegistration

theorem lookup_loneRegistration (k : String) :
    (loneRegistration k).lookup k = some Fleet.oldRegistration :=
  Redis.lookup_put_self _ (by decide)

/-- The registration as it is decoded. -/
def oldDecoded : PeerRegistration := ⟨"a:1", "2025-01-01T00:00:00Z", [], false⟩

/-- Its key may be read any number of times. -/
theorem readAt_replicate (k : String) (n : ℕ) :
    readAt p (List.replicate n k) (loneRegistration k)
      = some (List.replicate n (nodeId p k, oldDecoded)) := by
  have htext : utf8Text Fleet.oldText.toUTF8.data.toList = some Fleet.oldText := by decide +kernel
  have hof : PeerRegistration.ofText Fleet.oldText = some oldDecoded := by decide +kernel
  have hvalue : valueAt (loneRegistration k) k = some Fleet.oldText.toUTF8.data.toList := by
    rw [valueAt, lookup_loneRegistration]
    rfl
  generalize Fleet.oldText.toUTF8.data.toList = bytes at htext hvalue
  have hreg : registration (valueAt (loneRegistration k) k) = some oldDecoded := by
    refine Option.bind_eq_some_iff.mpr ⟨Fleet.oldText, ?_, hof⟩
    rw [hvalue]
    exact htext
  refine readAt_eq_some_iff.mpr ⟨fun k' hk' => ?_, ?_⟩
  · rw [List.eq_of_mem_replicate hk', hvalue]
    intro b hb
    rw [← Option.some.inj hb, htext]
    rfl
  · rw [List.filterMap_replicate_of_some (by rw [hreg]; rfl)]

theorem readAt_loneRegistration (k : String) :
    readAt p [k] (loneRegistration k) = some [(nodeId p k, oldDecoded)] :=
  readAt_replicate k 1

/-- **A list that meets such a store** at its scan, which returns the keys
given, and before its scan the store given. -/
def loneList (before : Redis) (k : String) (found : List String) : FreshList :=
  ⟨0, before, before, [(loneRegistration k, found)], loneRegistration k⟩

/-- A list of nothing but what the scan found. -/
theorem loneList_result {before : Redis} {k : String} {found : List String}
    (hbefore : before.lookup (peersIndexKey p) = none) {legacy : List Registration}
    (hlegacy : readAt p found (loneRegistration k) = some legacy) :
    (loneList before k found).result p = some (listedRegistrations [] [] legacy) := by
  refine FreshList.result_eq_some_iff.mpr ⟨[], [], legacy, ?_, rfl, ?_, rfl⟩
  · have hz : before.ZKey (peersIndexKey p) := fun o ho => absurd (hbefore.symm.trans ho) (by simp)
    obtain ⟨ids, hids, hmem⟩ := Redis.mem_zrangebyscore hz (Double.round (0 : ℕ))
    obtain rfl : ids = [] := by
      refine List.eq_nil_iff_forall_not_mem.mpr (fun id hid => ?_)
      obtain ⟨x, hx, -⟩ := (hmem id).mp hid
      rw [Redis.score, Redis.zmembers, hbefore] at hx
      cases hx
    exact hids
  · rw [FreshList.keys, loneList, List.flatMap_singleton]
    exact hlegacy

/-- The scan's step may return what it returned. -/
theorem loneList_honest {before : Redis} {k : String} {found : List String}
    (hmatched : ∀ k' ∈ found, KeyMatch (peersPattern p) k')
    (hfound : KeyMatch (peersPattern p) k → k ∈ found) : (loneList before k found).Honest p where
  begun := by simp [loneList]
  matched := by simpa [FreshList.keys, loneList] using hmatched
  complete := by
    intro k' hk' hlive
    have hk : k' = k := Redis.eq_of_live_put (hlive _ List.mem_cons_self)
    subst hk
    simpa [FreshList.keys, loneList] using hfound hk'

/-- **Under any other prefix an older build can be missed**, or a
registration returned that is not its node's. -/
theorem exists_not_findsOlder (h : ¬ PlainPrefix p) :
    ∃ c : FreshList, c.Honest p ∧ ¬ c.FindsOlder p := by
  rcases exists_stray_key h with hmiss | ⟨k, hk, hstray⟩
  · have hne : peersIndexKey p ≠ peerKey p "" := (peerKey_ne_peersIndexKey "").symm
    have hbefore : (loneRegistration (peerKey p "")).lookup (peersIndexKey p) = none :=
      Redis.lookup_put_of_ne _ hne
    refine ⟨loneList (loneRegistration (peerKey p "")) (peerKey p "") [],
      loneList_honest (fun k' hk' => absurd hk' List.not_mem_nil) (fun hm => absurd hm hmiss),
      fun hfinds => ?_⟩
    have hreg : ∀ s ∈ (loneList (loneRegistration (peerKey p "")) (peerKey p "") []).states,
        Registered p s "" := by
      intro s hs
      obtain rfl : s = loneRegistration (peerKey p "") := by
        simpa [FreshList.states, loneList] using hs
      exact Fleet.registered_of_lookup (lookup_loneRegistration _)
    obtain ⟨reg, hm, -⟩ := hfinds.all _ (loneList_result hbefore rfl) "" hreg
    exact absurd hm List.not_mem_nil
  · refine ⟨loneList (Redis.empty 0) k [k],
      loneList_honest (fun k' hk' => List.mem_singleton.mp hk' ▸ hk)
        (fun _ => List.mem_singleton.mpr rfl), fun hfinds => ?_⟩
    obtain ⟨s, hs, hread⟩ := hfinds.own _ (loneList_result rfl (readAt_loneRegistration k))
      (nodeId p k, oldDecoded) (List.mem_singleton.mpr rfl)
    have hlive : ¬ s.Live (peerKey p (nodeId p k)) := by
      intro hlive
      simp only [FreshList.states, loneList, List.map_cons, List.map_nil, List.mem_cons,
        List.not_mem_nil, or_false] at hs
      rcases hs with rfl | rfl | rfl | rfl
      · exact nomatch hlive
      · exact nomatch hlive
      · exact hstray _ (Redis.eq_of_live_put hlive).symm
      · exact hstray _ (Redis.eq_of_live_put hlive).symm
    have hgone : s.lookup (peerKey p (nodeId p k)) = none := by
      simpa [Redis.Live] using hlive
    rw [valueAt, hgone] at hread
    cases hread

end Lists

/-- **Older peers are found exactly under the plain prefixes**: whatever the
server holds and replies, a list that has forgotten its last scan finds the
older builds and nothing else; and the pattern matches the keys of the
registrations and nothing else. -/
theorem older_peers_found_iff (p : String) :
    ((∀ c : FreshList, c.Honest p → c.FindsOlder p) ↔ PlainPrefix p)
      ∧ ((∀ k, KeyMatch (peersPattern p) k ↔ ∃ id, k = peerKey p id) ↔ PlainPrefix p) := by
  refine ⟨⟨fun hall => ?_, fun hp c hc => findsOlder_of_plain hp hc⟩, keyMatch_peersPattern_iff⟩
  by_contra h
  obtain ⟨c, hc, hnot⟩ := exists_not_findsOlder h
  exact hnot (hall c hc)

/-- **A prefix with a bracket hides its older builds**: it is accepted, a
node is registered as an older build at every command, and the list is
empty. -/
theorem bracket_hides_older_peer :
    (∃ text cfg, RedisBackendConfig.parse text = .ok cfg ∧ cfg.keyPrefix = "a[b:")
      ∧ (loneList (loneRegistration "a[b:peers/n") "a[b:peers/n" []).Honest "a[b:"
      ∧ (∀ s ∈ (loneList (loneRegistration "a[b:peers/n") "a[b:peers/n" []).states,
          Registered "a[b:" s "n")
      ∧ (loneList (loneRegistration "a[b:peers/n") "a[b:peers/n" []).result "a[b:" = some [] := by
  have hmiss : ¬ KeyMatch (peersPattern "a[b:") "a[b:peers/n" := by decide +kernel
  refine ⟨exists_parse_keyPrefix_iff.mpr (by decide),
    loneList_honest (fun k hk => absurd hk List.not_mem_nil) (fun hm => absurd hm hmiss),
    fun s hs => ?_, ?_⟩
  · obtain rfl : s = loneRegistration "a[b:peers/n" := by
      simpa [FreshList.states, loneList] using hs
    exact Fleet.registered_of_lookup (lookup_loneRegistration _)
  · have hne : peersIndexKey "a[b:" ≠ "a[b:peers/n" := by decide
    exact @loneList_result "a[b:" _ _ [] (Redis.lookup_put_of_ne _ hne) [] rfl
