import ClusterRedis.JsonRecord
import ClusterRedis.Kv

/-!
# The registrations of peers

A replica registers under a key of its own, with a lifetime, and enters its
node id in a sorted set. A build that predates the set writes only the key,
and its registration does not say that it keeps the key index. Such builds
are found by a scan of the keyspace, which is remembered for a while behind
a lock.

A scan is several commands and other tasks of the process may be in the
middle of one. `LegacyPeerScan` is therefore what is remembered together
with the scan that holds the lock, and `ScanJob.advance` is one command of
it. What the scan is for is `Registered.mem_found`: a registration of an
older build that was there when its key was read is among those found.
-/

/-! ## Registrations -/

/-- **A registration.** -/
structure PeerRegistration where
  address : String
  lastSeen : String
  roles : List String
  /-- Whether the node keeps the key index. -/
  kvIndex : Bool
  deriving DecidableEq

namespace PeerRegistration

/-- A registration of its four fields, the last two possibly missing. -/
def readFields (a l r i : Option Json) : Option PeerRegistration := do
  let address ← a.bind Json.readStr
  let lastSeen ← l.bind Json.readStr
  let roles ← Json.readStrs r
  let kvIndex ← Json.readFlag i
  some ⟨address, lastSeen, roles, kvIndex⟩

/-- **A registration of a JSON value.** -/
def ofJson : Json → Option PeerRegistration
  | .obj ms => do
    let a ← Json.member ms "address"
    let l ← Json.member ms "last_seen"
    let r ← Json.member ms "roles"
    let i ← Json.member ms "kv_index"
    readFields a l r i
  | .arr l => if l.length ≤ 4 then readFields l[0]? l[1]? l[2]? l[3]? else none
  | _ => none

/-- The fields of a registration. -/
def fields : List String := ["address", "last_seen", "roles", "kv_index"]

/-- **A registration of a text.** -/
def ofText (t : String) : Option PeerRegistration := (Json.parseRecord fields t).bind ofJson

example : ofText "\x7b\"address\":\"a:1\",\"last_seen\":\"2025-01-01T00:00:00Z\"\x7d"
    = some ⟨"a:1", "2025-01-01T00:00:00Z", [], false⟩ := by decide +kernel

end PeerRegistration

/-- A node id and its registration. -/
abbrev Registration := String × PeerRegistration

/-- The key of a node's registration. -/
def peerKey (p id : String) : String := p ++ "peers/" ++ id

/-- The pattern of the registrations. -/
def peersPattern (p : String) : String := p ++ "peers/*"

/-- The sorted set of node ids, scored by when the registration expires. -/
def peersIndexKey (p : String) : String := p ++ "#peers"

/-- The node id of a registration's key. -/
def nodeId (p key : String) : String := (stripStart (p ++ "peers/") key).getD key

@[simp] theorem nodeId_peerKey (p id : String) : nodeId p (peerKey p id) = id := by
  rw [nodeId, peerKey, stripStart_append, Option.getD_some]

/-- The text of a value that is read as text, if it is one. -/
def utf8Text (b : List UInt8) : Option String := String.fromUTF8? ⟨b.toArray⟩

/-- **The registrations of values read at keys**: what is gone or malformed
is left out. A value that is no text fails the whole read. -/
def readRegistrations (p : String) (keys : List String) (values : List (Option (List UInt8))) :
    Option (List Registration) := do
  let texts ← values.mapM (fun v => match v with
    | none => some none
    | some b => (utf8Text b).map some)
  some ((keys.zip texts).filterMap (fun r =>
    (r.2.bind PeerRegistration.ofText).map (fun reg => (nodeId p r.1, reg))))

/-- **Every registration**: those of the sorted set's node ids, and of older
builds those found outside it. -/
def listedRegistrations (ids : List String) (found legacy : List Registration) :
    List Registration :=
  found ++ legacy.filter (fun r => !r.2.kvIndex && !ids.contains r.1)

/-- Some node does not keep the key index. -/
def unindexedPeer (rs : List Registration) : Bool := rs.any (fun r => !r.2.kvIndex)

/-- The nodes that do not. -/
def unindexedIds (rs : List Registration) : List String :=
  (rs.filter (fun r => !r.2.kvIndex)).map Prod.fst

/-- **A node is registered as an older build is**: its key is there, with a
registration that does not say it keeps the index. -/
def Registered (p : String) (s : Redis) (id : String) : Prop :=
  ∃ b e t reg, s.lookup (peerKey p id) = some ⟨.str b, e⟩ ∧ utf8Text b = some t
    ∧ PeerRegistration.ofText t = some reg ∧ reg.kvIndex = false

theorem Registered.live {p : String} {s : Redis} {id : String} (h : Registered p s id) :
    s.Live (peerKey p id) := by
  obtain ⟨b, e, t, reg, hl, -⟩ := h
  rw [Redis.Live, hl]
  rfl

/-- An older build found outside the sorted set shows in the list. -/
theorem unindexedPeer_of_legacy {ids : List String} {found legacy : List Registration}
    {id : String} {reg : PeerRegistration} (hm : (id, reg) ∈ legacy) (hr : reg.kvIndex = false)
    (hid : id ∉ ids) : unindexedPeer (listedRegistrations ids found legacy) = true := by
  refine List.any_eq_true.mpr
    ⟨(id, reg), List.mem_append_right _ (List.mem_filter.mpr ⟨hm, ?_⟩), ?_⟩
  · simp [hr, hid]
  · simp [hr]

/-- What a list of options holds, all of them there. -/
theorem List.mem_zip_of_mapM {α β γ : Type} {f : β → Option γ} {g : α → β} {l : List α}
    {out : List γ} (h : (l.map g).mapM f = some out) {a : α} (ha : a ∈ l) :
    ∃ c, f (g a) = some c ∧ (a, c) ∈ l.zip out := by
  induction l generalizing out with
  | nil => exact absurd ha (List.not_mem_nil)
  | cons x l ih =>
    rw [List.map_cons, List.mapM_cons] at h
    obtain ⟨c, hc, h⟩ := Option.bind_eq_some_iff.mp h
    obtain ⟨out', hout, h⟩ := Option.bind_eq_some_iff.mp h
    obtain rfl := Option.some.inj h
    rcases List.mem_cons.mp ha with rfl | ha
    · exact ⟨c, hc, List.mem_cons_self⟩
    · obtain ⟨c', hc', hm⟩ := ih hout ha
      exact ⟨c', hc', List.mem_cons_of_mem _ hm⟩

/-- **A registration that is there when its key is read is found.** -/
theorem Registered.mem_found {p : String} {s : Redis} {id : String} (h : Registered p s id)
    {keys : List String} (hk : peerKey p id ∈ keys) {values : List (Option (List UInt8))}
    (hv : (Redis.mget keys s).1 = .ok values) {found : List Registration}
    (hf : readRegistrations p keys values = some found) :
    ∃ reg, (id, reg) ∈ found ∧ reg.kvIndex = false := by
  obtain ⟨b, e, t, reg, hl, ht, hreg, hi⟩ := h
  obtain rfl := Except.ok.inj hv
  obtain ⟨texts, htexts, hf⟩ := Option.bind_eq_some_iff.mp hf
  obtain rfl := Option.some.inj hf
  obtain ⟨c, hc, hm⟩ := List.mem_zip_of_mapM htexts hk
  simp only [hl, ht, Option.map_some, Option.some.injEq] at hc
  subst hc
  refine ⟨reg, List.mem_filterMap.mpr ⟨_, hm, ?_⟩, hi⟩
  simp [hreg]

/-! ## The pattern -/

/-- No character means something to a pattern. -/
def NoGlob (p : String) : Prop := ∀ c ∈ p.toList, Glob.specialChar c = false

instance (p : String) : Decidable (NoGlob p) := List.decidableBAll _ _

/-- A key without such characters is its own pattern. -/
theorem globEscape_eq_self {p : String} (h : NoGlob p) : RedisKv.globEscape p = p := by
  refine String.toList_inj.mp ?_
  rw [RedisKv.globEscape, String.toList_ofList]
  calc p.toList.flatMap (fun c => if Glob.specialChar c then ['\\', c] else [c])
      = p.toList.flatMap (fun c => [c]) := List.flatMap_congr (fun c hc => by simp [h c hc])
    _ = p.toList := List.flatMap_singleton' _

/-- **A scan for registrations finds registrations**, and every one, when
the prefix is its own pattern. -/
theorem keyMatch_peersPattern {p k : String} (h : NoGlob p) :
    RedisKv.KeyMatch (peersPattern p) k ↔ ∃ id, k = peerKey p id := by
  have hno : NoGlob (p ++ "peers/") := by
    intro c hc
    rw [String.toList_append, List.mem_append] at hc
    rcases hc with hc | hc
    · exact h c hc
    · have hpeers : NoGlob "peers/" := by decide
      exact hpeers c hc
  have hpat : peersPattern p = RedisKv.globEscape (p ++ "peers/") ++ "*" := by
    rw [globEscape_eq_self hno, String.append_assoc]
    rfl
  have hne : p ++ "peers/" ≠ "" := fun he => by simpa using congrArg String.toList he
  rw [hpat, RedisKv.keyMatch_globEscape hne, startsWith_iff]
  exact Iff.rfl

theorem keyMatch_peerKey {p : String} (h : NoGlob p) (id : String) :
    RedisKv.KeyMatch (peersPattern p) (peerKey p id) := (keyMatch_peersPattern h).mpr ⟨id, rfl⟩
