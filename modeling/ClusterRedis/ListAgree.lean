import ClusterRedis.ListIndex
import ClusterRedis.ListScan

/-!
# The two listings agree

A listing is read from the key index or from a scan of the keyspace. What it
should return is the same either way: the entries under the prefix
(`RedisKv.listing`), by the callers' keys. The two ways have nothing in
common before the values are read, so they are compared through it: each
pass looks up only keys with the prefix, and looks up every one that is
there.

While a pass is going on nothing is written and nothing expires, but time
may pass (`Still`). An expiry is a remaining time read from the server, put
on the client's clock a little later; so it is exact to the time the pass
took (`Entry.Near`), and exact when none passed (`Lists.exact`).
-/

open Redis

/-- The same entry, but for an expiry that is up to `T` off. -/
def Entry.Near (T : ℕ) (x y : Entry) : Prop :=
  x.bytes = y.bytes ∧ Option.Rel (fun a b => a ≤ b + T ∧ b ≤ a + T) x.expiresAt y.expiresAt

theorem Entry.Near.eq_of_zero {x y : Entry} (h : x.Near 0 y) : x = y := by
  obtain ⟨b, e⟩ := x
  obtain ⟨b', e'⟩ := y
  obtain ⟨rfl : b = b', he : Option.Rel _ e e'⟩ := h
  cases he with
  | none => rfl
  | some h => exact congrArg (fun x => Entry.mk b (some x)) (le_antisymm h.1 h.2)

namespace RedisKv

variable {drv : Driver} {p pre : String} {s t : Redis} {clock : ℕ → ℕ} {T : ℕ}

/-- **What a listing should return**: the values under the prefix, by the
callers' keys, with their expiries on the client's clock. -/
def listing (p pre : String) (clock : ℕ → ℕ) (s : Redis) : Set (String × Entry) :=
  {x | StartsWith pre x.1 ∧ ∃ b e, s.lookup (fullKey p x.1) = some ⟨.str b, e⟩
    ∧ x.2 = ⟨b, e.map (fun d => clock s.now + (d - s.now))⟩}

/-- A listing has one entry for a key. -/
theorem listing_unique {k : String} {x y : Entry} (hx : (k, x) ∈ listing p pre clock s)
    (hy : (k, y) ∈ listing p pre clock s) : x = y := by
  obtain ⟨-, b, e, hb, rfl : x = _⟩ := hx
  obtain ⟨-, b', e', hb', rfl : y = _⟩ := hy
  have ho : (⟨.str b, e⟩ : Obj) = ⟨.str b', e'⟩ := Option.some.inj (hb.symm.trans hb')
  obtain ⟨hv, rfl⟩ := Obj.mk.inj ho
  rw [Value.str.inj hv]

/-- **Entries that list a set**, with expiries up to `T` off. -/
structure Lists (T : ℕ) (L : Set (String × Entry)) (out : List (String × Entry)) : Prop where
  sound : ∀ x ∈ out, ∃ y, (x.1, y) ∈ L ∧ x.2.Near T y
  complete : ∀ y ∈ L, ∃ x, (y.1, x) ∈ out ∧ x.Near T y.2

/-- With expiries exact, they are the set. -/
theorem Lists.exact {L : Set (String × Entry)} {out : List (String × Entry)} (h : Lists 0 L out)
    (x : String × Entry) : x ∈ out ↔ x ∈ L := by
  constructor
  · intro hx
    obtain ⟨y, hy, hn⟩ := h.sound x hx
    rwa [← hn.eq_of_zero] at hy
  · intro hx
    obtain ⟨y, hy, hn⟩ := h.complete x hx
    rwa [hn.eq_of_zero] at hy

/-! ## While nothing is written -/

/-- **A state during a pass** that started in `s`: at most `T` has passed,
and nothing under the prefix has been written or has expired. Index entries
may have been pruned. -/
structure Still (p pre : String) (T : ℕ) (s t : Redis) : Prop extends Readable p pre t where
  later : s.now ≤ t.now
  soon : t.now ≤ s.now + T
  data : ∀ k, StartsWith (fullKey p pre) k → t.lookup k = s.lookup k
  listed : ∀ k, StartsWith (fullKey p pre) k → t.Live k → t.Mem (indexKey p) k
  members : ∀ k, t.Mem (indexKey p) k → s.Mem (indexKey p) k

/-- **A store that is left alone** for a time `T`: its live keys are indexed,
none under the prefix expires, and the client's clock runs as the server's
does. -/
structure Steady (p pre : String) (T : ℕ) (clock : ℕ → ℕ) (s : Redis) : Prop
    extends Readable p pre s where
  listed : ∀ key, s.Live (fullKey p key) → s.Mem (indexKey p) (fullKey p key)
  kept : ∀ key, StartsWith pre key → (s.tick T).lookup (fullKey p key) = s.lookup (fullKey p key)
  clock : ∀ n, n ≤ T → clock (s.now + n) = clock s.now + n

theorem Steady.still (h : Steady p pre T clock s) : Still p pre T s s where
  toReadable := h.toReadable
  later := le_rfl
  soon := Nat.le_add_right _ _
  data := fun _ _ => rfl
  listed := by
    intro k hk hl
    obtain ⟨key, rfl, -⟩ := startsWith_fullKey_iff.mp hk
    exact h.listed key hl
  members := fun _ hm => hm

/-- The clock moves on to a time, unless it is past it. -/
def tickTo (n : ℕ) (s : Redis) : Redis := s.tick (n - s.now)

theorem Still.tickTo (hs : Steady p pre T clock s) (h : Still p pre T s t) {n : ℕ}
    (hn : n ≤ s.now + T) : Still p pre T s (tickTo n t) := by
  have hi := h.index.lookup_tick (n - t.now)
  have he := h.expiry.lookup_tick (n - t.now)
  have hnow : t.now + (n - t.now) ≤ s.now + T := by
    have := h.soon
    omega
  refine ⟨⟨⟨h.index.congr hi, h.expiry.congr he⟩, ?_⟩, h.later.trans (Nat.le_add_right _ _),
    hnow, ?_, ?_, ?_⟩
  · exact fun k hk o ho => h.strings k hk o (lookup_of_tick ho)
  · -- what is there after all of `T` is there at any time before
    intro k hk
    obtain ⟨key, rfl, hkey⟩ := startsWith_fullKey_iff.mp hk
    have hkept := hs.kept key hkey
    rw [RedisKv.tickTo, lookup_tick, h.data _ hk]
    rw [lookup_tick] at hkept
    cases ho : s.lookup (fullKey p key) with
    | none => rfl
    | some o =>
      rw [ho, Option.filter_eq_some_iff] at hkept
      exact Option.filter_some_pos (liveAt_mono hnow hkept.2)
  · exact fun k hk hl => (mem_congr hi).mpr (h.listed k hk (live_of_tick hl))
  · exact fun k hm => h.members k ((mem_congr hi).mp hm)

theorem Still.pruneKey (hp : p ≠ "") (h : Still p pre T s t) (k : String) :
    Still p pre T s (pruneKey (indexKey p) (expiryKey p) t k) := by
  have hr := h.toReadable.pruneKey hp k
  revert hr
  show Readable p pre (if t.Live k then t else (t.zdel (indexKey p) k).zdel (expiryKey p) k) →
    Still p pre T s (if t.Live k then t else (t.zdel (indexKey p) k).zdel (expiryKey p) k)
  split
  · exact fun _ => h
  · next hk =>
    intro hr
    have hdata : ∀ x, StartsWith (fullKey p pre) x →
        ((t.zdel (indexKey p) k).zdel (expiryKey p) k).lookup x = t.lookup x := by
      intro x hx
      obtain ⟨hi, he⟩ := ne_of_startsWith hp hx
      rw [lookup_zdel_of_ne _ he, lookup_zdel_of_ne _ hi]
    have hmem : ∀ x, ((t.zdel (indexKey p) k).zdel (expiryKey p) k).Mem (indexKey p) x
        ↔ x ≠ k ∧ t.Mem (indexKey p) x := by
      intro x
      rw [mem_congr (lookup_zdel_of_ne _ (indexKey_ne_expiryKey p)), mem_zdel]
    refine ⟨hr, by simpa using h.later, by simpa using h.soon, ?_, ?_, ?_⟩
    · exact fun x hx => (hdata x hx).trans (h.data x hx)
    · intro x hx hl
      rw [live_congr (hdata x hx)] at hl
      refine (hmem x).mpr ⟨?_, h.listed x hx hl⟩
      rintro rfl
      exact hk hl
    · exact fun x hm => h.members x ((hmem x).mp hm).2

/-- Listings can be read while nothing is written. -/
theorem Still.serves (hp : p ≠ "") (T : ℕ) (s : Redis) : Serves p pre (Still p pre T s) :=
  Serves.of_pruneKey (fun _ h => h.toReadable) (fun _ h k => h.pruneKey hp k)

/-- **A connection to a server that is left alone**, but for its clock,
which has moved on to the next of `times` at each command. -/
def steadyConn (s : Redis) (times : List ℕ) (scans : List (UInt64 × List String)) (clock : ℕ → ℕ) :
    Conn := ⟨s, times.map tickTo, scans, clock, [], []⟩

theorem Steady.holds (h : Steady p pre T clock s) {times : List ℕ}
    (ht : ∀ n ∈ times, n ≤ s.now + T) (scans : List (UInt64 × List String)) :
    (steadyConn s times scans clock).Holds (Still p pre T s) where
  redis := h.still
  others := by
    intro f hf t hst
    obtain ⟨n, hn, rfl⟩ := List.mem_map.mp hf
    exact hst.tickTo h (ht n hn)
  seen := fun t ht => absurd ht (List.not_mem_nil)

/-! ## What is read -/

section Read

variable {d : Conn} {pages : List KvPage}

/-- **An entry as it is read** during a pass is the listing's. -/
theorem AsRead.near {key : String} {x : Entry} (hs : Steady p pre T d.clock s)
    (hd : d.Holds (Still p pre T s)) (hkey : StartsWith pre key)
    (hr : AsRead d (fullKey p key) x) :
    ∃ y, (key, y) ∈ listing p pre d.clock s ∧ x.Near T y := by
  have hk : StartsWith (fullKey p pre) (fullKey p key) :=
    startsWith_fullKey_iff.mpr ⟨key, rfl, hkey⟩
  obtain ⟨⟨b, ms⟩, ⟨u, hu, v, hv, hget, hpttl : v.pttlReply _ = ms⟩, t, ht, hx⟩ := hr
  have hdata : ∀ {w}, w ∈ d.seen → w.lookup (fullKey p key) = s.lookup (fullKey p key) :=
    fun hw => (hd.seen _ hw).data _ hk
  cases ho : s.lookup (fullKey p key) with
  | none =>
    rw [get_absent ((hdata hu).trans ho)] at hget
    obtain rfl : none = b := Except.ok.inj hget
    exact nomatch hx
  | some o =>
    obtain ⟨w, e⟩ := o
    obtain ⟨c, rfl : w = _⟩ := hs.strings _ hk _ ho
    rw [get_str ((hdata hu).trans ho)] at hget
    obtain rfl : some c = b := Except.ok.inj hget
    have hms : ms = match e with | none => -1 | some dl => (dl : ℤ) - v.now := by
      rw [← hpttl, pttlReply, (hdata hv).trans ho]
      cases e <;> rfl
    rw [pageEntry, Option.bind_some] at hx
    refine ⟨⟨c, e.map (fun dl => d.clock s.now + (dl - s.now))⟩, ⟨hkey, c, e, ho, rfl⟩, ?_⟩
    cases e with
    | none =>
      rw [if_pos hms] at hx
      obtain rfl := Option.some.inj hx
      exact ⟨rfl, Option.Rel.none⟩
    | some dl =>
      have hlive := liveAt_of_lookup ((hdata hv).trans ho)
      simp only [Obj.liveAt, Option.all_some, decide_eq_true_eq] at hlive
      replace hms : ms = (dl : ℤ) - v.now := hms
      rw [if_neg (by omega), if_pos (by omega)] at hx
      obtain rfl := Option.some.inj hx
      -- both the time left and the clock were read within `T` of the start
      obtain ⟨n, hn⟩ := Nat.le.dest (hd.seen t ht).later
      have hclock : d.clock t.now = d.clock s.now + n := by
        have hsoon := (hd.seen t ht).soon
        rw [← hn]
        exact hs.clock n (by omega)
      have hv₁ := (hd.seen v hv).later
      have hv₂ := (hd.seen v hv).soon
      have ht₂ := (hd.seen t ht).soon
      have hleft : ms.toNat = dl - v.now := by omega
      refine ⟨rfl, Option.Rel.some ?_⟩
      show d.clock t.now + ms.toNat ≤ d.clock s.now + (dl - s.now) + T
        ∧ d.clock s.now + (dl - s.now) ≤ d.clock t.now + ms.toNat + T
      rw [hclock, hleft]
      omega

theorem passReturned_eq (pages : List KvPage) :
    passReturned pages = (passEntries pages).map Prod.fst := by
  rw [passReturned, passEntries, List.map_flatMap]

/-- **A pass returns the listing** if it looks up keys with the prefix, and
every one that is there. -/
theorem lists_of_keys (hs : Steady p pre T d.clock s) (hd : d.Holds (Still p pre T s))
    (hf : PassFetched p d pages) (hpre : ∀ k ∈ passKeys pages, StartsWith (fullKey p pre) k)
    (hall : ∀ k, StartsWith (fullKey p pre) k → s.Live k → k ∈ passKeys pages) :
    Lists T (listing p pre d.clock s) (passEntries pages) := by
  have hsound : ∀ x ∈ passEntries pages,
      ∃ y, (x.1, y) ∈ listing p pre d.clock s ∧ x.2.Near T y := by
    rintro ⟨key, x⟩ hx
    obtain ⟨k, hk, hkey, hr⟩ := hf.asRead hx
    obtain ⟨key', rfl, hpk⟩ := startsWith_fullKey_iff.mp (hpre k hk)
    obtain rfl : key = key' := hkey.trans (logicalKey_fullKey p key')
    exact hr.near hs hd hpk
  refine ⟨hsound, ?_⟩
  rintro ⟨key, y⟩ hy
  have hy' := hy
  obtain ⟨hkey : StartsWith pre key, b, e, ho : s.lookup (fullKey p key) = _, -⟩ := hy'
  have hk : StartsWith (fullKey p pre) (fullKey p key) :=
    startsWith_fullKey_iff.mpr ⟨key, rfl, hkey⟩
  have hlive : s.Live (fullKey p key) := by
    rw [Live, ho]
    rfl
  have hret := hf.found (hall _ hk hlive)
    (fun t ht => (live_congr ((hd.seen t ht).data _ hk)).mpr hlive)
  rw [logicalKey_fullKey, passReturned_eq] at hret
  obtain ⟨⟨key', x⟩, hx, rfl : key' = key⟩ := List.mem_map.mp hret
  obtain ⟨y', hlisted, hn⟩ := hsound _ hx
  rw [listing_unique hlisted hy] at hn
  exact ⟨x, hx, hn⟩

end Read

/-! ## The two passes -/

theorem length_le_passKeys {pages : List KvPage} (h : ∀ pg ∈ pages, pg.keys ≠ []) :
    pages.length ≤ (passKeys pages).length := by
  induction pages with
  | nil => exact le_rfl
  | cons pg pages ih =>
    have hpos := List.length_pos_of_ne_nil (h pg List.mem_cons_self)
    have hrest := ih (fun q hq => h q (List.mem_cons_of_mem pg hq))
    rw [passKeys, List.flatMap_cons, List.length_append, List.length_cons]
    exact (Nat.add_comm _ _).le.trans (Nat.add_le_add hpos hrest)

/-- A pass over the index has met no more keys than there were. -/
theorem IndexPass.over_of_length {limits : List ℕ} {pages : List KvPage} {d : Conn}
    (h : IndexPass p pre none limits d pages)
    (hm : ∀ t ∈ d.seen, ∀ k, t.Mem (indexKey p) k → s.Mem (indexKey p) k)
    (hlen : (s.zmembers (indexKey p)).keys.length < limits.length) : PassOver pages := by
  rcases h.progress with hover | ⟨hpages, hne⟩
  · exact hover
  · have hnodup : (passKeys pages).Nodup := h.sorted.imp (fun {x y} hxy he => by
      rw [he] at hxy
      exact lt_irrefl _ hxy)
    have hsub : passKeys pages ⊆ (s.zmembers (indexKey p)).keys := by
      intro k hk
      obtain ⟨t, ht, hkt⟩ := h.members k hk
      exact AList.lookup_isSome.mp (hm t ht k hkt)
    have hle := (List.subperm_of_subset hnodup hsub).length_le
    have hmet := length_le_passKeys hne
    omega

/-- **A pass over the index returns the listing.** -/
theorem Steady.index_pass (drv : Driver) (hp : p ≠ "") (hs : Steady p pre T clock s)
    {times : List ℕ} (ht : ∀ n ∈ times, n ≤ s.now + T) {limits : List ℕ}
    (hl : ∀ n ∈ limits, n < 2 ^ 63 - 1)
    (hlen : (s.zmembers (indexKey p)).keys.length < limits.length) :
    ∃ pages d, listPass drv p true pre limits none (steadyConn s times [] clock) = (.ok pages, d)
      ∧ PassOver pages ∧ Lists T (listing p pre clock s) (passEntries pages) := by
  have hnone : IsCursor p pre none := fun z hz => nomatch hz
  obtain ⟨pages, d, hrun, hd, -⟩ :=
    listPass_index_returns drv (Still.serves hp T s) none hnone hl _ (hs.holds ht [])
  obtain ⟨hf, hpass⟩ := listPass_index none hnone hrun
  have hover := hpass.over_of_length (fun t ht => (hd.seen t ht).members) hlen
  obtain rfl : d.clock = clock := hf.clock
  refine ⟨pages, d, hrun, hover, lists_of_keys hs hd hpass.fetched
    (fun k hk => (hpass.above k hk).2) (fun k hk hlive => ?_)⟩
  refine hpass.complete hover k hk (after_none hk) (fun t ht => ?_)
  exact (hd.seen t ht).listed k hk ((live_congr ((hd.seen t ht).data k hk)).mpr hlive)

/-- What the pattern of a listing matches are the keys with the prefix. -/
theorem keyMatch_listPattern (hp : p ≠ "") {k : String} :
    KeyMatch (listPattern p pre) k ↔ StartsWith (fullKey p pre) k := by
  refine keyMatch_globEscape (fun h => hp ?_)
  rw [fullKey_of_ne hp, String.append_assoc] at h
  exact (String.append_eq_empty_iff.mp h).1

/-- **A pass over a scan returns the listing.** -/
theorem Steady.scan_pass (drv : Driver) (hp : p ≠ "") (hs : Steady p pre T clock s)
    {times : List ℕ} (ht : ∀ n ∈ times, n ≤ s.now + T) {replies : List (UInt64 × List String)}
    (hscan : OneScan replies) (hmatch : ∀ k ∈ occurrences replies, KeyMatch (listPattern p pre) k)
    (hall : ∀ k, KeyMatch (listPattern p pre) k → s.Live k → k ∈ occurrences replies)
    {limits : List ℕ} (hlen : (occurrences replies).length < limits.length) :
    ∃ pages d, listPass drv p false pre limits none (steadyConn s times replies clock)
        = (.ok pages, d)
      ∧ PassOver pages ∧ Lists T (listing p pre clock s) (passEntries pages) := by
  have hstart : StandsAt ScanCursor.start replies [] (steadyConn s times replies clock) :=
    ⟨(List.append_nil replies).symm, hscan⟩
  have hpre : ∀ k ∈ occurrences replies, StartsWith (fullKey p pre) k :=
    fun k hk => (keyMatch_listPattern hp).mp (hmatch k hk)
  obtain ⟨pages, d, hrun, hd, hpass⟩ := listPass_scan drv p pre (Or.inl ⟨rfl, rfl⟩)
    List.suffix_rfl (hs.holds ht replies) hstart
    (fun k hk t h => get_of_string (h.strings k (hpre k hk))) hlen
  have hkeys : passKeys pages = occurrences replies := hpass.keys
  obtain rfl : d.clock = clock := hpass.grows.clock
  refine ⟨pages, d, hrun, hpass.ended, lists_of_keys hs hd hpass.fetched ?_ ?_⟩
  · rwa [hkeys]
  · rw [hkeys]
    exact fun k hk hlive => hall k ((keyMatch_listPattern hp).mpr hk) hlive

/-- **The two listings agree.** From a store whose live keys are indexed, and
which is left alone for the time of a pass, both passes end for every prefix
and all limits of the pages. What each returns is the listing of the store,
with expiries exact to the time that passed; so where none passes, both
return exactly the same entries. -/
theorem listings_agree (drv : Driver) (hp : p ≠ "") (hs : Steady p pre T clock s)
    (times times' : List ℕ) (ht : ∀ n ∈ times, n ≤ s.now + T) (ht' : ∀ n ∈ times', n ≤ s.now + T)
    (limits limits' : List ℕ) (hl : ∀ n ∈ limits, n < 2 ^ 63 - 1)
    (hlen : (s.zmembers (indexKey p)).keys.length < limits.length)
    (replies : List (UInt64 × List String)) (hscan : OneScan replies)
    (hmatch : ∀ k ∈ occurrences replies, KeyMatch (listPattern p pre) k)
    (hall : ∀ k, KeyMatch (listPattern p pre) k → s.Live k → k ∈ occurrences replies)
    (hlen' : (occurrences replies).length < limits'.length) :
    ∃ pages d pages' d',
      listPass drv p true pre limits none (steadyConn s times [] clock) = (.ok pages, d)
      ∧ listPass drv p false pre limits' none (steadyConn s times' replies clock) = (.ok pages', d')
      ∧ PassOver pages ∧ PassOver pages'
      ∧ Lists T (listing p pre clock s) (passEntries pages)
      ∧ Lists T (listing p pre clock s) (passEntries pages')
      ∧ (T = 0 → ∀ x, (x ∈ passEntries pages ↔ x ∈ listing p pre clock s)
        ∧ (x ∈ passEntries pages' ↔ x ∈ listing p pre clock s)) := by
  obtain ⟨pages, d, hrun, hover, hlist⟩ := hs.index_pass drv hp ht hl hlen
  obtain ⟨pages', d', hrun', hover', hlist'⟩ := hs.scan_pass drv hp ht' hscan hmatch hall hlen'
  refine ⟨pages, d, pages', d', hrun, hrun', hover, hover', hlist, hlist', ?_⟩
  rintro rfl x
  exact ⟨hlist.exact x, hlist'.exact x⟩

/-- A store with a key that stays, one that expires at `100`, and in the
index another one that is gone. -/
def leftAlone : Redis where
  db := fun k =>
    if k = "p*:a" then some ⟨.str [1], none⟩
    else if k = "p*:ab" then some ⟨.str [2], some 100⟩
    else if k = "p*#kv-index" then
      some ⟨.zset (((∅ : ZSet).insert "p*:a" 0 |>.insert "p*:aa" 0).insert "p*:ab" 0), none⟩
    else none
  now := 0

theorem leftAlone_lookup {k : String} {o : Obj} (h : leftAlone.lookup k = some o) :
    k = "p*:a" ∧ o = ⟨.str [1], none⟩ ∨ k = "p*:ab" ∧ o = ⟨.str [2], some 100⟩
      ∨ k = "p*#kv-index" ∧ ∃ z, o = ⟨.zset z, none⟩ := by
  have hdb := (Option.filter_eq_some_iff.mp h).1
  unfold leftAlone at hdb
  dsimp only at hdb
  split at hdb
  · next hk => exact Or.inl ⟨hk, (Option.some.inj hdb).symm⟩
  · split at hdb
    · next hk => exact Or.inr (Or.inl ⟨hk, (Option.some.inj hdb).symm⟩)
    · split at hdb
      · next hk => exact Or.inr (Or.inr ⟨hk, _, (Option.some.inj hdb).symm⟩)
      · exact nomatch hdb

theorem leftAlone_steady : Steady "p*" "a" 5 (· + 1000) leftAlone where
  index := by
    intro o ho
    rcases leftAlone_lookup ho with ⟨hk, -⟩ | ⟨hk, -⟩ | ⟨-, h⟩
    · exact absurd hk (by decide)
    · exact absurd hk (by decide)
    · exact h
  expiry := by
    intro o ho
    rcases leftAlone_lookup ho with ⟨hk, -⟩ | ⟨hk, -⟩ | ⟨hk, -⟩ <;> exact absurd hk (by decide)
  strings := by
    intro k hk o ho
    rcases leftAlone_lookup ho with ⟨-, rfl⟩ | ⟨-, rfl⟩ | ⟨rfl, -⟩
    · exact ⟨[1], rfl⟩
    · exact ⟨[2], rfl⟩
    · exact absurd hk (by decide)
  listed := by
    intro key hl
    obtain ⟨o, ho⟩ := Option.isSome_iff_exists.mp hl
    rcases leftAlone_lookup ho with ⟨hk, -⟩ | ⟨hk, -⟩ | ⟨hk, -⟩
    · rw [hk]
      decide
    · rw [hk]
      decide
    · exact absurd hk (fullKey_ne_indexKey (by decide) key)
  kept := by
    intro key _
    rw [lookup_tick]
    cases ho : leftAlone.lookup (fullKey "p*" key) with
    | none => rfl
    | some o =>
      rcases leftAlone_lookup ho with ⟨-, rfl⟩ | ⟨-, rfl⟩ | ⟨-, z, rfl⟩ <;> rfl
  clock := fun n _ => Nat.add_right_comm 0 n 1000

theorem listings_agree_leftAlone :
    ∃ pages d pages' d',
      listPass Driver.plain "p*" true "a" [1, 1, 1, 1] none
        (steadyConn leftAlone [1, 3, 3, 4] [] (· + 1000)) = (.ok pages, d)
      ∧ listPass Driver.plain "p*" false "a" [2, 0, 7, 1] none
        (steadyConn leftAlone [2, 5] [(3, ["p*:ab"]), (0, ["p*:a", "p*:ab"])] (· + 1000))
          = (.ok pages', d')
      ∧ PassOver pages ∧ PassOver pages'
      ∧ Lists 5 (listing "p*" "a" (· + 1000) leftAlone) (passEntries pages)
      ∧ Lists 5 (listing "p*" "a" (· + 1000) leftAlone) (passEntries pages') := by
  have hall : ∀ k, KeyMatch (listPattern "p*" "a") k → leftAlone.Live k →
      k ∈ occurrences [(3, ["p*:ab"]), (0, ["p*:a", "p*:ab"])] := by
    intro k hm hl
    obtain ⟨o, ho⟩ := Option.isSome_iff_exists.mp hl
    rcases leftAlone_lookup ho with ⟨rfl, -⟩ | ⟨rfl, -⟩ | ⟨rfl, -⟩
    · decide
    · decide
    · exact absurd hm (by decide)
  obtain ⟨pages, d, pages', d', h⟩ := listings_agree Driver.plain (by decide) leftAlone_steady
    [1, 3, 3, 4] [2, 5] (by decide) (by decide) [1, 1, 1, 1] [2, 0, 7, 1] (by decide) (by decide)
    [(3, ["p*:ab"]), (0, ["p*:a", "p*:ab"])] (by decide) (by decide) hall (by decide)
  exact ⟨pages, d, pages', d', h.1, h.2.1, h.2.2.1, h.2.2.2.1, h.2.2.2.2.1, h.2.2.2.2.2.1⟩

end RedisKv
