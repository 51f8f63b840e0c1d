import ClusterRedis.Lease
import ClusterRedis.ListAgree
import ClusterRedis.PubSub
import ClusterRedis.Tails

/-!
# Deployments on one server

A deployment's keys and channels are its prefix with a tail behind it: a
colon and a caller's key, one of the four names of its own sets, or the word
of a family and what the caller named. Nothing ends the prefix. So one
prefix can go on from another exactly where a tail begins, and then a key of
the one is a key of the other: `mcpg` with the key `stage:x` and
`mcpg:stage` with the key `x`. No other pair of prefixes meets
(`disjointKeys_iff`), since the tails are well cut.

What a deployment selects by a pattern is its own, where the pattern is
escaped. The pattern of the registrations is not.
-/

open RedisKv

/-! ## What a deployment owns -/

/-- **A key of the deployment.** -/
inductive OwnedKey (p : String) : String → Prop where
  | data (key) : OwnedKey p (fullKey p key)
  | index : OwnedKey p (indexKey p)
  | expiry : OwnedKey p (expiryKey p)
  | complete : OwnedKey p (completeKey p)
  | peersIndex : OwnedKey p (peersIndexKey p)
  | peer (id) : OwnedKey p (peerKey p id)
  | lease (l : LeaseId) : OwnedKey p (l.leaseKey p)
  | fence (l : LeaseId) : OwnedKey p (l.fenceKey p)

/-- `RedisTopicBus::full_topic`. -/
def fullTopic (p topic : String) : String := if p = "" then topic else p ++ ":" ++ topic

/-- **A channel of the deployment**: a coordinator's topic, or the bus's. -/
inductive OwnedChannel (p : String) : String → Prop where
  | topic (t) : OwnedChannel p (channelName p t)
  | bus (t) : OwnedChannel p (fullTopic p t)

/-- **A key that a listing or a backfill of the deployment selects**: a
member of the index in a prefix's range, a key that a scan's pattern
matches, or the key of a node id. -/
inductive Selects (p : String) : String → Prop where
  | range (pre) {k} (hmin : (pageMin p pre none).above (utf8 k) = true)
      (hmax : (pageMax p pre).below (utf8 k) = true) : Selects p k
  | scan (pre) {k} (h : KeyMatch (listPattern p pre) k) : Selects p k
  | backfill {k} (h : KeyMatch (dataPattern p) k) : Selects p k
  | registered (id) : Selects p (peerKey p id)
  | legacy {k} (h : KeyMatch (peersPattern p) k) : Selects p k

/-- **Two deployments are isolated**: neither owns a key or a channel of the
other, and the first selects no key of the second. -/
structure Isolated (p q : String) : Prop where
  keys : ∀ k, ¬ (OwnedKey p k ∧ OwnedKey q k)
  channels : ∀ c, ¬ (OwnedChannel p c ∧ OwnedChannel q c)
  selects : ∀ k, Selects p k → ¬ OwnedKey q k

/-! ## Tails -/

/-- Tails that are texts. -/
def textTails (tags fixed : List String) : Tails Char where
  tags := tags.map String.toList
  fixed := fixed.map String.toList

/-- A name under a prefix, as texts. -/
theorem under_textTails {tags fixed : List String} {p k : String} :
    (textTails tags fixed).Under p.toList k.toList
      ↔ (∃ t ∈ tags, ∃ u, k = p ++ t ++ u) ∨ ∃ t ∈ fixed, k = p ++ t := by
  constructor
  · rintro ⟨l, ⟨_, hm, u, rfl⟩ | hl, hk⟩
    · obtain ⟨t, ht, rfl⟩ := List.mem_map.mp hm
      refine Or.inl ⟨t, ht, String.ofList u, String.toList_inj.mp ?_⟩
      rw [hk, String.toList_append, String.toList_append, String.toList_ofList, List.append_assoc]
    · obtain ⟨t, ht, rfl⟩ := List.mem_map.mp hl
      exact Or.inr ⟨t, ht, String.toList_inj.mp (hk.trans String.toList_append.symm)⟩
  · rintro (⟨t, ht, u, rfl⟩ | ⟨t, ht, rfl⟩)
    · refine ⟨t.toList ++ u.toList, Or.inl ⟨_, List.mem_map_of_mem ht, u.toList, rfl⟩, ?_⟩
      rw [String.toList_append, String.toList_append, List.append_assoc]
    · exact ⟨t.toList, Or.inr (List.mem_map_of_mem ht), String.toList_append⟩

/-- One prefix goes on from another, as texts. -/
theorem extends_textTails {tags fixed odd : List String} {p q : String} :
    (textTails tags fixed).Extends (odd.map String.toList) p.toList q.toList
      ↔ (∃ t ∈ tags, StartsWith (p ++ t) q) ∨ ∃ t ∈ odd, q = p ++ t := by
  have hrest : (textTails tags fixed).Extends (odd.map String.toList) p.toList q.toList
      ↔ (textTails tags odd).Under p.toList q.toList := Iff.rfl
  rw [hrest, under_textTails]
  exact or_congr_left (exists_congr (fun t => and_congr_right (fun _ => startsWith_iff.symm)))

/-- The tails of keys. -/
def keyTails : Tails Char :=
  textTails [":", "peers/", "locks/", "leadership/"]
    ["#kv-index", "#kv-expiry", "#kv-index-complete", "#peers"]

/-- The tails of channels. -/
def channelTails : Tails Char := textTails [":", "topic:"] []

theorem keyTails_wellCut : keyTails.WellCut ([].map String.toList) := ⟨by decide, by decide⟩

/-- A topic's word may end where the colon of another channel stands. -/
theorem channelTails_wellCut : channelTails.WellCut (["topic"].map String.toList) :=
  ⟨by decide, by decide⟩

/-- **A key of the deployment is a name with a key's tail.** -/
theorem ownedKey_iff {p k : String} (hp : p ≠ "") :
    OwnedKey p k ↔ keyTails.Under p.toList k.toList := by
  have hlease : ∀ l : LeaseId, l.leaseKey p = p ++ (l.kind.text ++ "/") ++ l.name := by
    intro l
    rw [LeaseId.leaseKey, ← String.append_assoc]
  rw [keyTails, under_textTails]
  constructor
  · intro h
    cases h with
    | data key => exact Or.inl ⟨":", by simp, key, fullKey_of_ne hp key⟩
    | index => exact Or.inr ⟨"#kv-index", by simp, rfl⟩
    | expiry => exact Or.inr ⟨"#kv-expiry", by simp, rfl⟩
    | complete => exact Or.inr ⟨"#kv-index-complete", by simp, rfl⟩
    | peersIndex => exact Or.inr ⟨"#peers", by simp, rfl⟩
    | peer id => exact Or.inl ⟨"peers/", by simp, id, rfl⟩
    | lease l =>
      refine Or.inl ⟨l.kind.text ++ "/", ?_, l.name, hlease l⟩
      cases l.kind <;> decide
    | fence l =>
      refine Or.inl ⟨l.kind.text ++ "/", ?_, l.name ++ ":fence", ?_⟩
      · cases l.kind <;> decide
      · rw [LeaseId.fenceKey_eq, hlease, String.append_assoc]
  · simp only [List.mem_cons, List.not_mem_nil, or_false]
    rintro (⟨t, rfl | rfl | rfl | rfl, u, rfl⟩ | ⟨t, rfl | rfl | rfl | rfl, rfl⟩)
    · exact fullKey_of_ne hp u ▸ .data u
    · exact .peer u
    · exact hlease ⟨.locks, u⟩ ▸ .lease ⟨.locks, u⟩
    · exact hlease ⟨.leadership, u⟩ ▸ .lease ⟨.leadership, u⟩
    · exact .index
    · exact .expiry
    · exact .complete
    · exact .peersIndex

/-- **A channel of the deployment is a name with a channel's tail.** -/
theorem ownedChannel_iff {p c : String} (hp : p ≠ "") :
    OwnedChannel p c ↔ channelTails.Under p.toList c.toList := by
  have hbus : ∀ t, fullTopic p t = p ++ ":" ++ t := fun t => if_neg hp
  rw [channelTails, under_textTails]
  constructor
  · intro h
    cases h with
    | topic t => exact Or.inl ⟨"topic:", by simp, t, rfl⟩
    | bus t => exact Or.inl ⟨":", by simp, t, hbus t⟩
  · simp only [List.mem_cons, List.not_mem_nil, or_false]
    rintro (⟨t, rfl | rfl, u, rfl⟩ | ⟨t, ht, -⟩)
    · exact hbus u ▸ .bus u
    · exact .topic u
    · exact ht.elim

/-! ## Isolation -/

/-- **One prefix is nested in another**: it goes on from it where a key or a
channel may. -/
def Nested (p q : String) : Prop :=
  (∃ t ∈ [":", "peers/", "locks/", "leadership/", "topic:"], StartsWith (p ++ t) q)
    ∨ q = p ++ "topic"

instance (p q : String) : Decidable (Nested p q) := inferInstanceAs (Decidable (_ ∨ _))

/-- Two prefixes without a name of a family in common. -/
theorem disjointNames_iff {tags fixed odd : List String} {p q : String} (hpq : p ≠ q)
    (hcut : (textTails tags fixed).WellCut (odd.map String.toList))
    (hne : ∃ b, (textTails tags fixed).Has b)
    (hodd : ∀ r ∈ odd.map String.toList, ∃ b, (textTails tags fixed).Has b
      ∧ (textTails tags fixed).Has (r ++ b)) :
    (∀ k : String, ¬ ((textTails tags fixed).Under p.toList k.toList
        ∧ (textTails tags fixed).Under q.toList k.toList))
      ↔ ¬ ((∃ t ∈ tags, StartsWith (p ++ t) q) ∨ ∃ t ∈ odd, q = p ++ t)
        ∧ ¬ ((∃ t ∈ tags, StartsWith (q ++ t) p) ∨ ∃ t ∈ odd, p = q ++ t) := by
  have hchars : p.toList ≠ q.toList := fun h => hpq (String.toList_inj.mp h)
  have hext : ∀ a b : String, ((∃ t ∈ tags, StartsWith (a ++ t) b) ∨ ∃ t ∈ odd, b = a ++ t)
      ↔ (textTails tags fixed).Extends (odd.map String.toList) a.toList b.toList :=
    fun _ _ => extends_textTails.symm
  rw [hext, hext, ← Tails.under_disjoint_iff hcut hne hodd hchars]
  constructor
  · intro h l
    have hl := h (String.ofList l)
    rwa [String.toList_ofList] at hl
  · exact fun h k => h k.toList

/-- A prefix is nested where a tail of keys, or one of channels, begins. -/
theorem nested_iff {p q : String} :
    Nested p q ↔ ((∃ t ∈ [":", "peers/", "locks/", "leadership/"], StartsWith (p ++ t) q)
        ∨ ∃ t ∈ ([] : List String), q = p ++ t)
      ∨ ((∃ t ∈ [":", "topic:"], StartsWith (p ++ t) q) ∨ ∃ t ∈ ["topic"], q = p ++ t) := by
  unfold Nested
  simp only [List.mem_cons, List.not_mem_nil, or_false, exists_eq_or_imp, exists_eq_left,
    false_and, exists_false]
  tauto

/-- **Names do not meet** unless one prefix is nested in the other. -/
theorem disjoint_iff_not_nested {p q : String} (hp : p ≠ "") (hq : q ≠ "") (hpq : p ≠ q) :
    ((∀ k, ¬ (OwnedKey p k ∧ OwnedKey q k)) ∧ ∀ c, ¬ (OwnedChannel p c ∧ OwnedChannel q c))
      ↔ ¬ Nested p q ∧ ¬ Nested q p := by
  have hodd : ∀ r ∈ ["topic"].map String.toList, ∃ b, channelTails.Has b
      ∧ channelTails.Has (r ++ b) := by
    intro r hr
    rw [List.mem_singleton.mp hr]
    exact ⟨":".toList, by decide, by decide⟩
  have hkeys := disjointNames_iff hpq keyTails_wellCut ⟨":".toList, by decide⟩ (by simp)
  have hchannels := disjointNames_iff hpq channelTails_wellCut ⟨":".toList, by decide⟩ hodd
  have hown : (∀ k, ¬ (OwnedKey p k ∧ OwnedKey q k))
      ↔ ∀ k : String, ¬ (keyTails.Under p.toList k.toList ∧ keyTails.Under q.toList k.toList) :=
    forall_congr' (fun k => by rw [ownedKey_iff hp, ownedKey_iff hq])
  have hsend : (∀ c, ¬ (OwnedChannel p c ∧ OwnedChannel q c)) ↔ ∀ c : String,
      ¬ (channelTails.Under p.toList c.toList ∧ channelTails.Under q.toList c.toList) :=
    forall_congr' (fun c => by rw [ownedChannel_iff hp, ownedChannel_iff hq])
  rw [hown, hsend, nested_iff, nested_iff]
  refine (and_congr hkeys hchannels).trans ?_
  exact and_and_and_comm.trans (and_congr not_or.symm not_or.symm)

/-- The tail of a key: a word of a family and anything, or one of the sets'
names. -/
def KeyTail (r : String) : Prop :=
  (∃ t ∈ [":", "peers/", "locks/", "leadership/"], StartsWith t r)
    ∨ r ∈ ["#kv-index", "#kv-expiry", "#kv-index-complete", "#peers"]

/-- What a deployment selects is its own, or matches the pattern of its
registrations. -/
theorem Selects.owned_or_match {p k : String} (hp : p ≠ "") (h : Selects p k) :
    OwnedKey p k ∨ KeyMatch (peersPattern p) k := by
  have hdata : ∀ pre, StartsWith (fullKey p pre) k → OwnedKey p k := by
    intro pre hstart
    obtain ⟨key, rfl, -⟩ := startsWith_fullKey_iff.mp hstart
    exact .data key
  cases h with
  | range pre hmin hmax =>
    refine Or.inl (hdata pre ?_)
    exact (utf8_mem_range_iff _ _).mp ⟨of_decide_eq_true hmin, of_decide_eq_true hmax⟩
  | scan pre hm => exact Or.inl (hdata pre ((keyMatch_listPattern hp).mp hm))
  | backfill hm =>
    obtain ⟨key, rfl⟩ := (keyMatch_dataPattern hp).mp hm
    exact Or.inl (.data key)
  | registered id => exact Or.inl (.peer id)
  | legacy hm => exact Or.inr hm

/-- **Two deployments are isolated** if and only if neither prefix is nested
in the other and the pattern of the first one's registrations, in which its
prefix stands unescaped, matches no name that goes on from the second with
the tail of a key. A prefix without characters that mean something to a
pattern matches none then. -/
theorem isolated_iff {p q : String} (hp : p ≠ "") (hq : q ≠ "") (hpq : p ≠ q) :
    (Isolated p q ↔ ¬ Nested p q ∧ ¬ Nested q p
        ∧ ∀ r, KeyTail r → ¬ KeyMatch (peersPattern p) (q ++ r))
      ∧ (NoGlob p → (Isolated p q ↔ ¬ Nested p q ∧ ¬ Nested q p)) := by
  have htail : ∀ k, OwnedKey q k ↔ ∃ r, KeyTail r ∧ k = q ++ r := by
    intro k
    rw [ownedKey_iff hq, keyTails, under_textTails]
    constructor
    · rintro (⟨t, ht, u, rfl⟩ | ⟨t, ht, rfl⟩)
      · exact ⟨t ++ u, Or.inl ⟨t, ht, startsWith_iff.mpr ⟨u, rfl⟩⟩, String.append_assoc⟩
      · exact ⟨t, Or.inr ht, rfl⟩
    · rintro ⟨r, ⟨t, ht, hr⟩ | hr, rfl⟩
      · obtain ⟨u, rfl⟩ := startsWith_iff.mp hr
        exact Or.inl ⟨t, ht, u, String.append_assoc.symm⟩
      · exact Or.inr ⟨r, hr, rfl⟩
  have hiff : Isolated p q ↔ (¬ Nested p q ∧ ¬ Nested q p)
      ∧ ∀ k, KeyMatch (peersPattern p) k → ¬ OwnedKey q k := by
    rw [← disjoint_iff_not_nested hp hq hpq]
    constructor
    · exact fun h => ⟨⟨h.keys, h.channels⟩, fun k hk => h.selects k (.legacy hk)⟩
    · rintro ⟨⟨hkeys, hchannels⟩, hmatch⟩
      refine ⟨hkeys, hchannels, fun k hk hown => ?_⟩
      rcases hk.owned_or_match hp with hself | hm
      · exact hkeys k ⟨hself, hown⟩
      · exact hmatch k hm hown
  constructor
  · rw [hiff, and_assoc]
    refine and_congr_right (fun _ => and_congr_right (fun _ => ?_))
    constructor
    · exact fun h r hr hm => h _ hm ((htail _).mpr ⟨r, hr, rfl⟩)
    · intro h k hm hown
      obtain ⟨r, hr, rfl⟩ := (htail k).mp hown
      exact h r hr hm
  · intro hglob
    rw [hiff]
    refine and_iff_left_of_imp (fun hno k hm hown => ?_)
    -- what the pattern matches is a registration of the first deployment
    have hself : OwnedKey p k := by
      obtain ⟨id, rfl⟩ := (keyMatch_peersPattern hglob).mp hm
      exact .peer id
    exact ((disjoint_iff_not_nested hp hq hpq).mpr hno).1 k ⟨hself, hown⟩

/-- Two prefixes that part in their first letter. -/
theorem isolated_apart : Isolated "a:" "b:" :=
  ((isolated_iff (by decide) (by decide) (by decide)).2 (by decide)).mpr ⟨by decide, by decide⟩

/-- **A longer prefix of a shorter one's data keys, and a prefix that is a
pattern**: the first two share a key, and the third selects a registration
of the fourth. -/
theorem nested_shares_key :
    (OwnedKey "mcpg" "mcpg:stage:x" ∧ OwnedKey "mcpg:stage" "mcpg:stage:x")
      ∧ ¬ Isolated "mcpg" "mcpg:stage"
      ∧ (Selects "*:" "x:peers/n" ∧ OwnedKey "x:" "x:peers/n")
      ∧ ¬ Isolated "*:" "x:" := by
  have hshared : OwnedKey "mcpg" "mcpg:stage:x" ∧ OwnedKey "mcpg:stage" "mcpg:stage:x" :=
    ⟨.data "stage:x", .data "x"⟩
  have hmatch : KeyMatch (peersPattern "*:") "x:peers/n" := by decide +kernel
  have hselects : Selects "*:" "x:peers/n" ∧ OwnedKey "x:" "x:peers/n" :=
    ⟨.legacy hmatch, .peer "n"⟩
  exact ⟨hshared, fun h => h.keys _ hshared, hselects, fun h => h.selects _ hselects.1 hselects.2⟩
