import ClusterRedis.Listing

/-!
# A pass over the key index

The cursor of a page from the index is the last key the page looked up, not
the last it found. So a page that finds nothing still moves on, and a key
that appears, goes or expires anywhere around a page's end is neither lost
nor met twice: what a page reads is after its cursor, and what it leaves is
after the cursor it gives.

The invariant of a pass is one comparison. A key that is indexed all the
while is either after the cursor, and then the next page either has it or
gives a cursor it is still after (`indexPage_spec`), or it has been on a
page.
-/

open Redis

/-- **A sorted list cut short**: what is in it is in the first part, or is
beyond it and past everything there. -/
theorem List.mem_take_or_past {α : Type} {r : α → α → Prop} {l : List α} (h : l.Pairwise r) (n : ℕ)
    {x : α} (hx : x ∈ l) : x ∈ l.take n ∨ n < l.length ∧ ∀ z ∈ l.take n, r z x := by
  rw [← List.take_append_drop n l] at hx h
  rcases List.mem_append.mp hx with hx | hx
  · exact Or.inl hx
  · refine Or.inr ⟨?_, fun z hz => (List.pairwise_append.mp h).2.2 z hz x hx⟩
    have hpos := List.length_pos_of_mem hx
    rw [List.length_drop] at hpos
    omega

namespace Redis

variable {s : Redis} {z : String} {lo hi : LexBound}

theorem mem_lexRange {x : String} :
    x ∈ s.lexRange z lo hi ↔ s.Mem z x ∧ lo.above (utf8 x) = true ∧ hi.below (utf8 x) = true := by
  rw [lexRange, List.mem_insertionSort, List.mem_filter, Bool.and_eq_true]
  refine and_congr_left (fun _ => ?_)
  show x ∈ (s.zmembers z).keys ↔ ((s.zmembers z).lookup x).isSome = true
  rw [AList.lookup_isSome]
  rfl

theorem pairwise_lexRange :
    (s.lexRange z lo hi).Pairwise (fun x y => utf8 x < utf8 y) :=
  pairwise_utf8_insertionSort ((s.zmembers z).keys_nodup.filter _)

theorem zrangebylex_eq_ok {n : ℕ} {found : List String}
    (h : (zrangebylex z lo hi n s).1 = .ok found) : found = (s.lexRange z lo hi).take n := by
  unfold zrangebylex at h
  split at h
  · exact nomatch h
  · unfold onZSet at h
    split at h
    · exact nomatch h
    · exact (Except.ok.inj h).symm

end Redis

namespace RedisKv

variable {drv : Driver} {p pre : String} {after : Option String} {c d : Conn}

/-- A key is after where a page starts. -/
def After (p pre : String) (after : Option String) (x : String) : Prop :=
  (pageMin p pre after).above (utf8 x) = true

/-- A cursor of a listing is a key under the listing's prefix. -/
def IsCursor (p pre : String) (after : Option String) : Prop :=
  ∀ z, after = some z → StartsWith (fullKey p pre) z

theorem after_some {x z : String} : After p pre (some z) x ↔ utf8 z < utf8 x :=
  decide_eq_true_iff

theorem le_of_startsWith {x y : String} (h : StartsWith x y) : utf8 x ≤ utf8 y :=
  ((utf8_mem_range_iff x y).mpr h).1

/-- What is below a page's range's end and not below the prefix has the
prefix. -/
theorem startsWith_of_le {s : Redis} {lo : LexBound} {x : String}
    (hx : x ∈ s.lexRange (indexKey p) lo (pageMax p pre))
    (hle : utf8 (fullKey p pre) ≤ utf8 x) : StartsWith (fullKey p pre) x :=
  (utf8_mem_range_iff _ _).mp ⟨hle, decide_eq_true_iff.mp (mem_lexRange.mp hx).2.2⟩

/-- What is after a cursor and below the range's end has the prefix. -/
theorem startsWith_of_mem_range {s : Redis} (ha : IsCursor p pre after) {x : String}
    (hx : x ∈ s.lexRange (indexKey p) (pageMin p pre after) (pageMax p pre)) :
    StartsWith (fullKey p pre) x := by
  obtain ⟨-, hlo, -⟩ := mem_lexRange.mp hx
  refine startsWith_of_le hx ?_
  cases after with
  | none => exact decide_eq_true_iff.mp hlo
  | some z => exact (le_of_startsWith (ha z rfl)).trans (after_some.mp hlo).le

/-- What has the prefix and is after a cursor is in the range when it is in
the index. -/
theorem mem_range_of_startsWith {s : Redis} {x : String} (hp : StartsWith (fullKey p pre) x)
    (ha : After p pre after x) (hm : s.Mem (indexKey p) x) :
    x ∈ s.lexRange (indexKey p) (pageMin p pre after) (pageMax p pre) :=
  mem_lexRange.mpr ⟨hm, ha, decide_eq_true_iff.mpr ((utf8_mem_range_iff _ _).mpr hp).2⟩

/-- What has the prefix is after the start of a listing. -/
theorem after_none {x : String} (h : StartsWith (fullKey p pre) x) : After p pre none x :=
  decide_eq_true_iff.mpr (le_of_startsWith h)

/-- **A page from the index**, made of the keys `r` that one state of the
index had after the cursor: the first of them, and as the cursor of the next
page the last of those, if there were more. -/
structure IndexPage (p pre : String) (after : Option String) (limit : ℕ) (d : Conn) (pg : KvPage)
    (r : List String) : Prop where
  sorted : r.Pairwise (fun x y => utf8 x < utf8 y)
  range : ∀ x ∈ r, After p pre after x ∧ StartsWith (fullKey p pre) x
  keys : pg.keys = r.take limit
  next : pg.next = if limit < r.length then (r.take limit).getLast?.map ("i" ++ ·) else none
  /-- What is in the index all the while is among them. -/
  complete : ∀ x, StartsWith (fullKey p pre) x → After p pre after x →
    (∀ s ∈ d.seen, s.Mem (indexKey p) x) → x ∈ r
  members : ∀ x ∈ r, ∃ s ∈ d.seen, s.Mem (indexKey p) x
  fetched : Fetched p d pg.keys pg.entries

theorem IndexPage.size {limit : ℕ} {pg : KvPage} {r : List String}
    (h : IndexPage p pre after limit d pg r) : pg.entries.length ≤ limit := by
  have hle := h.fetched.returned.length_le
  rw [List.length_map, List.length_map, h.keys] at hle
  exact hle.trans (List.length_take_le _ _)

/-- The cursor a page gives is the last key it looked up. -/
theorem IndexPage.cursor {limit : ℕ} {pg : KvPage} {r : List String} {cur : String}
    (h : IndexPage p pre after limit d pg r) (hn : pg.next = some cur) :
    ∃ z, (r.take limit).getLast? = some z ∧ IsCursor p pre (some z) ∧ cur = "i" ++ z := by
  rw [h.next] at hn
  split at hn
  · obtain ⟨z, hz, rfl⟩ := Option.map_eq_some_iff.mp hn
    refine ⟨z, hz, fun y hy => ?_, rfl⟩
    rw [← Option.some.inj hy]
    exact (h.range z (List.mem_of_mem_take (List.mem_of_getLast? hz))).2
  · exact nomatch hn

theorem indexPage_spec {limit : ℕ} {pg : KvPage} (ha : IsCursor p pre after)
    (h : indexPage drv p pre after limit c = (.ok pg, d)) :
    c.Follows d ∧ ∃ r, IndexPage p pre after limit d pg r := by
  obtain ⟨found, c₁, hfound, he, hkeys, hnext⟩ := indexPage_eq_ok h
  obtain ⟨entries, next, keys⟩ := pg
  obtain rfl : keys = found.take limit := hkeys
  obtain rfl : next = if limit < found.length then (found.take limit).getLast?.map ("i" ++ ·)
    else none := hnext
  obtain ⟨hf, s, hs, hr, -⟩ := Client.exec_eq_ok hfound
  obtain ⟨hf', hfetched⟩ := fetchEntries_spec he
  obtain rfl := zrangebylex_eq_ok hr
  refine ⟨hf.trans hf', s.lexRange (indexKey p) (pageMin p pre after) (pageMax p pre),
    pairwise_lexRange, ?_, ?_, ?_, ?_, ?_, hfetched⟩
  · exact fun x hx => ⟨(mem_lexRange.mp hx).2.1, startsWith_of_mem_range ha hx⟩
  · show List.take limit (List.take (limit + 1) _) = _
    rw [List.take_take, Nat.min_eq_left (Nat.le_succ limit)]
  · have hlen : ∀ l : List String, limit < (l.take (limit + 1)).length ↔ limit < l.length := by
      intro l
      rw [List.length_take]
      omega
    simp only [hlen, List.take_take, Nat.min_eq_left (Nat.le_succ limit)]
  · exact fun x hx hax hm => mem_range_of_startsWith hx hax (hm s (hf'.seen.subset hs))
  · exact fun x hx => ⟨s, hf'.seen.subset hs, (mem_lexRange.mp hx).1⟩

/-- A page of a listing from the index. -/
theorem listPage_index (limit : ℕ) : listPage drv p true pre (after.map ("i" ++ ·)) limit
    = indexPage drv p pre after (max limit 1) := by
  cases after with
  | none => rfl
  | some z =>
    have hl : ("i" ++ z).toList = 'i' :: z.toList := by rw [String.toList_append]; rfl
    unfold listPage
    dsimp only [Option.map_some]
    rw [hl]
    show indexPage drv p pre (some (String.ofList z.toList)) (max limit 1) = _
    rw [String.ofList_toList]

/-! ## The pass -/

/-- **What a pass from a cursor does.** -/
structure IndexPass (p pre : String) (after : Option String) (limits : List ℕ) (d : Conn)
    (pages : List KvPage) : Prop where
  above : ∀ x ∈ passKeys pages, After p pre after x ∧ StartsWith (fullKey p pre) x
  sorted : (passKeys pages).Pairwise (fun x y => utf8 x < utf8 y)
  /-- The cursors are keys, each after the one before. -/
  cursors : ∃ zs : List String, pages.filterMap KvPage.next = zs.map ("i" ++ ·)
    ∧ zs.Pairwise (fun x y => utf8 x < utf8 y) ∧ ∀ z ∈ zs, After p pre after z
  sizes : List.Forall₂ (fun pg n => pg.entries.length ≤ max n 1) pages (limits.take pages.length)
  /-- A key in the index all the while is met. -/
  complete : PassOver pages → ∀ x, StartsWith (fullKey p pre) x → After p pre after x →
    (∀ s ∈ d.seen, s.Mem (indexKey p) x) → x ∈ passKeys pages
  members : ∀ x ∈ passKeys pages, ∃ s ∈ d.seen, s.Mem (indexKey p) x
  /-- A pass that is not over has used its limits, and met a key with each. -/
  progress : PassOver pages ∨ pages.length = limits.length ∧ ∀ pg ∈ pages, pg.keys ≠ []
  fetched : PassFetched p d pages

/-- The last of a sorted list is not below any of it. -/
theorem le_getLast_of_pairwise {l : List String} (h : l.Pairwise (fun x y => utf8 x < utf8 y))
    {x z : String} (hx : x ∈ l) (hz : l.getLast? = some z) : utf8 x ≤ utf8 z := by
  obtain ⟨l', rfl⟩ := List.getLast?_eq_some_iff.mp hz
  rcases List.mem_append.mp hx with hx | hx
  · exact ((List.pairwise_append.mp h).2.2 x hx z (List.mem_singleton.mpr rfl)).le
  · rw [List.mem_singleton.mp hx]

theorem After.trans {x z : String} (hz : After p pre after z) (h : utf8 z < utf8 x) :
    After p pre after x := by
  cases after with
  | none => exact decide_eq_true_iff.mpr ((decide_eq_true_iff.mp hz).trans h.le)
  | some y => exact after_some.mpr ((after_some.mp hz).trans h)

/-- A page that gives no cursor ends a pass. -/
theorem IndexPass.last {limit : ℕ} {limits : List ℕ} {pg : KvPage} {r : List String}
    (h : IndexPage p pre after (max limit 1) d pg r) (hn : pg.next = none) :
    IndexPass p pre after (limit :: limits) d [pg] := by
  have hkeys : passKeys [pg] = r.take (max limit 1) := by
    rw [passKeys, List.flatMap_singleton, h.keys]
  -- there is no cursor only where everything fitted
  have hall : r.take (max limit 1) = r := by
    rw [h.next] at hn
    split at hn
    · next hlt =>
      rw [Option.map_eq_none_iff, List.getLast?_eq_none_iff, List.take_eq_nil_iff] at hn
      rcases hn with h0 | rfl
      · exact absurd h0 (by omega)
      · exact absurd hlt (by simp)
    · next hle => exact List.take_of_length_le (not_lt.mp hle)
  refine ⟨?_, ?_, ⟨[], ?_, List.Pairwise.nil, fun z hz => absurd hz (by simp)⟩, ?_, ?_, ?_,
    Or.inl ⟨pg, rfl, hn⟩, PassFetched.cons h.fetched PassFetched.nil⟩
  · rw [hkeys, hall]
    exact h.range
  · rw [hkeys, hall]
    exact h.sorted
  · simp [hn]
  · exact List.Forall₂.cons h.size List.Forall₂.nil
  · intro _ x hp ha hm
    rw [hkeys, hall]
    exact h.complete x hp ha hm
  · rw [hkeys, hall]
    exact h.members

/-- A page that gives a cursor, and a pass from it. -/
theorem IndexPass.cons {limit : ℕ} {limits : List ℕ} {pg : KvPage} {pages : List KvPage}
    {r : List String} {z : String} {d' : Conn} (hf : d.Grows d')
    (h : IndexPage p pre after (max limit 1) d pg r) (hn : pg.next = some ("i" ++ z))
    (hz : (r.take (max limit 1)).getLast? = some z)
    (hrest : IndexPass p pre (some z) limits d' pages) :
    IndexPass p pre after (limit :: limits) d' (pg :: pages) := by
  have hkeys : passKeys (pg :: pages) = r.take (max limit 1) ++ passKeys pages := by
    rw [passKeys, List.flatMap_cons, h.keys]
    rfl
  have hsorted := h.sorted.sublist (List.take_sublist (max limit 1) r)
  have hrange : ∀ x ∈ r.take (max limit 1), After p pre after x ∧ StartsWith (fullKey p pre) x :=
    fun x hx => h.range x (List.mem_of_mem_take hx)
  have hza : After p pre after z := (hrange z (List.mem_of_getLast? hz)).1
  refine ⟨?_, ?_, ?_, ?_, ?_, ?_, ?_, PassFetched.cons (h.fetched.mono hf) hrest.fetched⟩
  · intro x hx
    rw [hkeys] at hx
    rcases List.mem_append.mp hx with hx | hx
    · exact hrange x hx
    · obtain ⟨hax, hpx⟩ := hrest.above x hx
      exact ⟨hza.trans (after_some.mp hax), hpx⟩
  · rw [hkeys]
    refine List.pairwise_append.mpr ⟨hsorted, hrest.sorted, fun x hx y hy => ?_⟩
    exact lt_of_le_of_lt (le_getLast_of_pairwise hsorted hx hz) (after_some.mp (hrest.above y hy).1)
  · obtain ⟨zs, hzs, hpair, hafter⟩ := hrest.cursors
    refine ⟨z :: zs, ?_,
      List.pairwise_cons.mpr ⟨fun y hy => after_some.mp (hafter y hy), hpair⟩, ?_⟩
    · rw [List.filterMap_cons, hn, hzs]
      rfl
    · intro y hy
      rcases List.mem_cons.mp hy with rfl | hy
      · exact hza
      · exact hza.trans (after_some.mp (hafter y hy))
  · exact List.Forall₂.cons h.size hrest.sizes
  · intro hover x hp ha hm
    rw [passOver_cons (by simp [hn])] at hover
    rw [hkeys, List.mem_append]
    have hxr := h.complete x hp ha (fun s hs => hm s (hf.seen.subset hs))
    rcases List.mem_take_or_past h.sorted (max limit 1) hxr with hx | ⟨-, hx⟩
    · exact Or.inl hx
    · refine Or.inr (hrest.complete hover x hp (after_some.mpr ?_) hm)
      exact hx z (List.mem_of_getLast? hz)
  · intro x hx
    rw [hkeys] at hx
    rcases List.mem_append.mp hx with hx | hx
    · obtain ⟨s, hs, hm⟩ := h.members x (List.mem_of_mem_take hx)
      exact ⟨s, hf.seen.subset hs, hm⟩
    · exact hrest.members x hx
  · rcases hrest.progress with hover | ⟨hlen, hne⟩
    · exact Or.inl ((passOver_cons (by simp [hn])).mpr hover)
    · refine Or.inr ⟨by rw [List.length_cons, List.length_cons, hlen], fun q hq => ?_⟩
      rcases List.mem_cons.mp hq with rfl | hq
      · rw [h.keys]
        exact List.ne_nil_of_mem (List.mem_of_getLast? hz)
      · exact hne q hq

/-- **A pass over the index.** -/
theorem listPass_index (after : Option String) {limits : List ℕ} {pages : List KvPage}
    (ha : IsCursor p pre after)
    (h : listPass drv p true pre limits (after.map ("i" ++ ·)) c = (.ok pages, d)) :
    c.Follows d ∧ IndexPass p pre after limits d pages := by
  induction limits generalizing after c pages with
  | nil =>
    obtain ⟨hp, rfl⟩ := Prod.mk.inj h
    obtain rfl := Except.ok.inj hp
    refine ⟨Conn.Follows.refl c, ?_, List.Pairwise.nil, ⟨[], rfl, List.Pairwise.nil, ?_⟩,
      List.Forall₂.nil, ?_, ?_, Or.inr ⟨rfl, fun pg hpg => absurd hpg (List.not_mem_nil)⟩,
      PassFetched.nil⟩
    · exact fun x hx => absurd hx (by simp [passKeys])
    · exact fun z hz => absurd hz (by simp)
    · rintro ⟨pg, hpg, -⟩
      cases hpg
    · exact fun x hx => absurd hx (by simp [passKeys])
  | cons limit limits ih =>
    obtain ⟨pg, c₁, hpage, h⟩ := Client.bind_eq_ok.mp h
    rw [listPage_index] at hpage
    obtain ⟨hf, r, hpg⟩ := indexPage_spec ha hpage
    cases hn : pg.next with
    | none =>
      rw [hn] at h
      obtain ⟨hp, rfl⟩ := Prod.mk.inj h
      obtain rfl := Except.ok.inj hp
      exact ⟨hf, IndexPass.last hpg hn⟩
    | some cur =>
      rw [hn] at h
      obtain ⟨rest, c₂, hrest, h⟩ := Client.bind_eq_ok.mp h
      obtain ⟨hp, rfl⟩ := Prod.mk.inj h
      obtain rfl := Except.ok.inj hp
      obtain ⟨z, hz, hzc, rfl⟩ := hpg.cursor hn
      obtain ⟨hf', hpass⟩ := ih (some z) hzc hrest
      exact ⟨hf.trans hf', IndexPass.cons hf'.toGrows hpg hn hz hpass⟩

/-! ## The pass gets its pages -/

/-- **States a listing can be read in**: the index answers, values under the
prefix can be read, and pruning leads to such a state again. -/
structure Serves (p pre : String) (P : Redis → Prop) : Prop where
  index : ∀ s, P s → s.ZKey (indexKey p)
  get : ∀ k, StartsWith (fullKey p pre) k → ∀ s, P s → ∃ b, (Redis.get k s).1 = .ok b
  prune : ∀ s, P s → ∀ gone, P (pruneLua (indexKey p) (expiryKey p) gone s).2

section Returns

variable {P : Redis → Prop} (drv)

theorem indexPage_returns (hs : Serves p pre P) (ha : IsCursor p pre after) (limit : ℕ)
    (hl : limit + 1 < 2 ^ 63) :
    Client.Returns P (indexPage drv p pre after limit) (fun _ => True) := by
  have hrange : ∀ s, P s → Redis.zrangebylex (indexKey p) (pageMin p pre after) (pageMax p pre)
      (limit + 1) s = (.ok ((s.lexRange (indexKey p) (pageMin p pre after)
        (pageMax p pre)).take (limit + 1)), s) := by
    intro s hP
    rw [zrangebylex, if_neg (not_le.mpr hl)]
    exact onZSet_run (hs.index s hP)
  have hexec : Client.Returns P (Client.exec (redisErr drv) (Redis.zrangebylex (indexKey p)
      (pageMin p pre after) (pageMax p pre) (limit + 1)))
      (fun found => ∀ k ∈ found, StartsWith (fullKey p pre) k) := by
    refine Client.Returns.exec (fun s hP => ?_) (fun s hP => ?_)
    · rw [hrange s hP]
      exact ⟨_, rfl, fun k hk => startsWith_of_mem_range ha (List.mem_of_mem_take hk)⟩
    · rwa [hrange s hP]
  have hkeys : Client.Returns P (indexKeys drv p pre after limit)
      (fun r => ∀ k ∈ r.1, StartsWith (fullKey p pre) k) := by
    refine hexec.bind (fun found hfound => Client.Returns.pure (fun k hk => ?_))
    exact hfound k (List.mem_of_mem_take hk)
  refine hkeys.bind (fun r hr => ?_)
  exact (fetchEntries_returns drv (fun k hk => hs.get k (hr k hk)) true (fun _ => hs.prune)).bind
    (fun _ _ => Client.Returns.pure trivial)

/-- **A pass over the index gets its pages** where listings can be read. -/
theorem listPass_index_returns (hs : Serves p pre P) (after : Option String)
    (ha : IsCursor p pre after) {limits : List ℕ} (hl : ∀ n ∈ limits, n < 2 ^ 63 - 1) :
    Client.Returns P (listPass drv p true pre limits (after.map ("i" ++ ·))) (fun _ => True) := by
  induction limits generalizing after with
  | nil => exact Client.Returns.pure trivial
  | cons limit limits ih =>
    have hlim := hl limit List.mem_cons_self
    intro c hc
    obtain ⟨pg, d, hpage, hd, -⟩ := indexPage_returns drv hs ha (max limit 1) (by omega) c hc
    obtain ⟨-, r, hpg⟩ := indexPage_spec ha hpage
    rw [listPass, Client.bind_ok ((congrFun (listPage_index limit) c).trans hpage)]
    cases hn : pg.next with
    | none => exact ⟨[pg], d, rfl, hd, trivial⟩
    | some cur =>
      obtain ⟨z, -, hzc, rfl⟩ := hpg.cursor hn
      have hnext := ih (some z) hzc (fun n hn => hl n (List.mem_cons_of_mem limit hn))
      exact (hnext.bind (fun pages _ => Client.Returns.pure trivial)) d hd

end Returns

/-! ## What a caller sees -/

/-- The keys under a listing's prefix are the caller's keys with it. -/
theorem startsWith_fullKey_iff {x : String} :
    StartsWith (fullKey p pre) x ↔ ∃ k, x = fullKey p k ∧ StartsWith pre k := by
  unfold fullKey
  split
  · exact ⟨fun h => ⟨x, rfl, h⟩, fun ⟨k, hk, h⟩ => hk ▸ h⟩
  · constructor
    · intro h
      obtain ⟨t, rfl⟩ := startsWith_iff.mp h
      exact ⟨pre ++ t, by simp only [String.append_assoc], startsWith_iff.mpr ⟨t, rfl⟩⟩
    · rintro ⟨k, rfl, h⟩
      obtain ⟨t, rfl⟩ := startsWith_iff.mp h
      exact startsWith_iff.mpr ⟨t, by simp only [String.append_assoc]⟩

/-- Server keys are in the order of the callers' keys. -/
theorem utf8_fullKey_lt_iff {k l : String} :
    utf8 (fullKey p k) < utf8 (fullKey p l) ↔ utf8 k < utf8 l := by
  unfold fullKey
  split
  · exact Iff.rfl
  · rw [utf8_append, utf8_append _ l, lex_append_lt_append_iff]

/-- **What a pass returns to its caller.** -/
theorem IndexPass.callerSees {limits : List ℕ} {pages : List KvPage}
    (h : IndexPass p pre none limits d pages) :
    (passReturned pages).Pairwise (fun k l => utf8 k < utf8 l)
      ∧ (∀ k ∈ passReturned pages, StartsWith pre k)
      ∧ List.Forall₂ (fun pg n => pg.entries.length ≤ max n 1) pages (limits.take pages.length)
      ∧ (pages.filterMap KvPage.next).Pairwise (fun k l => utf8 k < utf8 l)
      ∧ (PassOver pages → ∀ k, StartsWith pre k →
        (∀ s ∈ d.seen, s.Live (fullKey p k) ∧ s.Mem (indexKey p) (fullKey p k)) →
        (passReturned pages).count k = 1) := by
  -- every key looked up is a caller's key with the prefix
  have hkey : ∀ x ∈ passKeys pages, ∃ k, x = fullKey p k ∧ StartsWith pre k :=
    fun x hx => startsWith_fullKey_iff.mp (h.above x hx).2
  have hsorted : ((passKeys pages).map (logicalKey p)).Pairwise (fun k l => utf8 k < utf8 l) := by
    refine List.pairwise_map.mpr (h.sorted.imp_of_mem (fun {x y} hx hy hxy => ?_))
    obtain ⟨k, rfl, -⟩ := hkey x hx
    obtain ⟨l, rfl, -⟩ := hkey y hy
    rwa [logicalKey_fullKey, logicalKey_fullKey, ← utf8_fullKey_lt_iff]
  have hret := hsorted.sublist h.fetched.returned
  refine ⟨hret, ?_, h.sizes, ?_, ?_⟩
  · intro k hk
    obtain ⟨x, hx, rfl⟩ := List.mem_map.mp (h.fetched.returned.subset hk)
    obtain ⟨k, rfl, hp⟩ := hkey x hx
    rwa [logicalKey_fullKey]
  · obtain ⟨zs, hzs, hpair, -⟩ := h.cursors
    rw [hzs]
    refine List.pairwise_map.mpr (hpair.imp (fun {x y} hxy => ?_))
    rwa [utf8_append, utf8_append _ y, lex_append_lt_append_iff]
  · intro hover k hp hk
    have hfull : StartsWith (fullKey p pre) (fullKey p k) := startsWith_fullKey_iff.mpr ⟨k, rfl, hp⟩
    have hmet := h.complete hover (fullKey p k) hfull (after_none hfull) (fun s hs => (hk s hs).2)
    have hmem := h.fetched.found hmet (fun s hs => (hk s hs).1)
    rw [logicalKey_fullKey] at hmem
    have hnodup : (passReturned pages).Nodup := hret.imp (fun {x y} hxy he => by
      rw [he] at hxy
      exact lt_irrefl _ hxy)
    exact List.count_eq_one_of_mem hnodup hmem

/-- **A store as its clients keep it**, to a listing: the indexes are sorted
sets, and what is under the prefix are strings. -/
structure Readable (p pre : String) (s : Redis) : Prop extends IndexTyped p s where
  strings : ∀ k, StartsWith (fullKey p pre) k → ∀ o, s.lookup k = some o → ∃ b, o.value = .str b

/-- A key under a listing's prefix is none of the store's own. -/
theorem ne_of_startsWith (hp : p ≠ "") {k : String} (h : StartsWith (fullKey p pre) k) :
    k ≠ indexKey p ∧ k ≠ expiryKey p := by
  obtain ⟨key, rfl, -⟩ := startsWith_fullKey_iff.mp h
  exact ⟨fullKey_ne_indexKey hp key, fullKey_ne_expiryKey hp key⟩

theorem Readable.pruneKey {s : Redis} (hp : p ≠ "") (h : Readable p pre s) (k : String) :
    Readable p pre (pruneKey (indexKey p) (expiryKey p) s k) := by
  show Readable p pre (if s.Live k then s else (s.zdel (indexKey p) k).zdel (expiryKey p) k)
  split
  · exact h
  · refine ⟨⟨(h.index.zdel).zdel, (h.expiry.zdel).zdel⟩, fun x hx o ho => h.strings x hx o ?_⟩
    obtain ⟨hi, he⟩ := ne_of_startsWith hp hx
    rwa [lookup_zdel_of_ne _ he, lookup_zdel_of_ne _ hi] at ho

/-- **Listings can be read** in states that are as clients keep them and
where taking a gone key off the indexes leads to such a state again. -/
theorem Serves.of_pruneKey {P : Redis → Prop} (hr : ∀ s, P s → Readable p pre s)
    (hk : ∀ s, P s → ∀ k, P (pruneKey (indexKey p) (expiryKey p) s k)) :
    Serves p pre P where
  index := fun s h => (hr s h).index
  get := fun k hk s h => get_of_string ((hr s h).strings k hk)
  prune := by
    intro s h gone
    obtain ⟨n, hn⟩ := pruneLua_run ⟨(hr s h).index, (hr s h).expiry⟩ gone
    rw [hn]
    clear hn
    induction gone generalizing s with
    | nil => exact h
    | cons k ks ih => exact ih _ (hk s h k)

theorem Readable.serves (hp : p ≠ "") : Serves p pre (Readable p pre) :=
  Serves.of_pruneKey (fun _ h => h) (fun _ h k => h.pruneKey hp k)

/-- **A pass over the index among other clients.** Whatever others do before
each of its commands, the pages a pass gets from the index return keys in
byte order, so none twice, all with the prefix, no more on a page than asked
for; the cursors increase; and once the pass is over, a key that was there
and indexed whenever the pass looked has been returned once. As long as
others keep the store as its clients do, the pass gets its pages. -/
theorem index_pass_concurrent (drv : Driver) (p pre : String) (limits : List ℕ) (c : Conn) :
    (∀ pages d, listPass drv p true pre limits none c = (.ok pages, d) →
      (passReturned pages).Pairwise (fun k l => utf8 k < utf8 l)
      ∧ (∀ k ∈ passReturned pages, StartsWith pre k)
      ∧ List.Forall₂ (fun pg n => pg.entries.length ≤ max n 1) pages (limits.take pages.length)
      ∧ (pages.filterMap KvPage.next).Pairwise (fun k l => utf8 k < utf8 l)
      ∧ (PassOver pages → ∀ k, StartsWith pre k →
        (∀ s ∈ d.seen, s.Live (fullKey p k) ∧ s.Mem (indexKey p) (fullKey p k)) →
        (passReturned pages).count k = 1))
      ∧ (p ≠ "" → c.Holds (Readable p pre) → (∀ n ∈ limits, n < 2 ^ 63 - 1) →
        ∃ pages d, listPass drv p true pre limits none c = (.ok pages, d)) := by
  have hnone : IsCursor p pre none := fun z hz => nomatch hz
  refine ⟨fun pages d h => ?_, fun hp hc hl => ?_⟩
  · obtain ⟨-, hpass⟩ := listPass_index none hnone h
    exact hpass.callerSees
  · obtain ⟨pages, d, h, -⟩ := listPass_index_returns drv (Readable.serves hp) none hnone hl c hc
    exact ⟨pages, d, h⟩

/-- A store with two keys, and others that add a third between them and
delete it again while it is being read. -/
def sharedConn : Conn where
  redis := ((((Redis.empty 0).put "p:a" ⟨.str [1], none⟩).put "p:c" ⟨.str [3], none⟩).zins
    "p#kv-index" "p:a" 0).zins "p#kv-index" "p:c" 0
  others := [id, fun s => (s.put "p:b" ⟨.str [2], none⟩).zins "p#kv-index" "p:b" 0, id,
    fun s => s.del "p:b"]
  scans := []
  clock := id
  seen := []
  scanned := []

theorem index_pass_concurrent_shared :
    ∃ pages d, listPass Driver.plain "p" true "" [1, 1, 1] none sharedConn = (.ok pages, d)
      ∧ passReturned pages = ["a", "c"]
      ∧ (passReturned pages).Pairwise (fun k l => utf8 k < utf8 l) := by
  have hrun : ((listPass Driver.plain "p" true "" [1, 1, 1] none sharedConn).1.map
      passReturned).toOption = some ["a", "c"] := by decide +kernel
  match h : listPass Driver.plain "p" true "" [1, 1, 1] none sharedConn with
  | (.error e, d) =>
    rw [h] at hrun
    exact nomatch hrun
  | (.ok pages, d) =>
    rw [h] at hrun
    exact ⟨pages, d, rfl, Option.some.inj hrun,
      ((index_pass_concurrent Driver.plain "p" "" [1, 1, 1] sharedConn).1 pages d h).1⟩

end RedisKv
