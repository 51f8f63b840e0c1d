import ClusterRedis.Envelope
import ClusterRedis.ListAgree
import ClusterRedis.ListIndex

/-!
# What a cursor can reach

A cursor comes back from outside, and a listing takes from it what the range
or the scan would have given: from an `i` cursor the lower end of the range,
from an `s` cursor the keys of the page. What is taken is not held against
the listing's prefix. So a page is inside its prefix when the cursor is
already: when no key lies after its key and below the prefix, or when the
pending keys a page has room for have the prefix.

`listPage_inside_iff` says that this is exactly when, over all states of the
server, and over those whose index lists data keys alone. The text of a
cursor does no other harm: what is cut off it is one byte that is a whole
character, and a text that is no scan's state is refused.
-/

open Redis

namespace RedisKv

variable {drv : Driver} {p pre : String} {c d : Conn}

/-! ## Cutting a cursor -/

/-- `&text[1..]`: the text behind its first byte, if that is a text. -/
def sliceFromOne (text : String) : Option String := utf8Text (asBytes text).tail

/-- **A page of a listing, by the bytes of the cursor**; none for a slice
that panics. -/
def listPageBytes (drv : Driver) (p : String) (ready : Bool) (pre : String)
    (cursor : Option String) (limit : ℕ) : Option (Client KvPage) :=
  cursor.elim
    (some (if ready then indexPage drv p pre none (max limit 1)
      else scanPage drv p pre ScanCursor.start (max limit 1)))
    (fun c =>
      if (asBytes c).head? = some 0x69 then
        (sliceFromOne c).map (fun full => indexPage drv p pre (some full) (max limit 1))
      else if (asBytes c).head? = some 0x73 then
        (sliceFromOne c).map (fun text => do
          let st ← scanState text
          scanPage drv p pre st (max limit 1))
      else some (do
        let st ← scanState c
        scanPage drv p pre st (max limit 1)))

/-- Where a page of a listing starts. -/
inductive ListStart where
  | first
  | after (full : String)
  | resume (text : String)

/-- **What a cursor says.** -/
def listStart (cursor : Option String) : ListStart :=
  cursor.elim .first (fun c =>
    if c.toList.head? = some 'i' then .after (String.ofList c.toList.tail)
    else if c.toList.head? = some 's' then .resume (String.ofList c.toList.tail)
    else .resume c)

/-- The page that starts there. -/
def ListStart.page (drv : Driver) (p : String) (ready : Bool) (pre : String) (limit : ℕ) :
    ListStart → Client KvPage
  | first =>
    if ready then indexPage drv p pre none (max limit 1)
    else scanPage drv p pre ScanCursor.start (max limit 1)
  | after full => indexPage drv p pre (some full) (max limit 1)
  | resume text => do
    let st ← scanState text
    scanPage drv p pre st (max limit 1)

theorem listPage_eq_page (ready : Bool) (cursor : Option String) (limit : ℕ) :
    listPage drv p ready pre cursor limit = (listStart cursor).page drv p ready pre limit := by
  cases cursor with
  | none => rfl
  | some t =>
    unfold listPage listStart
    dsimp only [Option.elim_some]
    split
    · next full h => rw [h]; rfl
    · next text h => rw [h]; rfl
    · next hi hs =>
      have hni : t.toList.head? ≠ some 'i' := by
        intro h
        obtain ⟨l, hl⟩ := List.head?_eq_some_iff.mp h
        exact hi l hl
      have hns : t.toList.head? ≠ some 's' := by
        intro h
        obtain ⟨l, hl⟩ := List.head?_eq_some_iff.mp h
        exact hs l hl
      rw [if_neg hni, if_neg hns]
      rfl

/-- **The first byte of a text** is a short character exactly when its first
character is. -/
theorem head_asBytes_iff {t : String} {d : Char} {b : UInt8} (hd : d.toNat ≤ 0x7F)
    (hb : String.utf8EncodeChar d = [b]) :
    (asBytes t).head? = some b ↔ t.toList.head? = some d := by
  have hbd : b.toNat = d.toNat := by
    have hmap := Glob.encodeChar_of_short hd
    rw [hb] at hmap
    exact (List.cons.inj hmap).1
  unfold asBytes
  cases t.toList with
  | nil => exact ⟨fun h => absurd h (by simp), fun h => absurd h (by simp)⟩
  | cons e l =>
    rw [List.flatMap_cons, List.head?_cons, Option.some_inj]
    constructor
    · intro h
      by_cases he : e.val.toNat ≤ 0x7F
      · have hmap := Glob.encodeChar_of_short he
        obtain ⟨u, hu⟩ : ∃ u, String.utf8EncodeChar e = [u] := by
          refine List.length_eq_one_iff.mp ?_
          rw [← List.length_map (f := UInt8.toNat), hmap]
          rfl
        rw [hu] at h hmap
        obtain rfl : u = b := Option.some.inj h
        exact Char.toNat_inj.mp ((List.cons.inj hmap).1.symm.trans hbd)
      · -- the bytes of a long character are past the short ones
        have hmem : b ∈ String.utf8EncodeChar e := by
          cases hu : String.utf8EncodeChar e with
          | nil => exact absurd hu (String.utf8EncodeChar_ne_nil)
          | cons u us =>
            rw [hu] at h
            rw [← Option.some.inj h]
            exact List.mem_cons_self
        have hle := Glob.encodeChar_of_long he _ (List.mem_map_of_mem hmem)
        omega
    · rintro rfl
      rw [hb]
      rfl

/-- **What is behind a short first character is a text.** -/
theorem sliceFromOne_of_head {t : String} {d : Char} {b : UInt8}
    (hb : String.utf8EncodeChar d = [b]) (h : t.toList.head? = some d) :
    sliceFromOne t = some (String.ofList t.toList.tail) := by
  obtain ⟨l, hl⟩ := List.head?_eq_some_iff.mp h
  refine utf8Text_eq_some_iff.mpr ?_
  rw [asBytes, asBytes, hl, List.flatMap_cons, hb, List.tail_cons, String.toList_ofList]
  rfl

/-- **No cursor makes a listing panic**: what is cut off a cursor is one
character. -/
theorem listPageBytes_eq_some (ready : Bool) (cursor : Option String) (limit : ℕ) :
    listPageBytes drv p ready pre cursor limit = some (listPage drv p ready pre cursor limit) := by
  rw [listPage_eq_page]
  cases cursor with
  | none => rfl
  | some t =>
    unfold listPageBytes listStart
    simp only [Option.elim_some, head_asBytes_iff (d := 'i') (b := 0x69) (by decide) rfl,
      head_asBytes_iff (d := 's') (b := 0x73) (by decide) rfl]
    split
    · next h =>
      rw [sliceFromOne_of_head rfl h]
      rfl
    · split
      · next h =>
        rw [sliceFromOne_of_head rfl h]
        rfl
      · rfl

/-! ## Inside a prefix -/

/-- **A page inside a prefix**: its entries are of callers' keys with the
prefix, each as the store had it at that key. -/
def InsidePrefix (p pre : String) (page : KvPage) (d : Conn) : Prop :=
  ∀ e ∈ page.entries, StartsWith pre e.1 ∧ AsRead d (fullKey p e.1) e.2

/-- **A program whose pages are inside a prefix**, on a connection. -/
def StaysInside (p pre : String) (x : Client KvPage) (c : Conn) : Prop :=
  ∀ page d, x c = (.ok page, d) → InsidePrefix p pre page d

/-- Keys with the prefix give entries inside it. -/
theorem insidePrefix_of_keys {page : KvPage} (hf : Fetched p d page.keys page.entries)
    (hk : ∀ k ∈ page.keys, StartsWith (fullKey p pre) k) : InsidePrefix p pre page d := by
  intro e he
  obtain ⟨k, hmem, hkey, hread⟩ := hf.asRead e he
  obtain ⟨key, rfl, hpre⟩ := startsWith_fullKey_iff.mp (hk k hmem)
  rw [logicalKey_fullKey] at hkey
  rw [hkey]
  exact ⟨hpre, hread⟩

/-- **The keys of a page from the index** are in its range; its limit is one
the server reads. -/
theorem indexPage_keys {after : Option String} {limit : ℕ} {page : KvPage}
    (h : indexPage drv p pre after limit c = (.ok page, d)) :
    limit + 1 < 2 ^ 63 ∧ (∀ k ∈ page.keys,
      k ∈ c.turn.redis.lexRange (indexKey p) (pageMin p pre after) (pageMax p pre))
      ∧ Fetched p d page.keys page.entries := by
  obtain ⟨found, c₁, hfound, he, hkeys, -⟩ := indexPage_eq_ok h
  have hr := Client.exec_ok_turn hfound
  obtain rfl := zrangebylex_eq_ok hr
  refine ⟨?_, fun k hk => ?_, (fetchEntries_spec he).2⟩
  swap
  · rw [hkeys] at hk
    exact List.mem_of_mem_take (List.mem_of_mem_take hk)
  by_contra hle
  rw [zrangebylex, if_pos (not_lt.mp hle)] at hr
  cases hr

/-- **What a scan's replies are**: keys its pattern matches. -/
def Matching (pattern : String) (c : Conn) : Prop :=
  ∀ r ∈ c.scans, ∀ k ∈ r.2, KeyMatch pattern k

/-- A loop of scans adds keys that match. -/
theorem scanFill_keys {pattern : String} {limit fuel : ℕ} {st st' : ScanCursor}
    (hc : Matching pattern c) (h : scanFill pattern limit fuel st c = (.ok st', d)) :
    ∃ more, st'.pending = st.pending ++ more ∧ ∀ k ∈ more, KeyMatch pattern k := by
  induction fuel generalizing st c with
  | zero =>
    obtain ⟨hst, -⟩ := Prod.mk.inj h
    obtain rfl := Except.ok.inj hst
    exact ⟨[], (List.append_nil _).symm, fun k hk => absurd hk (List.not_mem_nil)⟩
  | succ fuel ih =>
    rw [scanFill] at h
    split at h
    · obtain ⟨r, c₁, hscan, h⟩ := Client.bind_eq_ok.mp h
      cases hs : c.scans with
      | nil =>
        rw [Client.scan, hs] at hscan
        cases hscan
      | cons r' rs =>
        rw [Client.scan, hs] at hscan
        obtain ⟨hr, rfl⟩ := Prod.mk.inj hscan
        obtain rfl : r' = r := Except.ok.inj hr
        have hrs : Matching pattern (c.answered rs (st.scan, pattern)) :=
          fun q hq => hc q (hs ▸ List.mem_cons_of_mem r' hq)
        obtain ⟨more, hmore, hmatch⟩ := ih hrs h
        refine ⟨r'.2 ++ more, ?_, fun k hk => ?_⟩
        · rw [hmore, List.append_assoc]
        · rcases List.mem_append.mp hk with hk | hk
          · exact hc r' (hs ▸ List.mem_cons_self) k hk
          · exact hmatch k hk
    · obtain ⟨hst, -⟩ := Prod.mk.inj h
      obtain rfl := Except.ok.inj hst
      exact ⟨[], (List.append_nil _).symm, fun k hk => absurd hk (List.not_mem_nil)⟩

/-- **The keys of a page from a scan** were pending, or match. -/
theorem scanPage_keys {st : ScanCursor} {limit : ℕ} {page : KvPage}
    (hc : Matching (listPattern p pre) c) (h : scanPage drv p pre st limit c = (.ok page, d)) :
    (∀ k ∈ page.keys, k ∈ st.pending.take limit ∨ KeyMatch (listPattern p pre) k)
      ∧ Fetched p d page.keys page.entries := by
  obtain ⟨⟨keys, next⟩, c₁, hk, h⟩ := Client.bind_eq_ok.mp h
  obtain ⟨entries, c₂, he, h⟩ := Client.bind_eq_ok.mp h
  obtain ⟨st', c₃, hfill, hk⟩ := Client.bind_eq_ok.mp hk
  obtain ⟨hpg, rfl⟩ := Prod.mk.inj h
  obtain ⟨hkn, rfl⟩ := Prod.mk.inj hk
  obtain rfl := Except.ok.inj hpg
  obtain ⟨rfl, rfl⟩ := Prod.mk.inj (Except.ok.inj hkn)
  obtain ⟨more, hmore, hmatch⟩ := scanFill_keys hc hfill
  refine ⟨fun k hk => ?_, (fetchEntries_spec he).2⟩
  have hk : k ∈ (st.pending ++ more).take limit := hmore ▸ hk
  rw [List.take_append] at hk
  rcases List.mem_append.mp hk with hk | hk
  · exact Or.inl hk
  · exact Or.inr (hmatch k (List.mem_of_mem_take hk))

/-- What a listing's pattern matches has its prefix. -/
theorem startsWith_of_keyMatch {k : String} (h : KeyMatch (listPattern p pre) k) :
    StartsWith (fullKey p pre) k := by
  by_cases hp : fullKey p pre = ""
  · rw [hp]
    exact List.nil_prefix
  · exact (keyMatch_globEscape hp).mp h

/-- **A start inside a prefix**: a key with no key after it and below the
prefix, or a state whose first pending keys have the prefix. A limit the
server does not read, or a text that is no state, gives no page. -/
def ListStart.Inside (p pre : String) (limit : ℕ) : ListStart → Prop
  | first => True
  | after full => 2 ^ 63 ≤ max limit 1 + 1 ∨ utf8 (fullKey p pre) ≤ utf8 (full ++ "\x00")
  | resume text => ∀ st, ScanCursor.ofText text = some st →
    ∀ k ∈ st.pending.take (max limit 1), StartsWith (fullKey p pre) k

/-- The key after a key. -/
theorem utf8_lt_iff {z x : String} : utf8 z < utf8 x ↔ utf8 (z ++ "\x00") ≤ utf8 x := by
  rw [utf8_append, lex_lt_iff_append_bot_le]
  rfl

/-- The index lists data keys alone. -/
def ListsData (p : String) (s : Redis) : Prop := ∀ k, s.Mem (indexKey p) k → IsDataKey p k

/-- Every key starts with nothing. -/
theorem startsWith_empty (k : String) : StartsWith "" k := List.nil_prefix

/-- The data keys are the keys under the empty prefix. -/
theorem isDataKey_iff_startsWith {k : String} : IsDataKey p k ↔ StartsWith (fullKey p "") k := by
  rw [startsWith_fullKey_iff]
  exact exists_congr (fun c => ⟨fun h => ⟨h, List.nil_prefix⟩, And.left⟩)

/-- **From a start inside the prefix, so is the page.** -/
theorem ListStart.Inside.staysInside {start : ListStart} {limit : ℕ} (ready : Bool)
    (h : start.Inside p pre limit) (hc : Matching (listPattern p pre) c) :
    StaysInside p pre (start.page drv p ready pre limit) c := by
  intro page d hpage
  cases start with
  | first =>
    cases ready with
    | true =>
      have hnone : IsCursor p pre none := fun z hz => nomatch hz
      obtain ⟨-, hk, hf⟩ := indexPage_keys hpage
      exact insidePrefix_of_keys hf (fun k hmem => startsWith_of_mem_range hnone (hk k hmem))
    | false =>
      obtain ⟨hk, hf⟩ := scanPage_keys hc hpage
      refine insidePrefix_of_keys hf (fun k hmem => ?_)
      rcases hk k hmem with hpend | hmatch
      · exact absurd hpend (by simp [ScanCursor.start])
      · exact startsWith_of_keyMatch hmatch
  | after full =>
    obtain ⟨hlim, hk, hf⟩ := indexPage_keys hpage
    rcases h with hbig | hle
    · omega
    · refine insidePrefix_of_keys hf (fun k hmem => startsWith_of_le (hk k hmem) ?_)
      exact hle.trans (utf8_lt_iff.mp (after_some.mp (mem_lexRange.mp (hk k hmem)).2.1))
  | resume text =>
    obtain ⟨st, c₁, hst, hpage⟩ := Client.bind_eq_ok.mp hpage
    unfold scanState at hst
    split at hst
    · next st' htext =>
      obtain ⟨hok, rfl⟩ := Prod.mk.inj hst
      obtain rfl : st' = st := Except.ok.inj hok
      obtain ⟨hk, hf⟩ := scanPage_keys hc hpage
      refine insidePrefix_of_keys hf (fun k hmem => ?_)
      rcases hk k hmem with hpend | hmatch
      · exact h st' htext k hpend
      · exact startsWith_of_keyMatch hmatch
    · cases hst

/-- **A listing of everything is inside** wherever the index lists data keys
alone. -/
theorem indexPage_staysInside {after : Option String} {limit : ℕ} (hc : c.Holds (ListsData p)) :
    StaysInside p "" (indexPage drv p "" after limit) c := by
  intro page d hpage
  obtain ⟨-, hk, hf⟩ := indexPage_keys hpage
  refine insidePrefix_of_keys hf (fun k hmem => isDataKey_iff_startsWith.mp ?_)
  exact hc.turn.redis k (mem_lexRange.mp (hk k hmem)).1

/-! ## Outside a prefix -/

/-- An entry is of a key that held a string. -/
theorem AsRead.exists_str {k : String} {e : Entry} (h : AsRead d k e) :
    ∃ s ∈ d.seen, ∃ b x, s.lookup k = some ⟨.str b, x⟩ := by
  obtain ⟨r, ⟨s, hs, -, -, hget, -⟩, t, -, hentry⟩ := h
  obtain ⟨b, hb⟩ : ∃ b, r.1 = some b := by
    cases hr : r.1 with
    | none =>
      rw [hr] at hentry
      cases hentry
    | some b => exact ⟨b, rfl⟩
  refine ⟨s, hs, ?_⟩
  rw [hb] at hget
  cases hl : s.lookup k with
  | none =>
    rw [Redis.get_absent hl] at hget
    cases hget
  | some o =>
    obtain ⟨v, x⟩ := o
    cases v with
    | zset z =>
      rw [Redis.get_zset hl] at hget
      cases hget
    | str b' => exact ⟨b', x, rfl⟩

/-- **A page with the one string there is** is inside only if that has the
prefix. -/
theorem startsWith_of_insidePrefix {page : KvPage} {k : String} (h : InsidePrefix p pre page d)
    (hmem : logicalKey p k ∈ page.entries.map Prod.fst)
    (hone : ∀ s ∈ d.seen, ∀ x b e, s.lookup x = some ⟨.str b, e⟩ → x = k) :
    StartsWith (fullKey p pre) k := by
  obtain ⟨e, he, hkey⟩ := List.mem_map.mp hmem
  obtain ⟨hpre, hread⟩ := h e he
  obtain ⟨s, hs, b, x, hl⟩ := hread.exists_str
  rw [← hone s hs _ b x hl]
  exact startsWith_fullKey_iff.mpr ⟨e.1, rfl, hpre⟩

/-- A server with one string. -/
def loneString (k : String) : Redis := (Redis.empty 0).put k ⟨.str [1], none⟩

theorem loneString_lookup (k : String) : (loneString k).lookup k = some ⟨.str [1], none⟩ := by
  exact lookup_put_self _ rfl

theorem eq_of_loneString {k x : String} {o : Obj} (h : (loneString k).lookup x = some o) :
    x = k := by
  by_contra hne
  rw [loneString, lookup_put_of_ne _ hne] at h
  cases h

/-- It has no sorted set. -/
theorem not_mem_loneString (k z x : String) : ¬ (loneString k).Mem z x := by
  have hmembers : (loneString k).zmembers z = ∅ := by
    unfold zmembers
    split
    · next m e hl =>
      obtain rfl := eq_of_loneString hl
      rw [loneString_lookup] at hl
      cases hl
    · rfl
  intro h
  rw [Redis.Mem, Redis.score, hmembers] at h
  cases h

/-- A connection to it, and a scan that returns nothing. -/
def loneConn (k : String) : Conn := ⟨loneString k, [], [(0, [])], id, [], []⟩

/-- The same string, in the index. -/
def loneIndexed (p k : String) : Conn :=
  ⟨(loneString k).zins (indexKey p) k 0, [], [], id, [], []⟩

/-- **One string is fetched** where nobody else comes between. -/
theorem fetchEntries_one (drv : Driver) (p : String) {k : String} {b : List UInt8}
    (ho : c.others = []) (h : c.redis.lookup k = some ⟨.str b, none⟩) (prune : Bool) :
    ∃ d, fetchEntries drv p [k] prune c = (.ok [(logicalKey p k, ⟨b, none⟩)], d)
      ∧ d.seen = c.seen ++ [c.redis] ++ [c.redis] := by
  have hget : Client.exec (redisErr drv) (Redis.get k) c
      = (.ok (some b), { c with seen := c.seen ++ [c.redis] }) :=
    Client.exec_alone ho (Redis.get_str h)
  have hpttl : Client.exec (redisErr drv) (Redis.pttl k) { c with seen := c.seen ++ [c.redis] }
      = (.ok (-1), { c with seen := c.seen ++ [c.redis] ++ [c.redis] }) := by
    refine Client.exec_alone ho ?_
    rw [Redis.pttl, Redis.pttlReply, h]
  have hreplies : pipeReplies drv [k] c
      = (.ok [(some b, -1)], { c with seen := c.seen ++ [c.redis] ++ [c.redis] }) := by
    rw [pipeReplies, Client.bind_ok hget, Client.bind_ok hpttl]
    rfl
  refine ⟨{ c with seen := c.seen ++ [c.redis] ++ [c.redis] }, ?_, rfl⟩
  have hprune : pruneGone drv p prune [] = pure () := if_neg (fun hgone => hgone.2 rfl)
  rw [fetchEntries, if_neg (List.cons_ne_nil k []), Client.bind_ok hreplies]
  show (pruneGone drv p prune [] >>= fun _ => _) _ = _
  rw [hprune]
  rfl

theorem zkey_loneIndexed {k : String} (hne : k ≠ indexKey p) :
    (loneIndexed p k).redis.ZKey (indexKey p) :=
  ZKey.zins _ (fun _ ho => absurd (eq_of_loneString ho) hne.symm)

/-- The string is all there is in a range of the index. -/
theorem lexRange_loneIndexed {lo hi : LexBound} {k : String} (hlo : lo.above (utf8 k) = true)
    (hhi : hi.below (utf8 k) = true) :
    (loneIndexed p k).redis.lexRange (indexKey p) lo hi = [k] := by
  have hnodup : ((loneIndexed p k).redis.lexRange (indexKey p) lo hi).Nodup := by
    refine pairwise_lexRange.imp (fun {x y} hxy he => ?_)
    rw [he] at hxy
    exact lt_irrefl _ hxy
  refine List.perm_singleton.mp
    ((List.perm_ext_iff_of_nodup hnodup (List.nodup_singleton k)).mpr (fun x => ?_))
  rw [mem_lexRange, List.mem_singleton]
  constructor
  · rintro ⟨hm, -, -⟩
    exact ((mem_zins _).mp hm).resolve_right (not_mem_loneString k _ x)
  · rintro rfl
    exact ⟨(mem_zins _).mpr (Or.inl rfl), hlo, hhi⟩

/-- **A page of the index of one string.** -/
theorem indexPage_loneIndexed (drv : Driver) {after : Option String} {limit : ℕ} {k : String}
    (hne : k ≠ indexKey p) (hlim : 0 < limit) (hlt : limit + 1 < 2 ^ 63)
    (hlo : (pageMin p pre after).above (utf8 k) = true)
    (hhi : (pageMax p pre).below (utf8 k) = true) :
    ∃ page d, indexPage drv p pre after limit (loneIndexed p k) = (.ok page, d)
      ∧ logicalKey p k ∈ page.entries.map Prod.fst
      ∧ ∀ s ∈ d.seen, s = (loneIndexed p k).redis := by
  have hlook : (loneIndexed p k).redis.lookup k = some ⟨.str [1], none⟩ :=
    (lookup_zins_of_ne _ hne).trans (loneString_lookup k)
  have hrun : Redis.zrangebylex (indexKey p) (pageMin p pre after) (pageMax p pre) (limit + 1)
      (loneIndexed p k).redis = (.ok [k], (loneIndexed p k).redis) := by
    rw [zrangebylex, if_neg (not_le.mpr hlt), onZSet_run (zkey_loneIndexed hne),
      lexRange_loneIndexed hlo hhi]
    exact congrArg (fun l => (Except.ok l, _)) (List.take_of_length_le (Nat.le_add_left 1 limit))
  have hfound : Client.exec (redisErr drv) (Redis.zrangebylex (indexKey p) (pageMin p pre after)
      (pageMax p pre) (limit + 1)) (loneIndexed p k)
      = (.ok [k], { loneIndexed p k with seen := [(loneIndexed p k).redis] }) :=
    Client.exec_alone rfl hrun
  have hkeys : indexKeys drv p pre after limit (loneIndexed p k)
      = (.ok ([k], none), { loneIndexed p k with seen := [(loneIndexed p k).redis] }) := by
    have htake : [k].take limit = [k] := List.take_of_length_le hlim
    have hlen : ¬ limit < [k].length := not_lt.mpr hlim
    rw [indexKeys, Client.bind_ok hfound, htake, if_neg hlen]
    rfl
  obtain ⟨d, hfetch, hseen⟩ := fetchEntries_one drv p (rfl : Conn.others { loneIndexed p k with
    seen := [(loneIndexed p k).redis] } = []) hlook true
  refine ⟨⟨[(logicalKey p k, ⟨[1], none⟩)], none, [k]⟩, d, ?_, List.mem_singleton.mpr rfl, ?_⟩
  · rw [indexPage, Client.bind_ok hkeys]
    show (fetchEntries drv p [k] true >>= fun entries => _) _ = _
    rw [Client.bind_ok hfetch]
    rfl
  · intro s hs
    rw [hseen] at hs
    simpa using hs

/-- **A page of pending keys, one of which is there.** -/
theorem scanPage_loneConn (drv : Driver) (p pre : String) (st : ScanCursor) {limit : ℕ}
    {k : String} (hk : k ∈ st.pending.take limit) :
    ∃ page d, scanPage drv p pre st limit (loneConn k) = (.ok page, d)
      ∧ logicalKey p k ∈ page.entries.map Prod.fst
      ∧ ∀ s ∈ d.seen, s = loneString k := by
  have hholds : (loneConn k).Holds (· = loneString k) := .alone rfl rfl rfl
  -- the scan, if it is asked at all, adds nothing
  have hfill : ∃ st' d, scanFill (listPattern p pre) limit 2 st (loneConn k) = (.ok st', d)
      ∧ st'.pending = st.pending ∧ d.Holds (· = loneString k) := by
    by_cases hgo : st.pending.length < limit ∧ st.done = false
    · refine ⟨⟨0, st.pending ++ [], true⟩, _, ?_, List.append_nil _,
        hholds.answered [] (st.scan, listPattern p pre)⟩
      rw [scanFill, if_pos hgo, Client.bind_ok (rfl : Client.scan scanLost st.scan
        (listPattern p pre) (loneConn k) = (.ok (0, []), _))]
      show scanFill (listPattern p pre) limit 1 ⟨0, st.pending ++ [], true⟩ _ = _
      rw [scanFill, if_neg (fun h => Bool.noConfusion h.2)]
      rfl
    · refine ⟨st, loneConn k, ?_, rfl, hholds⟩
      rw [scanFill, if_neg hgo]
      rfl
  obtain ⟨st', c₁, hrun, hpend, hc₁⟩ := hfill
  have hkeys : scanKeys p pre st limit (loneConn k) = (.ok (st.pending.take limit,
      scanNext { st' with pending := st.pending.drop limit }), c₁) := by
    unfold scanKeys
    rw [← hpend]
    exact Client.bind_ok hrun
  have hget : ∀ x ∈ st.pending.take limit, ∀ s, s = loneString k →
      ∃ b, (Redis.get x s).1 = .ok b := by
    rintro x - s rfl
    refine get_of_string (fun o ho => ?_)
    obtain rfl := eq_of_loneString ho
    rw [loneString_lookup] at ho
    exact ⟨[1], congrArg Obj.value (Option.some.inj ho).symm⟩
  obtain ⟨out, d, hout, hd, -⟩ := fetchEntries_returns (p := p) drv hget false
    (fun he => Bool.noConfusion he) c₁ hc₁
  obtain ⟨-, hf⟩ := fetchEntries_spec hout
  refine ⟨⟨out, scanNext { st' with pending := st.pending.drop limit }, st.pending.take limit⟩, d,
    ?_, hf.found k hk (fun s hs => ?_), hd.seen⟩
  · rw [scanPage, Client.bind_ok hkeys]
    show (fetchEntries drv p (st.pending.take limit) false >>= fun entries => _) c₁ = _
    rw [Client.bind_ok hout]
    rfl
  · rw [hd.seen s hs, Redis.Live, loneString_lookup]
    rfl

/-- The key after a key is no index. -/
theorem next_ne_indexKey (full : String) : full ++ "\x00" ≠ indexKey p := by
  intro h
  have hlast := congrArg (fun t : String => t.toList.getLast?) h
  simp [indexKey] at hlast

/-- **A key between the cursor's and the prefix** is listed. -/
theorem not_staysInside_after (ready : Bool) {full k : String} {limit : ℕ} (hne : k ≠ indexKey p)
    (hlim : ¬ 2 ^ 63 ≤ max limit 1 + 1) (hlo : utf8 full < utf8 k)
    (hhi : utf8 k < utf8 (fullKey p pre)) :
    ¬ StaysInside p pre ((ListStart.after full).page drv p ready pre limit) (loneIndexed p k) := by
  intro h
  have hbelow : (pageMax p pre).below (utf8 k) = true :=
    decide_eq_true_iff.mpr (hhi.trans_le (lex_le_append _ _))
  obtain ⟨page, d, hrun, hmem, hseen⟩ := indexPage_loneIndexed drv hne
    (Nat.lt_of_lt_of_le Nat.one_pos (le_max_right limit 1)) (not_le.mp hlim)
    (after_some.mpr hlo) hbelow
  have hpre := startsWith_of_insidePrefix (h page d hrun) hmem (fun s hs x b e hl => ?_)
  · exact absurd (le_of_startsWith hpre) (not_le.mpr hhi)
  · rw [hseen s hs] at hl
    by_cases hx : x = indexKey p
    · subst hx
      have hz : (loneIndexed p k).redis.lookup (indexKey p) = some ⟨.zset _, _⟩ :=
        lookup_put_self _ (liveAt_zins _)
      rw [hz] at hl
      cases hl
    · exact eq_of_loneString ((lookup_zins_of_ne _ hx).symm.trans hl)

/-- **A pending key without the prefix** is listed. -/
theorem not_staysInside_resume (ready : Bool) {text k : String} {st : ScanCursor} {limit : ℕ}
    (hst : ScanCursor.ofText text = some st) (hk : k ∈ st.pending.take (max limit 1))
    (hnot : ¬ StartsWith (fullKey p pre) k) :
    ¬ StaysInside p pre ((ListStart.resume text).page drv p ready pre limit) (loneConn k) := by
  intro h
  obtain ⟨page, d, hrun, hmem, hseen⟩ := scanPage_loneConn drv p pre st hk
  have hstate : scanState text (loneConn k) = (.ok st, loneConn k) := by rw [scanState, hst]
  refine hnot (startsWith_of_insidePrefix (h page d ?_) hmem (fun s hs x b e hl => ?_))
  · exact (Client.bind_ok hstate).trans hrun
  · rw [hseen s hs] at hl
    exact eq_of_loneString hl

/-- A data key between, if there is any key. -/
theorem exists_between {full : String} (hpre : pre ≠ "")
    (h : ¬ utf8 (fullKey p pre) ≤ utf8 (full ++ "\x00")) :
    ∃ k, IsDataKey p k ∧ k ≠ indexKey p ∧ utf8 full < utf8 k ∧ utf8 k < utf8 (fullKey p pre) := by
  have hnext : utf8 full < utf8 (full ++ "\x00") := utf8_lt_iff.mpr le_rfl
  by_cases hle : utf8 (fullKey p "") ≤ utf8 (full ++ "\x00")
  · -- the next key is past the first data key, and below the end of them
    refine ⟨full ++ "\x00", isDataKey_iff_startsWith.mpr ?_, next_ne_indexKey full, hnext,
      not_le.mp h⟩
    refine (utf8_mem_range_iff _ _).mp ⟨hle, (not_le.mp h).trans ?_⟩
    have hdata : StartsWith (fullKey p "") (fullKey p pre) :=
      startsWith_fullKey_iff.mpr ⟨pre, rfl, List.nil_prefix⟩
    exact ((utf8_mem_range_iff _ _).mpr hdata).2
  · refine ⟨fullKey p "", ⟨"", rfl⟩, ?_, utf8_lt_iff.mpr (not_le.mp hle).le, ?_⟩
    · by_cases hp : p = ""
      · subst hp
        exact absurd (le_of_startsWith (startsWith_empty _)) hle
      · exact fullKey_ne_indexKey hp ""
    · rw [utf8_fullKey_lt_iff]
      exact lt_of_le_of_ne (le_of_startsWith (startsWith_empty _))
        (fun he => hpre (utf8_injective he).symm)

/-- The scan of the lone string matches, as it returns nothing. -/
theorem matching_loneConn (pattern k : String) : Matching pattern (loneConn k) := by
  intro r hr x hx
  rw [List.mem_singleton.mp hr] at hx
  cases hx

theorem matching_loneIndexed (pattern p k : String) : Matching pattern (loneIndexed p k) :=
  fun _ hr => absurd hr List.not_mem_nil

/-- The lone string is in no index. -/
theorem holds_loneConn (p k : String) : (loneConn k).Holds (ListsData p) :=
  .alone rfl rfl (fun x hx => absurd hx (not_mem_loneString k _ x))

/-- The index lists the lone string. -/
theorem holds_loneIndexed {p k : String} (hk : IsDataKey p k) :
    (loneIndexed p k).Holds (ListsData p) := by
  refine .alone rfl rfl (fun x hx => ?_)
  rwa [((mem_zins _).mp hx).resolve_right (not_mem_loneString k _ x)]

/-- **What starts inside whatever the store holds** is inside. -/
theorem ListStart.inside_of_forall {start : ListStart} {limit : ℕ} (ready : Bool)
    (h : ∀ c, Matching (listPattern p pre) c →
      StaysInside p pre (start.page drv p ready pre limit) c) : start.Inside p pre limit := by
  cases start with
  | first => exact trivial
  | after full =>
    by_contra hnot
    obtain ⟨hlim, hle⟩ := not_or.mp hnot
    exact not_staysInside_after ready (next_ne_indexKey full) hlim (utf8_lt_iff.mpr le_rfl)
      (not_le.mp hle) (h _ (matching_loneIndexed _ p _))
  | resume text =>
    intro st hst k hk
    by_contra hnot
    exact not_staysInside_resume ready hst hk hnot (h _ (matching_loneConn _ k))

/-- **What starts inside wherever the index lists data keys alone** is inside,
or lists everything. -/
theorem ListStart.inside_of_forall_data {start : ListStart} {limit : ℕ} (ready : Bool)
    (h : ∀ c, Matching (listPattern p pre) c → c.Holds (ListsData p) →
      StaysInside p pre (start.page drv p ready pre limit) c) :
    start.Inside p pre limit ∨ pre = "" ∧ ∃ full, start = .after full := by
  cases start with
  | first => exact Or.inl trivial
  | after full =>
    by_contra hnot
    obtain ⟨hnot, hpre⟩ := not_or.mp hnot
    obtain ⟨hlim, hle⟩ := not_or.mp hnot
    obtain ⟨k, hk, hne, hlo, hhi⟩ := exists_between (fun he => hpre ⟨he, full, rfl⟩) hle
    exact not_staysInside_after ready hne hlim hlo hhi
      (h _ (matching_loneIndexed _ p k) (holds_loneIndexed hk))
  | resume text =>
    refine Or.inl (fun st hst k hk => ?_)
    by_contra hnot
    exact not_staysInside_resume ready hst hk hnot
      (h _ (matching_loneConn _ k) (holds_loneConn p k))

/-- **A listing is inside its prefix exactly when its cursor is.** Over all
states of the server, a page is inside the prefix whatever the store holds
exactly when it starts from the first page, from a key with no key after it
and below the prefix, or from a state whose first pending keys have the
prefix. Over the states whose index lists data keys alone, a listing of
everything is inside from any key as well. A text that is no state is refused
as a precondition, and no cursor makes the listing panic. -/
theorem listPage_inside_iff (drv : Driver) (p : String) (ready : Bool) (pre : String)
    (cursor : Option String) (limit : ℕ) :
    ((∀ c, Matching (listPattern p pre) c →
        StaysInside p pre (listPage drv p ready pre cursor limit) c)
      ↔ (listStart cursor).Inside p pre limit)
    ∧ ((∀ c, Matching (listPattern p pre) c → c.Holds (ListsData p) →
        StaysInside p pre (listPage drv p ready pre cursor limit) c)
      ↔ (listStart cursor).Inside p pre limit
        ∨ pre = "" ∧ ∃ full, listStart cursor = .after full)
    ∧ (∀ text, listStart cursor = .resume text → ScanCursor.ofText text = none → ∀ c,
        listPage drv p ready pre cursor limit c
          = (.error (.precondition "redis kv list: not a cursor of this store"), c))
    ∧ listPageBytes drv p ready pre cursor limit
      = some (listPage drv p ready pre cursor limit) := by
  rw [listPage_eq_page]
  refine ⟨⟨ListStart.inside_of_forall ready, fun h c hc => h.staysInside ready hc⟩,
    ⟨ListStart.inside_of_forall_data ready, fun h c hc hd => ?_⟩, fun text hs ht c => ?_, ?_⟩
  · rcases h with h | ⟨rfl, full, hs⟩
    · exact h.staysInside ready hc
    · rw [hs]
      exact indexPage_staysInside hd
  · rw [hs]
    show (scanState text >>= fun st => _) c = _
    rw [Client.bind_apply, scanState, ht]
  · rw [listPageBytes_eq_some, listPage_eq_page]

/-- A store with two keys under `a`, one under `b`, and a key of someone
else. -/
def twoPrefixes : Conn where
  redis := (((((((Redis.empty 0).put "p:a1" ⟨.str [1], none⟩).put "p:a2" ⟨.str [2], none⟩).put
    "p:b1" ⟨.str [3], none⟩).put "other:key" ⟨.str [4], none⟩).zins "p#kv-index" "p:a1" 0).zins
    "p#kv-index" "p:a2" 0).zins "p#kv-index" "p:b1" 0
  others := []
  scans := []
  clock := id
  seen := []
  scanned := []

/-- **A cursor takes a listing out of its prefix.** The cursor of a listing
under `a` makes one under `b` return a key under `a`; a state written by hand
makes it return a key that is not the store's. -/
theorem cursor_leaves_prefix :
    (listPage Driver.plain "p" true "a" none 1 twoPrefixes).1.map KvPage.next
        = .ok (some "ip:a1")
      ∧ (listPage Driver.plain "p" true "b" (some "ip:a1") 5 twoPrefixes).1.map
        (fun pg => pg.entries.map Prod.fst) = .ok ["a2", "b1"]
      ∧ (listPage Driver.plain "p" true "b"
        (some "s\x7b\"s\":0,\"p\":[\"other:key\"],\"d\":true\x7d") 5 twoPrefixes).1.map
        (fun pg => pg.entries) = .ok [("other:key", ⟨[4], none⟩)]
      ∧ ¬ ∀ cursor c, Matching (listPattern "p" "b") c →
        StaysInside "p" "b" (listPage Driver.plain "p" true "b" cursor 5) c := by
  have hrun : (listPage Driver.plain "p" true "b" (some "ip:a1") 5 twoPrefixes).1.map
      (fun pg => pg.entries.map Prod.fst) = .ok ["a2", "b1"] := by decide +kernel
  refine ⟨by decide +kernel, hrun, by decide +kernel, fun h => ?_⟩
  match hpage : listPage Driver.plain "p" true "b" (some "ip:a1") 5 twoPrefixes with
  | (.error e, d) =>
    rw [hpage] at hrun
    cases hrun
  | (.ok page, d) =>
    rw [hpage] at hrun
    have hkeys : page.entries.map Prod.fst = ["a2", "b1"] := Except.ok.inj hrun
    have hmem : "a2" ∈ page.entries.map Prod.fst := hkeys ▸ List.mem_cons_self
    obtain ⟨e, he, hkey⟩ := List.mem_map.mp hmem
    have hin := (h (some "ip:a1") twoPrefixes (fun r hr => absurd hr (List.not_mem_nil)) page d
      hpage e he).1
    rw [hkey] at hin
    exact absurd hin (by decide)

end RedisKv
