import ClusterRedis.Conn
import ClusterRedis.Cursor
import ClusterRedis.Kv

/-!
# Listings

A listing is read page by page. A page comes either from the key index, as
the next members of a byte range, or from a scan of the keyspace, whose
matches are carried over from page to page in the cursor. Either way the
page's keys are known first, with the cursor of the next page, and only then
are their values read: a key gone by then is left out of the page, but the
cursor does not move for it.

This module has the code, and what reading the values does
(`fetchEntries_spec`): of the keys looked up, those found are in the page in
the order they were looked up in, each as some state had it; a key there all
the while is found.
-/

namespace RedisKv

/-- **A page.** Beside what the caller gets, the keys that were looked
up for it. -/
structure KvPage where
  entries : List (String × Entry)
  next : Option String
  keys : List String

section Code

variable (drv : Driver) (p : String)

/-! ## Values -/

/-- `GET` and `PTTL` of every key, in one round trip. -/
def pipeReplies : List String → Client (List (Option (List UInt8) × ℤ))
  | [] => pure []
  | k :: ks => do
    let b ← Client.exec (redisErr drv) (Redis.get k)
    let ms ← Client.exec (redisErr drv) (Redis.pttl k)
    let rest ← pipeReplies ks
    pure ((b, ms) :: rest)

/-- The entry of a value and its `PTTL`; none for a key that is gone. -/
def pageEntry (clock : ℕ) (b : Option (List UInt8)) (ms : ℤ) : Option Entry :=
  b.bind (fun b =>
    if ms = -1 then some ⟨b, none⟩
    else if 0 ≤ ms then some ⟨b, some (clock + ms.toNat)⟩
    else none)

/-- The entries of a page, by the caller's keys. -/
def pageEntries (clock : ℕ) (found : List (String × Option (List UInt8) × ℤ)) :
    List (String × Entry) :=
  found.filterMap (fun r => (pageEntry clock r.2.1 r.2.2).map (fun e => (logicalKey p r.1, e)))

/-- The keys of a page that are gone. -/
def pageGone (clock : ℕ) (found : List (String × Option (List UInt8) × ℤ)) : List String :=
  found.filterMap (fun r => if (pageEntry clock r.2.1 r.2.2).isNone then some r.1 else none)

/-- Drop the index entries of keys that are gone, if there are any; a failure
is ignored. -/
def pruneGone (prune : Bool) (gone : List String) : Client Unit :=
  if prune = true ∧ gone ≠ [] then
    Client.attempt (Client.exec (redisErr drv) (pruneLua (indexKey p) (expiryKey p) gone))
  else pure ()

/-- **The live entries of keys**; the index entries of a key that is gone
are dropped when `prune`. -/
def fetchEntries (keys : List String) (prune : Bool) : Client (List (String × Entry)) :=
  if keys = [] then pure [] else do
    let replies ← pipeReplies drv keys
    let now ← Client.readClock
    pruneGone drv p prune (pageGone now (keys.zip replies))
    pure (pageEntries p now (keys.zip replies))

/-! ## Pages from the index -/

/-- The lower end of a page's range: after a key, or from the prefix. -/
def pageMin (pre : String) : Option String → Redis.LexBound
  | some full => .excl (utf8 full)
  | none => .incl (utf8 (fullKey p pre))

/-- The upper end: the prefix and a byte that UTF-8 never holds. -/
def pageMax (pre : String) : Redis.LexBound := .excl (utf8 (fullKey p pre) ++ [0xFF])

/-- The keys of a page from the index, and the cursor of the next. -/
def indexKeys (pre : String) (after : Option String) (limit : ℕ) :
    Client (List String × Option String) := do
  let found ← Client.exec (redisErr drv)
    (Redis.zrangebylex (indexKey p) (pageMin p pre after) (pageMax p pre) (limit + 1))
  let keys := found.take limit
  pure (keys, if limit < found.length then keys.getLast?.map ("i" ++ ·) else none)

/-- **A page from the key index**: the keys under a prefix after a key, in
byte order. -/
def indexPage (pre : String) (after : Option String) (limit : ℕ) : Client KvPage := do
  let (keys, next) ← indexKeys drv p pre after limit
  let entries ← fetchEntries drv p keys true
  pure ⟨entries, next, keys⟩

/-! ## Pages from a scan -/

/-- The pattern of the keys with a prefix. -/
def listPattern (pre : String) : String := globEscape (fullKey p pre) ++ "*"

/-- **Escaped patterns are exact**: with a star behind it, an escaped string
matches what starts with it, but never the empty string; and alone it matches
itself. The patterns of a listing and of a backfill are made so. -/
theorem escaped_pattern_exact (k s : String) :
    (KeyMatch (globEscape k ++ "*") s ↔ StartsWith k s ∧ s ≠ "")
      ∧ (KeyMatch (globEscape k) s ↔ s = k)
      ∧ (∀ p pre, listPattern p pre = globEscape (fullKey p pre) ++ "*")
      ∧ ∀ p, dataPattern p = globEscape (fullKey p "") ++ "*" := by
  refine ⟨?_, keyMatch_globEscape_self, fun p pre => rfl, fun p => ?_⟩
  · by_cases hs : s = ""
    · subst hs
      have hnil : utf8 (globEscape k ++ "*") = Glob.escape (utf8 k) ++ [Glob.star] := by
        rw [utf8_append, utf8_globEscape]
        rfl
      refine iff_of_false ?_ (fun h => h.2 rfl)
      rw [KeyMatch, hnil]
      cases Glob.escape (utf8 k) <;> exact Bool.false_ne_true
    · rw [KeyMatch, utf8_append, utf8_globEscape, show utf8 "*" = [Glob.star] from rfl,
        Glob.globMatch_escape_star _ _ (Or.inr (fun he => hs (utf8_injective he))),
        decide_eq_true_iff, utf8_prefix_iff]
      exact (and_iff_left hs).symm
  · by_cases hp : p = ""
    · subst hp
      rfl
    · refine String.toList_inj.mp ?_
      simp [dataPattern, fullKey, hp, globEscape, Glob.specialChar]

/-- **The empty string starts with itself and is not matched**: the matcher
gives up at the end of a string, and a star does not bring it back. -/
theorem escaped_pattern_empty : StartsWith "" "" ∧ ¬ KeyMatch (globEscape "" ++ "*") "" := by
  decide +kernel

/-- A scan that gets no reply. -/
def scanLost : ClusterError := .backendUnavailable "redis: connection lost"

/-- **Scan until the page is full or the scan is over.** One step for each
reply of the server; `fuel` is above their number. -/
def scanFill (pattern : String) (limit : ℕ) : (fuel : ℕ) → ScanCursor → Client ScanCursor
  | 0, st => pure st
  | fuel + 1, st =>
    if st.pending.length < limit ∧ st.done = false then do
      let (next, batch) ← Client.scan scanLost st.scan pattern
      scanFill pattern limit fuel ⟨next, st.pending ++ batch, next == 0⟩
    else pure st

/-- The cursor of the next page, if there is one. -/
def scanNext (st : ScanCursor) : Option String :=
  if st.done = true ∧ st.pending = [] then none else some ("s" ++ st.text)

/-- The keys of a page from a scan, and the cursor of the next. -/
def scanKeys (pre : String) (st : ScanCursor) (limit : ℕ) :
    Client (List String × Option String) := fun c => (do
  let st ← scanFill (listPattern p pre) limit (c.scans.length + 1) st
  pure (st.pending.take limit, scanNext { st with pending := st.pending.drop limit }) :
    Client (List String × Option String)) c

/-- **A page from a scan.** -/
def scanPage (pre : String) (st : ScanCursor) (limit : ℕ) : Client KvPage := do
  let (keys, next) ← scanKeys p pre st limit
  let entries ← fetchEntries drv p keys false
  pure ⟨entries, next, keys⟩

/-! ## Pages -/

/-- The state of a scan in a cursor. -/
def scanState (text : String) : Client ScanCursor := fun c =>
  match ScanCursor.ofText text with
  | some st => (.ok st, c)
  | none => (.error (.precondition "redis kv list: not a cursor of this store"), c)

/-- **A page of a listing.** The first page is read from the index if it is
ready, else from a scan; the others in the way of the first, which the cursor
tells. -/
def listPage (ready : Bool) (pre : String) (cursor : Option String) (limit : ℕ) :
    Client KvPage :=
  match cursor with
  | none =>
    if ready then indexPage drv p pre none (max limit 1)
    else scanPage drv p pre ScanCursor.start (max limit 1)
  | some c => match c.toList with
    | 'i' :: full => indexPage drv p pre (some (String.ofList full)) (max limit 1)
    | 's' :: text => do
      let st ← scanState (String.ofList text)
      scanPage drv p pre st (max limit 1)
    | _ => do
      let st ← scanState c
      scanPage drv p pre st (max limit 1)

/-- **A pass**: pages of the limits given, each from the cursor of the one
before, until there is none. -/
def listPass (ready : Bool) (pre : String) :
    (limits : List ℕ) → (cursor : Option String) → Client (List KvPage)
  | [], _ => pure []
  | limit :: limits, cursor => do
    let page ← listPage drv p ready pre cursor limit
    match page.next with
    | none => pure [page]
    | some c => do
      let pages ← listPass ready pre limits (some c)
      pure (page :: pages)

end Code

/-! ## What reading values does -/

section Fetch

variable {drv : Driver} {p : String} {c d : Conn}

/-- A reply is what some states had. -/
def Read (d : Conn) (k : String) (r : Option (List UInt8) × ℤ) : Prop :=
  ∃ s ∈ d.seen, ∃ t ∈ d.seen, (Redis.get k s).1 = .ok r.1 ∧ t.pttlReply k = r.2

theorem Read.mono {e : Conn} (h : d.Grows e) {k : String} {r : Option (List UInt8) × ℤ}
    (hr : Read d k r) : Read e k r := by
  obtain ⟨s, hs, t, ht, hb, hms⟩ := hr
  exact ⟨s, h.seen.subset hs, t, h.seen.subset ht, hb, hms⟩

theorem pipeReplies_spec {keys : List String} {rs : List (Option (List UInt8) × ℤ)}
    (h : pipeReplies drv keys c = (.ok rs, d)) :
    c.Follows d ∧ List.Forall₂ (Read d) keys rs
      ∧ (keys ≠ [] → ∃ t ∈ d.seen, d.redis.now = t.now) := by
  induction keys generalizing c d rs with
  | nil =>
    obtain ⟨rfl, rfl⟩ : rs = [] ∧ c = d := by
      have := Prod.mk.inj h
      exact ⟨(Except.ok.inj this.1).symm, this.2⟩
    exact ⟨Conn.Follows.refl c, List.Forall₂.nil, fun h => absurd rfl h⟩
  | cons k ks ih =>
    obtain ⟨b, c₁, hb, h⟩ := Client.bind_eq_ok.mp h
    obtain ⟨ms, c₂, hms, h⟩ := Client.bind_eq_ok.mp h
    obtain ⟨rest, c₃, hrest, h⟩ := Client.bind_eq_ok.mp h
    obtain ⟨hf₁, s, hs, hget, -⟩ := Client.exec_eq_ok hb
    obtain ⟨hf₂, t, ht, hpttl, hredis⟩ := Client.exec_eq_ok hms
    obtain ⟨hf₃, hall, hnow⟩ := ih hrest
    have hd := Prod.mk.inj h
    obtain rfl : (b, ms) :: rest = rs := Except.ok.inj hd.1
    obtain rfl : c₃ = d := hd.2
    refine ⟨(hf₁.trans hf₂).trans hf₃, List.Forall₂.cons ?_ hall, fun _ => ?_⟩
    · exact ⟨s, (hf₂.trans hf₃).seen.subset hs, t, hf₃.seen.subset ht, hget, Except.ok.inj hpttl⟩
    · by_cases hks : ks = []
      · subst hks
        obtain rfl : c₂ = c₃ := congrArg Prod.snd hrest
        exact ⟨t, ht, congrArg Redis.now hredis⟩
      · exact hnow hks

theorem pruneGone_follows (drv : Driver) (p : String) (prune : Bool) (gone : List String)
    (c : Conn) : c.Follows (pruneGone drv p prune gone c).2 := by
  unfold pruneGone
  split
  · exact c.follows_redis _
  · exact Conn.Follows.refl c

/-- How a fetch goes: the replies, the clock, and what is made of them. -/
theorem fetchEntries_eq_ok {keys : List String} {prune : Bool} {out : List (String × Entry)}
    (h : fetchEntries drv p keys prune c = (.ok out, d)) :
    ∃ rs e, pipeReplies drv keys c = (.ok rs, e) ∧ e.Follows d
      ∧ out = pageEntries p (e.clock e.redis.now) (keys.zip rs) := by
  unfold fetchEntries at h
  by_cases hk : keys = []
  · rw [if_pos hk] at h
    obtain ⟨ho, rfl⟩ := Prod.mk.inj h
    subst hk
    exact ⟨[], c, rfl, Conn.Follows.refl c, (Except.ok.inj ho).symm⟩
  · rw [if_neg hk] at h
    obtain ⟨rs, e, hrs, h⟩ := Client.bind_eq_ok.mp h
    obtain ⟨now, e', hnow, h⟩ := Client.bind_eq_ok.mp h
    obtain ⟨hn, rfl⟩ := Prod.mk.inj hnow
    obtain rfl := Except.ok.inj hn
    obtain ⟨u, e₁, hprune, h⟩ := Client.bind_eq_ok.mp h
    obtain ⟨ho, rfl⟩ := Prod.mk.inj h
    refine ⟨rs, e, hrs, ?_, (Except.ok.inj ho).symm⟩
    have hfollows := pruneGone_follows drv p prune (pageGone (e.clock e.redis.now) (keys.zip rs)) e
    rwa [hprune] at hfollows

/-- A key that is there when it is read has an entry. -/
theorem exists_pageEntry {k : String} {r : Option (List UInt8) × ℤ} (hr : Read d k r)
    (hl : ∀ s ∈ d.seen, s.Live k) (clock : ℕ) : ∃ e, pageEntry clock r.1 r.2 = some e := by
  obtain ⟨s, hs, t, ht, hb, hms⟩ := hr
  obtain ⟨⟨v, x⟩, ho⟩ := Option.isSome_iff_exists.mp (hl s hs)
  obtain ⟨o, ho'⟩ := Option.isSome_iff_exists.mp (hl t ht)
  have hpttl : r.2 = -1 ∨ 0 ≤ r.2 := by
    rw [← hms, Redis.pttlReply, ho']
    obtain ⟨v', x'⟩ := o
    cases x' with
    | none => exact Or.inl rfl
    | some dl =>
      have hlive := Redis.liveAt_of_lookup ho'
      simp only [Obj.liveAt, Option.all_some, decide_eq_true_eq] at hlive
      exact Or.inr (by simpa using hlive)
  cases v with
  | zset z =>
    rw [Redis.get_zset ho] at hb
    cases hb
  | str b =>
    rw [Redis.get_str ho] at hb
    have hb' : some b = r.1 := Except.ok.inj hb
    rw [← hb', pageEntry, Option.bind_some]
    rcases hpttl with hms | hms
    · exact ⟨⟨b, none⟩, if_pos hms⟩
    · have hne : r.2 ≠ -1 := by omega
      exact ⟨⟨b, some (clock + r.2.toNat)⟩, by rw [if_neg hne, if_pos hms]⟩

/-- Picking out of a list and naming is within naming the list. -/
theorem sublist_map_filterMap {α β γ : Type} (f : α → Option β) (g : α → γ)
    (l : List α) :
    List.Sublist ((l.filterMap (fun a => (f a).map (fun b => (g a, b)))).map Prod.fst)
      (l.map g) := by
  induction l with
  | nil => exact List.Sublist.refl _
  | cons a l ih =>
    rw [List.filterMap_cons]
    cases hfa : f a with
    | none => exact ih.cons _
    | some b => exact ih.cons_cons _

/-- An entry is what some states and the clock made of a key. -/
def AsRead (d : Conn) (k : String) (e : Entry) : Prop :=
  ∃ r, Read d k r ∧ ∃ t ∈ d.seen, pageEntry (d.clock t.now) r.1 r.2 = some e

theorem AsRead.mono {e : Conn} (h : d.Grows e) {k : String} {x : Entry} (hr : AsRead d k x) :
    AsRead e k x := by
  obtain ⟨r, hread, t, ht, hx⟩ := hr
  exact ⟨r, hread.mono h, t, h.seen.subset ht, h.clock ▸ hx⟩

/-- **What a fetch returns**: entries of keys that were looked up, in order;
every key that was there all the while; and every entry as it was read. -/
structure Fetched (p : String) (d : Conn) (keys : List String) (out : List (String × Entry)) :
    Prop where
  returned : List.Sublist (out.map Prod.fst) (keys.map (logicalKey p))
  found : ∀ k ∈ keys, (∀ s ∈ d.seen, s.Live k) → logicalKey p k ∈ out.map Prod.fst
  asRead : ∀ x ∈ out, ∃ k ∈ keys, x.1 = logicalKey p k ∧ AsRead d k x.2

theorem Fetched.mono {e : Conn} {keys : List String} {out : List (String × Entry)}
    (h : d.Grows e) (hf : Fetched p d keys out) : Fetched p e keys out where
  returned := hf.returned
  found := fun k hk hl => hf.found k hk (fun s hs => hl s (h.seen.subset hs))
  asRead := by
    intro x hx
    obtain ⟨k, hk, hkey, hr⟩ := hf.asRead x hx
    exact ⟨k, hk, hkey, hr.mono h⟩

theorem fetchEntries_spec {keys : List String} {prune : Bool} {out : List (String × Entry)}
    (h : fetchEntries drv p keys prune c = (.ok out, d)) : c.Follows d ∧ Fetched p d keys out := by
  obtain ⟨rs, e, hrs, hf, rfl⟩ := fetchEntries_eq_ok h
  obtain ⟨hc, hall, hnow⟩ := pipeReplies_spec hrs
  obtain ⟨hlen, hzip⟩ := List.forall₂_iff_zip.mp hall
  refine ⟨hc.trans hf, Fetched.mono hf.toGrows ⟨?_, ?_, ?_⟩⟩
  · have hmap : keys.map (logicalKey p) = (keys.zip rs).map (fun r => logicalKey p r.1) := by
      calc keys.map (logicalKey p)
          = ((keys.zip rs).map Prod.fst).map (logicalKey p) := by rw [List.map_fst_zip hlen.le]
        _ = (keys.zip rs).map (fun r => logicalKey p r.1) := List.map_map
    rw [hmap, pageEntries]
    exact sublist_map_filterMap _ _ _
  · intro k hk hl
    rw [← List.map_fst_zip hlen.le] at hk
    obtain ⟨⟨k', r⟩, hmem, rfl⟩ := List.mem_map.mp hk
    obtain ⟨x, hx⟩ := exists_pageEntry (hzip hmem) hl (e.clock e.redis.now)
    refine List.mem_map.mpr ⟨(logicalKey p k', x), List.mem_filterMap.mpr ⟨_, hmem, ?_⟩, rfl⟩
    rw [hx]
    rfl
  · intro x hx
    obtain ⟨⟨k, r⟩, hmem, hx⟩ := List.mem_filterMap.mp hx
    obtain ⟨en, hen, rfl⟩ := Option.map_eq_some_iff.mp hx
    have hk : k ∈ keys := (List.of_mem_zip hmem).1
    obtain ⟨t, ht, hte⟩ := hnow (List.ne_nil_of_mem hk)
    exact ⟨k, hk, rfl, r, hzip hmem, t, ht, hte ▸ hen⟩

/-- **What a page from the index is made of**: the first keys of its range,
and their entries. -/
theorem indexPage_eq_ok {pre : String} {after : Option String} {limit : ℕ} {page : KvPage}
    (h : indexPage drv p pre after limit c = (.ok page, d)) :
    ∃ found c₁, Client.exec (redisErr drv)
        (Redis.zrangebylex (indexKey p) (pageMin p pre after) (pageMax p pre) (limit + 1)) c
        = (.ok found, c₁)
      ∧ fetchEntries drv p page.keys true c₁ = (.ok page.entries, d)
      ∧ page.keys = found.take limit
      ∧ page.next = if limit < found.length then page.keys.getLast?.map ("i" ++ ·) else none := by
  obtain ⟨⟨keys, next⟩, c₁, hk, h⟩ := Client.bind_eq_ok.mp h
  obtain ⟨entries, c₂, he, h⟩ := Client.bind_eq_ok.mp h
  obtain ⟨found, c₃, hfound, hk⟩ := Client.bind_eq_ok.mp hk
  obtain ⟨hpg, rfl⟩ := Prod.mk.inj h
  obtain ⟨hkn, rfl⟩ := Prod.mk.inj hk
  obtain rfl := Except.ok.inj hpg
  obtain ⟨rfl, rfl⟩ := Prod.mk.inj (Except.ok.inj hkn)
  exact ⟨found, c₃, hfound, he, rfl, rfl⟩

end Fetch

/-! ## Reading values succeeds -/

section Returns

variable {p : String} {P : Redis → Prop} (drv : Driver)

theorem pipeReplies_returns {keys : List String}
    (hget : ∀ k ∈ keys, ∀ s, P s → ∃ b, (Redis.get k s).1 = .ok b) :
    Client.Returns P (pipeReplies drv keys) (fun _ => True) := by
  induction keys with
  | nil => exact Client.Returns.pure trivial
  | cons k ks ih =>
    have hread : Client.Returns P (Client.exec (redisErr drv) (Redis.get k)) (fun _ => True) := by
      refine Client.Returns.exec (fun s hP => ?_) (fun s hP => ?_)
      · obtain ⟨b, hb⟩ := hget k List.mem_cons_self s hP
        exact ⟨b, hb, trivial⟩
      · rwa [show (Redis.get k s).2 = s from get_snd]
    have hpttl : Client.Returns P (Client.exec (redisErr drv) (Redis.pttl k)) (fun _ => True) :=
      Client.Returns.exec (fun s _ => ⟨_, rfl, trivial⟩) (fun s hP => hP)
    refine hread.bind (fun b _ => hpttl.bind (fun ms _ => ?_))
    refine (ih (fun k' hk' => hget k' (List.mem_cons_of_mem k hk'))).bind (fun rest _ => ?_)
    exact Client.Returns.pure trivial

/-- **Reading values succeeds** where they can be read, and where pruning,
if it is asked for, leads to such a state again. -/
theorem fetchEntries_returns {keys : List String}
    (hget : ∀ k ∈ keys, ∀ s, P s → ∃ b, (Redis.get k s).1 = .ok b) (prune : Bool)
    (hprune : prune = true → ∀ s, P s → ∀ gone, P (pruneLua (indexKey p) (expiryKey p) gone s).2) :
    Client.Returns P (fetchEntries drv p keys prune) (fun _ => True) := by
  have hgone : ∀ gone, Client.Returns P (pruneGone drv p prune gone) (fun _ => True) := by
    intro gone
    unfold pruneGone
    split
    · next h => exact Client.Returns.attempt (fun s hP => hprune h.1 s hP gone)
    · exact Client.Returns.pure trivial
  unfold fetchEntries
  split
  · exact Client.Returns.pure trivial
  · refine (pipeReplies_returns drv hget).bind (fun rs _ => ?_)
    refine Client.Returns.readClock.bind (fun now _ => ?_)
    exact (hgone _).bind (fun _ _ => Client.Returns.pure trivial)

/-- A key that holds a string, if anything, can be read. -/
theorem get_of_string {s : Redis} {k : String}
    (h : ∀ o, s.lookup k = some o → ∃ b, o.value = .str b) : ∃ b, (Redis.get k s).1 = .ok b := by
  cases hl : s.lookup k with
  | none => exact ⟨none, by rw [Redis.get_absent hl]⟩
  | some o =>
    obtain ⟨v, e⟩ := o
    obtain ⟨b, rfl⟩ := h _ hl
    exact ⟨some b, by rw [Redis.get_str hl]⟩

end Returns

/-! ## Passes -/

/-- The keys the pages of a pass looked up, in order. -/
def passKeys (pages : List KvPage) : List String := pages.flatMap KvPage.keys

/-- **The entries a pass returned**, in order. -/
def passEntries (pages : List KvPage) : List (String × Entry) := pages.flatMap KvPage.entries

/-- The keys a pass returned, in order. -/
def passReturned (pages : List KvPage) : List String :=
  pages.flatMap (fun pg => pg.entries.map Prod.fst)

/-- The last page has no cursor: the pass is over. -/
def PassOver (pages : List KvPage) : Prop := ∃ pg, pages.getLast? = some pg ∧ pg.next = none

theorem passOver_cons {pg : KvPage} {pages : List KvPage} (hn : pg.next ≠ none) :
    PassOver (pg :: pages) ↔ PassOver pages := by
  cases pages with
  | nil =>
    constructor
    · rintro ⟨last, hlast, hnone⟩
      obtain rfl : pg = last := by simpa using hlast
      exact absurd hnone hn
    · rintro ⟨last, hlast, -⟩
      exact nomatch hlast
  | cons q qs => simp [PassOver]

/-- Every page of a pass was fetched. -/
def PassFetched (p : String) (d : Conn) (pages : List KvPage) : Prop :=
  ∀ pg ∈ pages, Fetched p d pg.keys pg.entries

namespace PassFetched

variable {p : String} {d : Conn} {pages : List KvPage}

theorem nil : PassFetched p d [] := fun _ h => absurd h (List.not_mem_nil)

theorem cons {pg : KvPage} (h : Fetched p d pg.keys pg.entries) (hs : PassFetched p d pages) :
    PassFetched p d (pg :: pages) := by
  intro q hq
  rcases List.mem_cons.mp hq with rfl | hq
  · exact h
  · exact hs q hq

theorem returned (h : PassFetched p d pages) :
    List.Sublist (passReturned pages) ((passKeys pages).map (logicalKey p)) := by
  induction pages with
  | nil => exact List.Sublist.refl _
  | cons pg pages ih =>
    rw [passReturned, passKeys, List.flatMap_cons, List.flatMap_cons, List.map_append]
    exact (h pg List.mem_cons_self).returned.append
      (ih (fun q hq => h q (List.mem_cons_of_mem pg hq)))

theorem found (h : PassFetched p d pages) {k : String} (hk : k ∈ passKeys pages)
    (hl : ∀ s ∈ d.seen, s.Live k) : logicalKey p k ∈ passReturned pages := by
  obtain ⟨pg, hpg, hk⟩ := List.mem_flatMap.mp hk
  exact List.mem_flatMap.mpr ⟨pg, hpg, (h pg hpg).found k hk hl⟩

theorem asRead (h : PassFetched p d pages) {x : String × Entry} (hx : x ∈ passEntries pages) :
    ∃ k ∈ passKeys pages, x.1 = logicalKey p k ∧ AsRead d k x.2 := by
  obtain ⟨pg, hpg, hx⟩ := List.mem_flatMap.mp hx
  obtain ⟨k, hk, hkey, hr⟩ := (h pg hpg).asRead x hx
  exact ⟨k, List.mem_flatMap.mpr ⟨pg, hpg, hk⟩, hkey, hr⟩

end PassFetched

end RedisKv
