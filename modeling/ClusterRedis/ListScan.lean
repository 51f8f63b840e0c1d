import ClusterRedis.Listing

/-!
# A pass over a scan

The server scans in steps and cannot be asked for half of one, so a page
takes the matches it has room for and the rest ride in the cursor. A pass is
an account of matches: what the pages so far were handed, what is pending in
the cursor and what the server has still to return are together, and in
order, what the scan returns. A step of the loop moves a batch from the
server to the pending matches (`scanFill_spec`), a page moves its keys out
of them, and the cursor is read back as it was written.

A pass ends because a page is handed at least one match unless it is the
last: a page is left with room only when the scan is over.
-/

/-- **The replies of one scan**: the server's cursor is zero in the last of
them and in no other. -/
def OneScan : List (UInt64 × List String) → Prop
  | [] => False
  | [r] => r.1 = 0
  | r :: r' :: rs => r.1 ≠ 0 ∧ OneScan (r' :: rs)

instance : ∀ rs, Decidable (OneScan rs)
  | [] => isFalse id
  | [r] => inferInstanceAs (Decidable (r.1 = 0))
  | r :: r' :: rs =>
    have := instDecidableOneScan (r' :: rs)
    inferInstanceAs (Decidable (r.1 ≠ 0 ∧ OneScan (r' :: rs)))

theorem OneScan.tail {r : UInt64 × List String} {rs : List (UInt64 × List String)}
    (h : OneScan (r :: rs)) : if (r.1 == 0) = true then rs = [] else OneScan rs := by
  cases rs with
  | nil => rw [if_pos (beq_iff_eq.mpr h)]
  | cons r' rs =>
    rw [if_neg (fun he => h.1 (beq_iff_eq.mp he))]
    exact h.2

/-- The keys of replies, each as often as it was returned. -/
def occurrences (rs : List (UInt64 × List String)) : List String := rs.flatMap Prod.snd

@[simp] theorem occurrences_cons (r : UInt64 × List String) (rs : List (UInt64 × List String)) :
    occurrences (r :: rs) = r.2 ++ occurrences rs := List.flatMap_cons

@[simp] theorem occurrences_append (rs ts : List (UInt64 × List String)) :
    occurrences (rs ++ ts) = occurrences rs ++ occurrences ts := List.flatMap_append

/-- The cursors sent for replies, from a cursor on: each is that of the reply
before. -/
def cursorsSent (scan : UInt64) : List (UInt64 × List String) → List UInt64
  | [] => []
  | r :: rs => scan :: cursorsSent r.1 rs

theorem cursorsSent_append (scan : UInt64) (rs ts : List (UInt64 × List String)) :
    cursorsSent scan (rs ++ ts)
      = cursorsSent scan rs ++ cursorsSent ((rs.getLast?.map Prod.fst).getD scan) ts := by
  induction rs generalizing scan with
  | nil => rfl
  | cons r rs ih =>
    rw [List.cons_append, cursorsSent, ih, cursorsSent, List.cons_append]
    cases rs with
    | nil => rfl
    | cons r' rs => rfl

namespace RedisKv

variable {drv : Driver} {p pre pattern : String} {P : Redis → Prop} {c d : Conn}

/-- **A scan that stands at a cursor**: `rem` are the replies the server has
still to give, none if the scan is over. -/
structure StandsAt (st : ScanCursor) (rem rest : List (UInt64 × List String)) (c : Conn) :
    Prop where
  scans : c.scans = rem ++ rest
  rem : if st.done = true then rem = [] else OneScan rem

/-- **The loop of a page**: it takes replies until the page is full or the
scan is over. -/
theorem scanFill_spec (pattern : String) (limit fuel : ℕ) {st : ScanCursor}
    {rem rest : List (UInt64 × List String)} (hP : c.Holds P) (h : StandsAt st rem rest c)
    (hfuel : rem.length < fuel) :
    ∃ st' taken rem' d, scanFill pattern limit fuel st c = (.ok st', d) ∧ d.Holds P
      ∧ c.Grows d ∧ rem = taken ++ rem' ∧ StandsAt st' rem' rest d
      ∧ st'.pending = st.pending ++ occurrences taken
      ∧ st'.scan = (taken.getLast?.map Prod.fst).getD st.scan
      ∧ d.scanned = c.scanned ++ (cursorsSent st.scan taken).map (fun x => (x, pattern))
      ∧ (limit ≤ st'.pending.length ∨ st'.done = true) := by
  induction fuel generalizing st c rem with
  | zero => exact absurd hfuel (Nat.not_lt_zero _)
  | succ fuel ih =>
    rw [scanFill]
    split
    · next hgo =>
      have hone := h.rem
      rw [if_neg (by simp [hgo.2])] at hone
      cases rem with
      | nil => exact absurd hone id
      | cons r rs =>
        have hscan : Client.scan scanLost st.scan pattern c
            = (.ok r, c.answered (rs ++ rest) (st.scan, pattern)) := by
          rw [Client.scan, h.scans, List.cons_append]
        have hnext : StandsAt ⟨r.1, st.pending ++ r.2, r.1 == 0⟩ rs rest
            (c.answered (rs ++ rest) (st.scan, pattern)) := ⟨rfl, hone.tail⟩
        obtain ⟨st', taken, rem', d, hrun, hd, hseen, hrem, hat, hpend, hlast, hsent, hfull⟩ :=
          ih (hP.answered _ _) hnext (by simpa using hfuel)
        refine ⟨st', r :: taken, rem', d, ?_, hd, (c.grows_answered _ _).trans hseen,
          by rw [hrem, List.cons_append], hat, ?_, ?_, ?_, hfull⟩
        · rw [Client.bind_ok hscan]
          exact hrun
        · rw [hpend, occurrences_cons, List.append_assoc]
        · rw [hlast]
          cases taken with
          | nil => rfl
          | cons t ts => rfl
        · rw [hsent, cursorsSent, List.map_cons]
          exact List.append_assoc c.scanned [(st.scan, pattern)] _
    · next hstop =>
      refine ⟨st, [], rem, c, rfl, hP, Conn.Grows.refl c, rfl, h, ?_, rfl, ?_, ?_⟩
      · simp [occurrences]
      · simp [cursorsSent]
      · by_cases hl : st.pending.length < limit
        · exact Or.inr (by simpa [hl] using hstop)
        · exact Or.inl (not_lt.mp hl)

/-- **A page from a scan**: of the matches pending and to come, the first
are the page's keys, the others stay; a page that is not the last is handed
at least one. -/
theorem scanPage_spec (drv : Driver) (p pre : String) (limit : ℕ) {st : ScanCursor}
    {rem rest : List (UInt64 × List String)} (hlim : 0 < limit) (hP : c.Holds P)
    (h : StandsAt st rem rest c)
    (hget : ∀ k ∈ st.pending ++ occurrences rem, ∀ s, P s → ∃ b, (Redis.get k s).1 = .ok b) :
    ∃ pg st' taken rem' d, scanPage drv p pre st limit c = (.ok pg, d) ∧ d.Holds P
      ∧ c.Grows d ∧ rem = taken ++ rem' ∧ StandsAt st' rem' rest d
      ∧ st.pending ++ occurrences rem = pg.keys ++ (st'.pending ++ occurrences rem')
      ∧ st'.scan = (taken.getLast?.map Prod.fst).getD st.scan
      ∧ d.scanned = c.scanned ++ (cursorsSent st.scan taken).map (fun x => (x, listPattern p pre))
      ∧ pg.next = scanNext st' ∧ pg.keys.length ≤ limit ∧ (pg.next ≠ none → pg.keys ≠ [])
      ∧ Fetched p d pg.keys pg.entries := by
  obtain ⟨st₁, taken, rem', c₁, hfill, hc₁, hseen, rfl, hat, hpend, hlast, hsent, hfull⟩ :=
    scanFill_spec (listPattern p pre) limit (c.scans.length + 1) hP h (by
      rw [h.scans, List.length_append]
      omega)
  have hall : st.pending ++ occurrences (taken ++ rem')
      = st₁.pending.take limit ++ (st₁.pending.drop limit ++ occurrences rem') := by
    rw [occurrences_append, ← List.append_assoc, ← hpend, ← List.append_assoc,
      List.take_append_drop]
  have hkeys : scanKeys p pre st limit c = (.ok (st₁.pending.take limit,
      scanNext { st₁ with pending := st₁.pending.drop limit }), c₁) := by
    unfold scanKeys
    rw [Client.bind_ok hfill]
    rfl
  have hfetch : ∀ k ∈ st₁.pending.take limit, ∀ s, P s → ∃ b, (Redis.get k s).1 = .ok b := by
    intro k hk
    exact hget k (hall ▸ List.mem_append_left _ hk)
  obtain ⟨out, d, hout, hd, -⟩ := fetchEntries_returns (p := p) drv hfetch false
    (fun he => nomatch he) c₁ hc₁
  obtain ⟨hf, hfetched⟩ := fetchEntries_spec hout
  refine ⟨⟨out, scanNext { st₁ with pending := st₁.pending.drop limit }, st₁.pending.take limit⟩,
    { st₁ with pending := st₁.pending.drop limit }, taken, rem', d, ?_, hd,
    hseen.trans hf.toGrows, rfl,
    ⟨hf.scans.trans hat.scans, hat.rem⟩, hall, hlast, hf.scanned.trans hsent, rfl,
    List.length_take_le _ _, ?_, hfetched⟩
  · rw [scanPage, Client.bind_ok hkeys]
    show (fetchEntries drv p (st₁.pending.take limit) false >>= fun entries => _) c₁ = _
    rw [Client.bind_ok hout]
    rfl
  · -- a page with room means the scan is over, and then nothing is pending
    intro hn hnil
    show False
    have hempty : st₁.pending = [] := by
      rcases List.take_eq_nil_iff.mp hnil with h0 | hnil
      · omega
      · exact hnil
    have hdone : st₁.done = true := by
      rcases hfull with hle | hdone
      · rw [hempty] at hle
        exact absurd hle (by simp; omega)
      · exact hdone
    exact hn (if_pos ⟨hdone, by simp [hempty]⟩)

/-! ## The pass -/

/-- **A cursor is read back as the state it was written for.** -/
theorem listPage_cursor (drv : Driver) (p pre : String) (ready : Bool) (st : ScanCursor)
    (limit : ℕ) : listPage drv p ready pre (some ("s" ++ st.text)) limit
      = scanPage drv p pre st (max limit 1) := by
  have hl : ("s" ++ st.text).toList = 's' :: st.text.toList := by rw [String.toList_append]; rfl
  have hst : ∀ c, scanState (String.ofList st.text.toList) c = (.ok st, c) := by
    intro c
    rw [scanState, String.ofList_toList, ScanCursor.ofText_text]
  unfold listPage
  dsimp only
  rw [hl]
  funext c
  exact Client.bind_ok (hst c)

/-- The cursor a page of a scan starts from. -/
def StartsFrom (st : ScanCursor) (cursor : Option String) : Prop :=
  cursor = none ∧ st = ScanCursor.start ∨ cursor = some ("s" ++ st.text)

theorem listPage_scan {st : ScanCursor} {cursor : Option String} (h : StartsFrom st cursor)
    (limit : ℕ) : listPage drv p false pre cursor limit = scanPage drv p pre st (max limit 1) := by
  rcases h with ⟨rfl, rfl⟩ | rfl
  · rfl
  · exact listPage_cursor drv p pre false st limit

/-- **The cursors of a pass**: each is read back as a state whose pending
matches, and then what the server has still to return, are what the pages
after it are handed. -/
def CarriesOn (drv : Driver) (p pre : String) (replies : List (UInt64 × List String)) :
    List KvPage → Prop
  | [] => True
  | pg :: pages => (∀ cur, pg.next = some cur → ∃ st rem,
      (∀ ready limit, listPage drv p ready pre (some cur) limit
        = scanPage drv p pre st (max limit 1))
      ∧ rem <:+ replies ∧ (if st.done = true then rem = [] else OneScan rem)
      ∧ passKeys pages = st.pending ++ occurrences rem) ∧ CarriesOn drv p pre replies pages

/-- **A pass over a scan**, from a state of it to the end. -/
structure ScanPass (drv : Driver) (p pre : String) (replies : List (UInt64 × List String))
    (st : ScanCursor) (rem rest : List (UInt64 × List String)) (limits : List ℕ) (c d : Conn)
    (pages : List KvPage) : Prop where
  ended : PassOver pages
  keys : passKeys pages = st.pending ++ occurrences rem
  sizes : List.Forall₂ (fun pg n => pg.keys.length ≤ max n 1) pages (limits.take pages.length)
  grows : c.Grows d
  scans : d.scans = rest
  scanned : d.scanned
    = c.scanned ++ (cursorsSent st.scan rem).map (fun x => (x, listPattern p pre))
  carries : CarriesOn drv p pre replies pages
  fetched : PassFetched p d pages

/-- **A pass over a scan ends**, if there are limits for more pages than
there are matches. -/
theorem listPass_scan (drv : Driver) (p pre : String)
    {replies rest : List (UInt64 × List String)} {limits : List ℕ}
    {st : ScanCursor} {rem : List (UInt64 × List String)} {cursor : Option String}
    (hst : StartsFrom st cursor) (hrem : rem <:+ replies) (hP : c.Holds P)
    (h : StandsAt st rem rest c)
    (hget : ∀ k ∈ st.pending ++ occurrences rem, ∀ s, P s → ∃ b, (Redis.get k s).1 = .ok b)
    (hlen : (st.pending ++ occurrences rem).length < limits.length) :
    ∃ pages d, listPass drv p false pre limits cursor c = (.ok pages, d) ∧ d.Holds P
      ∧ ScanPass drv p pre replies st rem rest limits c d pages := by
  induction limits generalizing st rem cursor c with
  | nil => exact absurd hlen (Nat.not_lt_zero _)
  | cons limit limits ih =>
    obtain ⟨pg, st', taken, rem', c₁, hpage, hc₁, hseen, rfl, hat, hall, hlast, hsent, hnext, hsize,
      hsome, hfetched⟩ := scanPage_spec drv p pre (max limit 1) (by omega) hP h hget
    rw [← listPage_scan hst] at hpage
    rw [listPass, Client.bind_ok hpage]
    cases hn : pg.next with
    | none =>
      have hover : st'.done = true ∧ st'.pending = [] := by
        by_contra hnot
        rw [hnext, scanNext, if_neg hnot] at hn
        cases hn
      have hrem' : rem' = [] := by
        have := hat.rem
        rwa [if_pos hover.1] at this
      subst hrem'
      have hkeys : passKeys [pg] = st.pending ++ occurrences (taken ++ []) := by
        rw [hall, hover.2, passKeys, List.flatMap_singleton]
        simp [occurrences]
      refine ⟨[pg], c₁, rfl, hc₁, ⟨pg, rfl, hn⟩, hkeys, List.Forall₂.cons hsize List.Forall₂.nil,
        hseen, hat.scans, ?_, ⟨fun cur hcur => absurd (hn.symm.trans hcur) (by simp), trivial⟩,
        PassFetched.cons hfetched PassFetched.nil⟩
      rw [hsent, List.append_nil]
    | some cur =>
      obtain rfl : "s" ++ st'.text = cur := by
        rw [hnext, scanNext] at hn
        split at hn
        · cases hn
        · exact Option.some.inj hn
      have hmatch : st'.pending ++ occurrences rem' <:+ st.pending ++ occurrences (taken ++ rem') :=
        hall ▸ List.suffix_append _ _
      have hsuff : rem' <:+ replies := (List.suffix_append taken rem').trans hrem
      obtain ⟨pages, d, hrest, hd, hpass⟩ := ih (Or.inr rfl) hsuff hc₁ hat
        (fun k hk => hget k (hmatch.subset hk)) (by
          have hpos := List.length_pos_of_ne_nil (hsome (by simp [hn]))
          rw [hall, List.length_append, List.length_cons] at hlen
          omega)
      refine ⟨pg :: pages, d, ?_, hd, ?_⟩
      · show (listPass drv p false pre limits (some ("s" ++ st'.text)) >>= fun pages => _) c₁ = _
        rw [Client.bind_ok hrest]
        rfl
      · refine ⟨(passOver_cons (by simp [hn])).mpr hpass.ended, ?_,
          List.Forall₂.cons hsize hpass.sizes, hseen.trans hpass.grows, hpass.scans, ?_,
          ⟨fun cur hcur => ⟨st', rem', fun ready limit => ?_, hsuff, hat.rem, hpass.keys⟩,
            hpass.carries⟩, PassFetched.cons (hfetched.mono hpass.grows) hpass.fetched⟩
        · rw [passKeys, List.flatMap_cons, hall]
          exact congrArg (pg.keys ++ ·) hpass.keys
        · rw [hpass.scanned, hsent, cursorsSent_append, List.map_append, hlast, List.append_assoc]
        · obtain rfl := Option.some.inj (hn.symm.trans hcur)
          exact listPage_cursor drv p pre ready st' limit

/-! ## A whole pass -/

/-- Keys hold strings, if anything. -/
def Strings (keys : List String) (s : Redis) : Prop :=
  ∀ k ∈ keys, ∀ o, s.lookup k = some o → ∃ b, o.value = .str b

/-- **A pass over a scan loses nothing.** For every sequence of replies that
is one scan of the server, and whatever others do meanwhile as long as the
keys returned hold strings, a pass with limits for enough pages ends. Its
pages are handed every key as often as it was returned, in order, no more on
a page than asked for. The server is sent one scan, from zero to zero, and
nothing after it. Every cursor is read back as the state it was written
for. If the server returns what was there throughout, so does the pass. -/
theorem scan_pass_complete (drv : Driver) (p pre : String) (limits : List ℕ)
    (replies rest : List (UInt64 × List String)) (c : Conn) (hscan : OneScan replies)
    (hc : c.scans = replies ++ rest) (hstr : c.Holds (Strings (occurrences replies)))
    (hlen : (occurrences replies).length < limits.length) :
    ∃ pages d, listPass drv p false pre limits none c = (.ok pages, d)
      ∧ PassOver pages
      ∧ passKeys pages = occurrences replies
      ∧ List.Forall₂ (fun pg n => pg.keys.length ≤ max n 1) pages (limits.take pages.length)
      ∧ d.scans = rest
      ∧ d.scanned = c.scanned ++ (cursorsSent 0 replies).map (fun x => (x, listPattern p pre))
      ∧ CarriesOn drv p pre replies pages
      ∧ ((∀ k, KeyMatch (listPattern p pre) k → (∀ s ∈ d.seen, s.Live k) →
          k ∈ occurrences replies) →
        ∀ k, KeyMatch (listPattern p pre) k → (∀ s ∈ d.seen, s.Live k) →
          logicalKey p k ∈ passReturned pages) := by
  have hstart : StandsAt ScanCursor.start replies rest c := ⟨hc, hscan⟩
  obtain ⟨pages, d, hrun, -, hpass⟩ := listPass_scan drv p pre
    (Or.inl ⟨rfl, rfl⟩) List.suffix_rfl hstr hstart
    (fun k hk s hs => get_of_string (hs k hk)) hlen
  refine ⟨pages, d, hrun, hpass.ended, hpass.keys, hpass.sizes, hpass.scans, hpass.scanned,
    hpass.carries, fun hpromise k hm hl => ?_⟩
  have hk : k ∈ passKeys pages := hpass.keys ▸ hpromise k hm hl
  exact hpass.fetched.found hk hl

/-- A scan in three steps, the second of them empty. -/
def threeSteps : List (UInt64 × List String) := [(5, ["p:a", "p:b", "p:c"]), (7, []), (0, ["p:d"])]

/-- A server with a value at every key, to be scanned in three steps. -/
def scannedConn : Conn := ⟨⟨fun _ => some ⟨.str [1], none⟩, 0⟩, [], threeSteps, id, [], []⟩

theorem scan_pass_complete_threeSteps :
    ∃ pages d, listPass Driver.plain "p" false "" [2, 1, 1, 0, 9] none scannedConn = (.ok pages, d)
      ∧ passKeys pages = ["p:a", "p:b", "p:c", "p:d"]
      ∧ d.scanned = [(0, "p:*"), (5, "p:*"), (7, "p:*")] := by
  have hstr : Strings (occurrences threeSteps) scannedConn.redis := by
    intro k _ o ho
    exact ⟨[1], congrArg Obj.value (Option.some.inj ho).symm⟩
  obtain ⟨pages, d, hrun, -, hkeys, -, -, hsent, -⟩ := scan_pass_complete Driver.plain "p" ""
    [2, 1, 1, 0, 9] threeSteps [] scannedConn (by decide) rfl
    (.alone rfl rfl hstr)
    (by decide)
  exact ⟨pages, d, hrun, hkeys, hsent⟩

end RedisKv
