import ClusterRedis.Confinement

/-!
# The largest pages

To know whether a page is the last, one key more is asked for than the page
is for. The sum is made in the machine's word, and its print is read by the
server as a signed number of 64 bits. For the largest limits neither holds
it: the word overflows, which stops a build that checks its arithmetic and
leaves zero in one that does not, and the server refuses what is past its
own.

So the listing of the other modules, whose limits are numbers without a
bound, is the code's up to the largest limits (`listPageOn_eq`), and for
these the pages are wrong (`page_limits_iff`). A page from a scan makes no
sum of its limit.
-/

open Redis

/-- **A build**: how many bits a `usize` has, and whether arithmetic that
overflows panics. -/
structure Build where
  bits : ℕ
  bits_pos : 0 < bits
  checked : Bool

/-- A `usize`. -/
abbrev Build.Usize (B : Build) : Type := { n : ℕ // n < 2 ^ B.bits }

/-- `a + b` in a `usize`; none for a panic. -/
def Build.add (B : Build) (a b : ℕ) : Option ℕ :=
  if a + b < 2 ^ B.bits then some (a + b)
  else if B.checked then none
  else some ((a + b) % 2 ^ B.bits)

namespace RedisKv

section Code

variable (B : Build) (drv : Driver) (p : String)

/-- What the server replies to the range of a page. -/
def pageFound (pre : String) (after : Option String) (limit : ℕ) : Option (Client (List String)) :=
  (B.add limit 1).map (fun count => Client.exec (redisErr drv)
    (Redis.zrangebylex (indexKey p) (pageMin p pre after) (pageMax p pre) count))

/-- The keys of a page, and the cursor of the next, of what was found. -/
def pageKeys (limit : ℕ) (found : List String) : List String × Option String :=
  (found.take limit, if limit < found.length then (found.take limit).getLast?.map ("i" ++ ·)
    else none)

/-- The keys of a page from the index, in a build. -/
def indexKeysOn (pre : String) (after : Option String) (limit : ℕ) :
    Option (Client (List String × Option String)) :=
  (pageFound B drv p pre after limit).map (fun x => do
    let found ← x
    pure (pageKeys limit found))

/-- **`index_page`**, in a build. -/
def indexPageOn (pre : String) (after : Option String) (limit : ℕ) : Option (Client KvPage) :=
  (indexKeysOn B drv p pre after limit).map (fun x => do
    let (keys, next) ← x
    let entries ← fetchEntries drv p keys true
    pure ⟨entries, next, keys⟩)

/-- The page that starts somewhere, in a build. -/
def startPageOn (ready : Bool) (pre : String) (limit : ℕ) : ListStart → Option (Client KvPage)
  | .first =>
    if ready then indexPageOn B drv p pre none (max limit 1)
    else some (scanPage drv p pre ScanCursor.start (max limit 1))
  | .after full => indexPageOn B drv p pre (some full) (max limit 1)
  | .resume text => some (do
    let st ← scanState text
    scanPage drv p pre st (max limit 1))

/-- **`list_page`**, in a build. -/
def listPageOn (ready : Bool) (pre : String) (cursor : Option String) (limit : B.Usize) :
    Option (Client KvPage) :=
  startPageOn B drv p ready pre limit (listStart cursor)

end Code

section Limits

variable {B : Build} {drv : Driver} {p pre : String} {after : Option String} {c : Conn}

theorem pageFound_eq {limit : ℕ} (h : limit + 1 < 2 ^ B.bits) :
    pageFound B drv p pre after limit = some (Client.exec (redisErr drv)
      (Redis.zrangebylex (indexKey p) (pageMin p pre after) (pageMax p pre) (limit + 1))) := by
  rw [pageFound, Build.add, if_pos h]
  rfl

theorem indexKeysOn_eq {limit : ℕ} (h : limit + 1 < 2 ^ B.bits) :
    indexKeysOn B drv p pre after limit = some (indexKeys drv p pre after limit) := by
  rw [indexKeysOn, pageFound_eq h]
  rfl

theorem indexPageOn_eq {limit : ℕ} (h : limit + 1 < 2 ^ B.bits) :
    indexPageOn B drv p pre after limit = some (indexPage drv p pre after limit) := by
  rw [indexPageOn, indexKeysOn_eq h]
  rfl

/-- **Below the word's limit a build lists as the listing does.** -/
theorem listPageOn_eq (ready : Bool) (cursor : Option String) {limit : B.Usize}
    (h : max limit.val 1 + 1 < 2 ^ B.bits) :
    listPageOn B drv p ready pre cursor limit
      = some (listPage drv p ready pre cursor limit) := by
  rw [listPageOn, listPage_eq_page]
  cases listStart cursor with
  | first =>
    cases ready with
    | true => exact indexPageOn_eq h
    | false => rfl
  | after full => exact indexPageOn_eq h
  | resume text => rfl

/-- The keys that a page could be for. -/
def pageRange (p pre : String) (after : Option String) (s : Redis) : List String :=
  s.lexRange (indexKey p) (pageMin p pre after) (pageMax p pre)

/-- **A page asks for one key more than it is for**, and is replied as many
as there are; and a first page that has room for all keys has all of them,
and no next page. -/
structure PagesExactly (B : Build) (limit : B.Usize) : Prop where
  asks : ∀ (drv : Driver) (p pre : String) (after : Option String) (c : Conn),
    c.turn.redis.ZKey (indexKey p) → ∃ x, pageFound B drv p pre after (max limit.val 1) = some x
      ∧ (x c).1 = .ok ((pageRange p pre after c.turn.redis).take (max limit.val 1 + 1))
  whole : ∀ (drv : Driver) (p pre : String) (c : Conn), c.turn.redis.ZKey (indexKey p) →
    (pageRange p pre none c.turn.redis).length ≤ limit.val →
    ∃ x, indexKeysOn B drv p pre none (max limit.val 1) = some x
      ∧ (x c).1 = .ok (pageRange p pre none c.turn.redis, none)

/-- What the server replies to a count it reads. -/
theorem exec_range (hz : c.turn.redis.ZKey (indexKey p)) {count : ℕ} (h : count < 2 ^ 63) :
    Client.exec (redisErr drv)
        (Redis.zrangebylex (indexKey p) (pageMin p pre after) (pageMax p pre) count) c
      = (.ok ((pageRange p pre after c.turn.redis).take count), c.turn) := by
  have hrun : Redis.zrangebylex (indexKey p) (pageMin p pre after) (pageMax p pre) count
      c.turn.redis = (.ok ((pageRange p pre after c.turn.redis).take count), c.turn.redis) := by
    rw [Redis.zrangebylex, if_neg (Nat.not_le.mpr h), onZSet_run hz]
    rfl
  rw [Client.exec, hrun]
  rfl

/-- The server does not read a larger count. -/
theorem exec_range_refused {count : ℕ} (h : 2 ^ 63 ≤ count) :
    (Client.exec (redisErr drv)
        (Redis.zrangebylex (indexKey p) (pageMin p pre after) (pageMax p pre) count) c).1
      = .error (redisErr drv (.command .notAnInteger)) := by
  rw [Client.exec, Redis.zrangebylex, if_pos h]
  rfl

theorem pagesExactly_of_fits {limit : B.Usize} (hword : max limit.val 1 + 1 < 2 ^ B.bits)
    (hserver : max limit.val 1 + 1 < 2 ^ 63) : PagesExactly B limit where
  asks := by
    intro drv p pre after c hz
    exact ⟨_, pageFound_eq hword, congrArg Prod.fst (exec_range hz hserver)⟩
  whole := by
    intro drv p pre c hz hle
    have hall : (pageRange p pre none c.turn.redis).length ≤ max limit.val 1 :=
      hle.trans (le_max_left _ _)
    have hkeys : pageKeys (max limit.val 1)
        ((pageRange p pre none c.turn.redis).take (max limit.val 1 + 1))
        = (pageRange p pre none c.turn.redis, none) := by
      rw [List.take_of_length_le (hall.trans (Nat.le_succ _)), pageKeys,
        List.take_of_length_le hall, if_neg (Nat.not_lt.mpr hall)]
    refine ⟨_, indexKeysOn_eq hword, ?_⟩
    rw [indexKeys, Client.bind_ok (exec_range hz hserver)]
    exact congrArg Except.ok hkeys

/-! ## The limits that are too large -/

/-- Nobody comes between. -/
theorem turn_loneIndexed (p k : String) : (loneIndexed p k).turn.redis = (loneIndexed p k).redis :=
  rfl

theorem pageRange_loneIndexed : pageRange "p" "" none (loneIndexed "p" "p:k").redis = ["p:k"] :=
  lexRange_loneIndexed (by decide) (by decide)

theorem zkey_turn_loneIndexed : (loneIndexed "p" "p:k").turn.redis.ZKey (indexKey "p") :=
  zkey_loneIndexed (by decide)

/-- The largest word, or the one before it, has no word after it. -/
theorem add_one_eq {limit : B.Usize} (h : 2 ^ B.bits ≤ max limit.val 1 + 1) :
    max limit.val 1 + 1 = 2 ^ B.bits := by
  have hone : 2 ≤ 2 ^ B.bits := Nat.le_self_pow (Nat.pos_iff_ne_zero.mp B.bits_pos) 2
  have hlt := limit.property
  omega

/-- **A sum that overflows** asks for nothing, and is replied nothing. -/
theorem pageFound_overflow {limit : B.Usize} (h : 2 ^ B.bits ≤ max limit.val 1 + 1)
    {x : Client (List String)} (hx : pageFound B drv p pre after (max limit.val 1) = some x)
    (hz : c.turn.redis.ZKey (indexKey p)) : x c = (.ok [], c.turn) := by
  rw [pageFound, Build.add, if_neg (Nat.not_lt.mpr h), add_one_eq h] at hx
  split at hx
  · cases hx
  · rw [Nat.mod_self] at hx
    obtain rfl := Option.some.inj hx
    exact exec_range hz (by decide)

/-- **A count the server does not read** is an error. -/
theorem pageFound_refused {limit : ℕ} (hword : limit + 1 < 2 ^ B.bits) (h : 2 ^ 63 ≤ limit + 1)
    {x : Client (List String)} (hx : pageFound B drv p pre after limit = some x) :
    (x c).1 = .error (redisErr drv (.command .notAnInteger)) := by
  rw [pageFound_eq hword] at hx
  obtain rfl := Option.some.inj hx
  exact exec_range_refused h

/-- Of a key that is there, a page of a limit that is too large is not
replied. -/
theorem not_asks {limit : B.Usize}
    (h : ¬ (max limit.val 1 + 1 < 2 ^ B.bits ∧ max limit.val 1 + 1 < 2 ^ 63))
    {x : Client (List String)}
    (hx : pageFound B Driver.plain "p" "" none (max limit.val 1) = some x) :
    (x (loneIndexed "p" "p:k")).1 ≠ .ok ["p:k"] := by
  by_cases hword : max limit.val 1 + 1 < 2 ^ B.bits
  · rw [pageFound_refused hword (Nat.not_lt.mp (fun hs => h ⟨hword, hs⟩)) hx]
    exact fun hne => nomatch hne
  · rw [pageFound_overflow (Nat.not_lt.mp hword) hx zkey_turn_loneIndexed]
    simp

theorem fits_of_asks {limit : B.Usize} (h : PagesExactly B limit) :
    max limit.val 1 + 1 < 2 ^ B.bits ∧ max limit.val 1 + 1 < 2 ^ 63 := by
  by_contra hno
  obtain ⟨x, hx, hreply⟩ := h.asks Driver.plain "p" "" none (loneIndexed "p" "p:k")
    zkey_turn_loneIndexed
  rw [turn_loneIndexed, pageRange_loneIndexed, List.take_succ_cons, List.take_nil] at hreply
  exact not_asks hno hx hreply

/-- **A page from a scan that has room for more than there is** has all of
it, and no next page, whatever its limit. -/
theorem scanKeys_whole {limit : ℕ} {replies rest : List (UInt64 × List String)}
    (hscan : OneScan replies) (hc : c.scans = replies ++ rest)
    (hlt : (occurrences replies).length < limit) :
    ((scanKeys p pre ScanCursor.start limit : Client _) c).1
      = .ok (occurrences replies, none) := by
  have hstart : StandsAt ScanCursor.start replies rest c := ⟨hc, hscan⟩
  have htrue : c.Holds (fun _ => True) :=
    ⟨trivial, fun _ _ _ _ => trivial, fun _ _ => trivial⟩
  obtain ⟨st, taken, rem', d, hfill, -, -, hrem, hat, hpend, -, -, hfull⟩ :=
    scanFill_spec (listPattern p pre) limit (c.scans.length + 1) htrue hstart
      (by rw [hc, List.length_append]; omega)
  have hpend : st.pending = occurrences taken := hpend
  have hle : (occurrences taken).length ≤ (occurrences replies).length := by
    rw [hrem, occurrences_append, List.length_append]
    omega
  have hdone : st.done = true := hfull.resolve_left (by rw [hpend]; omega)
  have hnil : rem' = [] := by
    have := hat.rem
    rwa [if_pos hdone] at this
  have hall : st.pending = occurrences replies := by
    rw [hpend, hrem, hnil, List.append_nil]
  rw [scanKeys, Client.bind_ok hfill]
  show Except.ok (st.pending.take limit, scanNext { st with pending := st.pending.drop limit }) = _
  rw [hall, List.take_of_length_le hlt.le, List.drop_of_length_le hlt.le, scanNext,
    if_pos ⟨hdone, rfl⟩]

/-- **Pages are exact up to the largest limits**, in every build: exactly
when the key more that is asked for fits the word, and the server's signed
number. Up to there a build lists as the listing does. A page from a scan is
exact at every limit. -/
theorem page_limits_iff (B : Build) (limit : B.Usize) :
    (PagesExactly B limit ↔ max limit.val 1 + 1 < 2 ^ B.bits ∧ max limit.val 1 + 1 < 2 ^ 63)
      ∧ (max limit.val 1 + 1 < 2 ^ B.bits → ∀ drv p ready pre cursor,
        listPageOn B drv p ready pre cursor limit
          = some (listPage drv p ready pre cursor limit))
      ∧ ∀ p pre c replies rest, OneScan replies → c.scans = replies ++ rest →
        (occurrences replies).length < max limit.val 1 →
        ((scanKeys p pre ScanCursor.start (max limit.val 1) : Client _) c).1
          = .ok (occurrences replies, none) :=
  ⟨⟨fits_of_asks, fun h => pagesExactly_of_fits h.1 h.2⟩,
    fun h _ _ ready _ cursor => listPageOn_eq ready cursor h,
    fun _ _ _ _ _ hscan hc hlt => scanKeys_whole hscan hc hlt⟩

/-- **The largest limits**, of a listing with one key: the largest word is a
panic where arithmetic is checked, and elsewhere a page with no key and no
next; half of it is an error. -/
theorem largest_limits_fail :
    pageFound ⟨64, by decide, true⟩ Driver.plain "p" "" none (2 ^ 64 - 1) = none
      ∧ (∃ x, indexKeysOn ⟨64, by decide, false⟩ Driver.plain "p" "" none (2 ^ 64 - 1) = some x
        ∧ (x (loneIndexed "p" "p:k")).1 = .ok ([], none)
        ∧ pageRange "p" "" none (loneIndexed "p" "p:k").turn.redis = ["p:k"])
      ∧ (∃ x, pageFound ⟨64, by decide, false⟩ Driver.plain "p" "" none (2 ^ 63 - 1) = some x
        ∧ (x (loneIndexed "p" "p:k")).1
          = .error (redisErr Driver.plain (.command .notAnInteger)))
      ∧ ¬ PagesExactly ⟨64, by decide, false⟩ ⟨2 ^ 64 - 1, by decide⟩ := by
  refine ⟨rfl, ?_, ?_, fun h => ?_⟩
  · refine ⟨_, rfl, ?_, pageRange_loneIndexed⟩
    have hnone := @exec_range Driver.plain "p" "" none _ zkey_turn_loneIndexed 0 (by decide)
    exact congrArg Prod.fst (Client.bind_ok (f := fun found => pure (pageKeys (2 ^ 64 - 1) found))
      hnone)
  · exact ⟨_, rfl, exec_range_refused (by decide)⟩
  · exact absurd (fits_of_asks h).1 (by decide)

end Limits

end RedisKv
