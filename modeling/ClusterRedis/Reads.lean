import ClusterRedis.Listing
import ClusterRedis.Runs

/-!
# A value and its expiry

An entry is read by two commands, `GET` and then `PTTL`, sent together but
not run together: what others do between them is between the value and its
expiry. A key that goes in between has no expiry to be read, and no entry.
A key that is written in between has one, of another value.

A step of `readsSystem` is one of the two commands of a read, its begin or
its return, or anything others do. Beside a read are kept the states the
server was in since it began. Every entry read is of one of them as long as
no step between the two commands leaves the key with other bytes and another
expiry at once (`reads_hold_together`); what stands between a `GET` and its
`PTTL` is that a state with the bytes read and the expiry the key has now was
among them.
-/

namespace RedisKv

/-! ## Reads -/

/-- How a read makes an entry of its replies: as `get` does, or as a page of
a listing does. -/
inductive ReadForm where
  | get
  | page

/-- The entry of a value and its `PTTL`. -/
def ReadForm.entry (clock : ℕ) (b : Option (List UInt8)) (ms : ℤ) : ReadForm → Option Entry
  | get => entryOf clock b ms
  | page => pageEntry clock b ms

/-- **The replies for one key**, and beside them the server's time at the
second. -/
structure PairReply where
  key : String
  bytes : Option (List UInt8)
  pttl : ℤ
  time : ℕ

/-- The command a read sends next, and the keys left. -/
inductive ReadStage where
  /-- `GET` of the first key, if there is one, -/
  | value (todo : List String)
  /-- and its `PTTL`. -/
  | expiry (key : String) (b : Option (List UInt8)) (todo : List String)

/-- **A read under way**, and beside it the states of the server since it
began. -/
structure Reading where
  form : ReadForm
  stage : ReadStage
  replies : List PairReply
  seen : List Redis

/-- **What a read returns**: its replies, of which the clock makes entries. -/
structure ReadAnswer where
  form : ReadForm
  replies : List PairReply
  clock : ℕ
  seen : List Redis

/-- The entries a read returns, by server keys. -/
def ReadAnswer.entries (a : ReadAnswer) : List (String × Entry) :=
  a.replies.filterMap (fun r => (a.form.entry a.clock r.bytes r.pttl).map (fun e => (r.key, e)))

/-- Those of a page, by the caller's keys, are the listing's. -/
theorem ReadAnswer.entries_page (p : String) (a : ReadAnswer) (h : a.form = .page) :
    a.entries.map (fun x => (logicalKey p x.1, x.2))
      = pageEntries p a.clock (a.replies.map (fun r => (r.key, r.bytes, r.pttl))) := by
  rw [ReadAnswer.entries, pageEntries, List.map_filterMap, List.filterMap_map]
  refine congrArg (fun f => a.replies.filterMap f) (funext fun r => ?_)
  rw [h, Option.map_map]
  rfl

/-- **Every entry was held at one instant**: some state since the call had
its bytes, and the expiry that the time left was read of. -/
def ReadAnswer.Together (a : ReadAnswer) : Prop :=
  ∀ r ∈ a.replies, ∀ e, a.form.entry a.clock r.bytes r.pttl = some e →
    ∃ s ∈ a.seen, ∃ x, s.lookup r.key = some ⟨.str e.bytes, x⟩
      ∧ (∀ d, x = some d → r.time ≤ d)
      ∧ e.expiresAt = x.map (fun d => a.clock + (d - r.time))

/-! ## The system -/

/-- **The server and the reads `ι` of it.** -/
structure ReadsWorld (ι : Type) where
  redis : Redis
  reads : ι → Option Reading

/-- **One step**: others do something, or a read begins, sends a command or
returns. A read that begins anew drops the one under way. -/
inductive ReadsEvent (ι : Type) where
  | other (e : KvEvent)
  | get (i : ι) (key : String)
  | fetch (i : ι) (keys : List String)
  | next (i : ι)
  | finish (i : ι) (clock : ℕ)

section Code

variable {ι : Type} [DecidableEq ι] (lua : Lua) (drv : Driver) (p : String)

/-- A read is where it is said to be. -/
def ReadsWorld.set (w : ReadsWorld ι) (i : ι) (r : Option Reading) : ReadsWorld ι :=
  { w with reads := Function.update w.reads i r }

@[simp] theorem ReadsWorld.set_reads_self (w : ReadsWorld ι) (i : ι) (r : Option Reading) :
    (w.set i r).reads i = r := by
  show Function.update w.reads i r i = r
  rw [Function.update_self]

theorem ReadsWorld.set_reads_of_ne (w : ReadsWorld ι) {i j : ι} (h : j ≠ i) (r : Option Reading) :
    (w.set i r).reads j = w.reads j := by
  show Function.update w.reads i r j = w.reads j
  rw [Function.update_of_ne h]

/-- A read begins. -/
def ReadsWorld.begin (w : ReadsWorld ι) (i : ι) (form : ReadForm) (keys : List String) :
    ReadsWorld ι :=
  w.set i (some ⟨form, .value keys, [], [w.redis]⟩)

/-- The server is in another state, and every read under way notes it. -/
def ReadsWorld.move (w : ReadsWorld ι) (t : Redis) : ReadsWorld ι :=
  ⟨t, fun i => (w.reads i).map (fun r => { r with seen := r.seen ++ [t] })⟩

/-- **The next command of a read.** A value of another type fails it. -/
def nextCommand (w : ReadsWorld ι) (i : ι) (r : Reading) :
    Option (Except ClusterError ReadAnswer) × ReadsWorld ι :=
  match r.stage with
  | .value [] => (none, w)
  | .value (k :: ks) =>
    match (Redis.get k w.redis).1 with
    | .ok b => (none, w.set i (some { r with stage := .expiry k b ks }))
    | .error e => (some (.error (redisErr drv e)), w.set i none)
  | .expiry k b ks => (none, w.set i (some { r with
      stage := .value ks
      replies := r.replies ++ [⟨k, b, w.redis.pttlReply k, w.redis.now⟩] }))

/-- A read returns once all its commands have been run. -/
def returnRead (w : ReadsWorld ι) (i : ι) (clock : ℕ) (r : Reading) :
    Option (Except ClusterError ReadAnswer) × ReadsWorld ι :=
  match r.stage with
  | .value [] => (some (.ok ⟨r.form, r.replies, clock, r.seen⟩), w.set i none)
  | _ => (none, w)

/-- **Reads among others.** -/
def readsSystem : System (ReadsWorld ι) (ReadsEvent ι)
    (Option (Except ClusterError ReadAnswer)) where
  step w
    | .other e => (none, w.move ((kvSystem lua drv p).step w.redis e).2)
    | .get i key => (none, w.begin i .get [fullKey p key])
    | .fetch i keys => (none, w.begin i .page keys)
    | .next i => (w.reads i).elim (none, w) (nextCommand drv w i)
    | .finish i clock => (w.reads i).elim (none, w) (returnRead w i clock)

end Code

/-! ## What others may do -/

/-- **A step that keeps a pair together**: the key holds the bytes read after
it, or the expiry it had before it, or nothing. -/
def KeepsPair (k : String) (b : List UInt8) (s t : Redis) : Prop :=
  ∀ o, t.lookup k = some o →
    o.value = .str b ∨ ∃ o', s.lookup k = some o' ∧ o.expireAt = o'.expireAt

/-- What leaves a key alone, or takes it away, keeps every pair. -/
theorem keepsPair_of_lookup {k : String} {b : List UInt8} {s t : Redis}
    (h : ∀ o, t.lookup k = some o → s.lookup k = some o) : KeepsPair k b s t :=
  fun o ho => Or.inr ⟨o, h o ho, rfl⟩

/-- **Time keeps every pair**: a key that expires has no expiry to be read. -/
theorem keepsPair_tick (k : String) (b : List UInt8) (s : Redis) (d : ℕ) :
    KeepsPair k b s (s.tick d) :=
  keepsPair_of_lookup (fun _ => Redis.lookup_of_tick)

/-- **No step between the two commands of a key tears its pair**: others,
while a read has a key's value and not yet its expiry, do not leave the key
with other bytes and another expiry at once. -/
def TearsNoPair {ι : Type} (lua : Lua) (drv : Driver) (p : String) (w : ReadsWorld ι) :
    ReadsEvent ι → Prop
  | .other e => ∀ i r k b ks, w.reads i = some r → r.stage = .expiry k (some b) ks →
    KeepsPair k b w.redis ((kvSystem lua drv p).step w.redis e).2
  | _ => True

/-! ## The invariant -/

/-- **Replies of one instant**: a value that has an expiry to be read was
held with it. -/
def PairReply.Together (seen : List Redis) (r : PairReply) : Prop :=
  ∀ b, r.bytes = some b → r.pttl ≠ -2 →
    ∃ s ∈ seen, ∃ x, s.lookup r.key = some ⟨.str b, x⟩
      ∧ (∀ d, x = some d → r.time ≤ d) ∧ r.pttl = x.elim (-1) (fun d => (d : ℤ) - r.time)

theorem PairReply.Together.mono {seen seen' : List Redis} {r : PairReply}
    (h : r.Together seen) (hs : seen ⊆ seen') : r.Together seen' := by
  intro b hb hms
  obtain ⟨s, hmem, x, hx⟩ := h b hb hms
  exact ⟨s, hs hmem, x, hx⟩

/-- An entry is of a value that was there when its expiry was read. -/
theorem ReadForm.of_entry {form : ReadForm} {clock : ℕ} {b : Option (List UInt8)} {ms : ℤ}
    {e : Entry} (h : form.entry clock b ms = some e) : ∃ b', b = some b' ∧ ms ≠ -2 := by
  cases b with
  | none => cases form <;> cases h
  | some b' =>
    refine ⟨b', rfl, ?_⟩
    rintro rfl
    cases form <;> cases h

/-- A value without an expiry. -/
theorem ReadForm.entry_lasting (form : ReadForm) (clock : ℕ) (b : List UInt8) :
    form.entry clock (some b) (-1) = some ⟨b, none⟩ := by
  cases form <;> rfl

/-- A value with time left. -/
theorem ReadForm.entry_expiring (form : ReadForm) (clock : ℕ) (b : List UInt8) {ms : ℤ}
    (h : 0 ≤ ms) : form.entry clock (some b) ms = some ⟨b, some (clock + ms.toNat)⟩ := by
  cases form with
  | get =>
    have hgone : ms ≠ -2 := by omega
    show (if ms = -2 then none else if 0 ≤ ms then _ else _) = _
    rw [if_neg hgone, if_pos h]
  | page =>
    have hlasting : ms ≠ -1 := by omega
    show (if ms = -1 then _ else if 0 ≤ ms then _ else _) = _
    rw [if_neg hlasting, if_pos h]

/-- An entry of such replies was held at one instant. -/
theorem PairReply.Together.entry {seen : List Redis} {r : PairReply} (h : r.Together seen)
    (form : ReadForm) {clock : ℕ} {e : Entry} (he : form.entry clock r.bytes r.pttl = some e) :
    ∃ s ∈ seen, ∃ x, s.lookup r.key = some ⟨.str e.bytes, x⟩ ∧ (∀ d, x = some d → r.time ≤ d)
      ∧ e.expiresAt = x.map (fun d => clock + (d - r.time)) := by
  obtain ⟨b, hb, hgone⟩ := ReadForm.of_entry he
  obtain ⟨s, hs, x, hl, hle, hms⟩ := h b hb hgone
  refine ⟨s, hs, x, ?_⟩
  rw [hb, hms] at he
  cases x with
  | none =>
    obtain rfl := Option.some.inj ((form.entry_lasting clock b).symm.trans he)
    exact ⟨hl, hle, rfl⟩
  | some d =>
    have hd := hle d rfl
    have hleft : 0 ≤ (d : ℤ) - r.time := by omega
    have hnat : ((d : ℤ) - r.time).toNat = d - r.time := by omega
    obtain rfl := Option.some.inj ((form.entry_expiring clock b hleft).symm.trans he)
    exact ⟨hl, hle, by rw [hnat]; rfl⟩

/-- **A read that has torn no pair so far.** The state the server is in was
noted, the replies are each of one instant, and the bytes of a key whose
expiry is next were held with the expiry the key has. -/
structure Reading.Sound (s : Redis) (r : Reading) : Prop where
  here : s ∈ r.seen
  replies : ∀ x ∈ r.replies, x.Together r.seen
  held : ∀ k b ks, r.stage = .expiry k (some b) ks → ∀ o, s.lookup k = some o →
    ∃ t ∈ r.seen, t.lookup k = some ⟨.str b, o.expireAt⟩

/-- A read that begins. -/
theorem Reading.sound_begin (form : ReadForm) (keys : List String) (s : Redis) :
    Reading.Sound s ⟨form, .value keys, [], [s]⟩ where
  here := List.mem_singleton.mpr rfl
  replies := fun _ hx => absurd hx (List.not_mem_nil)
  held := fun _ _ _ h => nomatch h

/-- **Others do something** that tears no pair. -/
theorem Reading.Sound.move {s t : Redis} {r : Reading} (h : r.Sound s)
    (ht : ∀ k b ks, r.stage = .expiry k (some b) ks → KeepsPair k b s t) :
    Reading.Sound t { r with seen := r.seen ++ [t] } where
  here := List.mem_append_right _ (List.mem_singleton.mpr rfl)
  replies := fun x hx => (h.replies x hx).mono (List.subset_append_left _ _)
  held := by
    intro k b ks hstage o ho
    rcases ht k b ks hstage o ho with hb | ⟨o', ho', hx⟩
    · -- the key holds the bytes now
      refine ⟨t, List.mem_append_right _ (List.mem_singleton.mpr rfl), ?_⟩
      rw [ho, ← hb]
    · -- the expiry is one the bytes were held with before
      obtain ⟨u, hu, hl⟩ := h.held k b ks hstage o' ho'
      exact ⟨u, List.mem_append_left _ hu, hx ▸ hl⟩

/-- **`GET`**: the key holds the bytes and its expiry. -/
theorem Reading.Sound.get {s : Redis} {r : Reading} {k : String} {ks : List String}
    {b : Option (List UInt8)} (h : r.Sound s) (hb : (Redis.get k s).1 = .ok b) :
    Reading.Sound s { r with stage := .expiry k b ks } where
  here := h.here
  replies := h.replies
  held := by
    intro k' b' ks' hstage o ho
    obtain ⟨rfl, rfl, rfl⟩ := ReadStage.expiry.inj hstage
    refine ⟨s, h.here, ?_⟩
    obtain ⟨v, x⟩ := o
    cases v with
    | zset z =>
      rw [Redis.get_zset ho] at hb
      cases hb
    | str b =>
      rw [Redis.get_str ho] at hb
      obtain rfl := Option.some.inj (Except.ok.inj hb)
      exact ho

/-- **`PTTL`**: the time left is that of an expiry the bytes were held
with. -/
theorem Reading.Sound.pttl {s : Redis} {r : Reading} {k : String} {ks : List String}
    {b : Option (List UInt8)} (h : r.Sound s) (hstage : r.stage = .expiry k b ks) :
    Reading.Sound s { r with
      stage := .value ks
      replies := r.replies ++ [⟨k, b, s.pttlReply k, s.now⟩] } where
  here := h.here
  replies := by
    intro x hx
    rcases List.mem_append.mp hx with hx | hx
    · exact h.replies x hx
    · rw [List.mem_singleton.mp hx]
      intro b' hb' hms
      obtain rfl : b = some b' := hb'
      cases hl : s.lookup k with
      | none =>
        refine absurd ?_ hms
        show s.pttlReply k = -2
        rw [Redis.pttlReply, hl]
      | some o =>
        obtain ⟨t, ht, hheld⟩ := h.held k b' ks hstage o hl
        obtain ⟨v, x⟩ := o
        refine ⟨t, ht, x, hheld, ?_, ?_⟩
        · rintro d rfl
          simpa [Obj.liveAt] using Redis.liveAt_of_lookup hl
        · show s.pttlReply k = _
          rw [Redis.pttlReply, hl]
          cases x <;> rfl
  held := fun _ _ _ h => nomatch h

section Runs

variable {ι : Type} [DecidableEq ι] {lua : Lua} {drv : Driver} {p : String}

/-- **No read under way has torn a pair.** -/
def ReadsWorld.Sound (w : ReadsWorld ι) : Prop :=
  ∀ i r, w.reads i = some r → r.Sound w.redis

theorem ReadsWorld.Sound.set {w : ReadsWorld ι} (h : w.Sound) {i : ι} {r : Option Reading}
    (hr : ∀ r', r = some r' → r'.Sound w.redis) : (w.set i r).Sound := by
  intro j r' hj
  by_cases hji : j = i
  · subst hji
    rw [w.set_reads_self] at hj
    exact hr r' hj
  · rw [w.set_reads_of_ne hji] at hj
    exact h j r' hj

/-- A read's next command tears no pair. -/
theorem ReadsWorld.Sound.nextCommand {w : ReadsWorld ι} (h : w.Sound) {i : ι} {r : Reading}
    (hr : r.Sound w.redis) : (nextCommand drv w i r).2.Sound := by
  unfold RedisKv.nextCommand
  split
  · exact h
  · split
    · next hb => exact h.set (fun r' hr' => Option.some.inj hr' ▸ hr.get hb)
    · exact h.set (fun r' hr' => nomatch hr')
  · next hstage => exact h.set (fun r' hr' => Option.some.inj hr' ▸ hr.pttl hstage)

/-- **A read that has torn no pair returns none torn.** -/
theorem Reading.Sound.returns {w : ReadsWorld ι} {i : ι} {clock : ℕ} {r : Reading}
    {a : ReadAnswer} (hr : r.Sound w.redis)
    (ha : (returnRead w i clock r).1 = some (.ok a)) : a.Together := by
  unfold returnRead at ha
  split at ha
  · obtain rfl := Except.ok.inj (Option.some.inj ha)
    exact fun x hx e he => (hr.replies x hx).entry r.form he
  · cases ha

/-- **A step that tears no pair.** -/
theorem ReadsWorld.Sound.step {w : ReadsWorld ι} (h : w.Sound) (e : ReadsEvent ι)
    (he : TearsNoPair lua drv p w e) : ((readsSystem lua drv p).step w e).2.Sound := by
  cases e with
  | other e =>
    intro i r hr
    obtain ⟨r', hr', rfl⟩ := Option.map_eq_some_iff.mp hr
    exact (h i r' hr').move (fun k b ks => he i r' k b ks hr')
  | get i key =>
    exact h.set (fun r' hr' => Option.some.inj hr' ▸ Reading.sound_begin .get _ w.redis)
  | fetch i keys =>
    exact h.set (fun r' hr' => Option.some.inj hr' ▸ Reading.sound_begin .page keys w.redis)
  | next i =>
    show ((w.reads i).elim (none, w) (RedisKv.nextCommand drv w i)).2.Sound
    cases hr : w.reads i with
    | none => exact h
    | some r => exact h.nextCommand (h i r hr)
  | finish i clock =>
    show ((w.reads i).elim (none, w) (returnRead w i clock)).2.Sound
    cases hr : w.reads i with
    | none => exact h
    | some r =>
      show (returnRead w i clock r).2.Sound
      unfold returnRead
      split
      · exact h.set (fun r' hr' => nomatch hr')
      · exact h

/-- **What a step answers was held together.** -/
theorem ReadsWorld.Sound.answer {w : ReadsWorld ι} (h : w.Sound) (e : ReadsEvent ι)
    {a : ReadAnswer} (ha : ((readsSystem lua drv p).step w e).1 = some (.ok a)) :
    a.Together := by
  cases e with
  | other e => cases ha
  | get i key => cases ha
  | fetch i keys => cases ha
  | next i =>
    replace ha : ((w.reads i).elim (none, w) (RedisKv.nextCommand drv w i)).1 = some (.ok a) := ha
    cases hr : w.reads i with
    | none =>
      rw [hr] at ha
      cases ha
    | some r =>
      rw [hr, Option.elim_some] at ha
      unfold RedisKv.nextCommand at ha
      split at ha
      · cases ha
      · split at ha <;> cases ha
      · cases ha
  | finish i clock =>
    replace ha : ((w.reads i).elim (none, w) (returnRead w i clock)).1 = some (.ok a) := ha
    cases hr : w.reads i with
    | none =>
      rw [hr] at ha
      cases ha
    | some r =>
      rw [hr, Option.elim_some] at ha
      exact (h i r hr).returns ha

/-- **Reads return what was held together.** In every run in which no step
between the two commands for a key leaves the key with other bytes than those
read and another expiry at once, every entry a read returns – of `get` as of
a page of a listing – pairs bytes and an expiry that the key had together in
some state between the call and its return. Time, and what takes the key away
or leaves it alone, is never such a step. -/
theorem reads_hold_together (lua : Lua) (drv : Driver) (p : String) (w : ReadsWorld ι)
    (hw : ∀ i, w.reads i = none) (es : List (ReadsEvent ι))
    (hes : (readsSystem lua drv p).Along (TearsNoPair lua drv p) w es) :
    ∀ a, some (.ok a) ∈ (readsSystem lua drv p).answers w es → a.Together := by
  have hstart : w.Sound := fun i r hr => absurd ((hw i).symm.trans hr) (by simp)
  have halong := System.Along.of_inv (M := readsSystem lua drv p)
    (H := fun w e => ∀ a, ((readsSystem lua drv p).step w e).1 = some (.ok a) → a.Together)
    (fun w e h he => h.step e he) (fun w e h _ a ha => h.answer e ha) hstart hes
  have htrace := (System.along_iff_trace (readsSystem lua drv p)
    (P := fun x => ∀ a, x.2 = some (.ok a) → a.Together)).mp halong
  intro a ha
  obtain ⟨x, hx, hxa⟩ := List.mem_map.mp ha
  exact htrace x hx a hxa

/-! ## Reads by themselves -/

/-- A `GET` that is answered. -/
theorem step_next_value {w : ReadsWorld ι} {i : ι} {form : ReadForm} {k : String}
    {ks : List String} {rs : List PairReply} {seen : List Redis} {b : Option (List UInt8)}
    (hr : w.reads i = some ⟨form, .value (k :: ks), rs, seen⟩)
    (hb : (Redis.get k w.redis).1 = .ok b) :
    (readsSystem lua drv p).step w (.next i)
      = (none, w.set i (some ⟨form, .expiry k b ks, rs, seen⟩)) := by
  show (w.reads i).elim (none, w) (nextCommand drv w i) = _
  rw [hr, Option.elim_some, nextCommand]
  dsimp only
  rw [hb]

/-- A `PTTL`. -/
theorem step_next_expiry {w : ReadsWorld ι} {i : ι} {form : ReadForm} {k : String}
    {ks : List String} {rs : List PairReply} {seen : List Redis} {b : Option (List UInt8)}
    (hr : w.reads i = some ⟨form, .expiry k b ks, rs, seen⟩) :
    (readsSystem lua drv p).step w (.next i) = (none, w.set i (some ⟨form, .value ks,
      rs ++ [⟨k, b, w.redis.pttlReply k, w.redis.now⟩], seen⟩)) := by
  show (w.reads i).elim (none, w) (nextCommand drv w i) = _
  rw [hr]
  rfl

/-- The return of a read. -/
theorem step_finish {w : ReadsWorld ι} {i : ι} {form : ReadForm} {rs : List PairReply}
    {seen : List Redis} (hr : w.reads i = some ⟨form, .value [], rs, seen⟩) (clock : ℕ) :
    ((readsSystem lua drv p).step w (.finish i clock)).1
      = some (.ok ⟨form, rs, clock, seen⟩) := by
  show ((w.reads i).elim (none, w) (returnRead w i clock)).1 = _
  rw [hr]
  rfl

/-- **A read of one key with nothing in between** is the store's `get`. -/
theorem get_alone (w : ReadsWorld ι) (i : ι) (key : String) (clock : ℕ) {b : Option (List UInt8)}
    (hb : (Redis.get (fullKey p key) w.redis).1 = .ok b) :
    ∃ a, (readsSystem lua drv p).answers w [.get i key, .next i, .next i, .finish i clock]
        = [none, none, none, some (.ok a)]
      ∧ (get drv p clock key w.redis).1 = .ok (a.entries.head?.map Prod.snd) := by
  refine ⟨⟨.get, [⟨fullKey p key, b, w.redis.pttlReply (fullKey p key), w.redis.now⟩], clock,
    [w.redis]⟩, ?_, ?_⟩
  · have hbegin : (readsSystem lua drv p).step w (.get i key)
        = (none, w.begin i .get [fullKey p key]) := rfl
    have hvalue : (readsSystem lua drv p).step (w.begin i .get [fullKey p key]) (.next i)
        = (none, (w.begin i .get [fullKey p key]).set i
          (some ⟨.get, .expiry (fullKey p key) b [], [], [w.redis]⟩)) :=
      step_next_value (w.set_reads_self i _) hb
    have hexpiry : (readsSystem lua drv p).step ((w.begin i .get [fullKey p key]).set i
        (some ⟨.get, .expiry (fullKey p key) b [], [], [w.redis]⟩)) (.next i) = (none, _) :=
      step_next_expiry (ReadsWorld.set_reads_self _ i _)
    simp only [System.answers, System.trace, hbegin, hvalue, hexpiry, List.map_cons, List.map_nil]
    rw [step_finish (ReadsWorld.set_reads_self _ i _) clock]
    rfl
  · have hrun : Redis.get (fullKey p key) w.redis = (.ok b, w.redis) := Prod.ext hb get_snd
    have hcall : get drv p clock key w.redis
        = (.ok (entryOf clock b (w.redis.pttlReply (fullKey p key))), w.redis) := by
      refine Call.invoke_ok ?_
      rw [Script.bind_ok hrun]
      rfl
    rw [hcall]
    show Except.ok (entryOf clock b (w.redis.pttlReply (fullKey p key))) = _
    unfold ReadAnswer.entries
    show _ = Except.ok ((List.filterMap _ [_]).head?.map Prod.snd)
    rw [List.filterMap_cons]
    show Except.ok (entryOf clock b (w.redis.pttlReply (fullKey p key))) = _
    dsimp only [ReadForm.entry]
    cases entryOf clock b (w.redis.pttlReply (fullKey p key)) <;> rfl

end Runs

/-- A key with a lifetime. -/
def expiringWorld : ReadsWorld Unit :=
  ⟨(Redis.empty 0).put "p:k" ⟨.str [1], some 100⟩, fun _ => none⟩

/-- A read of it, while time passes. -/
def readTicking : List (ReadsEvent Unit) :=
  [.get () "k", .next (), .other (.tick 5), .next (), .finish () 65]

theorem reads_hold_together_ticking :
    ∃ a, some (.ok a) ∈ (readsSystem Lua.integers Driver.plain "p").answers expiringWorld
        readTicking
      ∧ a.entries = [("p:k", ⟨[1], some 160⟩)] ∧ a.Together := by
  have hmem : some (.ok ⟨.get, [⟨"p:k", some [1], 95, 5⟩], 65,
      [expiringWorld.redis, expiringWorld.redis.tick 5]⟩)
      ∈ (readsSystem Lua.integers Driver.plain "p").answers expiringWorld readTicking := by
    refine List.mem_of_getLast? ?_
    rfl
  have halong : (readsSystem Lua.integers Driver.plain "p").Along
      (TearsNoPair Lua.integers Driver.plain "p") expiringWorld readTicking :=
    ⟨trivial, trivial, fun _ _ k b _ _ _ => keepsPair_tick k b _ 5, trivial, trivial, trivial⟩
  exact ⟨_, hmem, rfl, reads_hold_together Lua.integers Driver.plain "p" expiringWorld
    (fun _ => rfl) readTicking halong _ hmem⟩

/-- A key without one. -/
def lastingWorld : ReadsWorld Unit :=
  ⟨(Redis.empty 0).put "p:k" ⟨.str [1], none⟩, fun _ => none⟩

/-- Another value, for a minute. -/
def overwritten : KvEvent := .call 0 (.put "k" [2] (some (Duration.ofMillis 60000 (by decide))))

/-- The server after it. -/
def overwrittenRedis : Redis :=
  ((kvSystem Lua.integers Driver.plain "p").step lastingWorld.redis overwritten).2

/-- **A value is returned with the lifetime of the next.** Between the two
commands of a read the key is given another value, for a minute; what is
returned is the old value, to be gone in a minute. The key never held the
two. -/
theorem read_tears_pair :
    ∃ a, some (.ok a) ∈ (readsSystem Lua.integers Driver.plain "p").answers lastingWorld
        [.get () "k", .next (), .other overwritten, .next (), .finish () 0]
      ∧ a.entries = [("p:k", ⟨[1], some 60000⟩)] ∧ ¬ a.Together := by
  have hpttl : overwrittenRedis.pttlReply "p:k" = 60000 := by decide +kernel
  have hbytes : (Redis.get "p:k" overwrittenRedis).1.toOption = some (some [2]) := by
    decide +kernel
  have hmem : some (.ok ⟨.get, [⟨"p:k", some [1], overwrittenRedis.pttlReply "p:k", 0⟩], 0,
      [lastingWorld.redis, overwrittenRedis]⟩)
      ∈ (readsSystem Lua.integers Driver.plain "p").answers lastingWorld
        [.get () "k", .next (), .other overwritten, .next (), .finish () 0] := by
    refine List.mem_of_getLast? ?_
    rfl
  rw [hpttl] at hmem
  refine ⟨_, hmem, rfl, fun h => ?_⟩
  obtain ⟨s, hs, x, hl, -, hx⟩ := h _ (List.mem_singleton.mpr rfl) ⟨[1], some 60000⟩ rfl
  rcases List.mem_cons.mp hs with rfl | hs
  · -- with the value read there was no lifetime
    have hfirst : lastingWorld.redis.lookup "p:k" = some ⟨.str [1], none⟩ :=
      Redis.lookup_put_self _ rfl
    obtain rfl := congrArg Obj.expireAt (Option.some.inj (hfirst.symm.trans hl))
    cases hx
  · -- and with the lifetime another value
    rw [List.mem_singleton.mp hs] at hl
    rw [Redis.get_str hl] at hbytes
    exact absurd hbytes (by decide)

end RedisKv
