import ClusterRedis.Kv

/-!
# The indexes stay true to the keys

Listings read the key index and sweeps read the expiry index, so both must
hold what they are asked for at every moment: a live key is listed, a live
key with an expiry is scheduled, and a listed key that is gone is still
scheduled – otherwise no sweep would ever find it and its entry would stay
for ever.

The invariant (`IndexInv`) is these three together with what they rest on:
the indexes are sorted sets without expiry, and the key index lists data
keys only. One lemma per change of state keeps it; the scripts are folds or
sequences of these changes, so nothing more is needed for them. Lists of
keys that were read long ago are harmless because every maintenance script
looks at each of its keys again.
-/

open Numerals

/-- **The index invariant.** -/
structure IndexInv (p : String) (s : Redis) : Prop extends IndexTyped p s where
  /-- A live data key is listed. -/
  listed : ∀ k, IsDataKey p k → s.Live k → s.Mem (indexKey p) k
  /-- A live data key with an expiry is scheduled. -/
  scheduled : ∀ k o, IsDataKey p k → s.lookup k = some o → o.expireAt ≠ none →
    s.Mem (expiryKey p) k
  /-- A listed key that is gone is still scheduled. -/
  sweepable : ∀ k, s.Mem (indexKey p) k → ¬ s.Live k → s.Mem (expiryKey p) k
  /-- Only data keys are listed. -/
  data : ∀ k, s.Mem (indexKey p) k → IsDataKey p k

namespace IndexInv

variable {p : String} {s : Redis}

theorem IsDataKey.ne_index (hp : p ≠ "") {k : String} (h : IsDataKey p k) : k ≠ indexKey p := by
  obtain ⟨c, rfl⟩ := h
  exact fullKey_ne_indexKey hp c

theorem IsDataKey.ne_expiry (hp : p ≠ "") {k : String} (h : IsDataKey p k) : k ≠ expiryKey p := by
  obtain ⟨c, rfl⟩ := h
  exact fullKey_ne_expiryKey hp c

theorem IsDataKey.ne_complete (hp : p ≠ "") {k : String} (h : IsDataKey p k) :
    k ≠ completeKey p := by
  obtain ⟨c, rfl⟩ := h
  exact fullKey_ne_completeKey hp c

/-- An empty server has nothing to list. -/
theorem empty (p : String) (t : ℕ) : IndexInv p (Redis.empty t) where
  index := fun _ ho => absurd ho (by simp [Redis.lookup, Redis.empty])
  expiry := fun _ ho => absurd ho (by simp [Redis.lookup, Redis.empty])
  listed := fun _ _ hl => absurd hl (by simp [Redis.Live, Redis.lookup, Redis.empty])
  scheduled := fun _ _ _ ho => absurd ho (by simp [Redis.lookup, Redis.empty])
  sweepable := fun _ hm => absurd hm (by
    simp [Redis.Mem, Redis.score, Redis.zmembers, Redis.lookup, Redis.empty])
  data := fun _ hm => absurd hm (by
    simp [Redis.Mem, Redis.score, Redis.zmembers, Redis.lookup, Redis.empty])

/-- **What keeps the invariant.** A change that leaves each data key as it
was, or removes it and its listing, keeps the invariant when: what it lists
is a live data key, what it unlists is gone, and what it unschedules is
either gone and unlisted, or without expiry. -/
theorem reindex {t : Redis} (h : IndexInv p s) (ht : IndexTyped p t)
    (hsame : ∀ m, IsDataKey p m →
      t.lookup m = s.lookup m ∨ t.lookup m = none ∧ ¬ t.Mem (indexKey p) m)
    (hlist : ∀ m, t.Mem (indexKey p) m → s.Mem (indexKey p) m ∨ IsDataKey p m ∧ t.Live m)
    (hunlist : ∀ m, IsDataKey p m → s.Mem (indexKey p) m → t.Mem (indexKey p) m ∨ ¬ t.Live m)
    (hunsched : ∀ m, IsDataKey p m → s.Mem (expiryKey p) m → t.Mem (expiryKey p) m
      ∨ ¬ t.Live m ∧ ¬ t.Mem (indexKey p) m ∨ ∃ v, t.lookup m = some ⟨v, none⟩) :
    IndexInv p t := by
  refine ⟨ht, ?_, ?_, ?_, ?_⟩
  · intro k hk hl
    have hs : t.lookup k = s.lookup k := by
      refine (hsame k hk).resolve_right (fun hn => ?_)
      rw [Redis.Live, hn.1] at hl
      exact absurd hl (by simp)
    exact (hunlist k hk (h.listed k hk ((Redis.live_congr hs).mp hl))).resolve_right
      (fun hn => hn hl)
  · intro k o hk ho hx
    have hs : t.lookup k = s.lookup k := by
      refine (hsame k hk).resolve_right (fun hn => ?_)
      rw [hn.1] at ho
      exact absurd ho (by simp)
    rcases hunsched k hk (h.scheduled k o hk (hs ▸ ho) hx) with hm | ⟨hl, _⟩ | ⟨v, hv⟩
    · exact hm
    · exact absurd (by rw [Redis.Live, ho]; rfl) hl
    · obtain rfl : o = ⟨v, none⟩ := Option.some.inj (ho.symm.trans hv)
      exact absurd rfl hx
  · intro k hm hl
    have hms : s.Mem (indexKey p) k := (hlist k hm).resolve_right (fun hn => hl hn.2)
    have hs : t.lookup k = s.lookup k :=
      (hsame k (h.data k hms)).resolve_right (fun hn => hn.2 hm)
    rcases hunsched k (h.data k hms)
        (h.sweepable k hms (fun hl' => hl ((Redis.live_congr hs).mpr hl')))
      with hm' | ⟨_, hn⟩ | ⟨v, hv⟩
    · exact hm'
    · exact absurd hm hn
    · exact absurd (by rw [Redis.Live, hv]; rfl) hl
  · intro k hm
    rcases hlist k hm with hms | ⟨hk, _⟩
    · exact h.data k hms
    · exact hk

/-! ## One change at a time -/

/-- **An object stored and indexed at its key.** -/
theorem store (hp : p ≠ "") (h : IndexInv p s) (key : String) {o : Obj} {due : Due}
    (ho : o.liveAt s.now = true)
    (hdue : due.Tracks ((s.lookup (fullKey p key)).bind Obj.expireAt) o.expireAt) :
    IndexInv p (s.store (fullKey p key) (indexKey p) (expiryKey p) o due) := by
  have hi := fullKey_ne_indexKey hp key
  have he := fullKey_ne_expiryKey hp key
  have hie := indexKey_ne_expiryKey p
  have hself : (s.store (fullKey p key) (indexKey p) (expiryKey p) o due).lookup (fullKey p key)
      = some o := Redis.lookup_store_self s hi he ho
  have hother : ∀ k, IsDataKey p k → k ≠ fullKey p key →
      (s.store (fullKey p key) (indexKey p) (expiryKey p) o due).lookup k = s.lookup k :=
    fun k hk hne => Redis.lookup_store_of_ne s hne (IsDataKey.ne_index hp hk)
      (IsDataKey.ne_expiry hp hk)
  -- the other keys keep their entries in the expiry index
  have hkeep : ∀ k, k ≠ fullKey p key → s.Mem (expiryKey p) k →
      (s.store (fullKey p key) (indexKey p) (expiryKey p) o due).Mem (expiryKey p) k := by
    intro k hne hm
    rw [Redis.mem_store_expiry s he.symm hie.symm]
    cases due with
    | «at» x => exact Or.inr hm
    | clear => exact ⟨hne, hm⟩
    | keep => exact hm
  refine ⟨⟨h.index.store hi.symm, h.expiry.store he.symm⟩, ?_, ?_, ?_, ?_⟩
  · intro k hk hl
    rw [Redis.mem_store_index s hi.symm hie]
    by_cases hne : k = fullKey p key
    · exact Or.inl hne
    · exact Or.inr (h.listed k hk ((Redis.live_congr (hother k hk hne)).mp hl))
  · intro k o' hk ho' hx
    by_cases hne : k = fullKey p key
    · subst hne
      obtain rfl : o = o' := Option.some.inj (hself.symm.trans ho')
      rw [Redis.mem_store_expiry s he.symm hie.symm]
      cases due with
      | «at» x => exact Or.inl rfl
      | clear => exact absurd hdue hx
      | keep =>
        -- a counter without a lifetime: the expiry is the one it had
        have hb : o.expireAt = (s.lookup (fullKey p key)).bind Obj.expireAt := hdue
        cases hl : s.lookup (fullKey p key) with
        | none => exact absurd (by rw [hb, hl]; rfl) hx
        | some o₀ =>
          rw [hl] at hb
          exact h.scheduled _ o₀ hk hl (fun hn => hx (hb.trans hn))
    · exact hkeep k hne (h.scheduled k o' hk (hother k hk hne ▸ ho') hx)
  · intro k hm hl
    have hne : k ≠ fullKey p key := by
      rintro rfl
      exact hl (by rw [Redis.Live, hself]; rfl)
    rw [Redis.mem_store_index s hi.symm hie] at hm
    have hm : s.Mem (indexKey p) k := hm.resolve_left hne
    exact hkeep k hne (h.sweepable k hm
      (fun hl' => hl ((Redis.live_congr (hother k (h.data k hm) hne)).mpr hl')))
  · intro k hm
    rw [Redis.mem_store_index s hi.symm hie] at hm
    rcases hm with rfl | hm
    · exact ⟨key, rfl⟩
    · exact h.data k hm

/-- **A key removed leaves both indexes.** -/
theorem drop (hp : p ≠ "") (h : IndexInv p s) (key : String) :
    IndexInv p (s.drop (fullKey p key) (indexKey p) (expiryKey p)) := by
  have hi := fullKey_ne_indexKey hp key
  have he := fullKey_ne_expiryKey hp key
  have hie := indexKey_ne_expiryKey p
  have hdead : ¬ (s.drop (fullKey p key) (indexKey p) (expiryKey p)).Live (fullKey p key) := by
    rw [Redis.Live, Redis.lookup_drop_self s hi he]
    simp
  refine h.reindex ⟨h.index.drop hi.symm, h.expiry.drop he.symm⟩ ?_ ?_ ?_ ?_
  · intro m hm
    by_cases hne : m = fullKey p key
    · subst hne
      refine Or.inr ⟨Redis.lookup_drop_self s hi he, ?_⟩
      rw [Redis.mem_drop_index s hi.symm hie]
      exact fun hn => hn.1 rfl
    · exact Or.inl (Redis.lookup_drop_of_ne s hne (IsDataKey.ne_index hp hm)
        (IsDataKey.ne_expiry hp hm))
  · intro m hm
    rw [Redis.mem_drop_index s hi.symm hie] at hm
    exact Or.inl hm.2
  · intro m _ hm
    rw [Redis.mem_drop_index s hi.symm hie]
    by_cases hne : m = fullKey p key
    · exact Or.inr (hne ▸ hdead)
    · exact Or.inl ⟨hne, hm⟩
  · intro m _ hm
    rw [Redis.mem_drop_expiry s he.symm hie.symm, Redis.mem_drop_index s hi.symm hie]
    by_cases hne : m = fullKey p key
    · exact Or.inr (Or.inl ⟨hne ▸ hdead, fun hn => hn.1 hne⟩)
    · exact Or.inl ⟨hne, hm⟩

/-- **A key that is gone may leave both indexes.** -/
theorem unindex (hp : p ≠ "") (h : IndexInv p s) {k : String} (hk : ¬ s.Live k) :
    IndexInv p (s.unindex (indexKey p) (expiryKey p) k) := by
  have hie := indexKey_ne_expiryKey p
  have hsame : ∀ m, IsDataKey p m →
      (s.unindex (indexKey p) (expiryKey p) k).lookup m = s.lookup m :=
    fun m hm => Redis.lookup_unindex_of_ne s (IsDataKey.ne_index hp hm)
      (IsDataKey.ne_expiry hp hm)
  have hdead : ∀ m, IsDataKey p m → m = k →
      ¬ (s.unindex (indexKey p) (expiryKey p) k).Live m := by
    rintro m hm rfl hl
    exact hk ((Redis.live_congr (hsame m hm)).mp hl)
  refine h.reindex ⟨h.index.unindex, h.expiry.unindex⟩ (fun m hm => Or.inl (hsame m hm)) ?_ ?_ ?_
  · intro m hm
    rw [Redis.mem_unindex_index s hie] at hm
    exact Or.inl hm.2
  · intro m hd hm
    rw [Redis.mem_unindex_index s hie]
    by_cases hne : m = k
    · exact Or.inr (hdead m hd hne)
    · exact Or.inl ⟨hne, hm⟩
  · intro m hd hm
    rw [Redis.mem_unindex_expiry s hie.symm, Redis.mem_unindex_index s hie]
    by_cases hne : m = k
    · exact Or.inr (Or.inl ⟨hdead m hd hne, fun hn => hn.1 hne⟩)
    · exact Or.inl ⟨hne, hm⟩

/-- **A key may always be scheduled.** -/
theorem schedule (hp : p ≠ "") (h : IndexInv p s) (k : String) (x : ℤ) :
    IndexInv p (s.zins (expiryKey p) k x) := by
  have hi := Redis.lookup_zins_of_ne s (m := k) (x := x) (indexKey_ne_expiryKey p)
  refine h.reindex ⟨Redis.ZKey.zins s h.index, Redis.ZKey.zins s h.expiry⟩ (fun m hm => Or.inl
    (Redis.lookup_zins_of_ne s (IsDataKey.ne_expiry hp hm))) ?_ ?_ ?_
  · exact fun m hm => Or.inl ((Redis.mem_congr hi).mp hm)
  · exact fun m _ hm => Or.inl ((Redis.mem_congr hi).mpr hm)
  · exact fun m _ hm => Or.inl ((Redis.mem_zins s).mpr (Or.inr hm))

/-- **A key without expiry need not be scheduled.** -/
theorem unschedule (hp : p ≠ "") (h : IndexInv p s) {k : String} {v : Value}
    (hk : s.lookup k = some ⟨v, none⟩) : IndexInv p (s.zdel (expiryKey p) k) := by
  have hi := Redis.lookup_zdel_of_ne s (m := k) (indexKey_ne_expiryKey p)
  refine h.reindex ⟨Redis.ZKey.zdel s h.index, Redis.ZKey.zdel s h.expiry⟩ (fun m hm => Or.inl
    (Redis.lookup_zdel_of_ne s (IsDataKey.ne_expiry hp hm))) ?_ ?_ ?_
  · exact fun m hm => Or.inl ((Redis.mem_congr hi).mp hm)
  · exact fun m _ hm => Or.inl ((Redis.mem_congr hi).mpr hm)
  · intro m hd hm
    rw [Redis.mem_zdel]
    by_cases hne : m = k
    · subst hne
      refine Or.inr (Or.inr ⟨v, ?_⟩)
      rw [Redis.lookup_zdel_of_ne s (IsDataKey.ne_expiry hp hd), hk]
    · exact Or.inl ⟨hne, hm⟩

/-- **A live data key may always be listed.** -/
theorem list (hp : p ≠ "") (h : IndexInv p s) {k : String} (hk : IsDataKey p k) (hl : s.Live k) :
    IndexInv p (s.zins (indexKey p) k 0) := by
  have he := Redis.lookup_zins_of_ne s (m := k) (x := 0) (indexKey_ne_expiryKey p).symm
  have hsame : ∀ m, IsDataKey p m → (s.zins (indexKey p) k 0).lookup m = s.lookup m :=
    fun m hm => Redis.lookup_zins_of_ne s (IsDataKey.ne_index hp hm)
  refine h.reindex ⟨Redis.ZKey.zins s h.index, Redis.ZKey.zins s h.expiry⟩
    (fun m hm => Or.inl (hsame m hm)) ?_ ?_ ?_
  · intro m hm
    rcases (Redis.mem_zins s).mp hm with rfl | hm
    · exact Or.inr ⟨hk, (Redis.live_congr (hsame m hk)).mpr hl⟩
    · exact Or.inl hm
  · exact fun m _ hm => Or.inl ((Redis.mem_zins s).mpr (Or.inr hm))
  · exact fun m _ hm => Or.inl ((Redis.mem_congr he).mpr hm)

/-- **The marker of a complete index is nobody's entry.** -/
theorem congr (hp : p ≠ "") {t : Redis} (h : IndexInv p s)
    (ht : ∀ k, k ≠ completeKey p → t.lookup k = s.lookup k) : IndexInv p t := by
  have hi := ht (indexKey p) (completeKey_ne_indexKey p).symm
  have he := ht (expiryKey p) (completeKey_ne_expiryKey p).symm
  refine h.reindex ⟨h.index.congr hi, h.expiry.congr he⟩
    (fun m hm => Or.inl (ht m (IsDataKey.ne_complete hp hm))) ?_ ?_ ?_
  · exact fun m hm => Or.inl ((Redis.mem_congr hi).mp hm)
  · exact fun m _ hm => Or.inl ((Redis.mem_congr hi).mpr hm)
  · exact fun m _ hm => Or.inl ((Redis.mem_congr he).mpr hm)

/-- **Time passes.** A key that expires was scheduled while it lived. -/
theorem tick (h : IndexInv p s) (d : ℕ) : IndexInv p (s.tick d) := by
  have hi := h.index.lookup_tick d
  have he := h.expiry.lookup_tick d
  refine ⟨⟨h.index.congr hi, h.expiry.congr he⟩, ?_, ?_, ?_, ?_⟩
  · intro k hk hl
    rw [Redis.mem_congr hi]
    exact h.listed k hk (Redis.live_of_tick hl)
  · intro k o hk ho hx
    rw [Redis.mem_congr he]
    exact h.scheduled k o hk (Redis.lookup_of_tick ho) hx
  · intro k hm hl
    rw [Redis.mem_congr hi] at hm
    rw [Redis.mem_congr he]
    by_cases hl' : s.Live k
    · obtain ⟨o, ho⟩ := Option.isSome_iff_exists.mp hl'
      refine h.scheduled k o (h.data k hm) ho (fun hx => hl ?_)
      rw [Redis.Live, Redis.lookup_tick_of_persistent ho hx d]
      rfl
    · exact h.sweepable k hm hl'
  · intro k hm
    exact h.data k ((Redis.mem_congr hi).mp hm)

/-! ## The scripts -/

theorem change (hp : p ≠ "") (h : IndexInv p s) {key : String} {t : Redis}
    (hc : KvChange p key s t) : IndexInv p t := by
  cases hc with
  | same => exact h
  | store o due hlive hdue => exact h.store hp key hlive hdue
  | drop => exact h.drop hp key

/-- A prune settles each of its keys. -/
theorem prune (hp : p ≠ "") (h : IndexInv p s) (ks : List String) :
    IndexInv p (pruneLua (indexKey p) (expiryKey p) ks s).2 := by
  obtain ⟨n, hn⟩ := pruneLua_run ⟨h.index, h.expiry⟩ ks
  rw [hn]
  refine List.foldlRecOn (motive := IndexInv p) ks _ h (fun t ht k _ => ?_)
  unfold pruneKey
  split
  · exact ht
  · next hl => exact ht.unindex hp hl

/-- A sweep settles each of its keys. -/
theorem sweep (hp : p ≠ "") (h : IndexInv p s) (clock : ℕ) (ks : List String) :
    IndexInv p (sweepLua (indexKey p) (expiryKey p) clock ks s).2 := by
  obtain ⟨n, hn⟩ := sweepLua_run ⟨h.index, h.expiry⟩ clock ks
  rw [hn]
  refine List.foldlRecOn (motive := IndexInv p) ks _ h (fun t ht k _ => ?_)
  unfold sweepKey
  split
  · next hl => exact ht.unindex hp (by rw [Redis.Live, hl]; simp)
  · next hl => exact ht.unschedule hp hl
  · exact ht.schedule hp k _

/-- A backfill lists the live keys of its batch, all of them data keys. -/
theorem backfill (hp : p ≠ "") (h : IndexInv p s) (clock : ℕ) {ks : List String}
    (hks : ∀ k ∈ ks, IsDataKey p k) :
    IndexInv p (backfillLua (indexKey p) (expiryKey p) clock ks s).2 := by
  obtain ⟨n, hn⟩ := backfillLua_run ⟨h.index, h.expiry⟩ clock ks
  rw [hn]
  refine List.foldlRecOn (motive := IndexInv p) ks _ h (fun t ht k hk => ?_)
  unfold backfillKey
  split
  · exact ht
  · next o hl =>
    have hlist := ht.list hp (hks k hk) (by rw [Redis.Live, hl]; rfl)
    split
    · exact hlist.schedule hp k _
    · exact hlist

/-- **Every event keeps the invariant.** -/
theorem step (lua : Lua) (drv : Driver) (hp : p ≠ "") (e : KvEvent) (h : IndexInv p s)
    (he : Served p s e) : IndexInv p ((kvSystem lua drv p).step s e).2 := by
  cases e with
  | call clock op => exact h.change hp (call_change lua drv hp h.toIndexTyped clock op he)
  | prune gone => exact h.prune hp gone
  | sweep clock due => exact h.sweep hp clock due
  | backfill clock batch =>
    refine h.backfill hp clock (fun k hk => ?_)
    exact (RedisKv.keyMatch_dataPattern hp).mp (he k (List.mem_of_mem_filter hk))
  | markComplete startedAt =>
    refine h.congr hp (fun k hk => ?_)
    show (Redis.put s (completeKey p) _).lookup k = s.lookup k
    exact Redis.lookup_put_of_ne s hk
  | invalidate =>
    refine h.congr hp (fun k hk => ?_)
    show ((RedisKv.invalidateIndex drv p s).2).lookup k = s.lookup k
    rw [RedisKv.invalidateIndex, Call.invoke_snd]
    unfold Redis.delete
    split
    · exact Redis.lookup_del_of_ne s hk
    · rfl
  | tick d => exact h.tick d

end IndexInv

/-- **The indexes are true in every state a run reaches.** Started on an
empty server, whatever clients, replicas and maintenance do, in any order
and with lists however old: every live data key is in the key index, every
live data key with an expiry is in the expiry index, and every key of the
key index whose data key is gone is still in the expiry index. -/
theorem index_invariant (lua : Lua) (drv : Driver) {p : String} (hp : p ≠ "") (t : ℕ)
    (es : List KvEvent) (hes : (kvSystem lua drv p).Along (Served p) (Redis.empty t) es) :
    let s := (kvSystem lua drv p).final (Redis.empty t) es
    (∀ k, IsDataKey p k → s.Live k → s.Mem (indexKey p) k)
      ∧ (∀ k o, IsDataKey p k → s.lookup k = some o → o.expireAt ≠ none →
          s.Mem (expiryKey p) k)
      ∧ (∀ k, s.Mem (indexKey p) k → ¬ s.Live k → s.Mem (expiryKey p) k) := by
  have h := System.inv_final (kvSystem lua drv p) (I := IndexInv p)
    (fun s e hs he => hs.step lua drv hp e he) (IndexInv.empty p t) hes
  exact ⟨h.listed, h.scheduled, h.sweepable⟩

/-- A run: a key with a lifetime of five milliseconds, an old sweep that
finds nothing, and the key expiring. -/
def expiringRun : List KvEvent :=
  [.call 0 (.put "a" [1] (some (Duration.ofMillis 5 (by decide)))), .sweep 3 ["p:a", "p:b"],
    .tick 10]

/-- The key of the run is gone, listed, and a sweep can find it. -/
theorem index_invariant_expiringRun :
    let s := (kvSystem Lua.integers Driver.plain "p").final (Redis.empty 0) expiringRun
    s.Mem (indexKey "p") "p:a" ∧ ¬ s.Live "p:a" ∧ s.Mem (expiryKey "p") "p:a" := by
  have hm : ((kvSystem Lua.integers Driver.plain "p").final (Redis.empty 0) expiringRun).Mem
      (indexKey "p") "p:a" := by decide
  have hl : ¬ ((kvSystem Lua.integers Driver.plain "p").final (Redis.empty 0) expiringRun).Live
      "p:a" := by decide
  exact ⟨hm, hl, (index_invariant Lua.integers Driver.plain (by decide) 0 expiringRun
    (by decide)).2.2 "p:a" hm hl⟩
