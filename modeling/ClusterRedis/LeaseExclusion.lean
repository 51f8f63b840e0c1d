import ClusterRedis.LeaseRuns

/-!
# Exclusion and fencing

Under the discipline of `LeaseRuns` a renewal or release acts on the newest
acquisition of the lease or on none (`LeaseInv.owner`): if the key is the
holder's and the handle is not ended, no later handle of the same node
exists, and no later acquisition at all. From that one fact follow both what
a lapsed handle can do – nothing – and that the validity of two handles never
overlaps: the key is free only once the newest handle's validity is over
(`WindowInv.newest`), and only the newest handle's validity is ever
extended.

Without the discipline both fail, and in the same way: a handle that has
lapsed finds its node's name in the key, because its node has acquired the
lease again, and renews or deletes what is not its own.
-/

open Numerals

namespace LeaseWorld

variable {w w' : LeaseWorld} {lease fence : String}

/-- **What every step keeps of handles and calls.** -/
structure Persists (w w' : LeaseWorld) : Prop where
  handles : ∀ (i : ℕ) (h' : Handle), w'.handles[i]? = some h' → i < w.handles.length →
    ∃ h : Handle, w.handles[i]? = some h ∧ h'.node = h.node
      ∧ (h.released = true → h'.released = true)
  calls : ∀ c ∈ w'.calls, (∃ c₀ ∈ w.calls, c₀.handle = c.handle)
    ∨ ∃ h, w.handles[c.handle]? = some h ∧ h.released = false

/-- An ended handle stays ended. -/
theorem Persists.ended (hp : w.Persists w') {i : ℕ} (hi : i < w.handles.length)
    (h : w.Ended i) : w'.Ended i := by
  refine ⟨fun h' hh' => ?_, fun c hc hci => ?_⟩
  · obtain ⟨h₀, hh₀, -, hr⟩ := hp.handles i h' hh' hi
    exact hr (h.1 h₀ hh₀)
  · rcases hp.calls c hc with ⟨c₀, hc₀, he⟩ | ⟨h₀, hh₀, hr⟩
    · exact h.2 c₀ hc₀ (he.trans hci)
    · rw [hci] at hh₀
      exact absurd (h.1 h₀ hh₀) (by simp [hr])

theorem Books.persists (h : w.Books w') : w.Persists w' where
  handles := by
    intro i h' hh' _
    obtain ⟨h₀, hh₀, hev⟩ := h.handles i h' hh'
    exact ⟨h₀, hh₀, hev.node, hev.released⟩
  calls := h.calls

/-- The handles that were there and the calls are as they were. -/
theorem Persists.of_append {l : List Handle} (hh : w'.handles = w.handles ++ l)
    (hc : w'.calls = w.calls) : w.Persists w' where
  handles := by
    intro i h' hh' hi
    rw [hh, List.getElem?_append_left hi] at hh'
    exact ⟨h', hh', rfl, id⟩
  calls := fun c hm => Or.inl ⟨c, hc ▸ hm, rfl⟩

/-- A script noted with its call, and its handle changed in what does not
end it. -/
theorem Persists.of_run {c : ℕ} {call : LeaseCall} (hc : w.calls[c]? = some call) (r : ℕ)
    {f : Handle → Handle} (hf : ∀ h, (f h).node = h.node ∧ (f h).released = h.released)
    (hh : w'.handles = w.handles.modify call.handle f)
    (hcs : w'.calls = w.calls.set c { call with reply := some (some r) }) : w.Persists w' where
  handles := by
    intro i h' hh' _
    rw [hh, List.getElem?_modify] at hh'
    cases hl : w.handles[i]? with
    | none =>
      rw [hl] at hh'
      exact absurd hh' (by simp)
    | some h =>
      rw [hl] at hh'
      refine ⟨h, rfl, ?_⟩
      by_cases hi : call.handle = i
      · have : f h = h' := by simpa [hi] using hh'
        rw [← this]
        exact ⟨(hf h).1, fun hr => (hf h).2.trans hr⟩
      · have : h = h' := by simpa [hi] using hh'
        rw [← this]
        exact ⟨rfl, id⟩
  calls := by
    intro c' hc'
    rw [hcs] at hc'
    rcases List.mem_or_eq_of_mem_set hc' with hm | rfl
    · exact Or.inl ⟨c', hm, rfl⟩
    · exact Or.inl ⟨call, List.mem_of_getElem? hc, rfl⟩

end LeaseWorld

open LeaseWorld

/-! ## Who a script can act for -/

/-- **The discipline's invariant.** -/
structure LeaseInv (lease : String) (w : LeaseWorld) : Prop where
  /-- An earlier handle of a node that has a later one is ended. -/
  older : ∀ (i j : ℕ) (hi hj : Handle), i < j → w.handles[i]? = some hi →
    w.handles[j]? = some hj → hi.node = hj.node → w.Ended i
  /-- While a node's acquisition waits for its script, its handles are
  ended. -/
  waiting : ∀ a ∈ w.acquires, a.outcome = none → w.AllEnded a.node
  /-- A node has one acquisition under way. -/
  distinct : (w.acquires.map Acquire.node).Nodup
  /-- **A key that is the holder's is the newest handle's.** -/
  owner : ∀ (i : ℕ) (h : Handle), w.handles[i]? = some h → ¬ w.Ended i →
    w.redis.HeldBy lease h.node → i + 1 = w.handles.length

namespace LeaseInv

variable {w w' : LeaseWorld} {lease fence : String}

theorem start (lease : String) (s : Redis) : LeaseInv lease (LeaseWorld.start s) where
  older := fun _ _ _ _ _ h => absurd h (by simp [LeaseWorld.start, LeaseBooks.none])
  waiting := fun _ h => absurd h (by simp [LeaseWorld.start, LeaseBooks.none])
  distinct := List.nodup_nil
  owner := fun _ _ h => absurd h (by simp [LeaseWorld.start, LeaseBooks.none])

/-- A step that makes no handle and starts no acquisition keeps the
invariant, if whoever the key is now was so before or has nothing in hand. -/
theorem of_persists (h : LeaseInv lease w) (hp : w.Persists w')
    (hlen : w'.handles.length = w.handles.length)
    (hwait : ∀ a ∈ w'.acquires, a.outcome = none → a ∈ w.acquires)
    (hnodes : List.Sublist (w'.acquires.map Acquire.node) (w.acquires.map Acquire.node))
    (hheld : ∀ n, w'.redis.HeldBy lease n → w.redis.HeldBy lease n ∨ w.AllEnded n) :
    LeaseInv lease w' where
  older := by
    intro i j hi hj hij hhi hhj hnode
    have hjl : j < w.handles.length := hlen ▸ (List.getElem?_eq_some_iff.mp hhj).1
    obtain ⟨hi₀, hhi₀, hni, -⟩ := hp.handles i hi hhi (hij.trans hjl)
    obtain ⟨hj₀, hhj₀, hnj, -⟩ := hp.handles j hj hhj hjl
    refine hp.ended (hij.trans hjl) (h.older i j hi₀ hj₀ hij hhi₀ hhj₀ ?_)
    rw [← hni, ← hnj, hnode]
  waiting := by
    intro a ha hnone i hi h' hh' hnode
    have hil : i < w.handles.length := hlen ▸ hi
    obtain ⟨h₀, hh₀, hn, -⟩ := hp.handles i h' hh' hil
    exact hp.ended hil (h.waiting a (hwait a ha hnone) hnone i hil h₀ hh₀ (hn ▸ hnode))
  distinct := hnodes.nodup h.distinct
  owner := by
    intro i h' hh' hne hheld'
    have hil : i < w.handles.length := hlen ▸ (List.getElem?_eq_some_iff.mp hh').1
    obtain ⟨h₀, hh₀, hn, -⟩ := hp.handles i h' hh' hil
    have hne₀ : ¬ w.Ended i := fun he => hne (hp.ended hil he)
    rw [hlen]
    rcases hheld h'.node hheld' with hb | hall
    · exact h.owner i h₀ hh₀ hne₀ (hn ▸ hb)
    · exact absurd (hall i hil h₀ hh₀ hn.symm) hne₀

/-- A key just set is its setter's. -/
theorem node_of_heldBy {s t : Redis} {node n : String} {ttl : ℕ}
    (hl : t.lookup lease = some (leaseObj s node ttl)) (h : t.HeldBy lease n) : n = node := by
  obtain ⟨e, he⟩ := h
  have hv := congrArg Obj.value (Option.some.inj (he.symm.trans hl))
  exact holderBytes_injective (Value.str.inj hv)

/-- A step that makes a handle keeps the invariant, if the node's handles
were ended, its acquisition no longer waits, and the key is now its own. -/
theorem of_new (h : LeaseInv lease w) (hp : w.Persists w') {new : Handle}
    (hwait : ∀ a ∈ w'.acquires, a.outcome = none → a ∈ w.acquires)
    (hnodes : List.Sublist (w'.acquires.map Acquire.node) (w.acquires.map Acquire.node))
    (hh : w'.handles = w.handles ++ [new]) {node : String} (hnew : new.node = node)
    (hall : w.AllEnded node) (hheld : ∀ n, w'.redis.HeldBy lease n → n = node)
    (hgone : ∀ a ∈ w'.acquires, a.outcome = none → a.node ≠ node) : LeaseInv lease w' := by
  have hlen : w'.handles.length = w.handles.length + 1 := by
    rw [hh, List.length_append, List.length_singleton]
  have hlast : ∀ (i : ℕ) (h' : Handle), w'.handles[i]? = some h' → ¬ i < w.handles.length →
      i = w.handles.length ∧ h' = new := by
    intro i h' hh' hi
    have hil := (List.getElem?_eq_some_iff.mp hh').1
    obtain rfl : i = w.handles.length := by omega
    rw [hh, List.getElem?_concat_length] at hh'
    exact ⟨rfl, (Option.some.inj hh').symm⟩
  refine ⟨?_, ?_, hnodes.nodup h.distinct, ?_⟩
  · intro i j hi hj hij hhi hhj hnode
    have hjl := (List.getElem?_eq_some_iff.mp hhj).1
    have hil : i < w.handles.length := by omega
    obtain ⟨hi₀, hhi₀, hni, -⟩ := hp.handles i hi hhi hil
    refine hp.ended hil ?_
    by_cases hjw : j < w.handles.length
    · obtain ⟨hj₀, hhj₀, hnj, -⟩ := hp.handles j hj hhj hjw
      exact h.older i j hi₀ hj₀ hij hhi₀ hhj₀ (by rw [← hni, ← hnj, hnode])
    · obtain ⟨-, rfl⟩ := hlast j hj hhj hjw
      exact hall i hil hi₀ hhi₀ (by rw [← hni, hnode, hnew])
  · intro a ha hnone i hi h' hh' hnode
    by_cases hil : i < w.handles.length
    · obtain ⟨h₀, hh₀, hn, -⟩ := hp.handles i h' hh' hil
      exact hp.ended hil (h.waiting a (hwait a ha hnone) hnone i hil h₀ hh₀ (hn ▸ hnode))
    · obtain ⟨-, rfl⟩ := hlast i h' hh' hil
      exact absurd (hnode.symm.trans hnew) (hgone a ha hnone)
  · intro i h' hh' hne hheld'
    by_cases hil : i < w.handles.length
    · obtain ⟨h₀, hh₀, hn, -⟩ := hp.handles i h' hh' hil
      have hend := hall i hil h₀ hh₀ (hn.symm.trans (hheld h'.node hheld'))
      exact absurd (hp.ended hil hend) hne
    · rw [(hlast i h' hh' hil).1, hlen]

/-- Once its script has run, nobody else of the node waits. -/
theorem distinct_of_set {acquires : List Acquire} {k : ℕ} {a : Acquire} {o : Option ℕ}
    (hd : (acquires.map Acquire.node).Nodup) (hk : acquires[k]? = some a) :
    ∀ b ∈ acquires.set k { a with outcome := some o }, b.outcome = none → b.node ≠ a.node := by
  intro b hb hnone hnode
  obtain ⟨m, hm⟩ := List.mem_iff_getElem?.mp hb
  rw [List.getElem?_set] at hm
  by_cases hkm : k = m
  · rw [if_pos hkm] at hm
    split at hm
    · rw [← Option.some.inj hm] at hnone
      exact absurd hnone (by simp)
    · exact absurd hm (by simp)
  · rw [if_neg hkm] at hm
    have hk' : (acquires.map Acquire.node)[k]? = some a.node := by rw [List.getElem?_map, hk]; rfl
    have hm' : (acquires.map Acquire.node)[m]? = some a.node := by
      rw [List.getElem?_map, hm, ← hnode]
      rfl
    have hkl := (List.getElem?_eq_some_iff.mp hk').1
    exact hkm ((List.getElem?_inj hkl hd).mp (hk'.trans hm'.symm))

/-- **A disciplined step keeps the invariant.** -/
theorem change (hne : lease ≠ fence) (h : LeaseInv lease w) {e : LeaseEvent}
    (hc : Change lease fence w e w') (hd : Disciplined w e) : LeaseInv lease w' := by
  cases hc with
  | books hb =>
    refine h.of_persists hb.persists hb.length hb.waiting hb.nodes (fun n hn => Or.inl ?_)
    rwa [hb.redis] at hn
  | tick d =>
    refine h.of_persists (Persists.of_append (List.append_nil _).symm rfl) rfl (fun _ ha _ => ha)
      (List.Sublist.refl _) ?_
    rintro n ⟨e, he⟩
    exact Or.inl ⟨e, Redis.lookup_of_tick he⟩
  | start node ttl =>
    refine ⟨h.older, ?_, ?_, h.owner⟩
    · intro a ha hnone
      rcases List.mem_append.mp ha with ha | ha
      · exact h.waiting a ha hnone
      · obtain rfl := List.mem_singleton.mp ha
        exact hd.1
    · rw [List.map_append, List.nodup_append]
      refine ⟨h.distinct, List.nodup_singleton _, ?_⟩
      rintro n hn m hm rfl
      obtain ⟨a, ha, rfl⟩ := List.mem_map.mp hn
      exact hd.2 a ha (by simpa using hm)
  | @acquired k a n hk hwait hfree hn =>
    have hall := h.waiting a (List.mem_of_getElem? hk) hwait
    have hlook : ((w.redis.put lease (leaseObj w.redis a.node a.ttl)).put fence
        (w.redis.counted fence n)).lookup lease = some (leaseObj w.redis a.node a.ttl) := by
      rw [Redis.lookup_put_of_ne _ hne, Redis.lookup_put_self _ (liveAt_leaseObj _ _ _)]
    have hbooks := Books.set_acquire (w := w) hk (some w.handles.length)
    exact h.of_new (Persists.of_append rfl rfl) hbooks.waiting hbooks.nodes rfl rfl hall
      (fun m hm => node_of_heldBy hlook hm) (distinct_of_set h.distinct hk)
  | @stuck k a e' hk hwait hfree he =>
    have hbooks := (Books.set_acquire (w := w) hk none)
    refine h.of_persists (Persists.of_append (List.append_nil _).symm rfl) rfl hbooks.waiting
      hbooks.nodes (fun n hn => ?_)
    have hlook : (w.redis.put lease (leaseObj w.redis a.node a.ttl)).lookup lease
        = some (leaseObj w.redis a.node a.ttl) :=
      Redis.lookup_put_self _ (liveAt_leaseObj _ _ _)
    rw [node_of_heldBy hlook hn]
    exact Or.inr (h.waiting a (List.mem_of_getElem? hk) hwait)
  | @renewed c call h₀ hcall hh held =>
    refine h.of_persists (Persists.of_run hcall 1 (f := fun h => { h with lastOk := w.redis.now })
      (fun _ => ⟨rfl, rfl⟩) rfl rfl)
      (List.length_modify _ _ _) (fun _ ha _ => ha) (List.Sublist.refl _) (fun n hn => ?_)
    have hlook : (w.redis.put lease (leaseObj w.redis h₀.node h₀.ttl)).lookup lease
        = some (leaseObj w.redis h₀.node h₀.ttl) :=
      Redis.lookup_put_self _ (liveAt_leaseObj _ _ _)
    rw [node_of_heldBy hlook hn]
    exact Or.inl held
  | @deleted c call h₀ hcall hh held =>
    refine h.of_persists (Persists.of_run hcall 1
      (f := fun h => { h with deletedAt := some w.redis.now }) (fun _ => ⟨rfl, rfl⟩) rfl rfl)
      (List.length_modify _ _ _) (fun _ ha _ => ha) (List.Sublist.refl _) (fun n hn => ?_)
    obtain ⟨e, he⟩ := hn
    exact absurd he (by simp [Redis.lookup_del_self])

/-- A handle with a call under way, whose node's name is in the key, is the
newest. -/
theorem newest_of_call (h : LeaseInv lease w) {c : ℕ} {call : LeaseCall} {h₀ : Handle}
    (hc : w.calls[c]? = some call) (hh : w.handles[call.handle]? = some h₀)
    (held : w.redis.HeldBy lease h₀.node) :
    ¬ w.Ended call.handle ∧ call.handle + 1 = w.handles.length := by
  have hne : ¬ w.Ended call.handle := fun he => he.2 call (List.mem_of_getElem? hc) rfl
  exact ⟨hne, h.owner call.handle h₀ hh hne held⟩

theorem after {p : String} {l : LeaseId} {s : Redis} {es : List LeaseEvent}
    (hd : (l.system p).Along Disciplined (LeaseWorld.start s) es) :
    LeaseInv (l.leaseKey p) (l.after p s es) :=
  System.inv_final _
    (fun w e h hd => h.change (l.leaseKey_ne_fenceKey p)
      (step_change (l.leaseKey_ne_fenceKey p) w e) hd)
    (LeaseInv.start _ s) hd

end LeaseInv

/-! ## Validity -/

/-- **When handles are valid.** -/
structure WindowInv (lease : String) (w : LeaseWorld) : Prop where
  /-- A handle is acquired before now. -/
  past : ∀ (i : ℕ) (h : Handle), w.handles[i]? = some h → h.acquiredAt ≤ w.redis.now
  /-- **The key is the newest handle's, with its deadline**, or that handle's
  validity is over and it can no longer act. -/
  newest : ∀ (i : ℕ) (h : Handle), w.handles[i]? = some h → i + 1 = w.handles.length →
    (h.deletedAt = none ∧
        w.redis.lookup lease = some ⟨.str (holderBytes h.node), some (h.lastOk + h.ttl)⟩)
      ∨ (h.validUntil ≤ w.redis.now ∧ (¬ w.Ended i → ¬ w.redis.HeldBy lease h.node))
  /-- A handle is acquired when the validity of those before is over. -/
  apart : ∀ (i j : ℕ) (hi hj : Handle), i < j → w.handles[i]? = some hi →
    w.handles[j]? = some hj → hi.validUntil ≤ hj.acquiredAt

theorem Handle.Evolves.validUntil {h h' : Handle} (he : h.Evolves h') :
    h'.validUntil = h.validUntil := by
  unfold Handle.validUntil
  rw [he.deletedAt, he.lastOk, he.ttl]

theorem Handle.validUntil_le (h : Handle) : h.validUntil ≤ h.lastOk + h.ttl := by
  unfold Handle.validUntil
  split
  · exact le_rfl
  · exact min_le_right _ _

namespace WindowInv

variable {w w' : LeaseWorld} {lease fence : String}

theorem start (lease : String) (s : Redis) : WindowInv lease (LeaseWorld.start s) where
  past := fun _ _ h => absurd h (by simp [LeaseWorld.start, LeaseBooks.none])
  newest := fun _ _ h => absurd h (by simp [LeaseWorld.start, LeaseBooks.none])
  apart := fun _ _ _ _ _ h => absurd h (by simp [LeaseWorld.start, LeaseBooks.none])

/-- While the lease is free every handle's validity is over. -/
theorem over_of_free (h : WindowInv lease w) (hfree : w.redis.lookup lease = none) {i : ℕ}
    {h₀ : Handle} (hh : w.handles[i]? = some h₀) : h₀.validUntil ≤ w.redis.now := by
  have hil := (List.getElem?_eq_some_iff.mp hh).1
  by_cases hlast : i + 1 = w.handles.length
  · rcases h.newest i h₀ hh hlast with ⟨-, hl⟩ | ⟨hle, -⟩
    · exact absurd (hfree.symm.trans hl) (by simp)
    · exact hle
  · -- the newest handle was acquired after this one's validity, and before now
    have hlt : w.handles.length - 1 < w.handles.length := by omega
    have hget := List.getElem?_eq_getElem hlt
    exact (h.apart i _ h₀ _ (by omega) hh hget).trans (h.past _ _ hget)

theorem books (h : WindowInv lease w) (hb : w.Books w') : WindowInv lease w' where
  past := by
    intro i h' hh'
    obtain ⟨h₀, hh₀, he⟩ := hb.handles i h' hh'
    rw [he.acquiredAt, hb.redis]
    exact h.past i h₀ hh₀
  newest := by
    intro i h' hh' hlast
    obtain ⟨h₀, hh₀, he⟩ := hb.handles i h' hh'
    have hil := (List.getElem?_eq_some_iff.mp hh₀).1
    rw [he.validUntil, he.deletedAt, he.node, he.lastOk, he.ttl, hb.redis]
    refine (h.newest i h₀ hh₀ (hb.length ▸ hlast)).imp_right ?_
    exact And.imp_right (fun hn hne => hn (fun hend => hne (hb.persists.ended hil hend)))
  apart := by
    intro i j hi hj hij hhi hhj
    obtain ⟨hi₀, hhi₀, hei⟩ := hb.handles i hi hhi
    obtain ⟨hj₀, hhj₀, hej⟩ := hb.handles j hj hhj
    rw [hei.validUntil, hej.acquiredAt]
    exact h.apart i j hi₀ hj₀ hij hhi₀ hhj₀

theorem tick (h : WindowInv lease w) (d : ℕ) :
    WindowInv lease { w with redis := w.redis.tick d } where
  past := fun i h' hh' => (h.past i h' hh').trans (Nat.le_add_right _ d)
  newest := by
    intro i h' hh' hlast
    rcases h.newest i h' hh' hlast with ⟨hdel, hl⟩ | ⟨hle, hn⟩
    · by_cases hlive : w.redis.now + d ≤ h'.lastOk + h'.ttl
      · refine Or.inl ⟨hdel, ?_⟩
        show (w.redis.tick d).lookup lease = _
        rw [Redis.lookup_tick, hl]
        simp [Obj.liveAt, hlive]
      · refine Or.inr ⟨h'.validUntil_le.trans (not_le.mp hlive).le, fun _ => ?_⟩
        rintro ⟨e, he⟩
        have hnone : (w.redis.tick d).lookup lease = none := by
          rw [Redis.lookup_tick, hl]
          simp [Obj.liveAt, hlive]
        exact absurd (hnone.symm.trans he) (by simp)
    · refine Or.inr ⟨hle.trans (Nat.le_add_right _ d), fun hne => ?_⟩
      rintro ⟨e, he⟩
      exact hn hne ⟨e, Redis.lookup_of_tick he⟩
  apart := h.apart

/-- The key is set for a node that has nothing in hand, and no handle is
made. -/
theorem stuck (h : WindowInv lease w) (hfree : w.redis.lookup lease = none) {a : Acquire}
    (hall : w.AllEnded a.node) (acquires : List Acquire) :
    WindowInv lease { w with
      redis := w.redis.put lease (leaseObj w.redis a.node a.ttl), acquires := acquires } where
  past := h.past
  newest := by
    intro i h' hh' _
    refine Or.inr ⟨h.over_of_free hfree hh', fun hne hheld => hne ?_⟩
    have hlook : (w.redis.put lease (leaseObj w.redis a.node a.ttl)).lookup lease
        = some (leaseObj w.redis a.node a.ttl) :=
      Redis.lookup_put_self _ (liveAt_leaseObj _ _ _)
    exact hall i (List.getElem?_eq_some_iff.mp hh').1 h' hh' (LeaseInv.node_of_heldBy hlook hheld)
  apart := h.apart

/-- The key is set for a handle that is made. -/
theorem acquired (h : WindowInv lease w) (hfree : w.redis.lookup lease = none) {a : Acquire}
    {token : ℤ} (hnow : w'.redis.now = w.redis.now)
    (hlook : w'.redis.lookup lease = some (leaseObj w.redis a.node a.ttl))
    (hh : w'.handles = w.handles ++ [w.newHandle a token]) : WindowInv lease w' := by
  have hcases : ∀ (i : ℕ) (h' : Handle), w'.handles[i]? = some h' →
      w.handles[i]? = some h' ∨ i = w.handles.length ∧ h' = w.newHandle a token := by
    intro i h' hh'
    rw [hh, List.getElem?_append] at hh'
    split at hh'
    · exact Or.inl hh'
    · next hi =>
      obtain ⟨hz, hx⟩ := List.getElem?_eq_some_iff.mp hh'
      rw [List.length_singleton] at hz
      exact Or.inr ⟨by omega, by simpa using hx.symm⟩
  refine ⟨?_, ?_, ?_⟩
  · intro i h' hh'
    rw [hnow]
    rcases hcases i h' hh' with hold | ⟨-, rfl⟩
    · exact h.past i h' hold
    · exact le_rfl
  · intro i h' hh' hlast
    rcases hcases i h' hh' with hold | ⟨-, rfl⟩
    · have hil := (List.getElem?_eq_some_iff.mp hold).1
      rw [hh, List.length_append, List.length_singleton] at hlast
      omega
    · exact Or.inl ⟨rfl, hlook⟩
  · intro i j hi hj hij hhi hhj
    rcases hcases i hi hhi with hiold | ⟨rfl, -⟩
    · rcases hcases j hj hhj with hjold | ⟨-, rfl⟩
      · exact h.apart i j hi hj hij hiold hjold
      · exact h.over_of_free hfree hiold
    · have := (List.getElem?_eq_some_iff.mp hhj).1
      rw [hh, List.length_append, List.length_singleton] at this
      omega

/-- **The newest handle's script succeeds**: only its own validity changes. -/
theorem ran (h : WindowInv lease w) {i : ℕ} {h₀ : Handle} (hh₀ : w.handles[i]? = some h₀)
    (hlast : i + 1 = w.handles.length) {f : Handle → Handle}
    (hacq : (f h₀).acquiredAt = h₀.acquiredAt) (hnow : w'.redis.now = w.redis.now)
    (hh : w'.handles = w.handles.modify i f)
    (hnew : ((f h₀).deletedAt = none ∧ w'.redis.lookup lease
          = some ⟨.str (holderBytes (f h₀).node), some ((f h₀).lastOk + (f h₀).ttl)⟩)
      ∨ ((f h₀).validUntil ≤ w'.redis.now ∧ ¬ w'.redis.HeldBy lease (f h₀).node)) :
    WindowInv lease w' := by
  have hlen : w'.handles.length = w.handles.length := by rw [hh, List.length_modify]
  have hcases : ∀ (j : ℕ) (h' : Handle), w'.handles[j]? = some h' →
      i = j ∧ h' = f h₀ ∨ i ≠ j ∧ w.handles[j]? = some h' := by
    intro j h' hh'
    rw [hh, List.getElem?_modify] at hh'
    by_cases hij : i = j
    · subst hij
      rw [hh₀] at hh'
      exact Or.inl ⟨rfl, by simpa using hh'.symm⟩
    · exact Or.inr ⟨hij, by simpa [hij] using hh'⟩
  refine ⟨?_, ?_, ?_⟩
  · intro j h' hh'
    rw [hnow]
    rcases hcases j h' hh' with ⟨-, rfl⟩ | ⟨-, hold⟩
    · exact hacq ▸ h.past i h₀ hh₀
    · exact h.past j h' hold
  · intro j h' hh' hjl
    rcases hcases j h' hh' with ⟨-, rfl⟩ | ⟨hij, -⟩
    · exact hnew.imp_right (And.imp_right (fun hn _ => hn))
    · omega
  · intro j k hj hk hjk hhj hhk
    have hkl := (List.getElem?_eq_some_iff.mp hhk).1
    rcases hcases j hj hhj with ⟨rfl, -⟩ | ⟨-, hjold⟩
    · omega
    · rcases hcases k hk hhk with ⟨rfl, rfl⟩ | ⟨-, hkold⟩
      · exact hacq ▸ h.apart j i hj h₀ hjk hjold hh₀
      · exact h.apart j k hj hk hjk hjold hkold

/-- **A disciplined step keeps the windows apart.** -/
theorem change (hne : lease ≠ fence) (hl : LeaseInv lease w) (h : WindowInv lease w)
    {e : LeaseEvent} (hc : Change lease fence w e w') : WindowInv lease w' := by
  cases hc with
  | books hb => exact h.books hb
  | tick d => exact h.tick d
  | start node ttl => exact ⟨h.past, h.newest, h.apart⟩
  | @acquired k a n hk hwait hfree hn =>
    refine h.acquired (a := a) hfree rfl ?_ rfl
    rw [Redis.lookup_put_of_ne _ hne, Redis.lookup_put_self _ (liveAt_leaseObj _ _ _)]
  | @stuck k a e' hk hwait hfree he =>
    exact h.stuck hfree (hl.waiting a (List.mem_of_getElem? hk) hwait) _
  | @renewed c call h₀ hcall hh held =>
    obtain ⟨hend, hlast⟩ := hl.newest_of_call hcall hh held
    refine h.ran hh hlast (f := fun h => { h with lastOk := w.redis.now }) rfl rfl rfl (Or.inl ?_)
    rcases h.newest _ h₀ hh hlast with ⟨hdel, -⟩ | ⟨-, hn⟩
    · exact ⟨hdel, Redis.lookup_put_self _ (liveAt_leaseObj _ _ _)⟩
    · exact absurd held (hn hend)
  | @deleted c call h₀ hcall hh held =>
    obtain ⟨hend, hlast⟩ := hl.newest_of_call hcall hh held
    refine h.ran hh hlast (f := fun h => { h with deletedAt := some w.redis.now }) rfl rfl rfl
      (Or.inr ⟨min_le_left _ _, ?_⟩)
    rintro ⟨e, he⟩
    exact absurd he (by simp [Redis.lookup_del_self])

end WindowInv

/-! ## Tokens -/

/-- The token of an acquisition, as its node has it, from what the counter
counted: a double, as an unsigned integer. -/
def fenceToken (n : ℤ) : ℕ := (Double.round n % 2 ^ 64).toNat

/-- Counts up to `2^53` are their own tokens. -/
theorem fenceToken_of_le {n : ℤ} (h0 : 0 ≤ n) (hle : n ≤ Double.exact) :
    (fenceToken n : ℤ) = n := by
  have hexact : (Double.exact : ℤ) = 2 ^ 53 := rfl
  have hround : Double.round n = n := by
    by_cases hb : n < Double.exact
    · exact Double.round_of_lt (by omega)
    · rw [le_antisymm hle (not_lt.mp hb)]
      decide
  rw [fenceToken, hround]
  omega

/-- A count past `2^53` has a token past it. -/
theorem exact_le_fenceToken {n : ℤ} (hi : n < 2 ^ 63) (hge : Double.exact ≤ n) :
    Double.exact ≤ fenceToken n := by
  have hexact : (Double.exact : ℤ) = 2 ^ 53 := rfl
  have hpos : 0 < n := by omega
  have hlo : Double.exact ≤ Double.roundNat n.natAbs := Double.exact_le_roundNat (by omega)
  have hup := Double.roundNat_le n.natAbs
  rw [fenceToken, Double.round, Int.sign_eq_one_of_pos hpos, one_mul]
  omega

/-- A larger count has a larger token, if the smaller one's is exact. -/
theorem fenceToken_lt {m n : ℤ} (h0 : 0 < m) (hmn : m < n) (hi : n < 2 ^ 63)
    (hm : fenceToken m < Double.exact) : fenceToken m < fenceToken n := by
  have hm' : m < Double.exact := by
    by_contra hge
    exact absurd (exact_le_fenceToken (hmn.trans hi) (not_lt.mp hge)) (not_le.mpr hm)
  have hmt := fenceToken_of_le h0.le hm'.le
  rcases lt_or_ge n Double.exact with hn | hn
  · have hnt := fenceToken_of_le (h0.trans hmn).le hn.le
    omega
  · exact lt_of_lt_of_le hm (exact_le_fenceToken hi hn)

/-- **What the counter has handed out.** -/
structure TokenInv (fence : String) (w : LeaseWorld) : Prop where
  /-- The counter never expires. -/
  persistent : ∀ o, w.redis.lookup fence = some o → o.expireAt = none
  nonneg : ∀ c, w.redis.counter fence = .ok c → 0 ≤ c
  /-- **The tokens are those of ever larger counts**, none above the
  counter. -/
  counts : ∃ ns : List ℤ, w.handles.map Handle.token = ns.map fenceToken ∧ ns.Pairwise (· < ·)
    ∧ ∀ n ∈ ns, 0 < n ∧ ∃ c, w.redis.counter fence = .ok c ∧ n ≤ c

namespace TokenInv

variable {w w' : LeaseWorld} {lease fence : String}

theorem start {s : Redis} (hp : ∀ o, s.lookup fence = some o → o.expireAt = none)
    (h0 : ∀ c, s.counter fence = .ok c → 0 ≤ c) : TokenInv fence (LeaseWorld.start s) :=
  ⟨hp, h0, [], rfl, List.Pairwise.nil, fun _ h => absurd h (by simp)⟩

/-- Tokens and counter as they were. -/
theorem congr (h : TokenInv fence w) (hl : w'.redis.lookup fence = w.redis.lookup fence)
    (ht : w'.handles.map Handle.token = w.handles.map Handle.token) : TokenInv fence w' where
  persistent := by
    rw [hl]
    exact h.persistent
  nonneg := by
    rw [Redis.counter_congr hl]
    exact h.nonneg
  counts := by
    rw [ht, Redis.counter_congr hl]
    exact h.counts

theorem map_token_of_books (hb : w.Books w') :
    w'.handles.map Handle.token = w.handles.map Handle.token := by
  refine List.ext_getElem? (fun i => ?_)
  rw [List.getElem?_map, List.getElem?_map]
  cases hh' : w'.handles[i]? with
  | none =>
    rw [List.getElem?_eq_none_iff, hb.length, ← List.getElem?_eq_none_iff] at hh'
    rw [hh']
  | some h' =>
    obtain ⟨h₀, hh₀, he⟩ := hb.handles i h' hh'
    rw [hh₀]
    exact congrArg some he.token

theorem map_token_modify {f : Handle → Handle} (hf : ∀ h, (f h).token = h.token) (l : List Handle)
    (i : ℕ) : (l.modify i f).map Handle.token = l.map Handle.token := by
  refine List.ext_getElem? (fun j => ?_)
  rw [List.getElem?_map, List.getElem?_map, List.getElem?_modify]
  cases l[j]? with
  | none => rfl
  | some h =>
    show some (Handle.token (if i = j then f h else h)) = some h.token
    split
    · rw [hf]
    · rfl

theorem lookup_tick (h : TokenInv fence w) (d : ℕ) :
    (w.redis.tick d).lookup fence = w.redis.lookup fence := by
  cases hl : w.redis.lookup fence with
  | none => rw [Redis.lookup_tick, hl]; rfl
  | some o => exact Redis.lookup_tick_of_persistent hl (h.persistent o hl) d

/-- **An acquisition counts above all others.** -/
theorem acquired (h : TokenInv fence w) {a : Acquire} {n : ℤ}
    (hn : w.redis.count fence (some 1) = .ok n)
    (hl : w'.redis.lookup fence = some (w.redis.counted fence n))
    (hh : w'.handles = w.handles ++ [w.newHandle a (Double.round n)]) : TokenInv fence w' := by
  obtain ⟨-, c, hc, hi, rfl⟩ := Redis.count_eq_ok_iff.mp hn
  have hcount : w'.redis.counter fence = .ok (c + 1) := Redis.counter_counted hi hl
  have h0 := h.nonneg c hc
  obtain ⟨ns, htok, hinc, hle⟩ := h.counts
  have hold : ∀ m ∈ ns, m ≤ c := by
    intro m hm
    obtain ⟨-, c', hc', hmc⟩ := hle m hm
    rwa [Except.ok.inj (hc.symm.trans hc')]
  refine ⟨?_, ?_, ns ++ [c + 1], ?_, ?_, ?_⟩
  · intro o ho
    obtain rfl := Option.some.inj (hl.symm.trans ho)
    show (w.redis.lookup fence).bind Obj.expireAt = none
    cases hf : w.redis.lookup fence with
    | none => rfl
    | some o => exact h.persistent o hf
  · intro c' hc'
    rw [← Except.ok.inj (hcount.symm.trans hc')]
    omega
  · rw [hh, List.map_append, List.map_append, htok]
    rfl
  · refine List.pairwise_append.mpr ⟨hinc, List.pairwise_singleton _ _, fun m hm n hn => ?_⟩
    rw [List.mem_singleton.mp hn]
    exact Int.lt_add_one_of_le (hold m hm)
  · intro m hm
    rcases List.mem_append.mp hm with hm | hm
    · exact ⟨(hle m hm).1, c + 1, hcount, (hold m hm).trans (by omega)⟩
    · rw [List.mem_singleton.mp hm]
      exact ⟨by omega, c + 1, hcount, le_rfl⟩

/-- **Every step keeps the counts increasing.** -/
theorem change (hne : lease ≠ fence) (h : TokenInv fence w) {e : LeaseEvent}
    (hc : Change lease fence w e w') : TokenInv fence w' := by
  cases hc with
  | books hb => exact h.congr (by rw [hb.redis]) (map_token_of_books hb)
  | tick d => exact h.congr (h.lookup_tick d) rfl
  | start node ttl => exact h.congr rfl rfl
  | @acquired k a n hk hwait hfree hn =>
    exact h.acquired hn (Redis.lookup_put_self _ (Redis.liveAt_counted fence n)) rfl
  | @stuck k a e' hk hwait hfree he => exact h.congr (Redis.lookup_put_of_ne _ hne.symm) rfl
  | @renewed c call h₀ hcall hh held =>
    exact h.congr (Redis.lookup_put_of_ne _ hne.symm)
      (map_token_modify (f := fun h => { h with lastOk := w.redis.now }) (fun _ => rfl) _ _)
  | @deleted c call h₀ hcall hh held =>
    exact h.congr (Redis.lookup_del_of_ne _ hne.symm) (map_token_modify
      (f := fun h => { h with deletedAt := some w.redis.now }) (fun _ => rfl) _ _)

/-- **Tokens increase** up to a counter of `2^53`. -/
theorem increasing (h : TokenInv fence w)
    (hmax : ∀ c, w.redis.counter fence = .ok c → c ≤ Double.exact) :
    (w.handles.map Handle.token).Pairwise (· < ·) := by
  obtain ⟨ns, htok, hinc, hle⟩ := h.counts
  rw [htok, List.pairwise_map]
  refine hinc.imp_of_mem (fun {m n} hm hn hmn => ?_)
  have hexact : ∀ k ∈ ns, (fenceToken k : ℤ) = k := by
    intro k hk
    obtain ⟨h0, c, hc, hkc⟩ := hle k hk
    exact fenceToken_of_le h0.le (hkc.trans (hmax c hc))
  have hm' := hexact m hm
  have hn' := hexact n hn
  omega

/-- **Tokens increase** as long as they are exact. -/
theorem increasing_exact (h : TokenInv fence w) :
    (w.handles.map Handle.token).Pairwise (fun a b => a < Double.exact → a < b) := by
  obtain ⟨ns, htok, hinc, hle⟩ := h.counts
  rw [htok, List.pairwise_map]
  refine hinc.imp_of_mem (fun {m n} hm hn hmn hex => ?_)
  obtain ⟨-, c, hc, hnc⟩ := hle n hn
  exact fenceToken_lt (hle m hm).1 hmn (lt_of_le_of_lt hnc (Redis.inI64_of_counter hc).2) hex

end TokenInv

/-! ## Exclusion -/

/-- Two handles are never valid at one time. -/
def Handle.Apart (h h' : Handle) : Prop := ∀ t, ¬ (h.ValidAt t ∧ h'.ValidAt t)

/-- **Mutual exclusion with fencing.** In every disciplined run the handles
of a lease are never valid at one time; and if its counter, which started
from zero or more without an expiry, has not passed `2^53`, the tokens of
successive acquisitions increase. -/
theorem lease_exclusion (p : String) (l : LeaseId) (s : Redis) (es : List LeaseEvent)
    (hd : (l.system p).Along Disciplined (LeaseWorld.start s) es) :
    (l.after p s es).handles.Pairwise Handle.Apart
      ∧ ((∀ o, s.lookup (l.fenceKey p) = some o → o.expireAt = none) →
        (∀ c, s.counter (l.fenceKey p) = .ok c → 0 ≤ c) →
        (∀ c, (l.after p s es).redis.counter (l.fenceKey p) = .ok c → c ≤ Double.exact) →
        ((l.after p s es).handles.map Handle.token).Pairwise (· < ·)) := by
  have hne := l.leaseKey_ne_fenceKey p
  refine ⟨?_, fun hp h0 hmax => ?_⟩
  · have hinv : LeaseInv (l.leaseKey p) (l.after p s es)
        ∧ WindowInv (l.leaseKey p) (l.after p s es) :=
      System.inv_final (l.system p)
        (I := fun w => LeaseInv (l.leaseKey p) w ∧ WindowInv (l.leaseKey p) w)
        (fun w e h hd => ⟨h.1.change hne (step_change hne w e) hd,
          h.2.change hne h.1 (step_change hne w e)⟩)
        ⟨LeaseInv.start _ s, WindowInv.start _ s⟩ hd
    refine List.pairwise_iff_getElem.mpr (fun i j hi hj hij t => ?_)
    have hap := hinv.2.apart i j _ _ hij (List.getElem?_eq_getElem hi) (List.getElem?_eq_getElem hj)
    rintro ⟨⟨-, hlt⟩, ⟨hle, -⟩⟩
    omega
  · have hinv := System.inv_final (l.system p) (I := TokenInv (l.fenceKey p))
      (fun w e h _ => h.change hne (step_change hne w e)) (TokenInv.start hp h0) hd
    exact hinv.increasing hmax

/-- A lock the runs below are about. -/
def jobLock : LeaseId := ⟨.locks, "job"⟩

/-- A lifetime of ten milliseconds. -/
def tenMs : Duration := Duration.ofMillis 10 (by decide)

/-- Two nodes, one after the other. -/
def handedOverRun : List LeaseEvent :=
  [.acquire "a" tenMs, .acquireRun 0, .acquireReturn 0 false, .tick 5, .renew 0, .callRun 0,
    .callReturn 0, .tick 11, .acquire "b" tenMs, .acquireRun 0, .acquireReturn 0 false]

theorem lease_exclusion_handedOver :
    (jobLock.after "mcpg:" (Redis.empty 0) handedOverRun).handles.length = 2
      ∧ (jobLock.after "mcpg:" (Redis.empty 0) handedOverRun).handles.Pairwise Handle.Apart
      ∧ ((jobLock.after "mcpg:" (Redis.empty 0) handedOverRun).handles.map Handle.token).Pairwise
        (· < ·) := by
  have h := lease_exclusion "mcpg:" jobLock (Redis.empty 0) handedOverRun (by decide)
  have hcounter : (jobLock.after "mcpg:" (Redis.empty 0) handedOverRun).redis.counter
      (jobLock.fenceKey "mcpg:") = .ok 2 := by rfl
  refine ⟨by decide, h.1, h.2 ?_ ?_ ?_⟩
  · exact fun o ho => absurd ho (by simp [Redis.empty, Redis.lookup])
  · intro c hc
    rw [← Except.ok.inj (show Except.ok 0 = Except.ok c from hc)]
  · intro c hc
    rw [← Except.ok.inj (hcounter.symm.trans hc)]
    decide

/-- A node has two acquisitions under way. The second finds the lease free
once the first's handle has lapsed, and then that handle is renewed. -/
def twoAcquiresRun : List LeaseEvent :=
  [.acquire "a" tenMs, .acquire "a" tenMs, .acquireRun 0, .acquireReturn 0 false, .tick 11,
    .acquireRun 0, .renew 0, .callRun 0]

/-- A node acquires, releases and acquires again. -/
def againRun : List LeaseEvent :=
  [.acquire "a" tenMs, .acquireRun 0, .acquireReturn 0 false, .release 0, .callRun 0,
    .callReturn 0, .acquire "a" tenMs, .acquireRun 0, .acquireReturn 0 false]

/-- A server whose counter has handed out the tokens below `2^53`. -/
def worn : Redis :=
  (Redis.empty 0).put (jobLock.fenceKey "mcpg:") ⟨.str (ll2string (2 ^ 53 - 1)), none⟩

/-- **Ending earlier handles first is not enough.** When a node has two
acquisitions under way both handles are valid at one time; and a counter
that has counted past `2^53` hands out a token twice, though every handle
was ended first. -/
theorem lease_exclusion_fails :
    ((jobLock.system "mcpg:").Along EndsFirst (LeaseWorld.start (Redis.empty 0)) twoAcquiresRun
        ∧ (jobLock.after "mcpg:" (Redis.empty 0) twoAcquiresRun).handles.map
          (fun h => decide (h.ValidAt 15)) = [true, true])
      ∧ ((jobLock.system "mcpg:").Along EndsFirst (LeaseWorld.start worn) againRun
        ∧ (jobLock.after "mcpg:" worn againRun).handles.map Handle.token = [2 ^ 53, 2 ^ 53]) := by
  decide

/-! ## A lapsed handle -/

/-- **The script of a call acts**: the server is not as it was, or the call
will return that it succeeded. -/
def LeaseWorld.Acts (lease fence : String) (w : LeaseWorld) (c : ℕ) : Prop :=
  ((leaseSystem lease fence).step w (.callRun c)).2.redis ≠ w.redis
    ∨ ∃ call ∈ ((leaseSystem lease fence).step w (.callRun c)).2.calls[c]?, ∃ n ≠ 0,
      call.reply = some (some n)

/-- A script acts only on a key that is its handle's node's. -/
theorem LeaseWorld.heldBy_of_acts {w : LeaseWorld} {lease fence : String} {c : ℕ}
    {call : LeaseCall} {h : Handle} (hc : w.calls[c]? = some call)
    (hh : w.handles[call.handle]? = some h) (hrun : call.reply = none)
    (hacts : w.Acts lease fence c) : w.redis.HeldBy lease h.node := by
  have hstep : ((leaseSystem lease fence).step w (.callRun c)).2 = w.runCall lease c h call := by
    simp [leaseSystem, hc, hh, hrun]
  by_contra hnot
  have hquiet : (script lease h call.kind w.redis).2 = w.redis
      ∧ (script lease h call.kind w.redis).1 ∈ quiet := by
    cases call.kind with
    | renew => exact casLua_not_held hnot
    | release => exact casLua_not_held hnot
  unfold LeaseWorld.Acts at hacts
  rw [hstep] at hacts
  rcases hacts with hredis | ⟨call', hcall', n, hn, hreply⟩
  · exact hredis hquiet.1
  · have hset : (w.runCall lease c h call).calls[c]?
        = some { call with reply := some (script lease h call.kind w.redis).1.toOption } := by
      show (w.calls.set c _)[c]? = _
      rw [List.getElem?_set_self (List.getElem?_eq_some_iff.mp hc).1]
    rw [hset] at hcall'
    obtain rfl := Option.some.inj hcall'
    have hok : (script lease h call.kind w.redis).1.toOption = some n := Option.some.inj hreply
    cases hr : (script lease h call.kind w.redis).1 with
    | error e => exact absurd hok (by simp [hr, Except.toOption])
    | ok m =>
      have hm : m = n := by simpa [hr, Except.toOption] using hok
      exact hn (hm ▸ hquiet.2 m hr)

/-- **A renewal or release acts only through the newest acquisition of the
lease.** In every disciplined run, a script that is about to run for a
handle and acts is that of the handle whose token was the last handed
out. -/
theorem lapsed_handle_powerless (p : String) (l : LeaseId) (s : Redis) (es : List LeaseEvent)
    (hd : (l.system p).Along Disciplined (LeaseWorld.start s) es) (c : ℕ) (call : LeaseCall)
    (h : Handle) (hc : (l.after p s es).calls[c]? = some call) (hrun : call.reply = none)
    (hh : (l.after p s es).handles[call.handle]? = some h)
    (hacts : (l.after p s es).Acts (l.leaseKey p) (l.fenceKey p) c) :
    (l.after p s es).handles.getLast? = some h := by
  have held := LeaseWorld.heldBy_of_acts hc hh hrun hacts
  have hlast := ((LeaseInv.after hd).newest_of_call hc hh held).2
  rw [List.getLast?_eq_getElem?, ← hlast, Nat.add_sub_cancel, hh]

/-- A node acquires and releases, another acquires and lets its lease lapse, and
the first acquires again; a renewal of either's last handle is about to run. -/
def renewingRun : List LeaseEvent :=
  [.acquire "a" tenMs, .acquireRun 0, .acquireReturn 0 false, .release 0, .callRun 0,
    .callReturn 0, .acquire "b" tenMs, .acquireRun 0, .acquireReturn 0 false, .tick 11,
    .acquire "a" tenMs, .acquireRun 0, .acquireReturn 0 false, .tick 5, .renew 1, .renew 2]

theorem lapsed_handle_powerless_renewing :
    (jobLock.after "mcpg:" (Redis.empty 0) renewingRun).handles.map Handle.token = [1, 2, 3]
      ∧ (jobLock.after "mcpg:" (Redis.empty 0) renewingRun).Acts (jobLock.leaseKey "mcpg:")
        (jobLock.fenceKey "mcpg:") 1
      ∧ (jobLock.after "mcpg:" (Redis.empty 0) renewingRun).handles.getLast?.map Handle.token
        = some 3 := by
  have hacts : (jobLock.after "mcpg:" (Redis.empty 0) renewingRun).Acts (jobLock.leaseKey "mcpg:")
      (jobLock.fenceKey "mcpg:") 1 :=
    Or.inr ⟨⟨2, .renew, some (some 1)⟩, by decide, 1, by decide, rfl⟩
  refine ⟨by decide, hacts, ?_⟩
  rw [lapsed_handle_powerless "mcpg:" jobLock (Redis.empty 0) renewingRun (by decide) 1
    ⟨2, .renew, none⟩ ⟨"a", 10, by decide, 3, false, 11, 11, none⟩ (by decide) rfl (by decide)
    hacts]
  rfl

/-- A node's lease lapses and the node acquires it again: tokens 1 and 2. -/
def overtakenRun : List LeaseEvent :=
  [.acquire "a" tenMs, .acquireRun 0, .acquireReturn 0 false, .tick 11,
    .acquire "a" tenMs, .acquireRun 0, .acquireReturn 0 false]

/-- **A lapsed handle acts on its node's next acquisition**: once the node
has token 2, a renewal through token 1 succeeds and extends the key, and a
release through token 1 deletes it. -/
theorem lapsed_handle_acts :
    (jobLock.after "mcpg:" (Redis.empty 0) overtakenRun).handles.map Handle.token = [1, 2]
      ∧ (jobLock.system "mcpg:").answers (jobLock.after "mcpg:" (Redis.empty 0) overtakenRun)
        [.tick 1, .renew 0, .callRun 0, .callReturn 0] = [none, none, none, some .ok]
      ∧ ((jobLock.after "mcpg:" (Redis.empty 0) overtakenRun).redis.lookup
          (jobLock.leaseKey "mcpg:")).bind Obj.expireAt = some 21
      ∧ ((jobLock.after "mcpg:" (Redis.empty 0)
          (overtakenRun ++ [.tick 1, .renew 0, .callRun 0])).redis.lookup
            (jobLock.leaseKey "mcpg:")).bind Obj.expireAt = some 22
      ∧ (jobLock.after "mcpg:" (Redis.empty 0)
          (overtakenRun ++ [.tick 1, .release 0, .callRun 0])).redis.lookup
            (jobLock.leaseKey "mcpg:") = none := by
  decide
