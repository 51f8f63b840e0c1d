import ClusterRedis.OlderStays

/-!
# Listings that read the index

When every maintenance task has concluded a tick by a scan that began in the
stay of an older build, and has taken the mark back (`Stay.noted`), with every
operator's completion still to look (`Stay.faced`), the fleet has noticed
(`Fleet.Watched.noticed`). If the last older build that has written goes only
then – or when nothing is left of what such builds have created – no listing
can be misled from there on (`Fleet.index_read_lists_all`). One that goes
between two ticks misleads them (`Fleet.index_read_misses_visit`).
-/

open RedisKv Numerals

variable {ι π : Type}

namespace Fleet

variable [DecidableEq ι] [DecidableEq π] {F : Fleet ι π} {w : FleetWorld ι π} {s : Stay ι π}

/-! ## The fleet has noticed -/

omit [DecidableEq ι] [DecidableEq π] in
theorem early_of_heeds {b : TaskBooks} {st : Stage} (h : st.heeds = true) : Early b st := by
  have hcaller : ∀ {c : Caller}, (!c.completes) = true → c.completes = false := by simp
  cases st with
  | range c => exact hcaller h
  | trim c ids now => exact hcaller h
  | read c ids => exact hcaller h
  | enter c ids found => exact hcaller h
  | scan c ids found cursor keys => exact hcaller h
  | fetch c ids found keys => exact hcaller h
  | told | forget | backfill | index | mark | ready => exact nomatch h
  | _ => exact trivial

omit [DecidableEq ι] [DecidableEq π] in
/-- Only a maintenance task completes the index after a tick. -/
theorem early_of_faces {d : Duty} {b : TaskBooks} {st : Stage} (hd : d ≠ .maintenance)
    (h : st.faces = true) (hfit : st.Fits d) : Early b st := by
  have hcaller : ∀ {c : Caller}, c.fits d = true → c.completes = false := by
    rintro c hc
    cases c with
    | completion started =>
      cases d with
      | maintenance => exact absurd rfl hd
      | operator | peers => exact nomatch hc
    | tick | operator | peers => rfl
  cases st with
  | range c => exact hcaller hfit
  | trim c ids now => exact hcaller hfit
  | read c ids => exact hcaller hfit
  | enter c ids found => exact hcaller hfit
  | scan c ids found cursor keys => exact hcaller hfit
  | fetch c ids found keys => exact hcaller hfit
  | forget c => exact hcaller hfit.1
  | told => exact absurd hfit hd
  | backfill | index | mark | ready => exact nomatch h
  | _ => exact trivial

omit [DecidableEq ι] [DecidableEq π] in
/-- A call of `list_peers` completes nothing. -/
theorem faces_of_peers {st : Stage} (hfit : st.Fits .peers) : st.faces = true := by
  cases st with
  | backfill op | index op | mark op => cases op <;> exact nomatch hfit
  | ready => exact absurd rfl hfit
  | _ => rfl

omit [DecidableEq ι] [DecidableEq π] in
/-- **A fleet whose maintenance tasks have all taken the mark back in a stay
has noticed.** -/
theorem Watched.noticed {id : String} (h : Watched F id w s)
    (hmaint : ∀ x, ∃ i, F.home i = x ∧ F.duty i = .maintenance)
    (hfits : ∀ i, (w.stage i).Fits (F.duty i)) (x : π)
    (hall : ∀ i, F.duty i = .maintenance → s.noted i) : F.Noticed w := by
  have hheeding := fun i hd => h.heeding i hd (h.noted i (hall i hd))
  obtain ⟨m, -, hm⟩ := hmaint x
  refine ⟨h.unmarked ⟨m, hm⟩ hall, fun y => ?_, fun i => ?_⟩
  · obtain ⟨i, rfl, hi⟩ := hmaint y
    exact h.ready i hi (fun j _ hd => h.noted j (hall j hd))
  · have hfit := hfits i
    cases hd : F.duty i with
    | maintenance => exact early_of_heeds (hheeding i hd).1
    | operator =>
      exact early_of_faces (by simp [hd]) (h.facing i hd ((hheeding m hm).2.2 i hd)).1 hfit
    | peers => exact early_of_faces (by simp [hd]) (faces_of_peers (hd ▸ hfit)) hfit

end Fleet

/-! ## Whole runs -/

/-- **What is kept of the older builds**: of the stay of each, and the keys
that they have created, that are still there and that nothing has listed
since. -/
structure Stays (ι π : Type) where
  stay : String → Stay ι π
  left : String → Prop

/-- Nothing is kept yet. -/
def Stays.blank : Stays ι π := ⟨fun _ => Stay.blank, fun _ => False⟩

namespace Fleet

variable [DecidableEq ι] [DecidableEq π]

/-- What is kept after a step. -/
def watch (F : Fleet ι π) (w : FleetWorld ι π) (e : FleetEvent ι) (g : Stays ι π) : Stays ι π where
  stay id := F.stay w e id (g.stay id)
  left k := (g.left k ∨ F.Creates w k e) ∧ (F.act w e).redis.Live k ∧ ¬ F.Lists w k e

/-- The fleet, with what is kept of the older builds. -/
def watching (F : Fleet ι π) : System (FleetWorld ι π × Stays ι π) (FleetEvent ι) Unit :=
  F.system.recording F.watch

/-- **The last older build that has written goes noticed**: when with a step
none of those that have written is registered any more, either nothing is left
of what older builds have created, or every maintenance task has noted the
stay of some older build, whose registration a scan can return. -/
def GoesNoticed (F : Fleet ι π) (x : FleetWorld ι π × Stays ι π) (e : FleetEvent ι) : Prop :=
  (∃ id, (x.2.stay id).wrote) → (∀ id, ¬ (F.stay x.1 e id (x.2.stay id)).wrote) →
    (∀ k, ¬ x.2.left k) ∨ ∃ id, F.older id ∧ Findable F.p id
      ∧ ∀ i, F.duty i = .maintenance → (x.2.stay id).noted i

/-- **What listings rely on**: an older build that has written is registered,
or no listing can be misled. -/
structure Guarded (F : Fleet ι π) (x : FleetWorld ι π × Stays ι π) : Prop
    extends Tracked F x.1 where
  fits : ∀ i, (x.1.stage i).Fits (F.duty i)
  watched : ∀ id, F.older id → Findable F.p id → Watched F id x.1 (x.2.stay id)
  wrote : ∀ id, (x.2.stay id).wrote → F.older id ∧ Registered F.p x.1.redis id
  left : ∀ k, Gap F.p x.1.redis k → x.2.left k
  guarded : (∃ id, (x.2.stay id).wrote) ∨ F.AtRest x.1

variable {F : Fleet ι π} {w : FleetWorld ι π} {e : FleetEvent ι}

omit [DecidableEq ι] [DecidableEq π] in
/-- A data key is no registration. -/
theorem peerKey_ne_fullKey (hp : F.p ≠ "") (id key : String) :
    peerKey F.p id ≠ fullKey F.p key := by
  intro heq
  have hd : IsDataKey F.p (peerKey F.p id) := ⟨key, heq⟩
  rw [isDataKey_iff hp] at hd
  obtain ⟨rest, hrest⟩ := startsWith_iff.mp hd
  rw [peerKey, String.append_assoc, String.append_assoc] at hrest
  have hlist := congrArg String.toList hrest
  simp at hlist

/-- An older build that creates a key is registered, and stays so. -/
theorem registered_of_creator (hp : F.p ≠ "") (hw : F.WritesRegistered w e) {id : String}
    (hc : F.creator w e = some id) : Registered F.p (F.act w e).redis id := by
  cases e with
  | olderWrite id' key o =>
    obtain rfl : id' = id := by
      rw [creator] at hc
      split at hc
      · cases hc
      · exact Option.some.inj hc
    obtain ⟨b, exp, t, reg, hl, hrest⟩ := hw
    refine ⟨b, exp, t, reg, ?_, hrest⟩
    exact (Redis.lookup_put_of_ne w.redis (peerKey_ne_fullKey hp id' key)).trans hl
  | _ => exact absurd hc.symm (Option.some_ne_none id)

omit [DecidableEq ι] [DecidableEq π] in
theorem older_of_creator (he : F.Promised w e) {id : String} (hc : F.creator w e = some id) :
    F.older id := by
  cases e with
  | olderWrite id' key o =>
    rw [creator] at hc
    split at hc
    · cases hc
    · exact Option.some.inj hc ▸ he
  | _ => exact absurd hc.symm (Option.some_ne_none id)

theorem guarded_step (hp : F.p ≠ "") (hmaint : ∀ x, ∃ i, F.home i = x ∧ F.duty i = .maintenance)
    (y : π) (x : FleetWorld ι π × Stays ι π) (e : FleetEvent ι) (h : Guarded F x)
    (he : F.Sound x.1 e ∧ F.WritesRegistered x.1 e ∧ F.GoesNoticed x e) :
    Guarded F (F.watching.step x e).2 where
  toTracked := tracked_step hp e h.toTracked he.1
  fits := fits_act h.fits e
  watched id hold hfind :=
    watched_step hp h.toInOrder h.fits hold hfind he.1.1 (h.watched id hold hfind)
  wrote id hid := ⟨hid.1.elim (fun hw => (h.wrote id hw).1) (older_of_creator he.1.1), hid.2⟩
  left := by
    intro k hk
    replace hk : Gap F.p (F.act x.1 e).redis k := hk
    refine ⟨?_, hk.2.1, fun hl => not_gap_of_lists hp h.typed hl hk⟩
    exact (gap_or_creates hp h.typed he.1 hk).imp_left (h.left k)
  guarded := by
    by_cases hwrote : ∃ id, (F.stay x.1 e id (x.2.stay id)).wrote
    · exact Or.inl hwrote
    refine Or.inr (atRest_step hp h.toTracked he.1 ?_ ?_)
    · by_contra hc
      obtain ⟨id, hid⟩ := Option.ne_none_iff_exists'.mp hc
      exact hwrote ⟨id, Or.inr hid, registered_of_creator hp he.2.1 hid⟩
    · rcases h.guarded with hold | hrest
      · rcases he.2.2 hold (fun id hid => hwrote ⟨id, hid⟩) with hnone | ⟨id, hid, hfind, hall⟩
        · exact Or.inl (fun k hk => hnone k (h.left k hk))
        · exact Or.inr ((h.watched id hid hfind).noticed hmaint h.fits y hall)
      · exact hrest

omit [DecidableEq ι] [DecidableEq π] in
theorem watched_blank (w : FleetWorld ι π) (id : String) : Watched F id w Stay.blank where
  sees _ hi := hi.elim
  finds _ hx := hx.elim
  begun _ hc := hc.elim
  facing _ _ hf := hf.elim
  heeding _ _ hh := hh.elim
  noted _ hn := hn.elim
  ready i hi hall := (hall i rfl hi).elim
  unmarked := by
    rintro ⟨i, hi⟩ hall
    exact (hall i hi).elim

/-- **Listings that read the index miss no key**: started from an index that
lists every data key, no state is reached in which a replica reads the index,
no older build is registered, and a data key is there and not listed – in
every run where the last older build that has written goes noticed. -/
theorem index_read_lists_all (hp : F.p ≠ "")
    (hmaint : ∀ x, ∃ i, F.home i = x ∧ F.duty i = .maintenance) (hw : F.Starts w)
    (hfull : ∀ k, ¬ Gap F.p w.redis k) {es : List (FleetEvent ι)}
    (hes : F.watching.Along
      (fun x e => F.Sound x.1 e ∧ F.WritesRegistered x.1 e ∧ F.GoesNoticed x e)
      (w, Stays.blank) es) {x : π} (hx : (F.system.final w es).ready x = true)
    (hnone : ¬ F.OlderRegistered (F.system.final w es)) {k : String} (hd : IsDataKey F.p k)
    (hl : (F.system.final w es).redis.Live k) :
    (F.system.final w es).redis.Mem (indexKey F.p) k := by
  have hfinal : (F.watching.final (w, Stays.blank) es).1 = F.system.final w es :=
    F.system.recording_final F.watch _ es
  have hstart : Guarded F (w, Stays.blank) :=
    { toTracked := hw.tracked
      fits := fun i => by rw [hw.stage i]; exact trivial
      watched := fun id _ _ => watched_blank w id
      wrote := fun _ hid => hid.elim
      left := fun k hk => absurd hk (hfull k)
      guarded := Or.inr (Or.inl hfull) }
  have h := F.watching.inv_final (I := Guarded F) (guarded_step hp hmaint x) hstart hes
  rw [← hfinal] at hx hnone hl ⊢
  by_contra hm
  rcases h.guarded with ⟨id, hid⟩ | hcomplete | hnoticed
  · exact hnone ⟨id, h.wrote id hid⟩
  · exact hcomplete k ⟨hd, hl, hm⟩
  · rw [hnoticed.ready x] at hx
    exact nomatch hx

/-! ## A replica and an older build -/

/-- A task begins a scan of the registrations next, -/
def isScanStart : Stage → Bool
  | .scan _ _ _ cursor _ => cursor == 0
  | _ => false

/-- or reads what it found for a tick. -/
def isFetchTick : Stage → Bool
  | .fetch .tick _ _ _ => true
  | _ => false

/-- **A tick that scans in the stay and takes the mark back notes it.** -/
theorem noted_of_tick {i : ι} {id : String} {t₁ t₂ t₃ : Turn} (hp : F.p ≠ "")
    (hop : ∀ j, F.duty j ≠ .operator) {x : FleetWorld ι π × Stays ι π}
    (ht : IndexTyped F.p x.1.redis) (hreg : Registered F.p x.1.redis id)
    (h₁ : isScanStart (x.1.stage i) = true) (hf₁ : t₁.fault = none)
    (h₂ : isFetchTick ((F.system.step x.1 (.task i t₁)).2.stage i) = true)
    (h₃ : isInvalidate ((F.system.step (F.system.step x.1 (.task i t₁)).2 (.task i t₂)).2.stage i)
      = true) (hf₃ : t₃.fault ≠ some false) :
    ((F.watching.final x [.task i t₁, .task i t₂, .task i t₃]).2.stay id).noted i := by
  -- the build stays registered
  let w₁ := (F.system.step x.1 (.task i t₁)).2
  let w₂ := (F.system.step w₁ (.task i t₂)).2
  have ht₁ : IndexTyped F.p w₁.redis := (F.taskStep_settles hp ht i t₁).typed
  have hreg₁ : Registered F.p w₁.redis id := (registered_taskStep ht i t₁).mpr hreg
  have ht₂ : IndexTyped F.p w₂.redis := (F.taskStep_settles hp ht₁ i t₂).typed
  have hreg₂ : Registered F.p w₂.redis id := (registered_taskStep ht₁ i t₂).mpr hreg₁
  have hreg₃ : Registered F.p (F.taskStep w₂ i t₃).redis id :=
    (registered_taskStep ht₂ i t₃).mpr hreg₂
  have hstarts : StartsScan x.1 i (.task i t₁) := by
    cases hst : x.1.stage i with
    | scan c ids found cursor keys =>
      rw [hst] at h₁
      exact ⟨t₁, rfl, hf₁, c, ids, found, keys, by rw [hst, eq_of_beq h₁]⟩
    | _ => rw [hst] at h₁; exact nomatch h₁
  replace h₂ : isFetchTick (w₁.stage i) = true := h₂
  replace h₃ : isInvalidate (w₂.stage i) = true := h₃
  have hlooks : F.Looks w₁ (.task i t₂) (F.stay x.1 (.task i t₁) id (x.2.stay id)) i := by
    refine ⟨?_, Or.inr ⟨?_, Or.inr hstarts, hreg₁⟩⟩
    · show (w₂.stage i).gates = true
      cases hst : w₂.stage i with
      | invalidate seen => rfl
      | _ => rw [hst] at h₃; exact nomatch h₃
    · cases hst : w₁.stage i with
      | fetch c ids found keys =>
        rw [hst] at h₂
        cases c with
        | tick => exact ⟨ids, found, keys, rfl⟩
        | completion | operator | peers => exact nomatch h₂
      | _ => rw [hst] at h₂; exact nomatch h₂
  have htakes : TakesBack w₂ i (.task i t₃) := by
    cases hst : w₂.stage i with
    | invalidate seen => exact ⟨t₃, rfl, hf₃, seen, hst⟩
    | _ => rw [hst] at h₃; exact nomatch h₃
  exact ⟨Or.inr ⟨⟨Or.inr ⟨hlooks, fun j hj => absurd hj (hop j)⟩, hreg₂⟩, htakes⟩, hreg₃⟩

omit [DecidableEq ι] [DecidableEq π] in
/-- A store where the scans can return no registration has no older build. -/
theorem Keeps.not_registered {ds : List String} {v : FleetWorld ι ι} (h : Keeps [] ds v)
    (id : String) : ¬ Registered "p" v.redis id := fun hreg =>
  absurd (h.peers _ hreg.live ((show NoGlob "p" by decide).findable id)) List.not_mem_nil

/-- A store that is marked complete and empty. -/
def markedStore : Redis := (Redis.empty 0).put "p#kv-index-complete" ⟨.str [48], none⟩

theorem markedStore_starts : replica.Starts (alikeStart Unit markedStore) := by
  have ht := (IndexInv.empty "p" 0).toIndexTyped
  exact alikeStart_starts Unit _ ⟨ht.index.put (by decide), ht.expiry.put (by decide)⟩
    (fun _ h => nomatch h)

/-- It has nothing to list. -/
theorem markedStore_full (k : String) : ¬ Gap "p" markedStore k := by
  rintro ⟨hd, hl, -⟩
  rw [Redis.eq_of_live_put hl, isDataKey_iff (by decide)] at hd
  exact absurd hd (by decide)

/-- A replica lists the registrations and reads the mark. -/
def reading : List (FleetEvent Unit) :=
  [] ++ (List.replicate 5 (turn ()) ++ [lastTurnAt () 0 []]) ++ List.replicate 3 (turn ())

/-- An older build registers. -/
def enrolled : List (FleetEvent Unit) := reading ++ [.outside "ppeers/old" (some oldRegistration)]

/-- It writes a key. -/
def written : List (FleetEvent Unit) := enrolled ++ [.olderWrite "old" "k" ⟨.str [1], none⟩]

/-- The replica's next tick comes when the last scan is too old, -/
def ticked : List (FleetEvent Unit) :=
  written ++ (List.replicate 6 (turn ()) ++ [turnAt () 15000])

/-- scans the registrations -/
def sighted : List (FleetEvent Unit) :=
  written ++ (List.replicate 6 (turn ()) ++ [turnAt () 15000]
    ++ [lastTurnAt () 15000 ["ppeers/old"]])

/-- and takes the mark back. -/
def noticed : List (FleetEvent Unit) := sighted ++ [turnAt () 15000, turn ()]

/-- The older build goes. -/
def gone : List (FleetEvent Unit) := noticed ++ [.outside "ppeers/old" none]

/-- The replica looks again, -/
def relooked : List (FleetEvent Unit) :=
  gone ++ (List.replicate 6 (turn ()) ++ [turnAt () 40000] ++ [lastTurnAt () 40000 []])

/-- backfills the index, -/
def relisted : List (FleetEvent Unit) :=
  relooked ++ ([turnAt () 40000] ++ List.replicate 3 (turn ()) ++ [turnAt () 40000]
    ++ [lastTurnAt () 0 ["p:k"]])

/-- finds no older build -/
def rechecked : List (FleetEvent Unit) :=
  relisted ++ (List.replicate 6 (turn ()) ++ [lastTurnAt () 0 []])

/-- and marks the index. -/
def remarked : List (FleetEvent Unit) := rechecked ++ List.replicate 3 (turn ())

/-! The promises of the run. -/

theorem start_keeps : Keeps [] [] (replica.system.final (alikeStart Unit markedStore) []) where
  typed := markedStore_starts.typed
  peers k hl hm := by
    rw [Redis.eq_of_live_put hl] at hm
    exact absurd hm (by decide)
  data k hl hm := by
    rw [Redis.eq_of_live_put hl] at hm
    exact absurd hm (by decide)

theorem enrolled_keeps : Keeps ["ppeers/old"] []
    (replica.system.final (alikeStart Unit markedStore) enrolled) := by
  rw [enrolled, System.final_append]
  refine Keeps.registers .maintenance ?_ _
  exact Keeps.append .maintenance (Keeps.append .maintenance start_keeps (by decide)) (by decide)

theorem written_keeps : Keeps ["ppeers/old"] ["p:k"]
    (replica.system.final (alikeStart Unit markedStore) written) := by
  rw [written, System.final_append]
  exact Keeps.writes .maintenance enrolled_keeps "old" "k" _ (by decide)

theorem gone_keeps : Keeps [] ["p:k"]
    (replica.system.final (alikeStart Unit markedStore) gone) := by
  rw [gone, System.final_append]
  refine Keeps.leaves .maintenance ?_
  exact Keeps.append .maintenance (Keeps.append .maintenance written_keeps (by decide)) (by decide)

theorem relisted_keeps : Keeps [] ["p:k"]
    (replica.system.final (alikeStart Unit markedStore) relisted) :=
  Keeps.append .maintenance (Keeps.append .maintenance gone_keeps (by decide)) (by decide)

theorem remarked_keeps : Keeps [] ["p:k"]
    (replica.system.final (alikeStart Unit markedStore) remarked) :=
  Keeps.append .maintenance (Keeps.append .maintenance relisted_keeps (by decide)) (by decide)

/-- What it scans each time. -/
theorem remarked_scans :
    Keeps.scansAfter .maintenance (alikeStart Unit markedStore) () written
        (List.replicate 6 (turn ()) ++ [turnAt () 15000]) = true
      ∧ Keeps.scansAfter .maintenance (alikeStart Unit markedStore) () gone
        (List.replicate 6 (turn ()) ++ [turnAt () 40000]) = true
      ∧ Keeps.scansAfter .maintenance (alikeStart Unit markedStore) () relooked
        ([turnAt () 40000] ++ List.replicate 3 (turn ()) ++ [turnAt () 40000]) = false
      ∧ Keeps.scansAfter .maintenance (alikeStart Unit markedStore) () relisted
        (List.replicate 6 (turn ())) = true := by
  decide +kernel

theorem reading_promised :
    replica.system.Along replica.Promised (alikeStart Unit markedStore) reading := by
  have hnone : replica.system.Along replica.Promised (alikeStart Unit markedStore) [] := trivial
  exact (System.along_append _ _ _ _).mpr
    ⟨Keeps.append_peers .maintenance hnone start_keeps (by decide) (by rfl) 0,
      Keeps.promised_pauses .maintenance (by decide)⟩

theorem gone_promised :
    replica.system.Along replica.Promised (alikeStart Unit markedStore) gone := by
  have henrolled : replica.system.Along replica.Promised (alikeStart Unit markedStore) enrolled :=
    (System.along_append _ _ _ _).mpr ⟨reading_promised, promised_registration _ _, trivial⟩
  have hwritten : replica.system.Along replica.Promised (alikeStart Unit markedStore) written :=
    (System.along_append _ _ _ _).mpr ⟨henrolled, rfl, trivial⟩
  obtain ⟨hscan, -⟩ := remarked_scans
  have hspotted : replica.system.Along replica.Promised (alikeStart Unit markedStore) sighted :=
    Keeps.append_peers .maintenance hwritten written_keeps (by decide) hscan 15000
  have hnoticed : replica.system.Along replica.Promised (alikeStart Unit markedStore) noticed :=
    (System.along_append _ _ _ _).mpr ⟨hspotted, Keeps.promised_pauses .maintenance (by decide)⟩
  exact (System.along_append _ _ _ _).mpr ⟨hnoticed, promised_registration _ _, trivial⟩

theorem remarked_promised :
    replica.system.Along replica.Promised (alikeStart Unit markedStore) remarked := by
  obtain ⟨-, hlook, hbackfill, hlast⟩ := remarked_scans
  have hrelooked : replica.system.Along replica.Promised (alikeStart Unit markedStore) relooked :=
    Keeps.append_peers .maintenance gone_promised gone_keeps (by decide) hlook 40000
  have hrelisted : replica.system.Along replica.Promised (alikeStart Unit markedStore) relisted :=
    Keeps.append_data .maintenance hrelooked (Keeps.append .maintenance gone_keeps (by decide))
      (by decide) hbackfill 0
  exact (System.along_append _ _ _ _).mpr
    ⟨Keeps.append_peers .maintenance hrelisted relisted_keeps (by decide) hlast 0,
      Keeps.promised_pauses .maintenance (by decide)⟩

/-! The older build goes noticed. -/

/-- An older build writes. -/
def isWrite : FleetEvent ι → Bool
  | .olderWrite _ _ _ => true
  | _ => false

/-- No older build has written in its stay. -/
def Unwritten (x : FleetWorld ι π × Stays ι π) : Prop := ∀ id, ¬ (x.2.stay id).wrote

theorem unwritten_step {x : FleetWorld ι π × Stays ι π} (h : Unwritten x) {e : FleetEvent ι}
    (he : isWrite e = false) : Unwritten (F.watching.step x e).2 := by
  rintro id ⟨hw | hc, -⟩
  · exact h id hw
  · cases e with
    | olderWrite id' key o => exact nomatch he
    | _ => exact nomatch hc

/-- Nobody goes unnoticed then. -/
theorem goesNoticed_unwritten {x : FleetWorld ι π × Stays ι π} (h : Unwritten x)
    {es : List (FleetEvent ι)} (hes : ∀ e ∈ es, isWrite e = false) :
    F.watching.Along F.GoesNoticed x es := by
  refine System.Along.of_inv (G := fun _ e => isWrite e = false) (I := Unwritten)
    (fun x e hx he => unwritten_step hx he) (fun x e hx _ => ?_) h (System.along_of_mem _ hes)
  rintro ⟨id, hid⟩
  exact absurd hid (hx id)

/-- Without a write of an older build a run goes on so. -/
theorem goesNoticed_append {x : FleetWorld ι π × Stays ι π} {es fs : List (FleetEvent ι)}
    (h : F.watching.Along F.GoesNoticed x es ∧ Unwritten (F.watching.final x es))
    (hfs : ∀ e ∈ fs, isWrite e = false) : F.watching.Along F.GoesNoticed x (es ++ fs)
      ∧ Unwritten (F.watching.final x (es ++ fs)) := by
  refine ⟨(System.along_append _ _ _ _).mpr ⟨h.1, goesNoticed_unwritten h.2 hfs⟩, ?_⟩
  rw [System.final_append]
  exact F.watching.inv_final (G := fun _ e => isWrite e = false) (I := Unwritten)
    (fun _ _ hx he => unwritten_step hx he) h.2 (System.along_of_mem _ hfs)

/-- An older build that has written is registered. -/
structure Stayed (F : Fleet ι π) (id : String) (x : FleetWorld ι π × Stays ι π) : Prop where
  typed : IndexTyped F.p x.1.redis
  registered : Registered F.p x.1.redis id
  wrote : (x.2.stay id).wrote

theorem stayed_write (hp : F.p ≠ "") {x : FleetWorld ι π × Stays ι π}
    (ht : IndexTyped F.p x.1.redis) {id : String} (hreg : Registered F.p x.1.redis id)
    {key : String} (hl : ¬ x.1.redis.Live (fullKey F.p key)) (o : Obj) :
    Stayed F id (F.watching.step x (.olderWrite id key o)).2 := by
  have hc : F.creator x.1 (.olderWrite id key o) = some id := if_neg hl
  have here := registered_of_creator hp (e := .olderWrite id key o) hreg hc
  exact ⟨(Framed.put hp ht key o).typed, here, Or.inr hc, here⟩

theorem stayed_turn (hp : F.p ≠ "") {x : FleetWorld ι π × Stays ι π} {id : String}
    (h : Stayed F id x) {e : FleetEvent ι} (he : isTurn e = true) :
    Stayed F id (F.watching.step x e).2 := by
  cases e with
  | task i t =>
    have here := (registered_taskStep h.typed i t).mpr h.registered
    exact ⟨(F.taskStep_settles hp h.typed i t).typed, here, Or.inl h.wrote, here⟩
  | _ => exact nomatch he

/-- It does not go by the steps of tasks. -/
theorem goesNoticed_stayed (hp : F.p ≠ "") {x : FleetWorld ι π × Stays ι π} {id : String}
    (h : Stayed F id x) {es : List (FleetEvent ι)} (hes : ∀ e ∈ es, isTurn e = true) :
    F.watching.Along F.GoesNoticed x es := by
  refine System.Along.of_inv (G := fun _ e => isTurn e = true) (I := Stayed F id)
    (fun x e hx he => stayed_turn hp hx he) (fun x e hx he => ?_) h (System.along_of_mem _ hes)
  exact fun _ hgone => absurd (stayed_turn hp hx he).wrote (hgone id)

/-- The replica, with nothing kept of older builds. -/
abbrev markedStart : FleetWorld Unit Unit × Stays Unit Unit :=
  (alikeStart Unit markedStore, Stays.blank)

theorem watched_final (es : List (FleetEvent Unit)) :
    (replica.watching.final markedStart es).1
      = replica.system.final (alikeStart Unit markedStore) es :=
  replica.system.recording_final replica.watch _ es

theorem written_stayed : Stayed replica "old" (replica.watching.final markedStart written) := by
  have hreg : Registered "p" (replica.system.final (alikeStart Unit markedStore) enrolled).redis
      "old" := registered_of_lookup rfl
  have hdead : ¬ (replica.system.final (alikeStart Unit markedStore) enrolled).redis.Live
      "p:k" := fun h => nomatch h
  rw [written, System.final_append]
  refine stayed_write (F := replica) (by decide) ?_ ?_ ?_ _ <;> rw [watched_final]
  · exact enrolled_keeps.typed
  · exact hreg
  · exact hdead

theorem Stayed.turns (hp : F.p ≠ "") {x : FleetWorld ι π × Stays ι π} {id : String}
    (h : Stayed F id x) {es : List (FleetEvent ι)} (hes : ∀ e ∈ es, isTurn e = true) :
    Stayed F id (F.watching.final x es) :=
  F.watching.inv_final (G := fun _ e => isTurn e = true) (I := Stayed F id)
    (fun _ _ hx he => stayed_turn hp hx he) h (System.along_of_mem _ hes)

theorem ticked_stayed : Stayed replica "old" (replica.watching.final markedStart ticked) := by
  rw [ticked, System.final_append]
  exact Stayed.turns (by decide) written_stayed (by decide)

/-- The replica notes the stay of an older build at a tick. -/
theorem replica_notes {x : FleetWorld Unit Unit × Stays Unit Unit} (hs : Stayed replica "old" x)
    {e₁ e₂ e₃ : FleetEvent Unit} (he₁ : e₁ = lastTurnAt () 15000 ["ppeers/old"])
    (he₂ : e₂ = turnAt () 15000) (he₃ : e₃ = turn ()) (h₁ : isScanStart (x.1.stage ()) = true)
    (h₂ : isFetchTick ((replica.system.step x.1 e₁).2.stage ()) = true)
    (h₃ : isInvalidate ((replica.system.step (replica.system.step x.1 e₁).2 e₂).2.stage ())
      = true) : ((replica.watching.final x [e₁, e₂, e₃]).2.stay "old").noted () := by
  subst he₁ he₂ he₃
  exact noted_of_tick (F := replica) (by decide) (fun _ h => nomatch h) hs.typed hs.registered h₁
    rfl h₂ h₃ nofun

theorem noticed_noted :
    ((replica.watching.final markedStart noticed).2.stay "old").noted () := by
  have hnoticed : noticed
      = ticked ++ [lastTurnAt () 15000 ["ppeers/old"], turnAt () 15000, turn ()] := by
    simp [noticed, sighted, ticked]
  have hworld := watched_final ticked
  rw [hnoticed, System.final_append]
  refine replica_notes ticked_stayed rfl rfl rfl ?_ ?_ ?_
  all_goals
    rw [hworld]
    decide +kernel

theorem gone_unwritten : Unwritten (replica.watching.final markedStart gone) := by
  have hgone := Keeps.not_registered gone_keeps
  rw [← watched_final, gone, System.final_append] at hgone
  rw [gone, System.final_append]
  rintro id ⟨-, hreg⟩
  exact hgone id hreg

theorem gone_goesNoticed : replica.watching.Along replica.GoesNoticed markedStart gone := by
  have hstart : replica.watching.Along replica.GoesNoticed markedStart []
      ∧ Unwritten (replica.watching.final markedStart []) := ⟨trivial, fun _ h => h⟩
  have henrolled : replica.watching.Along replica.GoesNoticed markedStart enrolled
      ∧ Unwritten (replica.watching.final markedStart enrolled) :=
    goesNoticed_append (goesNoticed_append (goesNoticed_append hstart (by decide)) (by decide))
      (by decide)
  have hwritten : replica.watching.Along replica.GoesNoticed markedStart written :=
    (System.along_concat _ _ _ _).mpr ⟨henrolled.1,
      fun ⟨id, hid⟩ => absurd hid (henrolled.2 id)⟩
  have hsighted : replica.watching.Along replica.GoesNoticed markedStart sighted :=
    (System.along_append _ _ _ _).mpr
      ⟨hwritten, goesNoticed_stayed (by decide) written_stayed (by decide)⟩
  have hstayed : Stayed replica "old" (replica.watching.final markedStart sighted) := by
    rw [sighted, System.final_append]
    exact Stayed.turns (by decide) written_stayed (by decide)
  have hnoticed : replica.watching.Along replica.GoesNoticed markedStart noticed :=
    (System.along_append _ _ _ _).mpr ⟨hsighted, goesNoticed_stayed (by decide) hstayed (by decide)⟩
  refine (System.along_concat _ _ _ _).mpr ⟨hnoticed, fun _ _ => Or.inr ⟨"old", rfl, ?_, ?_⟩⟩
  · exact (show NoGlob "p" by decide).findable "old"
  · exact fun _ _ => noticed_noted

/-- Who writes is registered. -/
theorem writesRegistered_of_not_isWrite {es : List (FleetEvent ι)}
    (hes : ∀ e ∈ es, isWrite e = false) : F.system.Along F.WritesRegistered w es := by
  refine (System.along_of_mem _ (P := fun e => isWrite e = false) hes).mono (fun _ e he => ?_)
  cases e with
  | olderWrite id key o => exact nomatch he
  | _ => trivial

theorem remarked_goesNoticed : replica.watching.Along replica.GoesNoticed markedStart remarked := by
  have hrelisted : replica.watching.Along replica.GoesNoticed markedStart relisted
      ∧ Unwritten (replica.watching.final markedStart relisted) :=
    goesNoticed_append (goesNoticed_append ⟨gone_goesNoticed, gone_unwritten⟩ (by decide))
      (by decide)
  have hremarked : replica.watching.Along replica.GoesNoticed markedStart remarked
      ∧ Unwritten (replica.watching.final markedStart remarked) :=
    goesNoticed_append (goesNoticed_append hrelisted (by decide)) (by decide)
  exact hremarked.1

theorem remarked_writesRegistered :
    replica.system.Along replica.WritesRegistered (alikeStart Unit markedStore) remarked := by
  have hmore : ∀ {es fs : List (FleetEvent Unit)},
      replica.system.Along replica.WritesRegistered (alikeStart Unit markedStore) es →
      (∀ e ∈ fs, isWrite e = false) →
      replica.system.Along replica.WritesRegistered (alikeStart Unit markedStore) (es ++ fs) :=
    fun h hfs => (System.along_append _ _ _ _).mpr ⟨h, writesRegistered_of_not_isWrite hfs⟩
  have hwritten : replica.system.Along replica.WritesRegistered (alikeStart Unit markedStore)
      written :=
    (System.along_concat _ _ _ _).mpr ⟨writesRegistered_of_not_isWrite (by decide),
      registered_of_lookup rfl⟩
  have hgone : replica.system.Along replica.WritesRegistered (alikeStart Unit markedStore) gone :=
    hmore (hmore (hmore hwritten (by decide)) (by decide)) (by decide)
  have hrelisted : replica.system.Along replica.WritesRegistered (alikeStart Unit markedStore)
      relisted := hmore (hmore hgone (by decide)) (by decide)
  have hrechecked : replica.system.Along replica.WritesRegistered (alikeStart Unit markedStore)
      rechecked := hmore hrelisted (by decide)
  exact hmore hrechecked (by decide)

theorem not_olderRegistered {ds : List String} {v : FleetWorld Unit Unit} (h : Keeps [] ds v) :
    ¬ replica.OlderRegistered v := by
  rintro ⟨id, -, hreg⟩
  exact h.not_registered id hreg

/-- **The key that the older build left is listed** when the replica reads the
index again. -/
theorem index_read_lists_noticed :
    (replica.system.final (alikeStart Unit markedStore) remarked).redis.Mem (indexKey "p")
      "p:k" := by
  have hsound : replica.system.Along replica.Sound (alikeStart Unit markedStore) remarked :=
    remarked_promised.and (tended_of_not_isClient (by decide))
  have hes : replica.watching.Along (fun x e => replica.Sound x.1 e ∧ replica.WritesRegistered x.1 e
      ∧ replica.GoesNoticed x e) markedStart remarked :=
    ((replica.system.recording_along _ _ _).mpr hsound).and
      (((replica.system.recording_along _ _ _).mpr remarked_writesRegistered).and
        remarked_goesNoticed)
  have hready : (replica.system.final (alikeStart Unit markedStore) remarked).ready () = true := by
    decide +kernel
  have hlive : (replica.system.final (alikeStart Unit markedStore) remarked).redis.Live "p:k" := by
    decide +kernel
  exact index_read_lists_all (F := replica) (by decide) (fun x => ⟨x, rfl, rfl⟩) markedStore_starts
    markedStore_full hes hready (not_olderRegistered remarked_keeps) ⟨"k", rfl⟩ hlive

/-- An older build registers, writes a key and goes. -/
def brief : List (FleetEvent Unit) :=
  [.outside "ppeers/old" (some oldRegistration), .olderWrite "old" "k" ⟨.str [1], none⟩,
    .outside "ppeers/old" none]

/-- The replica has read the mark before. -/
def misled : FleetWorld Unit Unit :=
  replica.system.final (alikeStart Unit markedStore) (reading ++ brief)

/-- **An older build that comes and goes between two looks misleads
listings**: the replica reads the index, and the key that the older build
wrote while it was registered is not listed. -/
theorem index_read_misses_visit :
    replica.system.Along (fun w e => replica.Sound w e ∧ replica.WritesRegistered w e)
        (alikeStart Unit markedStore) (reading ++ brief)
      ∧ replica.Starts (alikeStart Unit markedStore) ∧ (∀ k, ¬ Gap "p" markedStore k)
      ∧ misled.ready () = true ∧ ¬ replica.OlderRegistered misled
      ∧ Gap "p" misled.redis "p:k" := by
  have hgone : ¬ replica.OlderRegistered misled := by
    rintro ⟨id, rfl, b, e, t, reg, hl, -⟩
    have hnone : misled.redis.lookup (peerKey "p" "old") = none := rfl
    rw [show misled.redis.lookup (peerKey replica.p "old") = none from hnone] at hl
    exact nomatch hl
  have hwrites : replica.system.Along replica.WritesRegistered (alikeStart Unit markedStore)
      (reading ++ brief) :=
    (System.along_append _ _ _ _).mpr ⟨writesRegistered_of_not_isWrite (by decide), trivial,
      registered_of_lookup rfl, trivial, trivial⟩
  have hpromised : replica.system.Along replica.Promised (alikeStart Unit markedStore)
      (reading ++ brief) :=
    (System.along_append _ _ _ _).mpr ⟨reading_promised, promised_registration _ _, rfl,
      promised_registration _ _, trivial⟩
  exact ⟨(hpromised.and (tended_of_not_isClient (by decide))).and hwrites, markedStore_starts,
    markedStore_full, rfl, hgone, ⟨"k", rfl⟩, rfl, fun h => nomatch h⟩

end Fleet
