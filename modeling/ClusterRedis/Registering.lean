import ClusterRedis.Envelope

/-!
# The text of a registration

A node writes its registration as an object with a member for each field, and
every replica of the deployment reads it: builds that are older, which leave
out the fields they do not have and do not know some that they find, and
newer ones. What is read is what was written, with the defaults for the rest
(`registration_read_across_builds`).
-/

namespace PeerRegistration

/-- The members of a registration, as a build writes it that has the later two
fields, or has not. -/
def members (r : PeerRegistration) (roles index : Bool) : List (String × Json) :=
  [("address", .str r.address), ("last_seen", .str r.lastSeen)]
    ++ (if roles then [("roles", .arr (r.roles.map .str))] else [])
    ++ if index then [("kv_index", .bool r.kvIndex)] else []

/-- **The text of a registration**, as this build writes it. -/
def text (r : PeerRegistration) : String := String.ofList (Json.render (.obj (r.members true true)))

/-- A member that no build knows. -/
def IsExtra (m : String × Json) : Prop := m.1 ∉ fields

variable {r : PeerRegistration} {roles index : Bool}

/-- **A member that is there once** is read wherever it stands. -/
theorem member_of_perm {ms ms' : List (String × Json)} (h : ms.Perm ms') {name : String}
    {x : Option Json} (hx : ms'.filter (fun m => m.1 == name) = (x.map (Prod.mk name)).toList) :
    Json.member ms name = some x := by
  have hperm := h.filter (fun m => m.1 == name)
  rw [hx] at hperm
  unfold Json.member
  cases x with
  | none => rw [List.perm_nil.mp hperm]
  | some j => rw [List.perm_singleton.mp hperm]

/-- **What is read of the members of a registration.** -/
theorem member_members {ms : List (String × Json)} (h : ms.Perm (r.members roles index)) :
    Json.member ms "address" = some (some (.str r.address))
      ∧ Json.member ms "last_seen" = some (some (.str r.lastSeen))
      ∧ Json.member ms "roles" = some (if roles then some (.arr (r.roles.map .str)) else none)
      ∧ Json.member ms "kv_index" = some (if index then some (.bool r.kvIndex) else none) := by
  refine ⟨member_of_perm h ?_, member_of_perm h ?_, member_of_perm h ?_, member_of_perm h ?_⟩ <;>
    cases roles <;> cases index <;> rfl

/-- The fields that are read of them. -/
theorem ofJson_members {ms : List (String × Json)} (h : ms.Perm (r.members roles index)) :
    ofJson (.obj ms) = some { r with
      roles := if roles then r.roles else []
      kvIndex := index && r.kvIndex } := by
  obtain ⟨ha, hl, hr, hi⟩ := member_members h
  have hroles : Json.readStrs (if roles then some (.arr (r.roles.map .str)) else none)
      = some (if roles then r.roles else []) := by
    cases roles
    · rfl
    · exact Json.mapM_readStr r.roles
  have hindex : Json.readFlag (if index then some (.bool r.kvIndex) else none)
      = some (index && r.kvIndex) := by
    cases index <;> rfl
  rw [ofJson, ha, hl, hr, hi]
  simp only [Option.bind_eq_bind, Option.bind_some, readFields, hroles, hindex, Json.readStr]

/-- A list of texts is written as deep as it is. -/
theorem fitsElems_strs (d : ℕ) (l : List String) : Json.FitsElems d (l.map .str) := by
  induction l with
  | nil => trivial
  | cons s l ih => exact ⟨trivial, ih⟩

/-- Every member that a build writes is a field. -/
theorem mem_fields_of_mem {m : String × Json} (hm : m ∈ r.members roles index) :
    fields.contains m.1 = true := by
  simp only [members, List.mem_append] at hm
  rcases hm with (hm | hm) | hm
  · rcases List.mem_pair.mp hm with rfl | rfl <;> rfl
  · split_ifs at hm <;> simp_all [fields]
  · split_ifs at hm <;> simp_all [fields]

/-- A build's members are written as deep as they are. -/
theorem fits_of_mem {m : String × Json} (hm : m ∈ r.members roles index) : Json.Fits 126 m.2 := by
  simp only [members, List.mem_append] at hm
  rcases hm with (hm | hm) | hm
  · rcases List.mem_pair.mp hm with rfl | rfl <;> trivial
  · split_ifs at hm
    · obtain rfl := List.mem_singleton.mp hm
      exact ⟨by decide, fitsElems_strs _ _⟩
    · cases hm
  · split_ifs at hm
    · obtain rfl := List.mem_singleton.mp hm
      trivial
    · cases hm

/-- **Of the members of a registration its fields are kept.** -/
theorem parseRecord_members {extra : List (String × Json)} (hextra : ∀ m ∈ extra, IsExtra m)
    {ms : List (String × Json)} (h : ms.Perm (r.members roles index ++ extra)) :
    ∃ ms', Json.parseRecord fields (String.ofList (Json.render (.obj ms))) = some (.obj ms')
      ∧ ms'.Perm (r.members roles index) := by
  refine ⟨ms.filter (fun m => fields.contains m.1), Json.parseRecord_render ?_, ?_⟩
  · intro m hm hk
    rcases List.mem_append.mp (h.mem_iff.mp hm) with hm | hm
    · exact fits_of_mem hm
    · exact absurd (List.contains_iff_mem.mp hk) (hextra m hm)
  · have hkeep : (r.members roles index).filter (fun m => fields.contains m.1)
        = r.members roles index := List.filter_eq_self.mpr (fun m hm => mem_fields_of_mem hm)
    have hdrop : extra.filter (fun m => fields.contains m.1) = [] :=
      List.filter_eq_nil_iff.mpr (fun m hm hk => hextra m hm (List.contains_iff_mem.mp hk))
    have hperm := h.filter (fun m => fields.contains m.1)
    rwa [List.filter_append, hkeep, hdrop, List.append_nil] at hperm

/-- **A registration is read by every build, whichever wrote it.** An object
with the fields that a build has, in any order and among any members that no
build knows, is read as the registration, with no roles and no key index where
these were not written. -/
theorem registration_read_across_builds (r : PeerRegistration) (roles index : Bool)
    (extra ms : List (String × Json)) (hextra : ∀ m ∈ extra, IsExtra m)
    (h : ms.Perm (r.members roles index ++ extra)) :
    ofText (String.ofList (Json.render (.obj ms)))
      = some { r with
        roles := if roles then r.roles else []
        kvIndex := index && r.kvIndex } := by
  obtain ⟨ms', hparse, hperm⟩ := parseRecord_members hextra h
  rw [ofText, hparse]
  exact ofJson_members hperm

/-- An older build's registration, with a member of a newer one's. -/
theorem registration_read_older :
    ofText (String.ofList (Json.render (.obj [("zone", .numOther), ("last_seen", .str "t"),
      ("address", .str "a:1")]))) = some ⟨"a:1", "t", [], false⟩ :=
  registration_read_across_builds ⟨"a:1", "t", [], true⟩ false false [("zone", .numOther)] _
    (by simp [IsExtra, fields]) (List.reverse_perm [_, _, _])

/-- **What this build writes is read as it was.** -/
theorem ofText_text (r : PeerRegistration) : ofText r.text = some r := by
  have h : (r.members true true).Perm (r.members true true ++ []) :=
    .of_eq (List.append_nil _).symm
  obtain ⟨ms', hparse, hperm⟩ :=
    parseRecord_members (fun m hm => absurd hm List.not_mem_nil) h
  rw [ofText, text, hparse]
  exact ofJson_members hperm

end PeerRegistration
