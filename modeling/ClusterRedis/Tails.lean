import Mathlib.Data.List.Infix

/-!
# Names under a prefix

A name is a prefix with a tail behind it. The tails of a family are those
that begin with one of its tags, and beside them some that nothing follows.
Whether two prefixes have a name in common is a question about the shorter:
the rest of the longer is where a tail of the shorter begins. If the family
is well cut – no tag can be split so that its second part begins a tail
again – the rest begins with a tag (`WellCut.opens`), and the two prefixes
have no name in common exactly when neither goes on from the other that way
(`under_disjoint_iff`).

A tag that can be split so is allowed for as an exception: its first part is
listed among `odd`.
-/

/-- **A family of tails.** -/
structure Tails (α : Type) where
  /-- Beginnings that anything may follow. -/
  tags : List (List α)
  /-- Tails that nothing follows. -/
  fixed : List (List α)

namespace Tails

variable {α : Type} (F : Tails α) {odd : List (List α)}

/-- A tail of the family. -/
def Has (l : List α) : Prop := (∃ t ∈ F.tags, t <+: l) ∨ l ∈ F.fixed

instance [DecidableEq α] (l : List α) : Decidable (F.Has l) :=
  inferInstanceAs (Decidable (_ ∨ _))

/-- Some tail begins so. -/
def Begins (c : List α) : Prop :=
  (∃ u ∈ F.tags, u <+: c ∨ c <+: u) ∨ ∃ u ∈ F.fixed, c <+: u

instance [DecidableEq α] (c : List α) : Decidable (F.Begins c) :=
  inferInstanceAs (Decidable (_ ∨ _))

/-- **A name under a prefix.** -/
def Under (p k : List α) : Prop := ∃ l, F.Has l ∧ k = p ++ l

/-- What begins with a tag, or is an exception. -/
def Opens (odd : List (List α)) (r : List α) : Prop := (∃ t ∈ F.tags, t <+: r) ∨ r ∈ odd

/-- **One prefix goes on from another** with a tag or an exception. -/
def Extends (odd : List (List α)) (p q : List α) : Prop := ∃ r, F.Opens odd r ∧ q = p ++ r

/-- **A well-cut family**: with the second part of a tag, unless the first is
an exception, no tail begins; and the second part of a tail that nothing
follows is none. -/
structure WellCut (odd : List (List α)) : Prop where
  tags : ∀ t ∈ F.tags, ∀ n < t.length, 0 < n → t.take n ∉ odd → ¬ F.Begins (t.drop n)
  fixed : ∀ t ∈ F.fixed, ∀ n ≤ t.length, 0 < n → ¬ F.Has (t.drop n)

variable {F}

theorem Has.begins {b c : List α} (hb : F.Has b) (hcb : c <+: b) : F.Begins c := by
  rcases hb with ⟨u, hu, hub⟩ | hfix
  · exact Or.inl ⟨u, hu, List.prefix_or_prefix_of_prefix hub hcb⟩
  · exact Or.inr ⟨b, hfix, hcb⟩

/-- **The rest of a longer prefix begins with a tag**, when a tail behind it
is a tail with it. -/
theorem WellCut.opens (h : F.WellCut odd) {r b : List α} (hr : r ≠ []) (hb : F.Has b)
    (hrb : F.Has (r ++ b)) : F.Opens odd r := by
  have hpos : 0 < r.length := List.length_pos_iff.mpr hr
  rcases hrb with ⟨t, ht, htr⟩ | hfix
  · by_cases hle : t.length ≤ r.length
    · exact Or.inl ⟨t, ht, List.prefix_of_prefix_length_le htr (List.prefix_append r b) hle⟩
    · -- the tag is cut by the end of the rest
      have hrt : r <+: t :=
        List.prefix_of_prefix_length_le (List.prefix_append r b) htr (Nat.le_of_not_le hle)
      obtain ⟨c, rfl⟩ := hrt
      have hcb : c <+: b := (List.prefix_append_right_inj r).mp htr
      by_cases hodd : r ∈ odd
      · exact Or.inr hodd
      have hcut := h.tags _ ht r.length (Nat.lt_of_not_le hle) hpos (by rwa [List.take_left])
      rw [List.drop_left] at hcut
      exact absurd (hb.begins hcb) hcut
  · have hcut := h.fixed _ hfix r.length (List.length_append ▸ Nat.le_add_right _ _) hpos
    rw [List.drop_left] at hcut
    exact absurd hb hcut

/-- A prefix that goes on from another has a name in common with it. -/
theorem Extends.meets (hne : ∃ b, F.Has b) (hodd : ∀ r ∈ odd, ∃ b, F.Has b ∧ F.Has (r ++ b))
    {p q : List α} (h : F.Extends odd p q) : ∃ k, F.Under p k ∧ F.Under q k := by
  obtain ⟨r, hr, rfl⟩ := h
  obtain ⟨b, hb, hrb⟩ : ∃ b, F.Has b ∧ F.Has (r ++ b) := by
    rcases hr with ⟨t, ht, htr⟩ | hr
    · obtain ⟨b, hb⟩ := hne
      exact ⟨b, hb, Or.inl ⟨t, ht, htr.trans (List.prefix_append r b)⟩⟩
    · exact hodd r hr
  exact ⟨p ++ (r ++ b), ⟨_, hrb, rfl⟩, ⟨b, hb, (List.append_assoc p r b).symm⟩⟩

/-- **Two prefixes have no name in common** exactly when neither goes on
from the other. -/
theorem under_disjoint_iff (h : F.WellCut odd) (hne : ∃ b, F.Has b)
    (hodd : ∀ r ∈ odd, ∃ b, F.Has b ∧ F.Has (r ++ b)) {p q : List α} (hpq : p ≠ q) :
    (∀ k, ¬ (F.Under p k ∧ F.Under q k)) ↔ ¬ F.Extends odd p q ∧ ¬ F.Extends odd q p := by
  constructor
  · intro hno
    constructor
    · intro hpq
      obtain ⟨k, hk⟩ := hpq.meets hne hodd
      exact hno k hk
    · intro hqp
      obtain ⟨k, hk⟩ := hqp.meets hne hodd
      exact hno k hk.symm
  · rintro ⟨hpq', hqp'⟩ k ⟨⟨a, ha, hka⟩, ⟨b, hb, hkb⟩⟩
    rcases List.append_eq_append_iff.mp (hka.symm.trans hkb) with ⟨r, rfl, rfl⟩ | ⟨r, rfl, rfl⟩
    · have hr : r ≠ [] := fun he => hpq (by rw [he, List.append_nil])
      exact hpq' ⟨r, h.opens hr hb ha, rfl⟩
    · have hr : r ≠ [] := fun he => hpq (by rw [he, List.append_nil])
      exact hqp' ⟨r, h.opens hr ha hb, rfl⟩

end Tails
