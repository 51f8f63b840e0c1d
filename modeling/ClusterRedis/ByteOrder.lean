import Mathlib.Data.List.Lex
import Mathlib.Data.List.Sort
import Mathlib.Data.List.Infix

/-!
# Strings as bytes, in byte order

A server compares keys by their bytes, a client writes them as strings of
characters. `utf8` is the encoding between the two, and the facts here are
the ones a byte range over encoded strings needs: the encoding is
injective, it turns concatenation into concatenation and prefixes into
prefixes, and no byte of it reaches `0xFF`. The last is what makes
`[p, p ++ 0xFF)` the interval of the strings that start with `p`
(`utf8_mem_range_iff`).

`byteLe` is the order on strings this gives. It is a linear order, kept as
a relation beside the order `String` already has.
-/

/-! ## Lexicographic intervals -/

section Lex

variable {α : Type} [LinearOrder α]

/-- A list is below each of its extensions. -/
theorem lex_le_append (l t : List α) : l ≤ l ++ t := by
  induction l with
  | nil => cases t with
    | nil => exact le_refl _
    | cons b t => exact le_of_lt (List.nil_lt_cons b t)
  | cons a l ih => exact List.cons_le_cons a ih

/-- Comparing after a common first part is comparing the rests. -/
theorem lex_append_lt_append_iff (l s t : List α) :
    l ++ s < l ++ t ↔ s < t := by
  induction l with
  | nil => rfl
  | cons a l ih =>
    rw [List.cons_append, List.cons_append, List.cons_lt_cons_iff, ih]
    exact ⟨fun h => h.elim (fun h => absurd h (lt_irrefl a)) And.right,
      fun h => Or.inr ⟨rfl, h⟩⟩

/-- **The list after a list**: the one with the least entry behind it. -/
theorem lex_lt_iff_append_bot_le [OrderBot α] (l t : List α) : l < t ↔ l ++ [⊥] ≤ t := by
  constructor
  · intro h
    induction l generalizing t with
    | nil => cases t with
      | nil => exact absurd h (lt_irrefl _)
      | cons b t =>
        rcases eq_or_lt_of_le (bot_le : ⊥ ≤ b) with rfl | hb
        · exact lex_le_append [⊥] t
        · exact le_of_lt (List.cons_lt_cons_iff.mpr (Or.inl hb))
    | cons a l ih => cases t with
      | nil => exact absurd (h.trans (List.nil_lt_cons a l)) (lt_irrefl _)
      | cons b t =>
        rcases List.cons_lt_cons_iff.mp h with hab | ⟨rfl, hlt⟩
        · exact le_of_lt (List.cons_lt_cons_iff.mpr (Or.inl hab))
        · exact List.cons_le_cons a (ih t hlt)
  · intro h
    refine lt_of_lt_of_le ?_ h
    have hrest := (lex_append_lt_append_iff l [] [⊥]).mpr (List.nil_lt_cons ⊥ [])
    rwa [List.append_nil] at hrest

/-- **The interval of a prefix.** The lists of entries below `m` that lie
from `p` up to, and not including, `p` followed by `m` are those that start
with `p`. -/
theorem lex_mem_range_iff {m : α} (p : List α) {t : List α}
    (ht : ∀ b ∈ t, b < m) : (p ≤ t ∧ t < p ++ [m]) ↔ p <+: t := by
  constructor
  · rintro ⟨hle, hlt⟩
    induction p generalizing t with
    | nil => exact List.nil_prefix
    | cons a p ih =>
      cases t with
      | nil => exact absurd (lt_of_lt_of_le (List.nil_lt_cons a p) hle) (lt_irrefl _)
      | cons b t =>
        rw [List.cons_append, List.cons_lt_cons_iff] at hlt
        rcases lt_or_eq_of_le hle with h | h
        · rw [List.cons_lt_cons_iff] at h
          rcases hlt with hba | ⟨rfl, hlt⟩
          · rcases h with hab | ⟨rfl, _⟩
            · exact absurd (hba.trans hab) (lt_irrefl b)
            · exact absurd hba (lt_irrefl _)
          · rcases h with hab | ⟨_, h⟩
            · exact absurd hab (lt_irrefl b)
            · exact List.prefix_cons_inj b |>.mpr
                (ih (fun c hc => ht c (List.mem_cons_of_mem b hc)) (le_of_lt h) hlt)
        · exact h ▸ List.prefix_rfl
  · rintro ⟨s, rfl⟩
    refine ⟨lex_le_append p s, (lex_append_lt_append_iff p s [m]).mpr ?_⟩
    cases s with
    | nil => exact List.nil_lt_cons m []
    | cons b s =>
      rw [List.cons_lt_cons_iff]
      exact Or.inl (ht b (by simp))

end Lex

/-! ## The encoding -/

/-- **The UTF-8 bytes of a string**, as numbers. -/
def utf8 (s : String) : List ℕ :=
  s.toList.flatMap (fun c => (String.utf8EncodeChar c).map UInt8.toNat)

@[simp] theorem utf8_append (s t : String) : utf8 (s ++ t) = utf8 s ++ utf8 t := by
  unfold utf8
  rw [String.toList_append, List.flatMap_append]

/-- The bytes as the string itself stores them. -/
theorem utf8_eq_map (s : String) :
    utf8 s = (s.toList.flatMap String.utf8EncodeChar).map UInt8.toNat := by
  rw [utf8, List.map_flatMap]

/-- The stored byte array is the encoding of the characters. -/
theorem toByteArray_eq (s : String) :
    s.toByteArray = (s.toList.flatMap String.utf8EncodeChar).toByteArray := by
  rw [← String.utf8Encode_toList]
  rfl

theorem utf8_injective : Function.Injective utf8 := by
  intro s t h
  rw [utf8_eq_map, utf8_eq_map] at h
  have hb := List.map_injective_iff.mpr (fun a b => UInt8.toNat_inj.mp) h
  rw [← String.toByteArray_inj, toByteArray_eq s, toByteArray_eq t, hb]

/-- **A string is a prefix by bytes exactly when it is one by
characters.** -/
theorem utf8_prefix_iff (p s : String) :
    utf8 p <+: utf8 s ↔ p.toList <+: s.toList := by
  constructor
  · rintro ⟨t, ht⟩
    rw [utf8_eq_map, utf8_eq_map] at ht
    obtain ⟨l, r, hlr, hl, hr⟩ := List.append_eq_map_iff.mp ht
    have hl := List.map_injective_iff.mpr (fun a b => UInt8.toNat_inj.mp) hl
    refine List.isPrefix_of_utf8Encode_append_eq_utf8Encode r.toByteArray ?_
    rw [List.utf8Encode, List.utf8Encode, hlr, List.toByteArray_append, hl]
  · rintro ⟨t, ht⟩
    refine ⟨utf8 (String.ofList t), ?_⟩
    rw [← utf8_append]
    refine congrArg utf8 (String.toList_inj.mp ?_)
    rw [String.toList_append, String.toList_ofList, ht]

/-- No byte of an encoded string is `0xFF`. -/
theorem utf8_lt (s : String) : ∀ b ∈ utf8 s, b < 0xFF := by
  intro b hb
  obtain ⟨c, _, hc⟩ := List.mem_flatMap.mp hb
  obtain ⟨u, hu, rfl⟩ := List.mem_map.mp hc
  unfold String.utf8EncodeChar at hu
  dsimp only at hu
  split_ifs at hu <;>
    simp only [List.mem_cons, List.not_mem_nil, or_false] at hu <;>
    rcases hu with rfl | rfl | rfl | rfl <;>
    simp only [UInt8.toNat_ofNat'] <;> omega

/-- **The keys with a prefix, as a byte range**: from the prefix up to the
prefix followed by the byte `0xFF`. -/
theorem utf8_mem_range_iff (p s : String) :
    (utf8 p ≤ utf8 s ∧ utf8 s < utf8 p ++ [0xFF]) ↔ p.toList <+: s.toList := by
  rw [lex_mem_range_iff (utf8 p) (utf8_lt s), utf8_prefix_iff]

/-! ## Byte order on strings -/

/-- The order of strings by their bytes. -/
def byteLe (s t : String) : Prop := utf8 s ≤ utf8 t

instance : DecidableRel byteLe := fun s t =>
  inferInstanceAs (Decidable (utf8 s ≤ utf8 t))

instance : Std.Total byteLe := ⟨fun s t => le_total (utf8 s) (utf8 t)⟩

instance : IsTrans String byteLe := ⟨fun _ _ _ h k => le_trans h k⟩

/-- Distinct strings in order are strictly in order. -/
theorem byteLe.lt_of_ne {s t : String} (h : byteLe s t) (hne : s ≠ t) :
    utf8 s < utf8 t :=
  lt_of_le_of_ne h (fun he => hne (utf8_injective he))

/-- **Sorting distinct strings gives a strictly increasing list.** -/
theorem pairwise_utf8_insertionSort {l : List String} (h : l.Nodup) :
    (l.insertionSort byteLe).Pairwise (fun s t => utf8 s < utf8 t) := by
  have hs := List.pairwise_insertionSort byteLe l
  have hn : (l.insertionSort byteLe).Nodup :=
    (List.perm_insertionSort byteLe l).nodup_iff.mpr h
  exact hs.imp₂ (fun _ _ hle hne => byteLe.lt_of_ne hle hne) hn
