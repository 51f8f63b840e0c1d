import Mathlib.Data.List.TakeWhile
import ClusterRedis.GlobLoose
import ClusterRedis.Kv

/-!
# Prefixes in front of a pattern

Some patterns are made by putting the operator's prefix, as it is, in front
of what they look for. Whether the prefix then stands for itself depends on
four of its characters: a star, a question mark, an opening bracket and a
backslash.

Without them it does: a pattern with the prefix in front matches what starts
with the prefix and goes on as the pattern says (`keyMatch_plain_append`).
With one of them it does not, whatever comes behind: the pattern with a star
at its end misses a string that starts with the prefix, or matches one that
does not (`exists_stray`).
-/

open RedisKv

/-- A character that a pattern does not read as itself. -/
def Glob.metaChar (c : Char) : Bool := c == '*' || c == '?' || c == '[' || c == '\\'

/-- **A prefix that a pattern reads as itself.** -/
def PlainPrefix (p : String) : Prop := ∀ c ∈ p.toList, Glob.metaChar c = false

instance (p : String) : Decidable (PlainPrefix p) := List.decidableBAll _ _

theorem plainPrefix_append {p q : String} :
    PlainPrefix (p ++ q) ↔ PlainPrefix p ∧ PlainPrefix q := by
  unfold PlainPrefix
  rw [String.toList_append, List.forall_mem_append]

theorem utf8_ne_nil {k : String} (h : k ≠ "") : utf8 k ≠ [] :=
  fun he => h (utf8_injective (he.trans (by decide)))

theorem startsWith_iff_utf8 {pre s : String} : StartsWith pre s ↔ utf8 pre <+: utf8 s :=
  (utf8_prefix_iff pre s).symm

/-! ## Plain prefixes -/

/-- No star, bracket or backslash stands in a text. -/
theorem wild_of_not_mem {q : String} (hstar : '*' ∉ q.toList) (hbra : '[' ∉ q.toList)
    (hbslash : '\\' ∉ q.toList) : Glob.Wild (utf8 q) := by
  intro c hc
  refine ⟨?_, ?_, ?_⟩
  · rintro rfl
    exact hstar ((Glob.toNat_mem_utf8 (d := '*') (by decide)).mp hc)
  · rintro rfl
    exact hbra ((Glob.toNat_mem_utf8 (d := '[') (by decide)).mp hc)
  · rintro rfl
    exact hbslash ((Glob.toNat_mem_utf8 (d := '\\') (by decide)).mp hc)

namespace PlainPrefix

variable {q : String}

theorem not_mem (h : PlainPrefix q) {c : Char} (hc : Glob.metaChar c = true) : c ∉ q.toList := by
  intro hm
  rw [h c hm] at hc
  exact Bool.noConfusion hc

theorem wild (h : PlainPrefix q) : Glob.Wild (utf8 q) :=
  wild_of_not_mem (h.not_mem (c := '*') rfl) (h.not_mem (c := '[') rfl)
    (h.not_mem (c := '\\') rfl)

theorem quest (h : PlainPrefix q) : Glob.quest ∉ utf8 q := fun hm =>
  h.not_mem (c := '?') rfl ((Glob.toNat_mem_utf8 (d := '?') (by decide)).mp hm)

end PlainPrefix

/-- **A plain text with a star behind it** matches what starts with it. -/
theorem keyMatch_plain_star {q k : String} (h : PlainPrefix q) (hq : q ≠ "") :
    KeyMatch (q ++ "*") k ↔ StartsWith q k := by
  have hpat : utf8 (q ++ "*") = utf8 q ++ [Glob.star] := utf8_append q "*"
  rw [startsWith_iff_utf8, KeyMatch, hpat]
  by_cases hk : utf8 k = []
  · rw [hk, Glob.globMatch_star_nil, List.prefix_nil]
    exact iff_of_false Bool.false_ne_true (utf8_ne_nil hq)
  · exact Glob.globMatch_plain h.wild h.quest hk

/-- **A pattern of nothing but stars, and nothing**: the one thing that the
pattern does not match. -/
def LoneStars (pattern t : String) : Prop := t = "" ∧ pattern ≠ "" ∧ ∀ c ∈ pattern.toList, c = '*'

instance (pattern t : String) : Decidable (LoneStars pattern t) :=
  inferInstanceAs (Decidable (_ ∧ _ ∧ _))

/-- A text of stars is one of star bytes. -/
theorem dropWhile_star_utf8 {pattern : String} :
    (utf8 pattern).dropWhile (· == Glob.star) = [] ↔ ∀ c ∈ pattern.toList, c = '*' := by
  rw [List.dropWhile_eq_nil_iff]
  simp only [beq_iff_eq]
  constructor
  · intro h c hc
    have hmem : ∀ b ∈ (String.utf8EncodeChar c).map UInt8.toNat, b = Glob.star :=
      fun b hb => h b (List.mem_flatMap.mpr ⟨c, hc, hb⟩)
    by_cases hshort : c.val.toNat ≤ 0x7F
    · rw [Glob.encodeChar_of_short hshort] at hmem
      exact Char.toNat_inj.mp (hmem _ (List.mem_singleton.mpr rfl))
    · have hne : (String.utf8EncodeChar c).map UInt8.toNat ≠ [] := by
        intro he
        have := congrArg List.length he
        rw [List.length_map, String.length_utf8EncodeChar] at this
        exact absurd this (Nat.pos_iff_ne_zero.mp c.utf8Size_pos)
      obtain ⟨b, hb⟩ := List.exists_mem_of_ne_nil _ hne
      have := Glob.encodeChar_of_long hshort b hb
      rw [hmem b hb] at this
      exact absurd this (by decide)
  · intro h b hb
    obtain ⟨c, hc, hb⟩ := List.mem_flatMap.mp hb
    rw [h c hc] at hb
    exact List.mem_singleton.mp hb

/-- The empty string is matched by the empty pattern alone. -/
theorem keyMatch_empty {pattern : String} : KeyMatch pattern "" ↔ pattern = "" := by
  rw [KeyMatch, show utf8 "" = [] from rfl]
  constructor
  · intro h
    by_contra hne
    obtain ⟨c, l, hl⟩ := List.exists_cons_of_ne_nil (utf8_ne_nil hne)
    rw [hl] at h
    exact Bool.noConfusion h
  · rintro rfl
    rfl

/-- **A plain text in front of a pattern** matches what starts with the text
and goes on as the pattern says – and the text alone, when stars are all
that comes behind. -/
theorem keyMatch_plain_append {q pattern k : String} (h : PlainPrefix q) (hq : q ≠ "") :
    KeyMatch (q ++ pattern) k ↔ ∃ t, k = q ++ t ∧ (KeyMatch pattern t ∨ LoneStars pattern t) := by
  have hrest : ∀ t : String, (if utf8 t = [] then (utf8 pattern).dropWhile (· == Glob.star) = []
        else Glob.globMatch (utf8 pattern) (utf8 t) = true)
      ↔ KeyMatch pattern t ∨ LoneStars pattern t := by
    intro t
    by_cases ht : t = ""
    · subst ht
      rw [if_pos (show utf8 "" = [] from rfl), dropWhile_star_utf8, keyMatch_empty, LoneStars]
      constructor
      · intro hstars
        by_cases hp : pattern = ""
        · exact Or.inl hp
        · exact Or.inr ⟨rfl, hp, hstars⟩
      · rintro (rfl | ⟨-, -, hstars⟩)
        · exact fun c hc => absurd hc List.not_mem_nil
        · exact hstars
    · rw [if_neg (utf8_ne_nil ht)]
      exact (or_iff_left (fun hl => ht hl.1)).symm
  rw [KeyMatch, utf8_append, Glob.globMatch_plain_append h.wild h.quest (utf8_ne_nil hq)]
  constructor
  · rintro ⟨l, hl, hmatch⟩
    obtain ⟨t, rfl⟩ := startsWith_iff.mp (startsWith_iff_utf8.mpr ⟨l, hl.symm⟩)
    obtain rfl : utf8 t = l := by
      rw [utf8_append] at hl
      exact List.append_cancel_left hl
    exact ⟨t, rfl, (hrest t).mp hmatch⟩
  · rintro ⟨t, rfl, hmatch⟩
    exact ⟨utf8 t, utf8_append q t, (hrest t).mpr hmatch⟩

/-! ## Prefixes that are read as patterns -/

/-- A question mark lets another character through. -/
theorem exists_stray_of_quest {q : String} (hwild : Glob.Wild (utf8 q)) (hquest : '?' ∈ q.toList) :
    ∃ k, KeyMatch (q ++ "*") k ∧ ¬ StartsWith q k := by
  obtain ⟨a, b, hq⟩ := List.append_of_mem hquest
  have hpre : q = String.ofList a ++ "?" ++ String.ofList b := by
    refine String.toList_inj.mp ?_
    rw [hq]
    simp
  have hpat : utf8 (q ++ "*") = utf8 q ++ [Glob.star] := utf8_append q "*"
  refine ⟨String.ofList a ++ "x" ++ String.ofList b, ?_, fun hs => ?_⟩
  · rw [KeyMatch, hpat]
    refine (Glob.globMatch_wild hwild (utf8_ne_nil (fun he => ?_))).mpr ⟨_, List.prefix_rfl, ?_⟩
    · have := congrArg String.toList he
      simp at this
    · have hsame : ∀ l : List ℕ, List.Forall₂ Glob.Lets l l :=
        fun l => List.forall₂_same.mpr (fun _ _ => Or.inr rfl)
      have hany : List.Forall₂ Glob.Lets (utf8 "?") (utf8 "x") :=
        List.Forall₂.cons (Or.inl rfl) List.Forall₂.nil
      rw [hpre]
      simp only [utf8_append]
      exact List.rel_append (List.rel_append (hsame _) hany) (hsame _)
  · -- the two differ behind what comes before the question mark
    rw [StartsWith, hpre] at hs
    simp only [String.toList_append, String.toList_ofList, List.append_assoc,
      List.prefix_append_right_inj] at hs
    exact absurd (List.cons_prefix_cons.mp hs).1 (by decide)

section Separated

variable {q sep : String} {b : ℕ}

/-- **A pattern that reaches a star early** matches a string that does not
start as it should, if it matches one that does. -/
theorem exists_stray_of_early (hb : utf8 sep = [b]) (hx : b ≠ 0x78)
    (hearly : '*' ∈ q.toList ∨ '[' ∈ q.toList ∨ '\\' ∈ q.toList) {t : String}
    (hm : KeyMatch (q ++ sep ++ "*") (q ++ sep ++ t)) :
    ∃ k, KeyMatch (q ++ sep ++ "*") k ∧ ¬ StartsWith (q ++ sep) k := by
  have hpat : utf8 (q ++ sep ++ "*") = utf8 q ++ [b] ++ [Glob.star] := by
    rw [utf8_append, utf8_append, hb]
    rfl
  have hmeta : ∃ c ∈ utf8 q, c = Glob.star ∨ c = Glob.bra ∨ c = Glob.bslash := by
    rcases hearly with h | h | h
    · exact ⟨_, (Glob.toNat_mem_utf8 (d := '*') (by decide)).mpr h, Or.inl rfl⟩
    · exact ⟨_, (Glob.toNat_mem_utf8 (d := '[') (by decide)).mpr h, Or.inr (Or.inl rfl)⟩
    · exact ⟨_, (Glob.toNat_mem_utf8 (d := '\\') (by decide)).mpr h, Or.inr (Or.inr rfl)⟩
  have hlen : (utf8 q).length < (utf8 (q ++ sep ++ t)).length := by
    rw [utf8_append, utf8_append, hb]
    simp only [List.length_append, List.length_singleton]
    omega
  rw [KeyMatch, hpat] at hm
  obtain ⟨front, back, hs, hfront, hloose⟩ := Glob.matchFrom_short hlen hmeta hm
  -- what was read before the star is a part of the prefix
  obtain ⟨mid, hmid⟩ : front <+: utf8 q := by
    have hwhole : front <+: utf8 q ++ utf8 (sep ++ t) :=
      ⟨back, by rw [← hs, String.append_assoc, utf8_append]⟩
    exact List.prefix_of_prefix_length_le hwhole (List.prefix_append _ _) hfront
  refine ⟨q ++ "x" ++ (q ++ sep ++ t), ?_, fun hstart => ?_⟩
  · have hk : utf8 (q ++ "x" ++ (q ++ sep ++ t))
        = front ++ (mid ++ utf8 "x" ++ (front ++ back)) := by
      rw [utf8_append, hs, utf8_append, ← hmid]
      simp only [List.append_assoc]
    rw [KeyMatch, hpat, hk]
    exact hloose _ ((List.suffix_append front back).trans (List.suffix_append _ _))
  · rw [startsWith_iff_utf8, utf8_append, hb, String.append_assoc, utf8_append,
      List.prefix_append_right_inj, utf8_append] at hstart
    exact hx (List.cons_prefix_cons.mp hstart).1

/-- **A prefix that is not plain** makes a pattern that misses what starts
with it, or matches what does not. -/
theorem exists_stray (hb : utf8 sep = [b]) (hx : b ≠ 0x78) (hsep : PlainPrefix sep)
    (h : ¬ PlainPrefix q) (t : String) :
    ¬ KeyMatch (q ++ sep ++ "*") (q ++ sep ++ t)
      ∨ ∃ k, KeyMatch (q ++ sep ++ "*") k ∧ ¬ StartsWith (q ++ sep) k := by
  by_cases hearly : '*' ∈ q.toList ∨ '[' ∈ q.toList ∨ '\\' ∈ q.toList
  · by_cases hm : KeyMatch (q ++ sep ++ "*") (q ++ sep ++ t)
    · exact Or.inr (exists_stray_of_early hb hx hearly hm)
    · exact Or.inl hm
  · simp only [not_or] at hearly
    have hnot : ∀ c, c ∉ q.toList → Glob.metaChar c = true → c ∉ (q ++ sep).toList := by
      intro c hc hmeta hin
      rw [String.toList_append] at hin
      exact (List.mem_append.mp hin).elim hc (hsep.not_mem hmeta)
    refine Or.inr (exists_stray_of_quest (wild_of_not_mem (hnot '*' hearly.1 rfl)
      (hnot '[' hearly.2.1 rfl) (hnot '\\' hearly.2.2 rfl)) ?_)
    rw [String.toList_append]
    refine List.mem_append_left _ ?_
    by_contra hquest
    refine h (fun c hc => ?_)
    simp only [Glob.metaChar, Bool.or_eq_false_iff, beq_eq_false_iff_ne]
    refine ⟨⟨⟨?_, ?_⟩, ?_⟩, ?_⟩
    · rintro rfl
      exact hearly.1 hc
    · rintro rfl
      exact hquest hc
    · rintro rfl
      exact hearly.2.1 hc
    · rintro rfl
      exact hearly.2.2 hc

end Separated
