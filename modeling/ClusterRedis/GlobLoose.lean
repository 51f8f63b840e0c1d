import ClusterRedis.Glob

/-!
# Patterns that were not escaped

A text with a star behind it, taken as a pattern without escaping, is meant
to match what starts with the text. Whether it does depends on the bytes of
the text that the matcher does not read as themselves.

Without a star, an opening bracket or a backslash a pattern is matched byte
by byte (`matchFrom_wild`), and only a question mark lets through what it
should not. With one of these the pattern is looser than it looks: if it
matches the text it was made of, it has reached a star before it has read
all of it, and a star takes anything that ends as the rest does
(`matchFrom_short`). So something else can always be put in.

And a text that the matcher reads as itself may stand in front of any
pattern (`globMatch_plain_append`).

All of this rests on what one step leaves: unless it is a star that is
tried, a step leaves a part of the pattern that depends on the byte it read
alone, and not on the rest of the string (`matchFrom_step`).
-/

namespace Glob

/-! ## One step -/

/-- What a class leaves of the pattern is behind its first byte. -/
theorem classMatch_suffix (x : ℕ) (p : List ℕ) (m : Bool) : (classMatch x p m).2 <:+ p.tail := by
  fun_induction classMatch x p m with
  | case1 m => exact List.suffix_rfl
  | case2 m => exact List.suffix_rfl
  | case3 c m hk => exact List.suffix_rfl
  | case4 d p m ih => exact (ih.trans (List.tail_suffix p)).trans (List.suffix_cons d p)
  | case5 d p m hb => exact List.suffix_rfl
  | case6 c m hb hk e p ih =>
    exact ((ih.trans (List.tail_suffix p)).trans (List.suffix_cons e p)).trans
      (List.suffix_cons _ _)
  | case7 c m hb hk d p hd ih => exact ih.trans (List.suffix_cons d p)

/-- A step at the end of the string or before it. -/
theorem continueWith_of_ne_nil {go : List ℕ → List ℕ → Bool} {p s : List ℕ} (h : s ≠ []) :
    continueWith go p s = go p s := by
  rw [continueWith, if_neg (by simpa using h)]

theorem matchFrom_bra_cons (n k : ℕ) (p : List ℕ) (x : ℕ) (s : List ℕ) :
    matchFrom (n + 1) k (bra :: p) (x :: s)
      = ((classMatch x (if p.head? == some caret then p.tail else p) false).1
            != (p.head? == some caret)
          && continueWith (matchFrom n k)
            (classMatch x (if p.head? == some caret then p.tail else p) false).2 s) := by
  cases p with
  | nil => rfl
  | cons d p => rfl

/-- **A step that tries no star** depends on the byte it reads alone, and
leaves a part of the pattern: all that is behind its first byte or, after a
bracket or a backslash, less. -/
theorem matchFrom_step (n k : ℕ) {c : ℕ} (hc : c ≠ star) (p : List ℕ) (x : ℕ) :
    ∃ (b : Bool) (rest : List ℕ),
      (∀ s, matchFrom (n + 1) k (c :: p) (x :: s)
        = (b && continueWith (matchFrom n k) rest s))
      ∧ ((c ≠ bra ∧ c ≠ bslash) ∧ rest = p ∨ rest <:+ p.tail) := by
  by_cases hq : c = quest
  · refine ⟨true, p, fun s => ?_, Or.inl ⟨by rw [hq]; decide, rfl⟩⟩
    cases p <;> rw [matchFrom, if_neg hc, if_pos hq, Bool.true_and]
  by_cases hb : c = bra
  · subst hb
    refine ⟨_, _, matchFrom_bra_cons n k p x, Or.inr ((classMatch_suffix _ _ _).trans ?_)⟩
    split
    · exact List.tail_suffix _
    · exact List.suffix_rfl
  by_cases hs : c = bslash
  · cases p with
    | nil =>
      refine ⟨decide (c = x), [], fun s => ?_, Or.inr List.suffix_rfl⟩
      rw [matchFrom, if_neg hc, if_neg hq, if_neg hb, if_pos hs]
    | cons d p =>
      refine ⟨decide (d = x), p, fun s => ?_, Or.inr List.suffix_rfl⟩
      rw [matchFrom, if_neg hc, if_neg hq, if_neg hb, if_pos hs]
  · refine ⟨decide (c = x), p, fun s => ?_, Or.inl ⟨⟨hb, hs⟩, rfl⟩⟩
    cases p <;> rw [matchFrom, if_neg hc, if_neg hq, if_neg hb, if_neg hs]

/-- A part of a pattern that ends in a star is empty or ends in it. -/
theorem suffix_star {q rest : List ℕ} (h : rest <:+ q ++ [star]) :
    rest = [] ∨ ∃ q', rest = q' ++ [star] ∧ q'.length ≤ q.length := by
  refine (List.suffix_concat_iff.mp h).imp_right ?_
  rintro ⟨q', rfl, hq⟩
  exact ⟨q', rfl, hq.length_le⟩

theorem matchFrom_star_cons (n k : ℕ) (p : List ℕ) (x : ℕ) (s : List ℕ) :
    matchFrom (n + 1) k (star :: p) (x :: s)
      = ((p.dropWhile (· == star)).isEmpty || (decide (k < 1000) &&
        ((x :: s).tails.filter (fun t => !t.isEmpty)).any
          (matchFrom n (k + 1) (p.dropWhile (· == star))))) := by
  cases p <;> rw [matchFrom, if_pos rfl]

/-- **A star takes anything that ends as what it took.** -/
theorem matchFrom_star {n k : ℕ} {p s u : List ℕ} (hs : s ≠ []) (hu : s <:+ u)
    (h : matchFrom n k (star :: p) s = true) : matchFrom n k (star :: p) u = true := by
  cases n with
  | zero => exact absurd h (by simp [matchFrom])
  | succ n =>
    obtain ⟨x, s, rfl⟩ := List.exists_cons_of_ne_nil hs
    have hne : u ≠ [] := fun he => hs (List.suffix_nil.mp (he ▸ hu))
    obtain ⟨y, u, rfl⟩ := List.exists_cons_of_ne_nil hne
    rw [matchFrom_star_cons] at h ⊢
    simp only [Bool.or_eq_true, Bool.and_eq_true, List.any_eq_true, List.mem_filter,
      List.mem_tails] at h ⊢
    refine h.imp_right (And.imp_right ?_)
    rintro ⟨t, ⟨ht, hnil⟩, hm⟩
    exact ⟨t, ⟨ht.trans hu, hnil⟩, hm⟩

/-! ## Patterns that reach a star early -/

/-- A match that begins with `front` and goes on with anything that ends as
`back` does. -/
def Loose (n k : ℕ) (p front back : List ℕ) : Prop :=
  ∀ u, back <:+ u → matchFrom n k p (front ++ u) = true

/-- A step before a loose match. -/
theorem Loose.cons {n k c x : ℕ} {p rest front back : List ℕ} {b : Bool}
    (hstep : ∀ s, matchFrom (n + 1) k (c :: p) (x :: s)
      = (b && continueWith (matchFrom n k) rest s))
    (hb : b = true) (hback : back ≠ []) (h : Loose n k rest front back) :
    Loose (n + 1) k (c :: p) (x :: front) back := by
  intro u hu
  have hne : front ++ u ≠ [] := by
    intro he
    rw [(List.append_eq_nil_iff.mp he).2] at hu
    exact hback (List.suffix_nil.mp hu)
  rw [List.cons_append, hstep, hb, Bool.true_and, continueWith_of_ne_nil hne]
  exact h u hu

/-- **A string longer than the pattern meets a star**, no later than the
pattern is long. -/
theorem matchFrom_long {n k : ℕ} {q s : List ℕ} (hlen : q.length < s.length)
    (h : matchFrom n k (q ++ [star]) s = true) :
    ∃ front back, s = front ++ back ∧ front.length ≤ q.length
      ∧ Loose n k (q ++ [star]) front back := by
  induction n generalizing q s with
  | zero =>
    rw [matchFrom, Bool.and_eq_true] at h
    exact absurd h.1 (by simp)
  | succ n ih =>
    have hs : s ≠ [] := List.ne_nil_of_length_pos (by omega)
    cases q with
    | nil => exact ⟨[], s, rfl, le_refl _, fun u hu => matchFrom_star hs hu h⟩
    | cons c q =>
      by_cases hc : c = star
      · subst hc
        exact ⟨[], s, rfl, Nat.zero_le _, fun u hu => matchFrom_star hs hu h⟩
      · obtain ⟨x, s, rfl⟩ := List.exists_cons_of_ne_nil hs
        obtain ⟨b, rest, hstep, hrest⟩ := matchFrom_step n k hc (q ++ [star]) x
        have hlen' : q.length < s.length := by simpa using hlen
        have hs' : s ≠ [] := List.ne_nil_of_length_pos (by omega)
        have hm := (hstep s).symm.trans h
        rw [Bool.and_eq_true, continueWith_of_ne_nil hs'] at hm
        have hsuffix : rest <:+ q ++ [star] := by
          rcases hrest with ⟨-, rfl⟩ | hrest
          · exact List.suffix_rfl
          · exact hrest.trans (List.tail_suffix _)
        rcases suffix_star hsuffix with rfl | ⟨q', rfl, hq'⟩
        · -- nothing is left of the pattern, but of the string
          exact absurd hm.2 (by cases n <;> simp [matchFrom, hs'])
        · obtain ⟨front, back, rfl, hfront, hloose⟩ := ih (by omega) hm.2
          refine ⟨x :: front, back, rfl, ?_, hloose.cons hstep hm.1 ?_⟩
          · simp only [List.length_cons]
            omega
          · rintro rfl
            rw [List.append_nil] at hlen'
            omega

/-- **A string as long as the pattern, or longer, meets a star before the
pattern's last byte**, when the pattern has a star, a bracket or a backslash
before that byte. -/
theorem matchFrom_short {n k : ℕ} {q s : List ℕ} {e : ℕ}
    (hlen : q.length < s.length) (hq : ∃ c ∈ q, c = star ∨ c = bra ∨ c = bslash)
    (h : matchFrom n k (q ++ [e] ++ [star]) s = true) :
    ∃ front back, s = front ++ back ∧ front.length ≤ q.length
      ∧ Loose n k (q ++ [e] ++ [star]) front back := by
  induction n generalizing q s with
  | zero =>
    rw [matchFrom, Bool.and_eq_true] at h
    exact absurd h.1 (by simp)
  | succ n ih =>
    have hs : s ≠ [] := List.ne_nil_of_length_pos (by omega)
    cases q with
    | nil =>
      obtain ⟨c, hc, -⟩ := hq
      exact absurd hc List.not_mem_nil
    | cons c q =>
      by_cases hc : c = star
      · subst hc
        exact ⟨[], s, rfl, Nat.zero_le _, fun u hu => matchFrom_star hs hu h⟩
      · obtain ⟨x, s, rfl⟩ := List.exists_cons_of_ne_nil hs
        obtain ⟨b, rest, hstep, hrest⟩ := matchFrom_step n k hc (q ++ [e] ++ [star]) x
        have hlen' : q.length < s.length := by simpa using hlen
        have hs' : s ≠ [] := List.ne_nil_of_length_pos (by omega)
        have hm := (hstep s).symm.trans h
        rw [Bool.and_eq_true, continueWith_of_ne_nil hs'] at hm
        rcases hrest with ⟨⟨hbra, hbslash⟩, rfl⟩ | hrest
        · -- the byte is read as itself or as any, so what is looked for is behind it
          have hq' : ∃ d ∈ q, d = star ∨ d = bra ∨ d = bslash := by
            obtain ⟨d, hd, hkind⟩ := hq
            rcases List.mem_cons.mp hd with rfl | hd
            · exact absurd hkind (by simp [hc, hbra, hbslash])
            · exact ⟨d, hd, hkind⟩
          obtain ⟨front, back, rfl, hfront, hloose⟩ := ih hlen' hq' hm.2
          refine ⟨x :: front, back, rfl, by simpa using hfront, hloose.cons hstep hm.1 ?_⟩
          rintro rfl
          rw [List.append_nil] at hlen'
          omega
        · -- a byte of the pattern has been skipped, so the string is longer
          rcases suffix_star (hrest.trans (List.tail_suffix _)) with rfl | ⟨q', rfl, -⟩
          · exact absurd hm.2 (by cases n <;> simp [matchFrom, hs'])
          · have hq' : q'.length ≤ q.length := by
              have hle := hrest.length_le
              simp only [List.length_append, List.length_cons, List.length_nil,
                List.length_tail] at hle
              omega
            obtain ⟨front, back, rfl, hfront, hloose⟩ := matchFrom_long (by omega) hm.2
            refine ⟨x :: front, back, rfl, ?_, hloose.cons hstep hm.1 ?_⟩
            · simp only [List.length_cons]
              omega
            · rintro rfl
              rw [List.append_nil] at hlen'
              omega

/-! ## Patterns that read byte by byte -/

/-- No byte of a text is a star, an opening bracket or a backslash. -/
def Wild (q : List ℕ) : Prop := ∀ c ∈ q, c ≠ star ∧ c ≠ bra ∧ c ≠ bslash

/-- A byte of a pattern that is no star and opens nothing lets through
itself, or any if it is a question mark. -/
def Lets (c x : ℕ) : Prop := c = quest ∨ c = x

theorem matchFrom_wild_cons (n k : ℕ) {c : ℕ} (hc : c ≠ star ∧ c ≠ bra ∧ c ≠ bslash)
    (p : List ℕ) (x : ℕ) (s : List ℕ) :
    matchFrom (n + 1) k (c :: p) (x :: s) = true
      ↔ Lets c x ∧ continueWith (matchFrom n k) p s = true := by
  by_cases hq : c = quest
  · have hrun : matchFrom (n + 1) k (c :: p) (x :: s) = continueWith (matchFrom n k) p s := by
      cases p <;> rw [matchFrom, if_neg hc.1, if_pos hq]
    rw [hrun]
    exact (and_iff_right (Or.inl hq)).symm
  · have hrun : matchFrom (n + 1) k (c :: p) (x :: s)
        = (decide (c = x) && continueWith (matchFrom n k) p s) := by
      cases p <;> rw [matchFrom, if_neg hc.1, if_neg hq, if_neg hc.2.1, if_neg hc.2.2]
    rw [hrun, Bool.and_eq_true, decide_eq_true_eq, Lets, or_iff_right hq]

/-- **A text without star, bracket and backslash**, with a star behind it,
matches what begins as it lets through. -/
theorem matchFrom_wild {n k : ℕ} {q s : List ℕ} (hn : q.length < n) (hq : Wild q)
    (hs : s ≠ []) :
    matchFrom n k (q ++ [star]) s = true ↔ ∃ l, l <+: s ∧ List.Forall₂ Lets q l := by
  induction q generalizing n s with
  | nil =>
    obtain ⟨x, s, rfl⟩ := List.exists_cons_of_ne_nil hs
    obtain ⟨n, rfl⟩ := Nat.exists_eq_add_of_lt hn
    refine iff_of_true ?_ ⟨[], List.nil_prefix, List.Forall₂.nil⟩
    rw [List.nil_append, matchFrom_star_cons]
    rfl
  | cons c q ih =>
    obtain ⟨x, s, rfl⟩ := List.exists_cons_of_ne_nil hs
    obtain ⟨n, rfl⟩ := Nat.exists_eq_add_of_lt hn
    have hq' : Wild q := fun d hd => hq d (List.mem_cons_of_mem c hd)
    rw [List.cons_append, matchFrom_wild_cons _ k (hq c List.mem_cons_self)]
    have hrest : continueWith (matchFrom ((c :: q).length + n) k) (q ++ [star]) s = true
        ↔ ∃ l, l <+: s ∧ List.Forall₂ Lets q l := by
      by_cases hs' : s = []
      · subst hs'
        cases q with
        | nil => exact iff_of_true rfl ⟨[], List.nil_prefix, List.Forall₂.nil⟩
        | cons d q =>
          refine iff_of_false ?_ ?_
          · have hd := (hq' d List.mem_cons_self).1
            simp [continueWith, hd]
          · rintro ⟨l, hl, hlets⟩
            rw [List.prefix_nil.mp hl] at hlets
            cases hlets
      · rw [continueWith_of_ne_nil hs']
        exact ih (by simp only [List.length_cons]; omega) hq' hs'
    rw [hrest]
    constructor
    · rintro ⟨hx, l, hl, hlets⟩
      exact ⟨x :: l, List.cons_prefix_cons.mpr ⟨rfl, hl⟩, List.Forall₂.cons hx hlets⟩
    · rintro ⟨l, hl, hlets⟩
      cases hlets with
      | cons hx hlets =>
        obtain ⟨rfl, hrest⟩ := List.cons_prefix_cons.mp hl
        exact ⟨hx, _, hrest, hlets⟩

/-- The empty string is matched by no pattern with a star behind it. -/
theorem globMatch_star_nil (q : List ℕ) : globMatch (q ++ [star]) [] = false := by
  cases q with
  | nil => rfl
  | cons c q => rfl

theorem globMatch_wild {q s : List ℕ} (hq : Wild q) (hs : s ≠ []) :
    globMatch (q ++ [star]) s = true ↔ ∃ l, l <+: s ∧ List.Forall₂ Lets q l :=
  matchFrom_wild (by simp only [List.length_append, List.length_cons]; omega) hq hs

/-- **A text the matcher reads as itself**, with a star behind it, matches
what starts with it. -/
theorem globMatch_plain {q s : List ℕ} (hq : Wild q) (hquest : quest ∉ q) (hs : s ≠ []) :
    globMatch (q ++ [star]) s = true ↔ q <+: s := by
  rw [globMatch_wild hq hs]
  have hlets : ∀ l, List.Forall₂ Lets q l ↔ q = l := by
    intro l
    rw [← List.forall₂_eq_eq_eq]
    refine ⟨fun h => ?_, fun h => h.imp (fun _ _ he => Or.inr he)⟩
    rw [List.forall₂_iff_zip] at h ⊢
    refine ⟨h.1, fun {c x} hcx => ?_⟩
    refine (h.2 hcx).resolve_left (fun he => hquest ?_)
    exact he ▸ (List.of_mem_zip hcx).1
  constructor
  · rintro ⟨l, hl, hf⟩
    exact (hlets l).mp hf ▸ hl
  · exact fun h => ⟨q, h, (hlets q).mpr rfl⟩

/-! ## Texts in front of a pattern -/

/-- **What the matcher reads as itself is taken off**, from the pattern and
from the string. -/
theorem continueWith_plain {n k : ℕ} {q p s : List ℕ} (hq : Wild q) (hquest : quest ∉ q) :
    continueWith (matchFrom (q.length + n) k) (q ++ p) s = true
      ↔ ∃ t, s = q ++ t ∧ continueWith (matchFrom n k) p t = true := by
  induction q generalizing s with
  | nil =>
    rw [List.length_nil, Nat.zero_add]
    exact ⟨fun h => ⟨s, rfl, h⟩, fun ⟨t, ht, h⟩ => ht ▸ h⟩
  | cons c q ih =>
    have hc := hq c List.mem_cons_self
    cases s with
    | nil =>
      refine iff_of_false ?_ (fun ⟨t, ht, _⟩ => absurd ht (by simp))
      rw [continueWith, if_pos List.isEmpty_nil, List.cons_append,
        List.dropWhile_cons_of_neg (by simpa using hc.1)]
      exact Bool.false_ne_true
    | cons x s =>
      have hlets : Lets c x ↔ c = x :=
        or_iff_right (fun he => hquest (he ▸ List.mem_cons_self))
      rw [continueWith_of_ne_nil (List.cons_ne_nil x s), List.cons_append, List.length_cons,
        Nat.add_right_comm, matchFrom_wild_cons _ k hc, hlets,
        ih (fun d hd => hq d (List.mem_cons_of_mem c hd))
          (fun hm => hquest (List.mem_cons_of_mem c hm))]
      constructor
      · rintro ⟨rfl, t, rfl, h⟩
        exact ⟨t, rfl, h⟩
      · rintro ⟨t, ht, h⟩
        obtain ⟨rfl, rfl⟩ := List.cons.inj ht
        exact ⟨rfl, t, rfl, h⟩

/-- **A text the matcher reads as itself, in front of a pattern.** Where the
string ends with the text, stars are all that may be left of the pattern. -/
theorem globMatch_plain_append {q p s : List ℕ} (hq : Wild q) (hquest : quest ∉ q)
    (hne : q ≠ []) :
    globMatch (q ++ p) s = true
      ↔ ∃ t, s = q ++ t
        ∧ if t = [] then p.dropWhile (· == star) = [] else globMatch p t = true := by
  have hstart : globMatch (q ++ p) s
      = continueWith (matchFrom (q.length + (p.length + 1)) 0) (q ++ p) s := by
    cases s with
    | nil =>
      obtain ⟨c, q, rfl⟩ := List.exists_cons_of_ne_nil hne
      have hc := (hq c List.mem_cons_self).1
      rw [continueWith, if_pos List.isEmpty_nil, List.cons_append,
        List.dropWhile_cons_of_neg (by simpa using hc)]
      rfl
    | cons x s =>
      rw [continueWith_of_ne_nil (List.cons_ne_nil x s), globMatch, List.length_append,
        Nat.add_assoc]
  rw [hstart, continueWith_plain hq hquest]
  refine exists_congr (fun t => and_congr_right (fun _ => ?_))
  by_cases ht : t = []
  · rw [if_pos ht, ht, continueWith, if_pos List.isEmpty_nil, List.isEmpty_iff]
  · rw [if_neg ht, continueWith_of_ne_nil ht, globMatch]

end Glob
