import ClusterRedis.ByteOrder

/-!
# The server's glob matcher

`globMatch` is the matcher a Redis server runs for `SCAN MATCH` and
`PSUBSCRIBE`: `*` for any run of bytes, `?` for one byte, a bracketed class
with ranges and negation, and a backslash that takes the next byte
literally. It works on bytes and gives up on more than a thousand nested
stars. Two of its corners matter to whoever builds patterns: an empty
string is matched by the empty pattern alone, so `*` does not match it; and
a class left open runs to the end of the pattern.

A pattern is made from a literal by escaping what the matcher treats
specially. `globMatch_escape_star` says what the escaped literal matches
with a star behind it; `escape_encodeChar` lets the escaping be done on
characters, before they are encoded.
-/

namespace Glob

/-- The byte `*`. -/
abbrev star : ℕ := 0x2A
/-- The byte `?`. -/
abbrev quest : ℕ := 0x3F
/-- The byte `[`. -/
abbrev bra : ℕ := 0x5B
/-- The byte `]`. -/
abbrev ket : ℕ := 0x5D
/-- The byte `\`. -/
abbrev bslash : ℕ := 0x5C
/-- The byte `^`. -/
abbrev caret : ℕ := 0x5E
/-- The byte `-`. -/
abbrev dash : ℕ := 0x2D

/-- **A bracketed class**, read after its opening bracket and negation:
whether the byte `x` is in it, and the pattern left behind the closing
bracket. -/
def classMatch (x : ℕ) : List ℕ → Bool → Bool × List ℕ
  | [], m => (m, [])
  | [c], m => if c = ket then (m, []) else (m || c == x, [])
  | c :: d :: p, m =>
    if c = bslash then classMatch x p (m || d == x)
    else if c = ket then (m, d :: p)
    else match d, p with
      | 0x2D, e :: p => classMatch x p (m || decide (min c e ≤ x ∧ x ≤ max c e))
      | d, p => classMatch x (d :: p) (m || c == x)

/-- What the matcher does after a step consumed a byte of the string: at
the end of the string it skips the stars that follow and must be at the end
of the pattern. -/
def continueWith (go : List ℕ → List ℕ → Bool) (p s : List ℕ) : Bool :=
  if s.isEmpty then (p.dropWhile (· == star)).isEmpty else go p s

/-- **The matcher.** `fuel` bounds the steps, each of which consumes at
least one byte of the pattern; `nesting` counts the stars being tried. -/
def matchFrom : (fuel nesting : ℕ) → (p s : List ℕ) → Bool
  | 0, _, p, s => p.isEmpty && s.isEmpty
  | _ + 1, _, [], s => s.isEmpty
  | _ + 1, _, _ :: _, [] => false
  | n + 1, k, c :: p, x :: s =>
    if c = star then
      let rest := p.dropWhile (· == star)
      rest.isEmpty || (decide (k < 1000) &&
        ((x :: s).tails.filter (fun t => !t.isEmpty)).any (matchFrom n (k + 1) rest))
    else if c = quest then continueWith (matchFrom n k) p s
    else if c = bra then
      let neg := p.head? == some caret
      let (m, rest) := classMatch x (if neg then p.tail else p) false
      (m != neg) && continueWith (matchFrom n k) rest s
    else if c = bslash then
      match p with
      | [] => decide (c = x) && continueWith (matchFrom n k) [] s
      | d :: p => decide (d = x) && continueWith (matchFrom n k) p s
    else decide (c = x) && continueWith (matchFrom n k) p s

/-- **The server's matcher**, on the bytes of a pattern and of a string. -/
def globMatch (p s : List ℕ) : Bool := matchFrom (p.length + 1) 0 p s

/-- The bytes an escaped literal puts a backslash before. -/
def special (c : ℕ) : Bool :=
  c == star || c == quest || c == bra || c == ket || c == bslash

/-- A literal with the special bytes escaped. -/
def escape (l : List ℕ) : List ℕ :=
  l.flatMap (fun c => if special c then [bslash, c] else [c])

theorem escape_cons (c : ℕ) (l : List ℕ) :
    escape (c :: l) = (if special c then [bslash, c] else [c]) ++ escape l :=
  List.flatMap_cons

/-- An escaped byte, or a byte that needs no escape, matches itself. -/
theorem matchFrom_escape_cons (n k c x : ℕ) (l p s : List ℕ) :
    matchFrom (n + 1) k (escape (c :: l) ++ p) (x :: s)
      = (decide (c = x) && continueWith (matchFrom n k) (escape l ++ p) s) := by
  rw [escape_cons]
  cases hc : special c with
  | true => simp [matchFrom, star, quest, bra, bslash]
  | false =>
    simp only [special, Bool.or_eq_false_iff, beq_eq_false_iff_ne] at hc
    simp [matchFrom, hc]

/-- A literal is a prefix of what it is compared with byte by byte. -/
theorem continueWith_escape_star (n k : ℕ) :
    ∀ (l s : List ℕ), l.length < n →
      continueWith (matchFrom n k) (escape l ++ [star]) s = decide (l <+: s) := by
  induction n with
  | zero => exact fun _ _ h => absurd h (Nat.not_lt_zero _)
  | succ n ih =>
    intro l s hl
    cases s with
    | nil => cases l with
      | nil => rfl
      | cons c l =>
        rw [continueWith, if_pos List.isEmpty_nil, escape_cons]
        have hd : ¬ (c :: l) <+: [] := by simp
        rw [decide_eq_false hd]
        cases hc : special c with
        | true => rfl
        | false =>
          simp only [special, Bool.or_eq_false_iff, beq_eq_false_iff_ne] at hc
          simp [hc]
    | cons x s =>
      rw [continueWith, if_neg (by simp)]
      cases l with
      | nil => simp [escape, matchFrom]
      | cons c l =>
        rw [matchFrom_escape_cons, ih l s (by simpa using hl), Bool.eq_iff_iff]
        simp [List.cons_prefix_cons]

theorem length_le_length_escape (l : List ℕ) : l.length ≤ (escape l).length := by
  induction l with
  | nil => exact Nat.zero_le _
  | cons c l ih =>
    rw [escape_cons, List.length_append, List.length_cons]
    split
    · simp only [List.length_cons, List.length_nil]
      omega
    · simp only [List.length_cons, List.length_nil]
      omega

/-- **An escaped literal with a star behind it matches exactly what starts
with the literal.** The empty string is the exception the matcher makes: it
does not match a lone star. -/
theorem globMatch_escape_star (l s : List ℕ) (h : l ≠ [] ∨ s ≠ []) :
    globMatch (escape l ++ [star]) s = decide (l <+: s) := by
  have hlen := length_le_length_escape l
  cases s with
  | nil => cases l with
    | nil => simp at h
    | cons c l =>
      rw [escape_cons]
      cases special c <;> simp [globMatch, matchFrom]
  | cons x s =>
    have := continueWith_escape_star ((escape l ++ [star]).length + 1) 0 l (x :: s)
      (by rw [List.length_append]; omega)
    rwa [continueWith, if_neg (by simp)] at this

/-- An escaped literal is compared byte by byte, to the end of both. -/
theorem continueWith_escape (n k : ℕ) :
    ∀ (l s : List ℕ), l.length < n →
      continueWith (matchFrom n k) (escape l) s = decide (l = s) := by
  induction n with
  | zero => exact fun _ _ h => absurd h (Nat.not_lt_zero _)
  | succ n ih =>
    intro l s hl
    cases s with
    | nil => cases l with
      | nil => rfl
      | cons c l =>
        rw [continueWith, if_pos List.isEmpty_nil, escape_cons]
        cases hc : special c with
        | true => rfl
        | false =>
          simp only [special, Bool.or_eq_false_iff, beq_eq_false_iff_ne] at hc
          simp [hc]
    | cons x s =>
      rw [continueWith, if_neg (by simp)]
      cases l with
      | nil => simp [escape, matchFrom]
      | cons c l =>
        have hstep := matchFrom_escape_cons n k c x l [] s
        rw [List.append_nil, List.append_nil, ih l s (by simpa using hl)] at hstep
        rw [hstep, Bool.eq_iff_iff]
        simp

/-- **An escaped literal matches itself and nothing else.** -/
theorem globMatch_escape (l s : List ℕ) : globMatch (escape l) s = decide (l = s) := by
  cases s with
  | nil => cases l with
    | nil => rfl
    | cons c l =>
      rw [escape_cons]
      cases special c <;> simp [globMatch, matchFrom]
  | cons x s =>
    have hlen := length_le_length_escape l
    have := continueWith_escape ((escape l).length + 1) 0 l (x :: s) (by omega)
    rwa [continueWith, if_neg (by simp)] at this

/-! ## Escaping characters -/

/-- The characters an escaped literal puts a backslash before. -/
def specialChar (c : Char) : Bool := c == '*' || c == '?' || c == '[' || c == ']' || c == '\\'

/-- The special characters are the special bytes. -/
theorem special_toNat (c : Char) : special c.toNat = specialChar c := by
  have h : ∀ d : Char, (c.toNat == d.toNat) = (c == d) := by
    intro d
    by_cases hcd : c = d
    · rw [hcd, beq_self_eq_true, beq_self_eq_true]
    · rw [beq_eq_false_iff_ne.mpr hcd, beq_eq_false_iff_ne.mpr (fun h => hcd (Char.toNat_inj.mp h))]
  exact congrArg₂ _ (congrArg₂ _ (congrArg₂ _ (congrArg₂ _ (h '*') (h '?')) (h '[')) (h ']'))
    (h '\\')

/-- Bytes that are not special are their own escape. -/
theorem escape_eq_self {l : List ℕ} (h : ∀ c ∈ l, special c = false) : escape l = l := by
  induction l with
  | nil => rfl
  | cons c l ih =>
    rw [escape_cons, h c (by simp), ih (fun d hd => h d (List.mem_cons_of_mem c hd))]
    rfl

/-- A byte of a longer encoding is past every special one. -/
theorem not_special_of_le {b : ℕ} (h : 0x80 ≤ b) : special b = false := by
  unfold special star quest bra ket bslash
  simp only [Bool.or_eq_false_iff, beq_eq_false_iff_ne]
  omega

/-- A short character is one byte. -/
theorem encodeChar_of_short {c : Char} (hc : c.val.toNat ≤ 0x7F) :
    (String.utf8EncodeChar c).map UInt8.toNat = [c.toNat] := by
  unfold String.utf8EncodeChar
  dsimp only
  rw [if_pos hc, List.map_singleton, UInt8.toNat_ofNat', Nat.mod_eq_of_lt (by omega)]
  rfl

/-- The bytes of any other are past those of the short ones. -/
theorem encodeChar_of_long {c : Char} (hc : ¬ c.val.toNat ≤ 0x7F) :
    ∀ b ∈ (String.utf8EncodeChar c).map UInt8.toNat, 0x80 ≤ b := by
  intro b hb
  obtain ⟨u, hu, rfl⟩ := List.mem_map.mp hb
  unfold String.utf8EncodeChar at hu
  dsimp only at hu
  rw [if_neg hc] at hu
  split_ifs at hu <;>
    simp only [List.mem_cons, List.not_mem_nil, or_false] at hu <;>
    rcases hu with rfl | rfl | rfl | rfl <;>
    simp only [UInt8.toNat_ofNat'] <;> omega

/-- **A short character is in a text if its byte is.** -/
theorem toNat_mem_utf8 {d : Char} (hd : d.toNat ≤ 0x7F) {s : String} :
    d.toNat ∈ utf8 s ↔ d ∈ s.toList := by
  unfold utf8
  rw [List.mem_flatMap]
  constructor
  · rintro ⟨c, hc, hb⟩
    by_cases hshort : c.val.toNat ≤ 0x7F
    · rw [encodeChar_of_short hshort, List.mem_singleton] at hb
      rwa [Char.toNat_inj.mp hb]
    · have := encodeChar_of_long hshort _ hb
      omega
  · intro h
    refine ⟨d, h, ?_⟩
    rw [encodeChar_of_short hd]
    exact List.mem_singleton.mpr rfl

/-- **Escaping a character's bytes is escaping the character.** -/
theorem escape_encodeChar (c : Char) :
    escape ((String.utf8EncodeChar c).map UInt8.toNat)
      = if specialChar c then bslash :: (String.utf8EncodeChar c).map UInt8.toNat
        else (String.utf8EncodeChar c).map UInt8.toNat := by
  by_cases hc : c.val.toNat ≤ 0x7F
  · rw [encodeChar_of_short hc, escape_cons, special_toNat]
    cases specialChar c with
    | true => rfl
    | false => rfl
  · have hs := encodeChar_of_long hc
    have hn : specialChar c = false := by
      rw [← special_toNat]
      exact not_special_of_le (not_le.mp hc)
    rw [escape_eq_self (fun b hb => not_special_of_le (hs b hb)), hn]
    rfl

end Glob
