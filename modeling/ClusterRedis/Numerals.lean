import Mathlib.Data.Nat.Log
import Mathlib.Data.Int.Order.Basic
import Mathlib.Data.List.Induction
import Mathlib.Tactic.IntervalCases
import Mathlib.Tactic.NormNum
import Mathlib.Tactic.Ring

/-!
# Numbers as a server and a script hold them

A server keeps a counter as the decimal text of a 64-bit integer. A script
computes with doubles. Both are exact on what they can hold and neither
holds everything the other does.

`string2ll` reads the text of a 64-bit integer and accepts only the text
`ll2string` writes – no leading zero, no `+`, no `-0` – so the two determine
each other (`string2ll_eq_some_iff`). `Double.round` is the integer a double
holds after an integer is stored in it: nearest, ties to even. It is the
identity up to `2 ^ 53` and not beyond.
-/

namespace Numerals

/-- The integers a signed 64-bit machine word holds. -/
def InI64 (n : ℤ) : Prop := -2 ^ 63 ≤ n ∧ n < 2 ^ 63

instance (n : ℤ) : Decidable (InI64 n) := inferInstanceAs (Decidable (_ ∧ _))

/-! ## Decimal text -/

/-- A numeral as it is written: `0`, or digits that do not start with
`0`. -/
def isNumeral : List Char → Bool
  | [] => false
  | ['0'] => true
  | c :: l => c != '0' && (c :: l).all Char.isDigit

/-- The number a numeral denotes. -/
def ofNumeral (l : List Char) : Option ℕ :=
  if isNumeral l then some (Nat.ofDigitChars 10 l 0) else none

/-- The digits of a positive number do not start with `0`. -/
theorem head_toDigits_ne_zero {n : ℕ} (hn : 0 < n) {c : Char} {l : List Char}
    (h : Nat.toDigits 10 n = c :: l) : c ≠ '0' := by
  induction n using Nat.strong_induction_on generalizing c l with
  | _ n ih =>
    rw [Nat.toDigits_eq_if (by omega)] at h
    split at h
    · next hlt =>
      obtain ⟨rfl, -⟩ := List.cons.inj h
      interval_cases n <;> decide
    · next hge =>
      cases hd : Nat.toDigits 10 (n / 10) with
      | nil => exact absurd hd Nat.toDigits_ne_nil
      | cons d m =>
        rw [hd, List.cons_append] at h
        obtain ⟨rfl, -⟩ := List.cons.inj h
        exact ih (n / 10) (by omega) (by omega) hd

theorem isNumeral_toDigits (n : ℕ) : isNumeral (Nat.toDigits 10 n) = true := by
  rcases Nat.eq_zero_or_pos n with rfl | hn
  · decide
  · cases hd : Nat.toDigits 10 n with
    | nil => exact absurd hd Nat.toDigits_ne_nil
    | cons c l =>
      have hc := head_toDigits_ne_zero hn hd
      have hall : (c :: l).all Char.isDigit = true := by
        rw [← hd, List.all_eq_true]
        exact fun x hx => Nat.isDigit_of_mem_toDigits (by decide) (by decide) hx
      unfold isNumeral
      split
      · next h => exact absurd h (by simp)
      · rfl
      · next h => rw [bne_iff_ne.mpr (by simp_all), Bool.true_and]; simp_all

@[simp] theorem ofNumeral_toDigits (n : ℕ) :
    ofNumeral (Nat.toDigits 10 n) = some n := by
  rw [ofNumeral, if_pos (isNumeral_toDigits n), Nat.ofDigitChars_ten_toDigits]

/-- A decimal digit is the digit of its value. -/
theorem digitChar_of_isDigit {c : Char} (h : c.isDigit = true) :
    c.toNat - 48 < 10 ∧ Nat.digitChar (c.toNat - 48) = c := by
  have hb : 48 ≤ c.toNat ∧ c.toNat ≤ 57 := by
    simpa [Char.isDigit, UInt32.le_iff_toNat_le] using h
  have hlt : c.toNat - 48 < 10 := by omega
  refine ⟨hlt, Char.toNat_inj.mp ?_⟩
  rw [Nat.toNat_digitChar_of_lt_ten hlt]
  omega

/-- Digits that do not start with `0` are the digits of their value. -/
theorem toDigits_ofDigitChars {c : Char} (hc : c ≠ '0') :
    ∀ l : List Char, (c :: l).all Char.isDigit = true →
      0 < Nat.ofDigitChars 10 (c :: l) 0
        ∧ Nat.toDigits 10 (Nat.ofDigitChars 10 (c :: l) 0) = c :: l := by
  intro l
  induction l using List.reverseRecOn with
  | nil =>
    intro hd
    obtain ⟨hlt, he⟩ := digitChar_of_isDigit (c := c) (by simpa using hd)
    rw [Nat.ofDigitChars_cons, Nat.ofDigitChars_nil]
    show 0 < 10 * 0 + (c.toNat - 48) ∧ Nat.toDigits 10 (10 * 0 + (c.toNat - 48)) = [c]
    rw [Nat.mul_zero, Nat.zero_add, Nat.toDigits_of_lt_base hlt, he]
    refine ⟨Nat.pos_of_ne_zero (fun h0 => hc ?_), rfl⟩
    rw [← he, h0]
    rfl
  | append_singleton l d ih =>
    intro hd
    rw [← List.cons_append, List.all_append, Bool.and_eq_true] at hd
    obtain ⟨hpos, hl⟩ := ih hd.1
    obtain ⟨hlt, he⟩ := digitChar_of_isDigit (c := d) (by simpa using hd.2)
    rw [← List.cons_append, Nat.ofDigitChars_append, Nat.ofDigitChars_cons,
      Nat.ofDigitChars_nil]
    show 0 < 10 * Nat.ofDigitChars 10 (c :: l) 0 + (d.toNat - 48)
      ∧ Nat.toDigits 10 (10 * Nat.ofDigitChars 10 (c :: l) 0 + (d.toNat - 48)) = _
    rw [← Nat.toDigits_append_toDigits (by decide) hpos hlt, hl,
      Nat.toDigits_of_lt_base hlt, he]
    exact ⟨by omega, rfl⟩

/-- **A number has one numeral.** -/
theorem eq_toDigits_of_ofNumeral {l : List Char} {n : ℕ}
    (h : ofNumeral l = some n) : l = Nat.toDigits 10 n := by
  unfold ofNumeral at h
  split at h
  · next hl =>
    obtain rfl := Option.some.inj h
    unfold isNumeral at hl
    split at hl
    · exact absurd hl Bool.false_ne_true
    · decide
    · rw [Bool.and_eq_true, bne_iff_ne] at hl
      exact (toDigits_ofDigitChars hl.1 _ hl.2).2.symm
  · exact absurd h (by simp)

/-- The decimal characters of an integer. -/
def intChars (n : ℤ) : List Char :=
  if n < 0 then '-' :: Nat.toDigits 10 n.natAbs else Nat.toDigits 10 n.natAbs

/-- The integer decimal characters denote. -/
def charsInt : List Char → Option ℤ
  | '-' :: l => (ofNumeral l).bind (fun n => if n = 0 then none else some (-(n : ℤ)))
  | l => (ofNumeral l).map Int.ofNat

theorem dash_ne_toDigits (n : ℕ) (l : List Char) : Nat.toDigits 10 n ≠ '-' :: l := by
  intro h
  have := Nat.isDigit_of_mem_toDigits (b := 10) (n := n) (c := '-') (by decide) (by decide)
    (by rw [h]; exact List.mem_cons_self)
  exact absurd this (by decide)

@[simp] theorem charsInt_intChars (n : ℤ) : charsInt (intChars n) = some n := by
  unfold intChars
  split
  · next hn =>
    rw [charsInt, ofNumeral_toDigits, Option.bind_some, if_neg (by omega)]
    exact congrArg some (by omega)
  · next hn =>
    unfold charsInt
    split
    · next l hl => exact absurd hl (dash_ne_toDigits _ _)
    · rw [ofNumeral_toDigits, Option.map_some]
      exact congrArg some (Int.natAbs_of_nonneg (by omega))

theorem eq_intChars_of_charsInt {l : List Char} {n : ℤ}
    (h : charsInt l = some n) : l = intChars n := by
  unfold charsInt at h
  split at h
  · next l =>
    obtain ⟨m, hm, h⟩ := Option.bind_eq_some_iff.mp h
    split at h
    · exact absurd h (by simp)
    · obtain rfl := Option.some.inj h
      rw [eq_toDigits_of_ofNumeral hm, intChars, if_pos (by omega), Int.natAbs_neg,
        Int.natAbs_natCast]
  · obtain ⟨m, hm, rfl⟩ := Option.map_eq_some_iff.mp h
    rw [eq_toDigits_of_ofNumeral hm, intChars,
      if_neg (show ¬ Int.ofNat m < 0 from Int.not_lt.mpr (Int.natCast_nonneg m))]
    rfl

/-! ## The text a server keeps -/

/-- Bytes read as characters, one each. -/
def asChars (b : List UInt8) : List Char := b.map (fun u => Char.ofNat u.toNat)

/-- Characters written as bytes, one each. -/
def asBytes (l : List Char) : List UInt8 := l.map (fun c => UInt8.ofNat c.toNat)

theorem asBytes_asChars (b : List UInt8) : asBytes (asChars b) = b := by
  unfold asBytes asChars
  rw [List.map_map]
  refine (List.map_congr_left (fun u _ => ?_)).trans (List.map_id b)
  have hu : u.toNat < 256 := u.toNat_lt
  show UInt8.ofNat (Char.ofNat u.toNat).toNat = u
  rw [Char.ofNat, dif_pos (Or.inl (by omega))]
  exact UInt8.ofNat_toNat

/-- Digits and a sign survive being written as bytes. -/
theorem asChars_asBytes {l : List Char} (h : ∀ c ∈ l, c.toNat < 256) :
    asChars (asBytes l) = l := by
  unfold asBytes asChars
  rw [List.map_map]
  refine (List.map_congr_left (fun c hc => ?_)).trans (List.map_id l)
  show Char.ofNat (UInt8.ofNat c.toNat).toNat = c
  rw [UInt8.toNat_ofNat', Nat.mod_eq_of_lt (h c hc), Char.ofNat_toNat]

theorem intChars_lt (n : ℤ) : ∀ c ∈ intChars n, c.toNat < 256 := by
  have hd : ∀ m : ℕ, ∀ c ∈ Nat.toDigits 10 m, c.toNat < 256 := by
    intro m c hc
    have h := Nat.isDigit_of_mem_toDigits (by decide) (by decide) hc
    have hb : 48 ≤ c.toNat ∧ c.toNat ≤ 57 := by
      simpa [Char.isDigit, UInt32.le_iff_toNat_le] using h
    omega
  intro c hc
  unfold intChars at hc
  split at hc
  · rcases List.mem_cons.mp hc with rfl | hc
    · decide
    · exact hd _ c hc
  · exact hd _ c hc

/-- **The text of an integer**, as the server stores a counter. -/
def ll2string (n : ℤ) : List UInt8 := asBytes (intChars n)

/-- **The 64-bit integer a text denotes**, or `none` for any other text. -/
def string2ll (b : List UInt8) : Option ℤ :=
  (charsInt (asChars b)).filter (fun n => decide (InI64 n))

/-- **Text and integer determine each other.** -/
theorem string2ll_eq_some_iff {b : List UInt8} {n : ℤ} :
    string2ll b = some n ↔ InI64 n ∧ b = ll2string n := by
  rw [string2ll, Option.filter_eq_some_iff, decide_eq_true_iff]
  constructor
  · rintro ⟨h, hn⟩
    refine ⟨hn, ?_⟩
    rw [ll2string, ← eq_intChars_of_charsInt h, asBytes_asChars]
  · rintro ⟨hn, rfl⟩
    refine ⟨?_, hn⟩
    rw [ll2string, asChars_asBytes (intChars_lt n), charsInt_intChars]

@[simp] theorem string2ll_ll2string {n : ℤ} (h : InI64 n) :
    string2ll (ll2string n) = some n :=
  string2ll_eq_some_iff.mpr ⟨h, rfl⟩

theorem ll2string_injective : Function.Injective ll2string := by
  intro m n h
  have hread : ∀ i, charsInt (asChars (ll2string i)) = some i := fun i => by
    rw [ll2string, asChars_asBytes (intChars_lt i), charsInt_intChars]
  have hmn := hread m
  rw [h, hread n] at hmn
  exact (Option.some.inj hmn).symm

end Numerals

/-! ## Doubles that hold integers -/

namespace Double

/-- The first integer past which a double no longer holds every integer. -/
abbrev exact : ℕ := 2 ^ 53

/-- The unit in the last place of a double of magnitude `n`, not below
`1`. -/
def ulp (n : ℕ) : ℕ := 2 ^ (n.log2 + 1 - 53)

/-- **The natural number a double holds for `n`**: the nearest multiple of
the unit in the last place, ties to the even one. -/
def roundNat (n : ℕ) : ℕ :=
  let q := n / ulp n
  let r := n % ulp n
  if 2 * r < ulp n ∨ 2 * r = ulp n ∧ q % 2 = 0 then q * ulp n else (q + 1) * ulp n

/-- The integer a double holds for `n`. -/
def round (n : ℤ) : ℤ := n.sign * (roundNat n.natAbs : ℤ)

theorem ulp_of_lt {n : ℕ} (h : n < exact) : ulp n = 1 := by
  rcases Nat.eq_zero_or_pos n with rfl | hn
  · decide
  · have : n.log2 < 53 := (Nat.log2_lt (by omega)).mpr h
    rw [ulp, show n.log2 + 1 - 53 = 0 by omega, pow_zero]

/-- **A double is exact below `2 ^ 53`.** -/
theorem roundNat_of_lt {n : ℕ} (h : n < exact) : roundNat n = n := by
  unfold roundNat
  rw [ulp_of_lt h, Nat.mod_one, Nat.div_one]
  simp

theorem round_of_lt {n : ℤ} (h : n.natAbs < exact) : round n = n := by
  rw [round, roundNat_of_lt h, Int.sign_mul_natAbs]

theorem ulp_pos (n : ℕ) : 0 < ulp n := Nat.pow_pos (by decide)

/-- Rounding loses less than a unit in the last place. -/
theorem le_roundNat_add (n : ℕ) : n / ulp n * ulp n ≤ roundNat n := by
  unfold roundNat
  dsimp only
  split
  · exact le_refl _
  · exact Nat.mul_le_mul_right _ (Nat.le_succ _)

/-- **What is not held exactly stays past `2 ^ 53`.** -/
theorem exact_le_roundNat {n : ℕ} (h : exact ≤ n) : exact ≤ roundNat n := by
  refine le_trans ?_ (le_roundNat_add n)
  have hn : n ≠ 0 := fun h0 => by rw [h0] at h; exact absurd h (by decide)
  have hlog : 53 ≤ n.log2 := (Nat.le_log2 hn).mpr h
  have hpow : 2 ^ n.log2 ≤ n := Nat.log2_self_le hn
  have hu : ulp n * 2 ^ 52 = 2 ^ n.log2 := by
    rw [ulp, ← pow_add]
    congr 1
    omega
  have hq : 2 ^ 52 ≤ n / ulp n := by
    rw [Nat.le_div_iff_mul_le (ulp_pos n), Nat.mul_comm, hu]
    exact hpow
  calc exact ≤ 2 ^ n.log2 := Nat.pow_le_pow_right (by decide) hlog
    _ = 2 ^ 52 * ulp n := by rw [← hu, Nat.mul_comm]
    _ ≤ n / ulp n * ulp n := Nat.mul_le_mul_right _ hq

theorem natAbs_round (n : ℤ) : (round n).natAbs = roundNat n.natAbs := by
  rcases eq_or_ne n 0 with rfl | hn
  · decide
  · rw [round, Int.natAbs_mul, Int.natAbs_sign_of_ne_zero hn, one_mul, Int.natAbs_natCast]

/-- **What is held below `2 ^ 53` is held exactly.** -/
theorem round_eq_of_lt {n : ℤ} (h : (round n).natAbs < exact) : round n = n := by
  refine round_of_lt (not_le.mp (fun hn => ?_))
  rw [natAbs_round] at h
  exact absurd h (not_lt.mpr (exact_le_roundNat hn))

/-- Rounding at most doubles. -/
theorem roundNat_le (n : ℕ) : roundNat n ≤ 2 * n := by
  rcases Nat.eq_zero_or_pos n with rfl | hn
  · decide
  · have hu : ulp n ≤ n := (Nat.pow_le_pow_right (by decide) (by omega)).trans
      (Nat.log2_self_le hn.ne')
    have hq : n / ulp n * ulp n ≤ n := Nat.div_mul_le_self n (ulp n)
    unfold roundNat
    dsimp only
    split
    · omega
    · rw [Nat.succ_mul]
      omega

theorem roundNat_pos {n : ℕ} (h : 0 < n) : 0 < roundNat n := by
  rcases lt_or_ge n exact with hlt | hge
  · rw [roundNat_of_lt hlt]
    exact h
  · exact lt_of_lt_of_le (by decide) (exact_le_roundNat hge)

@[simp] theorem roundNat_zero : roundNat 0 = 0 := by decide

theorem round_nonneg {n : ℤ} (h : 0 ≤ n) : 0 ≤ round n :=
  mul_nonneg (Int.sign_nonneg_iff.mpr h) (Int.natCast_nonneg _)

/-- Rounding keeps what is positive so, and nothing else. -/
theorem round_pos {n : ℤ} : 0 < round n ↔ 0 < n := by
  constructor
  · intro h
    by_contra hn
    have hs : n.sign ≤ 0 := Int.sign_nonpos_iff.mpr (not_lt.mp hn)
    exact absurd h (not_lt.mpr (mul_nonpos_of_nonpos_of_nonneg hs (Int.natCast_nonneg _)))
  · intro h
    rw [round, Int.sign_eq_one_of_pos h, one_mul]
    exact_mod_cast roundNat_pos (Int.natAbs_pos.mpr h.ne')

/-- **A double holds an integer** that is a multiple of its unit in the last
place. -/
def Held (n : ℤ) : Prop := ulp n.natAbs ∣ n.natAbs

instance (n : ℤ) : Decidable (Held n) := inferInstanceAs (Decidable (_ ∣ _))

theorem roundNat_eq_self_iff {n : ℕ} : roundNat n = n ↔ ulp n ∣ n := by
  constructor
  · intro h
    rw [roundNat] at h
    split at h
    · exact ⟨n / ulp n, by rw [Nat.mul_comm]; exact h.symm⟩
    · exact ⟨n / ulp n + 1, by rw [Nat.mul_comm]; exact h.symm⟩
  · intro h
    have hr : n % ulp n = 0 := Nat.mod_eq_zero_of_dvd h
    rw [roundNat, hr, if_pos (Or.inl (ulp_pos n))]
    exact Nat.div_mul_cancel h

/-- **Rounding leaves what a double holds**, and nothing else. -/
theorem round_eq_self_iff {n : ℤ} : round n = n ↔ Held n := by
  rw [Held, ← roundNat_eq_self_iff]
  constructor
  · intro h
    rw [← natAbs_round, h]
  · intro h
    rw [round, h, Int.sign_mul_natAbs]

/-- Rounding keeps to the side of `2 ^ 53` that an integer is on. -/
theorem exact_le_natAbs_round {n : ℤ} : exact ≤ (round n).natAbs ↔ exact ≤ n.natAbs := by
  rw [natAbs_round]
  refine ⟨fun h => not_lt.mp (fun hlt => ?_), exact_le_roundNat⟩
  rw [roundNat_of_lt hlt] at h
  exact absurd hlt (not_lt.mpr h)

/-- The first integer a double does not hold is held as its neighbour. -/
example : roundNat (2 ^ 53 + 1) = 2 ^ 53 := by decide

end Double
