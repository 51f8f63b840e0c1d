import ClusterRedis.Numerals

/-!
# JSON text

The JSON a Rust program writes and reads: `render` writes the compact form,
`parse` reads any JSON text – white space, every escape, surrogate pairs,
numbers of all forms – and nests at most `127` deep. Numbers are kept as far
as a reader of unsigned 64-bit integers can tell them apart: `num n` for one
it accepts, `numOther` for one it does not (a sign, a fraction, an exponent,
or too large).

`parse_render` is the round trip: a value built from what the writer writes
is read back as it was. Its proof follows the parser: each part of the
parser, given the text of one part of a value and then anything that can
follow it, returns that part and leaves the rest.
-/

/-- **A JSON value.** -/
inductive Json where
  | null
  | bool (b : Bool)
  /-- A number an unsigned 64-bit reader accepts. -/
  | num (n : ℕ)
  /-- Any other number. -/
  | numOther
  | str (s : String)
  | arr (l : List Json)
  | obj (l : List (String × Json))

namespace Json

/-! ## Writing -/

/-- The double quote. -/
abbrev quote : Char := Char.ofNat 0x22
/-- The backslash. -/
abbrev bslash : Char := Char.ofNat 0x5C

/-- The hexadecimal digit of a number below `16`. -/
def hexDigit (n : ℕ) : Char := Char.ofNat (if n < 10 then 0x30 + n else 0x57 + n)

/-- **A character of a string**: the quote, the backslash and the control
characters are escaped, everything else is written as it is. -/
def escapeChar (c : Char) : List Char :=
  if c = quote then [bslash, quote]
  else if c = bslash then [bslash, bslash]
  else if c.toNat = 0x08 then [bslash, 'b']
  else if c.toNat = 0x09 then [bslash, 't']
  else if c.toNat = 0x0A then [bslash, 'n']
  else if c.toNat = 0x0C then [bslash, 'f']
  else if c.toNat = 0x0D then [bslash, 'r']
  else if c.toNat < 0x20 then
    [bslash, 'u', '0', '0', hexDigit (c.toNat / 16), hexDigit (c.toNat % 16)]
  else [c]

/-- A string's characters and its closing quote. -/
def renderChars (l : List Char) : List Char := l.flatMap escapeChar ++ [quote]

/-- A string. -/
def renderStr (s : String) : List Char := quote :: renderChars s.toList

mutual

/-- **The compact text of a value.** -/
def render : Json → List Char
  | null => ['n', 'u', 'l', 'l']
  | bool true => ['t', 'r', 'u', 'e']
  | bool false => ['f', 'a', 'l', 's', 'e']
  | num n => Nat.toDigits 10 n
  | numOther => ['-', '1']
  | str s => renderStr s
  | arr [] => ['[', ']']
  | arr (j :: l) => '[' :: (render j ++ renderElems l)
  | obj [] => ['{', '}']
  | obj ((k, j) :: l) => '{' :: (renderStr k ++ ':' :: (render j ++ renderMembers l))

/-- What follows an element: the elements after it, and the closing
bracket. -/
def renderElems : List Json → List Char
  | [] => [']']
  | j :: l => ',' :: (render j ++ renderElems l)

/-- What follows a member: the members after it, and the closing brace. -/
def renderMembers : List (String × Json) → List Char
  | [] => ['}']
  | (k, j) :: l => ',' :: (renderStr k ++ ':' :: (render j ++ renderMembers l))

end

/-! ## Reading -/

/-- White space between tokens. -/
def isWs (c : Char) : Bool :=
  c == ' ' || c.toNat == 0x0A || c.toNat == 0x09 || c.toNat == 0x0D

/-- Skip the white space before a token. -/
def skipWs (l : List Char) : List Char := l.dropWhile isWs

/-- The value of a hexadecimal digit of either case. -/
def hexVal (c : Char) : Option ℕ :=
  if 0x30 ≤ c.toNat ∧ c.toNat ≤ 0x39 then some (c.toNat - 0x30)
  else if 0x61 ≤ c.toNat ∧ c.toNat ≤ 0x66 then some (c.toNat - 0x57)
  else if 0x41 ≤ c.toNat ∧ c.toNat ≤ 0x46 then some (c.toNat - 0x37)
  else none

/-- Four hexadecimal digits. -/
def hex4 : List Char → Option (ℕ × List Char)
  | a :: b :: c :: d :: l => do
    let a ← hexVal a
    let b ← hexVal b
    let c ← hexVal c
    let d ← hexVal d
    some (((a * 16 + b) * 16 + c) * 16 + d, l)
  | _ => none

/-- The character of a code unit escape, with the second unit of a
surrogate pair read from what follows. A lone surrogate is refused. -/
def unicodeEscape (l : List Char) : Option (Char × List Char) := do
  let (n, l) ← hex4 l
  if n < 0xD800 ∨ 0xDFFF < n then some (Char.ofNat n, l)
  else if 0xDC00 ≤ n then none
  else match l with
    | a :: b :: l =>
      if a = bslash ∧ b = 'u' then do
        let (m, l) ← hex4 l
        if 0xDC00 ≤ m ∧ m ≤ 0xDFFF then
          some (Char.ofNat (0x10000 + (n - 0xD800) * 0x400 + (m - 0xDC00)), l)
        else none
      else none
    | _ => none

/-- The character a simple escape stands for. -/
def simpleEscape (c : Char) : Option Char :=
  if c = quote then some quote
  else if c = bslash then some bslash
  else if c = '/' then some '/'
  else if c = 'b' then some (Char.ofNat 0x08)
  else if c = 't' then some (Char.ofNat 0x09)
  else if c = 'n' then some (Char.ofNat 0x0A)
  else if c = 'f' then some (Char.ofNat 0x0C)
  else if c = 'r' then some (Char.ofNat 0x0D)
  else none

/-- **A string after its opening quote.** -/
def parseChars : (fuel : ℕ) → List Char → Option (List Char × List Char)
  | 0, _ => none
  | _ + 1, [] => none
  | n + 1, c :: l =>
    if c = quote then some ([], l)
    else if c = bslash then
      match l with
      | [] => none
      | e :: l =>
        if e = 'u' then do
          let (c, l) ← unicodeEscape l
          let (s, l) ← parseChars n l
          some (c :: s, l)
        else do
          let c ← simpleEscape e
          let (s, l) ← parseChars n l
          some (c :: s, l)
    else if c.toNat < 0x20 then none
    else do
      let (s, l) ← parseChars n l
      some (c :: s, l)

/-- A fraction and an exponent behind an integer part: whether one is
there, and what follows. -/
def parseTail (l : List Char) : Option (Bool × List Char) := do
  let (frac, l) ← match l with
    | '.' :: l =>
      if (l.takeWhile Char.isDigit).isEmpty then none
      else some (true, l.dropWhile Char.isDigit)
    | l => some (false, l)
  match l with
    | c :: l =>
      if c = 'e' ∨ c = 'E' then
        let l := match l with
          | s :: m => if s = '+' ∨ s = '-' then m else l
          | [] => l
        if (l.takeWhile Char.isDigit).isEmpty then none
        else some (true, l.dropWhile Char.isDigit)
      else some (frac, c :: l)
    | [] => some (frac, [])

/-- **A number.** -/
def parseNum (l : List Char) : Option (Json × List Char) := do
  let neg := l.head? == some '-'
  let l := if neg then l.tail else l
  let n ← Numerals.ofNumeral (l.takeWhile Char.isDigit)
  let (other, l) ← parseTail (l.dropWhile Char.isDigit)
  some (if neg || other || decide (2 ^ 64 ≤ n) then numOther else num n, l)

mutual

/-- **A value**, after the white space before it. `depth` is how many more
brackets and braces may be opened. -/
def parseValue : (fuel depth : ℕ) → List Char → Option (Json × List Char)
  | 0, _, _ => none
  | _ + 1, _, [] => none
  | n + 1, d, c :: l =>
    if c = quote then do
      let (s, l) ← parseChars n l
      some (str (String.ofList s), l)
    else if c = '[' then
      if d = 0 then none else match skipWs l with
        | ']' :: l => some (arr [], l)
        | l => do
          let (js, l) ← parseElems n (d - 1) l
          some (arr js, l)
    else if c = '{' then
      if d = 0 then none else match skipWs l with
        | '}' :: l => some (obj [], l)
        | l => do
          let (ms, l) ← parseMembers n (d - 1) l
          some (obj ms, l)
    else if c = 'n' then
      if ['u', 'l', 'l'].isPrefixOf l then some (null, l.drop 3) else none
    else if c = 't' then
      if ['r', 'u', 'e'].isPrefixOf l then some (bool true, l.drop 3) else none
    else if c = 'f' then
      if ['a', 'l', 's', 'e'].isPrefixOf l then some (bool false, l.drop 4) else none
    else parseNum (c :: l)

/-- The elements of an array, after the white space before the first. -/
def parseElems : (fuel depth : ℕ) → List Char → Option (List Json × List Char)
  | 0, _, _ => none
  | n + 1, d, l => do
    let (j, l) ← parseValue n d l
    match skipWs l with
      | ',' :: l => do
        let (js, l) ← parseElems n d (skipWs l)
        some (j :: js, l)
      | ']' :: l => some ([j], l)
      | _ => none

/-- The members of an object, after the white space before the first. -/
def parseMembers : (fuel depth : ℕ) → List Char →
    Option (List (String × Json) × List Char)
  | 0, _, _ => none
  | n + 1, d, l =>
    match l with
      | [] => none
      | c :: l =>
        if c = quote then do
          let (k, l) ← parseChars n l
          match skipWs l with
            | ':' :: l => do
              let (j, l) ← parseValue n d (skipWs l)
              match skipWs l with
                | ',' :: l => do
                  let (ms, l) ← parseMembers n d (skipWs l)
                  some ((String.ofList k, j) :: ms, l)
                | '}' :: l => some ([(String.ofList k, j)], l)
                | _ => none
            | _ => none
        else none

end

/-- **A JSON text**: one value, with white space around it and nothing
else. -/
def parse (s : String) : Option Json := do
  let l := skipWs s.toList
  let (j, l) ← parseValue (l.length + 1) 127 l
  if (skipWs l).isEmpty then some j else none

/-! ## The round trip -/

theorem skipWs_cons {c : Char} {l : List Char} (h : isWs c = false) :
    skipWs (c :: l) = c :: l := by
  rw [skipWs, List.dropWhile_cons_of_neg (by simp [h])]

theorem hexVal_hexDigit {n : ℕ} (h : n < 16) : hexVal (hexDigit n) = some n := by
  interval_cases n <;> decide

theorem bslash_ne_quote : bslash ≠ quote := by decide

/-- A backslash and a letter are read as the character they stand for. -/
theorem parseChars_simpleEscape (n : ℕ) {e c : Char} (l : List Char) (he : e ≠ 'u')
    (hc : simpleEscape e = some c) :
    parseChars (n + 1) (bslash :: e :: l)
      = (parseChars n l).bind (fun p => some (c :: p.1, p.2)) := by
  simp only [parseChars, if_neg bslash_ne_quote, if_true, if_neg he, hc]
  rfl

/-- The escape of a control character is read as that character. -/
theorem unicodeEscape_control {m : ℕ} (hm : m < 0x20) (l : List Char) :
    unicodeEscape ('0' :: '0' :: hexDigit (m / 16) :: hexDigit (m % 16) :: l)
      = some (Char.ofNat m, l) := by
  have hz : hexVal '0' = some 0 := by decide
  have hsum : m / 16 * 16 + m % 16 = m := Nat.div_add_mod' m 16
  simp [unicodeEscape, hex4, hz, hexVal_hexDigit (show m / 16 < 16 by omega),
    hexVal_hexDigit (Nat.mod_lt m (by decide : 0 < 16)), hsum, show m < 55296 by omega]

/-- **An escaped character is read back as itself.** -/
theorem parseChars_escapeChar (n : ℕ) (c : Char) (l : List Char) :
    parseChars (n + 1) (escapeChar c ++ l)
      = (parseChars n l).bind (fun p => some (c :: p.1, p.2)) := by
  have key : ∀ m : ℕ, c.toNat = m → Char.ofNat m = c := by
    rintro m rfl
    exact Char.ofNat_toNat c
  unfold escapeChar
  split_ifs with h₁ h₂ h₃ h₄ h₅ h₆ h₇ h₈
  · subst h₁
    exact parseChars_simpleEscape n l (by decide) (by decide)
  · subst h₂
    exact parseChars_simpleEscape n l (by decide) (by decide)
  · exact key _ h₃ ▸ parseChars_simpleEscape n l (by decide) (by decide)
  · exact key _ h₄ ▸ parseChars_simpleEscape n l (by decide) (by decide)
  · exact key _ h₅ ▸ parseChars_simpleEscape n l (by decide) (by decide)
  · exact key _ h₆ ▸ parseChars_simpleEscape n l (by decide) (by decide)
  · exact key _ h₇ ▸ parseChars_simpleEscape n l (by decide) (by decide)
  · simp only [List.cons_append, List.nil_append, parseChars, if_neg bslash_ne_quote,
      if_true, unicodeEscape_control h₈, Char.ofNat_toNat]
    rfl
  · simp only [List.cons_append, List.nil_append, parseChars, if_neg h₁, if_neg h₂,
      if_neg h₈]
    rfl

/-- **A string is read back up to its closing quote.** -/
theorem parseChars_renderChars (s : List Char) (n : ℕ) (l : List Char)
    (hn : s.length < n) : parseChars n (renderChars s ++ l) = some (s, l) := by
  induction s generalizing n with
  | nil =>
    obtain ⟨m, rfl⟩ := Nat.exists_eq_succ_of_ne_zero (Nat.ne_of_gt hn)
    simp [renderChars, parseChars]
  | cons c s ih =>
    obtain ⟨m, rfl⟩ := Nat.exists_eq_succ_of_ne_zero (Nat.ne_of_gt (Nat.zero_lt_of_lt hn))
    have hs : renderChars (c :: s) ++ l = escapeChar c ++ (renderChars s ++ l) := by
      simp [renderChars]
    rw [hs, parseChars_escapeChar, ih m (by simpa using hn)]
    rfl

/-- What may follow a value: nothing that a number could go on with. -/
def Follows (l : List Char) : Prop :=
  ∀ c ∈ l.head?, c.isDigit = false ∧ c ≠ '.' ∧ c ≠ 'e' ∧ c ≠ 'E'

theorem Follows.cons {c : Char} {l : List Char}
    (h : c.isDigit = false ∧ c ≠ '.' ∧ c ≠ 'e' ∧ c ≠ 'E') : Follows (c :: l) := by
  intro d hd
  obtain rfl : c = d := by simpa using hd
  exact h

theorem parseTail_of_follows {l : List Char} (h : Follows l) :
    parseTail l = some (false, l) := by
  cases l with
  | nil => rfl
  | cons c l =>
    obtain ⟨-, hdot, he, hE⟩ := h c rfl
    simp [parseTail, hdot, he, hE]

/-- Digits are taken up to what may follow a value. -/
theorem takeWhile_digits (n : ℕ) {l : List Char} (h : Follows l) :
    (Nat.toDigits 10 n ++ l).takeWhile Char.isDigit = Nat.toDigits 10 n
      ∧ (Nat.toDigits 10 n ++ l).dropWhile Char.isDigit = l := by
  have hd : ∀ c ∈ Nat.toDigits 10 n, c.isDigit = true := fun c hc =>
    Nat.isDigit_of_mem_toDigits (by decide) (by decide) hc
  rw [List.takeWhile_append_of_pos hd, List.dropWhile_append_of_pos hd]
  cases l with
  | nil => simp
  | cons c l => simp [(h c rfl).1]

/-- A number is read up to what may follow a value. -/
theorem parseNum_digits (n : ℕ) {l : List Char} (h : Follows l) :
    parseNum (Nat.toDigits 10 n ++ l) = some (if 2 ^ 64 ≤ n then numOther else num n, l) := by
  have hneg : ((Nat.toDigits 10 n ++ l).head? == some '-') = false := by
    cases hd : Nat.toDigits 10 n with
    | nil => exact absurd hd Nat.toDigits_ne_nil
    | cons c m =>
      have hc : c ≠ '-' := fun he => Numerals.dash_ne_toDigits n m (by rw [hd, he])
      simpa using hc
  obtain ⟨ht, hd⟩ := takeWhile_digits n h
  simp only [parseNum, hneg, Bool.false_eq_true, if_false, ht, hd,
    Numerals.ofNumeral_toDigits, parseTail_of_follows h, Option.bind_eq_bind,
    Option.bind_some, Bool.false_or, decide_eq_true_eq]

/-- **A number is read back.** -/
theorem parseNum_toDigits {n : ℕ} (hn : n < 2 ^ 64) {l : List Char} (h : Follows l) :
    parseNum (Nat.toDigits 10 n ++ l) = some (num n, l) := by
  rw [parseNum_digits n h, if_neg (Nat.not_le.mpr hn)]

mutual

/-- **The values the writer writes**, nested at most `d` deep. -/
def Fits : (d : ℕ) → Json → Prop
  | _, null => True
  | _, bool _ => True
  | _, num n => n < 2 ^ 64
  | _, numOther => False
  | _, str _ => True
  | d, arr l => d ≠ 0 ∧ FitsElems (d - 1) l
  | d, obj l => d ≠ 0 ∧ FitsMembers (d - 1) l

/-- Every element fits. -/
def FitsElems : (d : ℕ) → List Json → Prop
  | _, [] => True
  | d, j :: l => Fits d j ∧ FitsElems d l

/-- Every member fits. -/
def FitsMembers : (d : ℕ) → List (String × Json) → Prop
  | _, [] => True
  | d, (_, j) :: l => Fits d j ∧ FitsMembers d l

end

theorem follows_renderElems (l : List Json) (r : List Char) :
    Follows (renderElems l ++ r) := by
  cases l with
  | nil => exact Follows.cons (by decide)
  | cons j l => exact Follows.cons (by decide)

theorem follows_renderMembers (l : List (String × Json)) (r : List Char) :
    Follows (renderMembers l ++ r) := by
  cases l with
  | nil => exact Follows.cons (by decide)
  | cons m l => exact Follows.cons (by decide)

/-- The first character of a number's text is a digit. -/
theorem toDigits_head (n : ℕ) :
    ∃ c l, Nat.toDigits 10 n = c :: l ∧ ∀ x : Char, x.isDigit = false → c ≠ x := by
  cases hd : Nat.toDigits 10 n with
  | nil => exact absurd hd Nat.toDigits_ne_nil
  | cons c l =>
    have hc : c.isDigit = true := Nat.isDigit_of_mem_toDigits (b := 10) (n := n)
      (by decide) (by decide) (by rw [hd]; exact List.mem_cons_self)
    refine ⟨c, l, rfl, ?_⟩
    rintro x hx rfl
    rw [hc] at hx
    exact absurd hx (by decide)

/-- The first character of a value's text: no white space, and not the end
of an array or an object. -/
theorem render_head (j : Json) (r : List Char) :
    ∃ c l, render j ++ r = c :: l ∧ isWs c = false ∧ c ≠ ']' ∧ c ≠ '}' := by
  cases j with
  | null => exact ⟨'n', _, rfl, by decide⟩
  | bool b => cases b with
    | true => exact ⟨'t', _, rfl, by decide⟩
    | false => exact ⟨'f', _, rfl, by decide⟩
  | num n =>
    cases hd : Nat.toDigits 10 n with
    | nil => exact absurd hd Nat.toDigits_ne_nil
    | cons c m =>
      have hc : c.isDigit = true := Nat.isDigit_of_mem_toDigits (b := 10) (n := n)
        (by decide) (by decide) (by rw [hd]; exact List.mem_cons_self)
      refine ⟨c, m ++ r, by rw [render, hd]; rfl, ?_, ?_, ?_⟩
      · have hb : 48 ≤ c.toNat ∧ c.toNat ≤ 57 := by
          simpa [Char.isDigit, UInt32.le_iff_toNat_le] using hc
        have hsp : c ≠ ' ' := by rintro rfl; exact absurd hc (by decide)
        simp only [isWs, Bool.or_eq_false_iff, beq_eq_false_iff_ne]
        exact ⟨⟨⟨hsp, by omega⟩, by omega⟩, by omega⟩
      · rintro rfl
        exact absurd hc (by decide)
      · rintro rfl
        exact absurd hc (by decide)
  | numOther => exact ⟨'-', _, rfl, by decide⟩
  | str s => exact ⟨quote, _, rfl, by decide⟩
  | arr l => cases l with
    | nil => exact ⟨'[', _, rfl, by decide⟩
    | cons j l => exact ⟨'[', _, rfl, by decide⟩
  | obj l => cases l with
    | nil => exact ⟨'{', _, rfl, by decide⟩
    | cons m l => exact ⟨'{', _, rfl, by decide⟩

theorem skipWs_render (j : Json) (r : List Char) : skipWs (render j ++ r) = render j ++ r := by
  obtain ⟨c, l, he, hc, -⟩ := render_head j r
  rw [he, skipWs_cons hc]

/-- Escapes make a string no shorter. -/
theorem length_le_escaped (l : List Char) : l.length ≤ (l.flatMap escapeChar).length := by
  induction l with
  | nil => exact Nat.zero_le _
  | cons c l ih =>
    have hc : 1 ≤ (escapeChar c).length := by
      unfold escapeChar
      split_ifs <;> simp
    rw [List.flatMap_cons, List.length_append, List.length_cons]
    omega

/-- A string value is read up to its closing quote. -/
theorem parseChars_renderStr_tail (s : String) {n : ℕ} (r : List Char)
    (hn : (renderStr s).length ≤ n + 1) :
    parseChars n (renderChars s.toList ++ r) = some (s.toList, r) := by
  refine parseChars_renderChars s.toList n r ?_
  have hlen := length_le_escaped s.toList
  simp only [renderStr, renderChars, List.length_cons, List.length_append,
    List.length_nil] at hn
  omega

mutual

/-- **A value is read back from its text**, whatever may follow a value
behind it. -/
theorem parseValue_render : ∀ (j : Json) (n d : ℕ) (r : List Char), Fits d j →
    Follows r → (render j).length ≤ n → parseValue n d (render j ++ r) = some (j, r)
  | null, n, d, r, _, _, hn => by
    obtain ⟨m, rfl⟩ := Nat.exists_eq_add_of_le' (le_trans (by decide : 1 ≤ 4) hn)
    simp [render, parseValue, show ('n' : Char) ≠ quote by decide]
  | bool b, n, d, r, _, _, hn => by
    cases b with
    | true =>
      obtain ⟨m, rfl⟩ := Nat.exists_eq_add_of_le' (le_trans (by decide : 1 ≤ 4) hn)
      simp [render, parseValue, show ('t' : Char) ≠ quote by decide]
    | false =>
      obtain ⟨m, rfl⟩ := Nat.exists_eq_add_of_le' (le_trans (by decide : 1 ≤ 5) hn)
      simp [render, parseValue, show ('f' : Char) ≠ quote by decide]
  | num k, n, d, r, hf, hr, hn => by
    have hnum := parseNum_toDigits hf hr
    rw [render] at hn ⊢
    obtain ⟨c, m, hd, hne⟩ := toDigits_head k
    rw [hd] at hn hnum ⊢
    obtain ⟨n', rfl⟩ := Nat.exists_eq_add_of_le' (le_trans (Nat.succ_pos m.length) hn)
    rw [List.cons_append] at hnum ⊢
    rw [parseValue, if_neg (hne _ (by decide)), if_neg (hne _ (by decide)),
      if_neg (hne _ (by decide)), if_neg (hne _ (by decide)), if_neg (hne _ (by decide)),
      if_neg (hne _ (by decide)), hnum]
  | numOther, _, _, _, hf, _, _ => absurd hf (by simp [Fits])
  | str s, n, d, r, _, _, hn => by
    rw [render] at hn ⊢
    obtain ⟨m, rfl⟩ := Nat.exists_eq_add_of_le' (le_trans (by simp [renderStr] : 1 ≤ _) hn)
    have hs := parseChars_renderStr_tail s r hn
    simp only [renderStr, List.cons_append, parseValue, if_true, hs,
      Option.bind_eq_bind, Option.bind_some, String.ofList_toList]
  | arr [], n, d, r, hf, _, hn => by
    obtain ⟨m, rfl⟩ := Nat.exists_eq_add_of_le' (le_trans (by decide : 1 ≤ 2) hn)
    have hd : d ≠ 0 := hf.1
    simp [render, parseValue, hd, skipWs_cons (show isWs ']' = false by decide),
      show ('[' : Char) ≠ quote by decide]
  | arr (j :: l), n, d, r, hf, _, hn => by
    obtain ⟨hd, hj, hl⟩ := hf
    rw [render] at hn ⊢
    obtain ⟨m, rfl⟩ := Nat.exists_eq_add_of_le' (le_trans (by simp : 1 ≤ _) hn)
    have he := parseElems_render j l m (d - 1) r hj hl (by simpa using hn)
    obtain ⟨c, t, hct, -, hne, -⟩ := render_head j (renderElems l ++ r)
    have hsk := skipWs_render j (renderElems l ++ r)
    rw [hct] at he hsk
    rw [List.cons_append, List.append_assoc, hct, parseValue, if_neg (by decide),
      if_pos rfl, if_neg hd, hsk]
    split
    · next heq => exact absurd (List.cons.inj heq).1 hne
    · simp only [he, Option.bind_eq_bind, Option.bind_some]
  | obj [], n, d, r, hf, _, hn => by
    obtain ⟨m, rfl⟩ := Nat.exists_eq_add_of_le' (le_trans (by decide : 1 ≤ 2) hn)
    have hd : d ≠ 0 := hf.1
    simp [render, parseValue, hd, skipWs_cons (show isWs '}' = false by decide),
      show ('{' : Char) ≠ quote by decide]
  | obj ((k, j) :: l), n, d, r, hf, _, hn => by
    obtain ⟨hd, hj, hl⟩ := hf
    rw [render] at hn ⊢
    obtain ⟨m, rfl⟩ := Nat.exists_eq_add_of_le' (le_trans (by simp : 1 ≤ _) hn)
    have he := parseMembers_render k j l m (d - 1) r hj hl (by simpa using hn)
    rw [List.cons_append, parseValue, if_neg (by decide), if_neg (by decide),
      if_pos rfl, if_neg hd]
    simp only [renderStr, List.cons_append, List.append_assoc] at he ⊢
    rw [skipWs_cons (by decide)]
    split
    · next heq => exact absurd (List.cons.inj heq).1 (by decide)
    · simp only [he, Option.bind_eq_bind, Option.bind_some]
  termination_by _ n => n

/-- The elements of an array are read back up to its closing bracket. -/
theorem parseElems_render : ∀ (j : Json) (l : List Json) (n d : ℕ) (r : List Char),
    Fits d j → FitsElems d l → (render j ++ renderElems l).length ≤ n →
    parseElems n d (render j ++ (renderElems l ++ r)) = some (j :: l, r)
  | j, [], n, d, r, hj, _, hn => by
    simp only [renderElems, List.length_append, List.length_cons, List.length_nil] at hn
    obtain ⟨m, rfl⟩ := Nat.exists_eq_add_of_le' (le_trans (Nat.le_add_left 1 _) hn)
    have hv := parseValue_render j m d (renderElems [] ++ r) hj
      (follows_renderElems [] r) (by omega)
    rw [parseElems, hv]
    simp [renderElems, skipWs_cons (show isWs ']' = false by decide)]
  | j, j' :: l, n, d, r, hj, hl, hn => by
    simp only [renderElems, List.length_append, List.length_cons] at hn
    obtain ⟨m, rfl⟩ := Nat.exists_eq_add_of_le' (show 1 ≤ n by omega)
    have hv := parseValue_render j m d (renderElems (j' :: l) ++ r) hj
      (follows_renderElems (j' :: l) r) (by omega)
    have he := parseElems_render j' l m d r hl.1 hl.2
      (by rw [List.length_append]; omega)
    rw [parseElems, hv]
    simp [renderElems, skipWs_cons (show isWs ',' = false by decide), skipWs_render, he]
  termination_by _ _ n => n

/-- The members of an object are read back up to its closing brace. -/
theorem parseMembers_render : ∀ (k : String) (j : Json) (l : List (String × Json))
    (n d : ℕ) (r : List Char), Fits d j → FitsMembers d l →
    (renderStr k ++ ':' :: (render j ++ renderMembers l)).length ≤ n →
    parseMembers n d (renderStr k ++ ':' :: (render j ++ renderMembers l) ++ r)
      = some ((k, j) :: l, r)
  | k, j, [], n, d, r, hj, _, hn => by
    simp only [renderMembers, List.length_append, List.length_cons, List.length_nil] at hn
    obtain ⟨m, rfl⟩ := Nat.exists_eq_add_of_le' (show 1 ≤ n by omega)
    have hk := parseChars_renderStr_tail k (':' :: (render j ++ (renderMembers [] ++ r)))
      (n := m) (by omega)
    have hv := parseValue_render j m d (renderMembers [] ++ r) hj
      (follows_renderMembers [] r) (by omega)
    simp only [renderStr, List.cons_append, List.append_assoc, parseMembers, if_true, hk,
      Option.bind_eq_bind, Option.bind_some, skipWs_render, hv,
      skipWs_cons (show isWs ':' = false by decide)]
    simp [renderMembers, skipWs_cons (show isWs '}' = false by decide)]
  | k, j, (k', j') :: l, n, d, r, hj, hl, hn => by
    simp only [renderMembers, List.length_append, List.length_cons] at hn
    obtain ⟨m, rfl⟩ := Nat.exists_eq_add_of_le' (show 1 ≤ n by omega)
    have hk := parseChars_renderStr_tail k
      (':' :: (render j ++ (renderMembers ((k', j') :: l) ++ r))) (n := m) (by omega)
    have hv := parseValue_render j m d (renderMembers ((k', j') :: l) ++ r) hj
      (follows_renderMembers ((k', j') :: l) r) (by omega)
    have hm := parseMembers_render k' j' l m d r hl.1 hl.2
      (by simp only [List.length_append, List.length_cons]; omega)
    simp only [renderStr, List.cons_append, List.append_assoc] at hm
    simp only [renderStr, List.cons_append, List.append_assoc, parseMembers, if_true, hk,
      Option.bind_eq_bind, Option.bind_some, skipWs_render, hv,
      skipWs_cons (show isWs ':' = false by decide)]
    simp [renderMembers, skipWs_cons (show isWs ',' = false by decide), renderStr,
      skipWs_cons (show isWs quote = false by decide), hm]
  termination_by _ _ _ n => n

end

/-- **The round trip.** A value the writer writes is read back from its
text. -/
theorem parse_render {j : Json} (h : Fits 127 j) :
    parse (String.ofList (render j)) = some j := by
  have hs := skipWs_render j []
  have hv := parseValue_render j ((render j).length + 1) 127 [] h
    (fun c hc => absurd hc (by simp)) (Nat.le_succ _)
  rw [List.append_nil] at hs hv
  rw [parse, String.toList_ofList, hs, hv]
  rfl

/-! ## Reading records

A record is read from an object's members, in any order: one that is missing
may have a default, one that is there twice is refused. -/

/-- A member of an object: none if missing; refused if it is there twice. -/
def member (ms : List (String × Json)) (name : String) : Option (Option Json) :=
  match ms.filter (fun m => m.1 == name) with
  | [] => some none
  | [m] => some (some m.2)
  | _ => none

/-- A string. -/
def readStr : Json → Option String
  | .str s => some s
  | _ => none

/-- A list of strings; empty if missing. -/
def readStrs : Option Json → Option (List String)
  | none => some []
  | some (.arr l) => l.mapM readStr
  | some _ => none

/-- A flag; false if missing. -/
def readFlag : Option Json → Option Bool
  | none => some false
  | some (.bool b) => some b
  | some _ => none

theorem mapM_readStr (l : List String) : (l.map Json.str).mapM readStr = some l := by
  induction l with
  | nil => rfl
  | cons s l ih =>
    rw [List.map_cons, List.mapM_cons, ih]
    rfl

end Json
