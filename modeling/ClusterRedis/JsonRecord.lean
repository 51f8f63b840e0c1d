import ClusterRedis.Json

/-!
# Records in JSON text

A reader of a record parses the values of the fields it has and skips the
others. To skip a value is less than to parse it: the brackets and braces of
a skipped value nest as deep as they like, and the escapes of its strings
are read over and not decoded, so a lone surrogate that a string of the
record must not hold does no harm there.

`parseRecord` reads the members of an object so. A text that is no object
has no members to skip and is parsed whole.

`parseRecord_render` is what the writer's texts come back as: the members
that are fields, whatever else stands among them.
-/

namespace Json

/-! ## Skipping -/

/-- **Skip a string** after its opening quote. Any four hexadecimal digits
are a code unit escape. -/
def skipChars : (fuel : ℕ) → List Char → Option (List Char)
  | 0, _ => none
  | _ + 1, [] => none
  | n + 1, c :: l =>
    if c = quote then some l
    else if c = bslash then
      match l with
      | [] => none
      | e :: l =>
        if e = 'u' then do
          let (_, l) ← hex4 l
          skipChars n l
        else do
          let _ ← simpleEscape e
          skipChars n l
    else if c.toNat < 0x20 then none
    else skipChars n l

/-- Skip a number. -/
def skipNum (l : List Char) : Option (List Char) := (parseNum l).map Prod.snd

mutual

/-- **Skip a value**, after the white space before it. -/
def skipValue : (fuel : ℕ) → List Char → Option (List Char)
  | 0, _ => none
  | _ + 1, [] => none
  | n + 1, c :: l =>
    if c = quote then skipChars n l
    else if c = '[' then
      match skipWs l with
        | ']' :: l => some l
        | l => skipElems n l
    else if c = '{' then
      match skipWs l with
        | '}' :: l => some l
        | l => skipMembers n l
    else if c = 'n' then
      if ['u', 'l', 'l'].isPrefixOf l then some (l.drop 3) else none
    else if c = 't' then
      if ['r', 'u', 'e'].isPrefixOf l then some (l.drop 3) else none
    else if c = 'f' then
      if ['a', 'l', 's', 'e'].isPrefixOf l then some (l.drop 4) else none
    else skipNum (c :: l)

/-- Skip the elements of an array, after the white space before the
first. -/
def skipElems : (fuel : ℕ) → List Char → Option (List Char)
  | 0, _ => none
  | n + 1, l => do
    let l ← skipValue n l
    match skipWs l with
      | ',' :: l => skipElems n (skipWs l)
      | ']' :: l => some l
      | _ => none

/-- Skip the members of an object, after the white space before the
first. -/
def skipMembers : (fuel : ℕ) → List Char → Option (List Char)
  | 0, _ => none
  | n + 1, l =>
    match l with
      | [] => none
      | c :: l =>
        if c = quote then do
          let l ← skipChars n l
          match skipWs l with
            | ':' :: l => do
              let l ← skipValue n (skipWs l)
              match skipWs l with
                | ',' :: l => skipMembers n (skipWs l)
                | '}' :: l => some l
                | _ => none
            | _ => none
        else none

end

/-! ## Reading -/

/-- **The value of a member**: of a field it is parsed, of any other member
it is skipped. -/
def parseField (names : List String) (n : ℕ) (k : String) (l : List Char) :
    Option (List (String × Json) × List Char) :=
  if names.contains k then (parseValue n 126 l).map (fun p => ([(k, p.1)], p.2))
  else (skipValue n l).map (fun l => ([], l))

/-- The members of a record, after the white space before the first. A name
is parsed, for it has to be compared. -/
def parseFields (names : List String) : (fuel : ℕ) → List Char →
    Option (List (String × Json) × List Char)
  | 0, _ => none
  | n + 1, l =>
    match l with
      | [] => none
      | c :: l =>
        if c = quote then do
          let (k, l) ← parseChars n l
          match skipWs l with
            | ':' :: l => do
              let (m, l) ← parseField names n (String.ofList k) (skipWs l)
              match skipWs l with
                | ',' :: l => do
                  let (ms, l) ← parseFields names n (skipWs l)
                  some (m ++ ms, l)
                | '}' :: l => some (m, l)
                | _ => none
            | _ => none
        else none

/-- **The text of a record** that has fields of these names: an object, of
which the fields are kept, or any other value. -/
def parseRecord (names : List String) (s : String) : Option Json := do
  let l := skipWs s.toList
  let (j, l) ← match l with
    | '{' :: l => match skipWs l with
      | '}' :: l => some (obj [], l)
      | l => (parseFields names (l.length + 1) l).map (fun p => (obj p.1, p.2))
    | l => parseValue (l.length + 1) 127 l
  if (skipWs l).isEmpty then some j else none

/-! ## The round trip -/

/-- **An escaped character is skipped.** -/
theorem skipChars_escapeChar (n : ℕ) (c : Char) (l : List Char) :
    skipChars (n + 1) (escapeChar c ++ l) = skipChars n l := by
  have simple : ∀ e c' : Char, e ≠ 'u' → simpleEscape e = some c' →
      skipChars (n + 1) (bslash :: e :: l) = skipChars n l := by
    intro e c' he hc
    simp only [skipChars, if_neg bslash_ne_quote, if_true, if_neg he, hc]
    rfl
  unfold escapeChar
  split_ifs with h₁ h₂ h₃ h₄ h₅ h₆ h₇ h₈
  · exact simple quote quote (by decide) (by decide)
  · exact simple bslash bslash (by decide) (by decide)
  · exact simple 'b' (Char.ofNat 0x08) (by decide) (by decide)
  · exact simple 't' (Char.ofNat 0x09) (by decide) (by decide)
  · exact simple 'n' (Char.ofNat 0x0A) (by decide) (by decide)
  · exact simple 'f' (Char.ofNat 0x0C) (by decide) (by decide)
  · exact simple 'r' (Char.ofNat 0x0D) (by decide) (by decide)
  · have hz : hexVal '0' = some 0 := by decide
    simp [skipChars, bslash_ne_quote, hex4, hz,
      hexVal_hexDigit (show c.toNat / 16 < 16 by omega),
      hexVal_hexDigit (Nat.mod_lt c.toNat (by decide : 0 < 16))]
  · simp only [List.cons_append, List.nil_append, skipChars, if_neg h₁, if_neg h₂,
      if_neg h₈]

/-- **A string is skipped up to its closing quote.** -/
theorem skipChars_renderChars (s : List Char) (n : ℕ) (l : List Char)
    (hn : s.length < n) : skipChars n (renderChars s ++ l) = some l := by
  induction s generalizing n with
  | nil =>
    obtain ⟨m, rfl⟩ := Nat.exists_eq_succ_of_ne_zero (Nat.ne_of_gt hn)
    simp [renderChars, skipChars]
  | cons c s ih =>
    obtain ⟨m, rfl⟩ := Nat.exists_eq_succ_of_ne_zero (Nat.ne_of_gt (Nat.zero_lt_of_lt hn))
    have hs : renderChars (c :: s) ++ l = escapeChar c ++ (renderChars s ++ l) := by
      simp [renderChars]
    rw [hs, skipChars_escapeChar, ih m (by simpa using hn)]

/-- A string value is skipped with its text's length as fuel. -/
theorem skipChars_renderStr_tail (s : String) {n : ℕ} (r : List Char)
    (hn : (renderStr s).length ≤ n + 1) :
    skipChars n (renderChars s.toList ++ r) = some r := by
  refine skipChars_renderChars s.toList n r ?_
  have hlen := length_le_escaped s.toList
  simp only [renderStr, renderChars, List.length_cons, List.length_append,
    List.length_nil] at hn
  omega

/-- **A number is skipped**, however large. -/
theorem skipNum_toDigits (n : ℕ) {l : List Char} (h : Follows l) :
    skipNum (Nat.toDigits 10 n ++ l) = some l := by
  rw [skipNum, parseNum_digits n h]
  rfl

mutual

/-- **Every text the writer writes is skipped**, whatever may follow a value
behind it. -/
theorem skipValue_render : ∀ (j : Json) (n : ℕ) (r : List Char),
    Follows r → (render j).length ≤ n → skipValue n (render j ++ r) = some r
  | null, n, r, _, hn => by
    obtain ⟨m, rfl⟩ := Nat.exists_eq_add_of_le' (le_trans (by decide : 1 ≤ 4) hn)
    simp [render, skipValue, show ('n' : Char) ≠ quote by decide]
  | bool b, n, r, _, hn => by
    cases b with
    | true =>
      obtain ⟨m, rfl⟩ := Nat.exists_eq_add_of_le' (le_trans (by decide : 1 ≤ 4) hn)
      simp [render, skipValue, show ('t' : Char) ≠ quote by decide]
    | false =>
      obtain ⟨m, rfl⟩ := Nat.exists_eq_add_of_le' (le_trans (by decide : 1 ≤ 5) hn)
      simp [render, skipValue, show ('f' : Char) ≠ quote by decide]
  | num k, n, r, hr, hn => by
    have hnum := skipNum_toDigits k hr
    rw [render] at hn ⊢
    obtain ⟨c, m, hd, hne⟩ := toDigits_head k
    rw [hd] at hn hnum
    obtain ⟨n', rfl⟩ := Nat.exists_eq_add_of_le' (le_trans (Nat.succ_pos m.length) hn)
    rw [hd]
    rw [List.cons_append] at hnum ⊢
    rw [skipValue, if_neg (hne _ (by decide)), if_neg (hne _ (by decide)),
      if_neg (hne _ (by decide)), if_neg (hne _ (by decide)), if_neg (hne _ (by decide)),
      if_neg (hne _ (by decide)), hnum]
  | numOther, n, r, hr, hn => by
    obtain ⟨m, rfl⟩ := Nat.exists_eq_add_of_le' (le_trans (by decide : 1 ≤ 2) hn)
    have hdig := takeWhile_digits 1 hr
    rw [show Nat.toDigits 10 1 = ['1'] by decide, List.cons_append, List.nil_append] at hdig
    simp [render, skipValue, skipNum, parseNum, hdig, parseTail_of_follows hr,
      show Numerals.ofNumeral ['1'] = some 1 by decide, show ('-' : Char) ≠ quote by decide]
  | str s, n, r, _, hn => by
    rw [render] at hn ⊢
    obtain ⟨m, rfl⟩ := Nat.exists_eq_add_of_le' (le_trans (by simp [renderStr] : 1 ≤ _) hn)
    simp only [renderStr, List.cons_append, skipValue, if_true,
      skipChars_renderStr_tail s r hn]
  | arr [], n, r, _, hn => by
    obtain ⟨m, rfl⟩ := Nat.exists_eq_add_of_le' (le_trans (by decide : 1 ≤ 2) hn)
    simp [render, skipValue, skipWs_cons (show isWs ']' = false by decide),
      show ('[' : Char) ≠ quote by decide]
  | arr (j :: l), n, r, _, hn => by
    rw [render] at hn ⊢
    obtain ⟨m, rfl⟩ := Nat.exists_eq_add_of_le' (le_trans (by simp : 1 ≤ _) hn)
    have he := skipElems_render j l m r (by simpa using hn)
    obtain ⟨c, t, hct, -, hne, -⟩ := render_head j (renderElems l ++ r)
    have hsk := skipWs_render j (renderElems l ++ r)
    rw [hct] at he hsk
    rw [List.cons_append, List.append_assoc, hct, skipValue, if_neg (by decide),
      if_pos rfl, hsk]
    split
    · next heq => exact absurd (List.cons.inj heq).1 hne
    · exact he
  | obj [], n, r, _, hn => by
    obtain ⟨m, rfl⟩ := Nat.exists_eq_add_of_le' (le_trans (by decide : 1 ≤ 2) hn)
    simp [render, skipValue, skipWs_cons (show isWs '}' = false by decide),
      show ('{' : Char) ≠ quote by decide]
  | obj ((k, j) :: l), n, r, _, hn => by
    rw [render] at hn ⊢
    obtain ⟨m, rfl⟩ := Nat.exists_eq_add_of_le' (le_trans (by simp : 1 ≤ _) hn)
    have he := skipMembers_render k j l m r (by simpa using hn)
    rw [List.cons_append, skipValue, if_neg (by decide), if_neg (by decide), if_pos rfl]
    simp only [renderStr, List.cons_append, List.append_assoc] at he ⊢
    rw [skipWs_cons (by decide)]
    split
    · next heq => exact absurd (List.cons.inj heq).1 (by decide)
    · exact he
  termination_by _ n => n

/-- The elements of an array are skipped up to its closing bracket. -/
theorem skipElems_render : ∀ (j : Json) (l : List Json) (n : ℕ) (r : List Char),
    (render j ++ renderElems l).length ≤ n →
    skipElems n (render j ++ (renderElems l ++ r)) = some r
  | j, [], n, r, hn => by
    simp only [renderElems, List.length_append, List.length_cons, List.length_nil] at hn
    obtain ⟨m, rfl⟩ := Nat.exists_eq_add_of_le' (le_trans (Nat.le_add_left 1 _) hn)
    have hv := skipValue_render j m (renderElems [] ++ r) (follows_renderElems [] r) (by omega)
    rw [skipElems, hv]
    simp [renderElems, skipWs_cons (show isWs ']' = false by decide)]
  | j, j' :: l, n, r, hn => by
    simp only [renderElems, List.length_append, List.length_cons] at hn
    obtain ⟨m, rfl⟩ := Nat.exists_eq_add_of_le' (show 1 ≤ n by omega)
    have hv := skipValue_render j m (renderElems (j' :: l) ++ r)
      (follows_renderElems (j' :: l) r) (by omega)
    have he := skipElems_render j' l m r (by rw [List.length_append]; omega)
    rw [skipElems, hv]
    simp [renderElems, skipWs_cons (show isWs ',' = false by decide), skipWs_render, he]
  termination_by _ _ n => n

/-- The members of an object are skipped up to its closing brace. -/
theorem skipMembers_render : ∀ (k : String) (j : Json) (l : List (String × Json)) (n : ℕ)
    (r : List Char), (renderStr k ++ ':' :: (render j ++ renderMembers l)).length ≤ n →
    skipMembers n (renderStr k ++ ':' :: (render j ++ renderMembers l) ++ r) = some r
  | k, j, [], n, r, hn => by
    simp only [renderMembers, List.length_append, List.length_cons, List.length_nil] at hn
    obtain ⟨m, rfl⟩ := Nat.exists_eq_add_of_le' (show 1 ≤ n by omega)
    have hk := skipChars_renderStr_tail k (':' :: (render j ++ (renderMembers [] ++ r)))
      (n := m) (by omega)
    have hv := skipValue_render j m (renderMembers [] ++ r)
      (follows_renderMembers [] r) (by omega)
    simp only [renderStr, List.cons_append, List.append_assoc, skipMembers, if_true, hk,
      Option.bind_eq_bind, Option.bind_some, skipWs_render, hv,
      skipWs_cons (show isWs ':' = false by decide)]
    simp [renderMembers, skipWs_cons (show isWs '}' = false by decide)]
  | k, j, (k', j') :: l, n, r, hn => by
    simp only [renderMembers, List.length_append, List.length_cons] at hn
    obtain ⟨m, rfl⟩ := Nat.exists_eq_add_of_le' (show 1 ≤ n by omega)
    have hk := skipChars_renderStr_tail k
      (':' :: (render j ++ (renderMembers ((k', j') :: l) ++ r))) (n := m) (by omega)
    have hv := skipValue_render j m (renderMembers ((k', j') :: l) ++ r)
      (follows_renderMembers ((k', j') :: l) r) (by omega)
    have hm := skipMembers_render k' j' l m r
      (by simp only [List.length_append, List.length_cons]; omega)
    simp only [renderStr, List.cons_append, List.append_assoc] at hm
    simp only [renderStr, List.cons_append, List.append_assoc, skipMembers, if_true, hk,
      Option.bind_eq_bind, Option.bind_some, skipWs_render, hv,
      skipWs_cons (show isWs ':' = false by decide)]
    simp [renderMembers, skipWs_cons (show isWs ',' = false by decide), renderStr,
      skipWs_cons (show isWs quote = false by decide), hm]
  termination_by _ _ _ n => n

end

variable {names : List String}

/-- **The value of a member is read from its text**, or skipped. -/
theorem parseField_render (k : String) (j : Json) (n : ℕ) {r : List Char}
    (hj : names.contains k = true → Fits 126 j) (hr : Follows r)
    (hn : (render j).length ≤ n) :
    parseField names n k (render j ++ r)
      = some ([(k, j)].filter (fun m => names.contains m.1), r) := by
  unfold parseField
  split_ifs with hk
  · rw [parseValue_render j n 126 r (hj hk) hr hn, List.filter_cons, if_pos hk]
    rfl
  · rw [skipValue_render j n r hr hn, List.filter_cons, if_neg hk]
    rfl

/-- **The fields of a record are read from its text** up to the closing
brace. -/
theorem parseFields_render (l : List (String × Json)) : ∀ (k : String) (j : Json) (n : ℕ)
    (r : List Char), (∀ m ∈ (k, j) :: l, names.contains m.1 = true → Fits 126 m.2) →
    (renderStr k ++ ':' :: (render j ++ renderMembers l)).length ≤ n →
    parseFields names n (renderStr k ++ ':' :: (render j ++ renderMembers l) ++ r)
      = some (((k, j) :: l).filter (fun m => names.contains m.1), r) := by
  induction l with
  | nil =>
    intro k j n r hf hn
    simp only [renderMembers, List.length_append, List.length_cons, List.length_nil] at hn
    obtain ⟨m, rfl⟩ := Nat.exists_eq_add_of_le' (show 1 ≤ n by omega)
    have hk := parseChars_renderStr_tail k (':' :: (render j ++ (renderMembers [] ++ r)))
      (n := m) (by omega)
    have hv := parseField_render k j m (hf _ List.mem_cons_self)
      (follows_renderMembers [] r) (by omega)
    simp only [renderStr, List.cons_append, List.append_assoc, parseFields, if_true, hk,
      Option.bind_eq_bind, Option.bind_some, skipWs_render, hv, String.ofList_toList,
      skipWs_cons (show isWs ':' = false by decide)]
    simp [renderMembers, skipWs_cons (show isWs '}' = false by decide)]
  | cons m' l ih =>
    obtain ⟨k', j'⟩ := m'
    intro k j n r hf hn
    simp only [renderMembers, List.length_append, List.length_cons] at hn
    obtain ⟨m, rfl⟩ := Nat.exists_eq_add_of_le' (show 1 ≤ n by omega)
    have hk := parseChars_renderStr_tail k
      (':' :: (render j ++ (renderMembers ((k', j') :: l) ++ r))) (n := m) (by omega)
    have hv := parseField_render k j m (hf _ List.mem_cons_self)
      (follows_renderMembers ((k', j') :: l) r) (by omega)
    have hm := ih k' j' m r (fun m hm => hf m (List.mem_cons_of_mem _ hm))
      (by simp only [List.length_append, List.length_cons]; omega)
    have hsplit : ((k, j) :: (k', j') :: l).filter (fun m => names.contains m.1)
        = [(k, j)].filter (fun m => names.contains m.1)
          ++ ((k', j') :: l).filter (fun m => names.contains m.1) :=
      List.filter_append [(k, j)] _
    simp only [renderStr, List.cons_append, List.append_assoc] at hm
    rw [hsplit]
    simp only [renderStr, List.cons_append, List.append_assoc, parseFields, if_true, hk,
      Option.bind_eq_bind, Option.bind_some, skipWs_render, hv, String.ofList_toList,
      skipWs_cons (show isWs ':' = false by decide)]
    simp only [renderMembers, renderStr, List.cons_append, List.append_assoc,
      skipWs_cons (show isWs ',' = false by decide),
      skipWs_cons (show isWs quote = false by decide), hm, Option.bind_some]

/-- **The round trip of a record.** The fields of a record are read from its
text, whatever other members stand among them. -/
theorem parseRecord_render {ms : List (String × Json)}
    (hf : ∀ m ∈ ms, names.contains m.1 = true → Fits 126 m.2) :
    parseRecord names (String.ofList (render (.obj ms)))
      = some (.obj (ms.filter (fun m => names.contains m.1))) := by
  cases ms with
  | nil => rfl
  | cons m l =>
    obtain ⟨k, j⟩ := m
    have hp := parseFields_render l k j
      ((renderStr k ++ ':' :: (render j ++ renderMembers l)).length + 1) [] hf (Nat.le_succ _)
    rw [List.append_nil] at hp
    have hws : skipWs (renderStr k ++ ':' :: (render j ++ renderMembers l))
        = renderStr k ++ ':' :: (render j ++ renderMembers l) :=
      skipWs_cons (by decide)
    rw [parseRecord, String.toList_ofList, render, skipWs_cons (by decide)]
    simp only [hws]
    split
    · next heq => exact absurd (List.cons.inj heq).1 (by decide)
    · simp only [hp, Option.map_some, Option.bind_eq_bind, Option.bind_some]
      rfl

theorem FitsMembers.of_mem {d : ℕ} {ms : List (String × Json)} (h : FitsMembers d ms) :
    ∀ m ∈ ms, Fits d m.2 := by
  induction ms with
  | nil => intro m hm; cases hm
  | cons x ms ih =>
    intro m hm
    rcases List.mem_cons.mp hm with rfl | hm
    · exact h.1
    · exact ih h.2 m hm

/-- A record without other members is read as it was. -/
theorem parseRecord_fields {ms : List (String × Json)} (hf : FitsMembers 126 ms)
    (hk : ∀ m ∈ ms, names.contains m.1 = true) :
    parseRecord names (String.ofList (render (.obj ms))) = some (.obj ms) := by
  rw [parseRecord_render (fun m hm _ => hf.of_mem m hm), List.filter_eq_self.mpr hk]

end Json
