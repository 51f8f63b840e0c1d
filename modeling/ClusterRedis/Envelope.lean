import ClusterRedis.Peer

/-!
# The envelope of a message

The server carries a channel and bytes. A routing key travels inside the
bytes, behind a version and a flag, with its length in two bytes; what
follows is the publisher's payload, untouched. A message without a routing
key and one whose routing key is empty differ in the flag.

`Envelope` is the format, as a relation between a routing key, a payload
and bytes. The encoder and the decoder are the two functions it is the graph
of (`encode_eq_ok_iff`, `decode_eq_ok_iff`), which is all that is used of
either.
-/

/-- The bytes of a text. -/
def asBytes (t : String) : List UInt8 := t.toList.flatMap String.utf8EncodeChar

/-- The one version. -/
abbrev VERSION : UInt8 := 0x01
/-- No routing key. -/
abbrev FLAG_NONE : UInt8 := 0x00
/-- A routing key follows. -/
abbrev FLAG_RK : UInt8 := 0x01
/-- The longest routing key, in bytes. -/
abbrev MAX_RK_LEN : ℕ := 65535

/-- Why there is no envelope. -/
inductive EnvelopeError where
  | tooLong (len : ℕ)
  | truncated (len : ℕ)
  | unsupportedVersion (v : UInt8)
  | unknownFlag (f : UInt8)
  | lengthTruncated
  | bodyTruncated (expected actual : ℕ)
  | invalidUtf8
  deriving DecidableEq

/-- A byte as `0x` and two hexadecimal digits. -/
def hexByte (b : UInt8) : String :=
  String.ofList ['0', 'x', Nat.digitChar (b.toNat / 16), Nat.digitChar (b.toNat % 16)]

/-- The print of an error. -/
def EnvelopeError.text : EnvelopeError → String
  | tooLong n => "envelope: routing key " ++ toString n ++ " bytes exceeds max "
      ++ toString MAX_RK_LEN
  | truncated n => "envelope: header truncated (need >= 2 bytes, got " ++ toString n ++ ")"
  | unsupportedVersion v => "envelope: unsupported version " ++ hexByte v
  | unknownFlag f => "envelope: unknown flag " ++ hexByte f
  | lengthTruncated => "envelope: routing-key length truncated"
  | bodyTruncated expected actual => "envelope: routing-key body truncated (header says "
      ++ toString expected ++ ", have " ++ toString actual ++ ")"
  | invalidUtf8 => "envelope: routing key not valid UTF-8"

/-- `u16::to_be_bytes`. -/
def u16ToBe (n : ℕ) : List UInt8 := [UInt8.ofNat (n / 256), UInt8.ofNat (n % 256)]

/-- `u16::from_be_bytes`. -/
def u16FromBe (hi lo : UInt8) : ℕ := hi.toNat * 256 + lo.toNat

/-- **`encode`.** -/
def encode (routingKey : Option String) (payload : List UInt8) :
    Except EnvelopeError (List UInt8) :=
  match routingKey with
  | none => .ok (VERSION :: FLAG_NONE :: payload)
  | some rk =>
    if MAX_RK_LEN < (asBytes rk).length then .error (.tooLong (asBytes rk).length)
    else .ok (VERSION :: FLAG_RK :: (u16ToBe (asBytes rk).length ++ (asBytes rk ++ payload)))

/-- The part of an envelope behind a flag that announces a routing key. -/
def decodeRouted : List UInt8 → Except EnvelopeError (Option String × List UInt8)
  | hi :: lo :: body =>
    if body.length < u16FromBe hi lo then .error (.bodyTruncated (u16FromBe hi lo) body.length)
    else match utf8Text (body.take (u16FromBe hi lo)) with
      | none => .error .invalidUtf8
      | some rk => .ok (some rk, body.drop (u16FromBe hi lo))
  | _ => .error .lengthTruncated

/-- **`decode`.** -/
def decode : List UInt8 → Except EnvelopeError (Option String × List UInt8)
  | version :: flag :: rest =>
    if version ≠ VERSION then .error (.unsupportedVersion version)
    else if flag = FLAG_NONE then .ok (none, rest)
    else if flag = FLAG_RK then decodeRouted rest
    else .error (.unknownFlag flag)
  | bytes => .error (.truncated bytes.length)

/-- **The format.** -/
inductive Envelope : Option String → List UInt8 → List UInt8 → Prop where
  | plain (payload) : Envelope none payload (VERSION :: FLAG_NONE :: payload)
  | routed (rk payload) (h : (asBytes rk).length ≤ MAX_RK_LEN) : Envelope (some rk) payload
      (VERSION :: FLAG_RK :: (u16ToBe (asBytes rk).length ++ (asBytes rk ++ payload)))

/-- A length that fits two bytes is read back. -/
theorem u16FromBe_toBe {n : ℕ} (h : n ≤ MAX_RK_LEN) :
    u16FromBe (UInt8.ofNat (n / 256)) (UInt8.ofNat (n % 256)) = n := by
  unfold MAX_RK_LEN at h
  rw [u16FromBe, UInt8.toNat_ofNat', UInt8.toNat_ofNat']
  omega

/-- Two bytes are those of the length they are read as. -/
theorem u16ToBe_fromBe (hi lo : UInt8) : u16ToBe (u16FromBe hi lo) = [hi, lo] := by
  have hhi := UInt8.toNat_lt hi
  have hlo := UInt8.toNat_lt lo
  have hdiv : (hi.toNat * 256 + lo.toNat) / 256 = hi.toNat := by omega
  have hmod : (hi.toNat * 256 + lo.toNat) % 256 = lo.toNat := by omega
  rw [u16ToBe, u16FromBe, hdiv, hmod, UInt8.ofNat_toNat, UInt8.ofNat_toNat]

theorem u16FromBe_le (hi lo : UInt8) : u16FromBe hi lo ≤ MAX_RK_LEN := by
  have hhi := UInt8.toNat_lt hi
  have hlo := UInt8.toNat_lt lo
  unfold MAX_RK_LEN
  rw [u16FromBe]
  omega

/-- **Bytes are read as a text exactly when they are its bytes.** -/
theorem utf8Text_eq_some_iff {b : List UInt8} {t : String} :
    utf8Text b = some t ↔ b = asBytes t := by
  have hbytes : (⟨b.toArray⟩ : ByteArray) = t.toByteArray ↔ b = asBytes t := by
    have hb : (⟨b.toArray⟩ : ByteArray) = b.toByteArray :=
      ByteArray.ext List.data_toByteArray.symm
    rw [toByteArray_eq, hb]
    exact List.toByteArray_inj
  rw [← hbytes, utf8Text, String.fromUTF8?]
  constructor
  · intro h
    split at h
    · rw [← Option.some.inj h]
      rfl
    · exact nomatch h
  · intro h
    have hvalid : ByteArray.IsValidUTF8 ⟨b.toArray⟩ := h ▸ t.isValidUTF8
    rw [dif_pos hvalid]
    exact congrArg some (String.toByteArray_inj.mp h)

/-- **The encoder makes envelopes**, and every envelope. -/
theorem encode_eq_ok_iff {rk : Option String} {payload bytes : List UInt8} :
    encode rk payload = .ok bytes ↔ Envelope rk payload bytes := by
  constructor
  · intro h
    cases rk with
    | none =>
      rw [← Except.ok.inj h]
      exact .plain payload
    | some rk =>
      rw [encode] at h
      by_cases hlong : MAX_RK_LEN < (asBytes rk).length
      · rw [if_pos hlong] at h
        exact nomatch h
      · rw [if_neg hlong] at h
        rw [← Except.ok.inj h]
        exact .routed rk payload (Nat.not_lt.mp hlong)
  · intro h
    cases h with
    | plain => rfl
    | routed rk payload hle => exact if_neg (Nat.not_lt.mpr hle)

/-- The encoder fails exactly on a routing key that is too long. -/
theorem encode_eq_error_iff {rk : Option String} {payload : List UInt8} {e : EnvelopeError} :
    encode rk payload = .error e ↔ ∃ k, rk = some k ∧ MAX_RK_LEN < (asBytes k).length
      ∧ e = .tooLong (asBytes k).length := by
  cases rk with
  | none => exact iff_of_false (fun h => nomatch h) (fun ⟨k, hk, _⟩ => nomatch hk)
  | some k =>
    rw [encode]
    by_cases hlong : MAX_RK_LEN < (asBytes k).length
    · rw [if_pos hlong]
      constructor
      · exact fun h => ⟨k, rfl, hlong, (Except.error.inj h).symm⟩
      · rintro ⟨k', hk, -, rfl⟩
        rw [Option.some.inj hk]
    · rw [if_neg hlong]
      refine iff_of_false (fun h => nomatch h) ?_
      rintro ⟨k', hk, hlong', -⟩
      exact hlong (Option.some.inj hk ▸ hlong')

/-- **A routing key is read back from behind its length.** -/
theorem decodeRouted_append {rk : String} (h : (asBytes rk).length ≤ MAX_RK_LEN)
    (payload : List UInt8) :
    decodeRouted (u16ToBe (asBytes rk).length ++ (asBytes rk ++ payload))
      = .ok (some rk, payload) := by
  have hlen : ¬ (asBytes rk ++ payload).length < (asBytes rk).length := by
    rw [List.length_append]
    exact Nat.not_lt.mpr (Nat.le_add_right _ _)
  rw [u16ToBe, List.cons_append, List.cons_append, List.nil_append, decodeRouted,
    u16FromBe_toBe h, if_neg hlen, List.take_left, List.drop_left, utf8Text_eq_some_iff.mpr rfl]

/-- What is read behind that flag was a length, that many bytes of text, and
the payload. -/
theorem append_of_decodeRouted {bytes payload : List UInt8} {rk : Option String}
    (h : decodeRouted bytes = .ok (rk, payload)) : ∃ k, rk = some k
      ∧ (asBytes k).length ≤ MAX_RK_LEN
      ∧ bytes = u16ToBe (asBytes k).length ++ (asBytes k ++ payload) := by
  unfold decodeRouted at h
  split at h
  · next hi lo body =>
    split_ifs at h with hshort
    split at h
    · exact nomatch h
    · next k hk =>
      obtain ⟨rfl, rfl⟩ := Prod.mk.inj (Except.ok.inj h)
      have htake := utf8Text_eq_some_iff.mp hk
      have hlen : (asBytes k).length = u16FromBe hi lo := by
        rw [← htake, List.length_take, min_eq_left (Nat.not_lt.mp hshort)]
      refine ⟨k, rfl, hlen ▸ u16FromBe_le hi lo, ?_⟩
      rw [hlen, u16ToBe_fromBe, ← htake, List.take_append_drop]
      rfl
  · exact nomatch h

/-- **The decoder reads envelopes**, and nothing else. -/
theorem decode_eq_ok_iff {rk : Option String} {payload bytes : List UInt8} :
    decode bytes = .ok (rk, payload) ↔ Envelope rk payload bytes := by
  constructor
  · intro h
    unfold decode at h
    split at h
    · next version flag rest =>
      split_ifs at h with hv hnone hrk
      · obtain rfl := not_not.mp hv
        obtain rfl := hnone
        obtain ⟨rfl, rfl⟩ := Prod.mk.inj (Except.ok.inj h)
        exact .plain _
      · obtain rfl := not_not.mp hv
        obtain rfl := hrk
        obtain ⟨k, rfl, hle, rfl⟩ := append_of_decodeRouted h
        exact .routed k payload hle
    · exact nomatch h
  · intro h
    cases h with
    | plain => rfl
    | routed rk payload hle => exact decodeRouted_append hle payload

/-- **An envelope has one routing key and one payload.** -/
theorem Envelope.unique {rk rk' : Option String} {payload payload' bytes : List UInt8}
    (h : Envelope rk payload bytes) (h' : Envelope rk' payload' bytes) :
    rk' = rk ∧ payload' = payload :=
  Prod.mk.inj (Except.ok.inj ((decode_eq_ok_iff.mpr h').symm.trans (decode_eq_ok_iff.mpr h)))

/-! ## The decoder's indexing -/

/-- `&bytes[i..j]`; nothing where it would be out of bounds. -/
def slice (bytes : List UInt8) (i j : ℕ) : Option (List UInt8) :=
  if i ≤ j ∧ j ≤ bytes.length then some ((bytes.take j).drop i) else none

/-- The part of `decode` for a flag that announces a routing key, by its
indices. -/
def decodeRoutedIndexed (bytes : List UInt8) :
    Option (Except EnvelopeError (Option String × List UInt8)) :=
  if bytes.length < 4 then some (.error .lengthTruncated)
  else do
    let hi ← bytes[2]?
    let lo ← bytes[3]?
    let bodyEnd := 4 + u16FromBe hi lo
    if bytes.length < bodyEnd then
      some (.error (.bodyTruncated (u16FromBe hi lo) (bytes.length - 4)))
    else do
      let body ← slice bytes 4 bodyEnd
      match utf8Text body with
      | none => some (.error .invalidUtf8)
      | some rk => do
        let payload ← slice bytes bodyEnd bytes.length
        some (.ok (some rk, payload))

/-- **`decode` by its indices.** Where an index is out of bounds there is
no result. -/
def decodeIndexed (bytes : List UInt8) :
    Option (Except EnvelopeError (Option String × List UInt8)) :=
  if bytes.length < 2 then some (.error (.truncated bytes.length))
  else do
    let version ← bytes[0]?
    if version ≠ VERSION then some (.error (.unsupportedVersion version))
    else do
      let flag ← bytes[1]?
      if flag = FLAG_NONE then do
        let payload ← slice bytes 2 bytes.length
        some (.ok (none, payload))
      else if flag = FLAG_RK then decodeRoutedIndexed bytes
      else some (.error (.unknownFlag flag))

/-- The part of a slice behind a header. -/
theorem slice_body {front rest : List UInt8} {n : ℕ} (h : n ≤ rest.length) :
    slice (front ++ rest) front.length (front.length + n) = some (rest.take n) := by
  have hle : front.length + n ≤ (front ++ rest).length := by
    rw [List.length_append]
    exact Nat.add_le_add_left h _
  rw [slice, if_pos ⟨Nat.le_add_right _ _, hle⟩, List.take_length_add_append, List.drop_left]

/-- What is behind a header and a body. -/
theorem slice_rest {front rest : List UInt8} {n : ℕ} (h : n ≤ rest.length) :
    slice (front ++ rest) (front.length + n) (front ++ rest).length = some (rest.drop n) := by
  have hle : front.length + n ≤ (front ++ rest).length := by
    rw [List.length_append]
    exact Nat.add_le_add_left h _
  rw [slice, if_pos ⟨hle, le_refl _⟩, List.take_length, List.drop_length_add_append]

/-- Behind a version and a flag, no index is out of bounds. -/
theorem decodeRoutedIndexed_eq (version flag : UInt8) (rest : List UInt8) :
    decodeRoutedIndexed (version :: flag :: rest) = some (decodeRouted rest) := by
  cases rest with
  | nil => rfl
  | cons hi rest =>
    cases rest with
    | nil => rfl
    | cons lo body =>
      have hlen : (version :: flag :: hi :: lo :: body).length = 4 + body.length :=
        @List.length_append _ [version, flag, hi, lo] body
      have hheader : ¬ (version :: flag :: hi :: lo :: body).length < 4 := by
        rw [hlen]
        exact Nat.not_lt.mpr (Nat.le_add_right 4 _)
      rw [decodeRoutedIndexed, if_neg hheader, decodeRouted]
      show (if (version :: flag :: hi :: lo :: body).length < 4 + u16FromBe hi lo
        then some (Except.error (EnvelopeError.bodyTruncated (u16FromBe hi lo)
          ((version :: flag :: hi :: lo :: body).length - 4))) else _) = _
      by_cases hshort : body.length < u16FromBe hi lo
      · rw [if_pos hshort, if_pos (hlen ▸ Nat.add_lt_add_left hshort 4), hlen,
          Nat.add_sub_cancel_left]
      · rw [if_neg hshort, if_neg (hlen ▸ fun h => hshort (Nat.lt_of_add_lt_add_left h))]
        have hle := Nat.not_lt.mp hshort
        have hbody := @slice_body [version, flag, hi, lo] body _ hle
        have hrest := @slice_rest [version, flag, hi, lo] body _ hle
        refine (congrArg (Option.bind · _) hbody).trans ?_
        dsimp only [Option.bind_some]
        cases utf8Text (body.take (u16FromBe hi lo)) with
        | none => rfl
        | some rk => exact congrArg (Option.bind · _) hrest

/-- **No index of the decoder is out of bounds.** -/
theorem decodeIndexed_eq (bytes : List UInt8) : decodeIndexed bytes = some (decode bytes) := by
  cases bytes with
  | nil => rfl
  | cons version bytes =>
    cases bytes with
    | nil => rfl
    | cons flag rest =>
      have hlong : ¬ (version :: flag :: rest).length < 2 := by simp
      rw [decodeIndexed, if_neg hlong, decode]
      show (if version ≠ VERSION then _ else _) = _
      by_cases hv : version ≠ VERSION
      · rw [if_pos hv, if_pos hv]
      · rw [if_neg hv, if_neg hv]
        show (if flag = FLAG_NONE then _ else _) = _
        by_cases hnone : flag = FLAG_NONE
        · rw [if_pos hnone, if_pos hnone]
          exact congrArg (Option.bind · _) (@slice_rest [version, flag] rest 0 (Nat.zero_le _))
        · rw [if_neg hnone, if_neg hnone]
          by_cases hrk : flag = FLAG_RK
          · rw [if_pos hrk, if_pos hrk]
            exact decodeRoutedIndexed_eq version flag rest
          · rw [if_neg hrk, if_neg hrk]

/-! ## The format is a bijection -/

/-- A routing key that an envelope can carry. -/
def RoutingKeyFits (rk : Option String) : Prop := ∀ k, rk = some k → (asBytes k).length ≤ MAX_RK_LEN

/-- The encoder succeeds exactly on the routing keys an envelope can carry. -/
theorem exists_encode_iff {rk : Option String} {payload : List UInt8} :
    (∃ bytes, encode rk payload = .ok bytes) ↔ RoutingKeyFits rk := by
  constructor
  · rintro ⟨bytes, h⟩ k rfl
    cases encode_eq_ok_iff.mp h with
    | routed _ _ hle => exact hle
  · intro h
    cases rk with
    | none => exact ⟨_, encode_eq_ok_iff.mpr (.plain payload)⟩
    | some k => exact ⟨_, encode_eq_ok_iff.mpr (.routed k payload (h k rfl))⟩

/-- **The envelope is a bijection** between the byte strings that are
decoded and the messages that are encoded: each function undoes the other,
a message is encoded exactly when its routing key fits, no two messages
share an encoding, no message is decoded from two, and the decoder comes to
a result for every byte string. -/
theorem decode_iff_encode :
    (∀ rk payload bytes, decode bytes = .ok (rk, payload) ↔ encode rk payload = .ok bytes)
      ∧ (∀ rk payload, (∃ bytes, encode rk payload = .ok bytes
          ∧ decode bytes = .ok (rk, payload)) ↔ RoutingKeyFits rk)
      ∧ (∀ rk payload, (∃ e, encode rk payload = .error e) ↔ ¬ RoutingKeyFits rk)
      ∧ (∀ rk rk' payload payload' bytes, encode rk payload = .ok bytes →
          encode rk' payload' = .ok bytes → rk' = rk ∧ payload' = payload)
      ∧ (∀ m bytes bytes', decode bytes = .ok m → decode bytes' = .ok m → bytes' = bytes)
      ∧ ∀ bytes, decodeIndexed bytes = some (decode bytes) := by
  have hiff : ∀ rk payload bytes,
      decode bytes = .ok (rk, payload) ↔ encode rk payload = .ok bytes :=
    fun rk payload bytes => decode_eq_ok_iff.trans encode_eq_ok_iff.symm
  refine ⟨hiff, fun rk payload => ?_, fun rk payload => ?_, ?_, ?_, decodeIndexed_eq⟩
  · rw [← @exists_encode_iff rk payload]
    exact exists_congr (fun bytes => and_iff_left_of_imp (hiff rk payload bytes).mpr)
  · rw [← @exists_encode_iff rk payload]
    cases encode rk payload with
    | ok bytes => exact iff_of_false (fun ⟨e, h⟩ => nomatch h) (fun h => h ⟨bytes, rfl⟩)
    | error e => exact iff_of_true ⟨e, rfl⟩ (fun ⟨bytes, h⟩ => nomatch h)
  · intro rk rk' payload payload' bytes h h'
    exact (encode_eq_ok_iff.mp h).unique (encode_eq_ok_iff.mp h')
  · rintro ⟨rk, payload⟩ bytes bytes' h h'
    have he := (hiff rk payload bytes).mp h
    rw [(hiff rk payload bytes').mp h'] at he
    exact Except.ok.inj he

/-- The routing key `a` and the payload `9`. -/
theorem decode_encode_a : decode [1, 1, 0, 1, 0x61, 9] = .ok (some "a", [9]) :=
  (decode_iff_encode.1 (some "a") [9] [1, 1, 0, 1, 0x61, 9]).mpr (by decide)
