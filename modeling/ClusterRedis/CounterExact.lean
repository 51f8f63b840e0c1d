import ClusterRedis.Counters

/-!
# Counters that answer their sums

A counter is added to by the server, in 64-bit integers, and its sum is
answered through the script, in doubles. What is stored is exact; what is
answered is the sum as a double holds it. A floored counter also computes
what it adds in doubles, in two steps, and refuses operands from `2 ^ 53`;
the steps and the sum can still be past it.

So a counter answers its sum exactly when a double holds the sum
(`incr_exact_iff`), and a floored one when, besides, the two steps come to
what they should (`incrFloor_exact_iff`). In both a lifetime that the server
refuses after the sum is stored makes the call fail.
-/

open Numerals RedisKv

section Call

variable {p : String} {s : Redis}

/-- The refusal of a lifetime is not told as a precondition. -/
theorem not_contains_expireError (t : ℕ) :
    ¬ Contains (expireError "pexpire" t).text incrPrecondition := by
  unfold expireError
  split
  · decide +kernel
  · decide +kernel

/-- An error with the counters' word is a precondition. -/
theorem incrErr_of_contains {drv : Driver} {op key : String} {e : ScriptError}
    (h : Contains e.text incrPrecondition) :
    ∃ m, incrErr drv op key e = .precondition m :=
  ⟨_, if_pos ((drv.contains_display e).mpr h)⟩

theorem incrErr_of_not_contains {drv : Driver} {op key : String} {e : ScriptError}
    (h : ¬ Contains e.text incrPrecondition) : incrErr drv op key e = redisErr drv e :=
  if_neg (fun hc => h ((drv.contains_display e).mp hc))

/-- **A key keeps the text of an integer.** -/
def Keeps (p key : String) (s : Redis) (n : ℤ) : Prop :=
  (contents p s key).map Entry.bytes = some (ll2string n)

instance (p key : String) (s : Redis) (n : ℤ) : Decidable (Keeps p key s n) :=
  inferInstanceAs (Decidable (_ = _))

theorem keeps_of_lookup {key : String} {n : ℤ} {x : Option ℕ}
    (h : s.lookup (fullKey p key) = some ⟨.str (ll2string n), x⟩) : Keeps p key s n := by
  rw [Keeps, contents, h]
  rfl

/-- The integer a key keeps is the one it counts from. -/
theorem Keeps.counter {key : String} {n : ℤ} (h : Keeps p key s n) (hn : InI64 n) :
    s.counter (fullKey p key) = .ok n := by
  obtain ⟨e, he, hb⟩ := Option.map_eq_some_iff.mp h
  cases hl : s.lookup (fullKey p key) with
  | none =>
    rw [contents, hl] at he
    exact absurd he (by simp)
  | some o =>
    obtain ⟨v, x⟩ := o
    cases v with
    | zset z =>
      rw [contents, hl] at he
      exact absurd he (by simp)
    | str b =>
      rw [contents, hl] at he
      obtain rfl : b = ll2string n := by
        rw [← hb, ← Option.some.inj he]
      rw [Redis.counter, hl]
      simp only [string2ll_ll2string hn]

/-- **A counter that can count** answers the double nearest to its sum, and
the sum is stored. -/
theorem call_counts (lua : Lua) (drv : Driver) (hp : p ≠ "") (h : IndexTyped p s) (clock : ℕ)
    {op : KvOp} {a n : ℤ} (hok : TtlOk s.now (ttlMs op.ttl)) (ha : amount lua p s op = some a)
    (hn : s.count (fullKey p op.key) (some a) = .ok n) :
    (call lua drv p clock op s).1 = .ok (.int (Double.round n))
      ∧ Keeps p op.key (call lua drv p clock op s).2 n := by
  have htail : incrTail (fullKey p op.key) (indexKey p) (expiryKey p) (some a) (ttlMs op.ttl)
      clock s = _ :=
    incrTail_stored h.index h.expiry (fullKey_ne_indexKey hp op.key).symm
      (fullKey_ne_expiryKey hp op.key).symm hok hn
  have hkeeps := fun due : Due => keeps_of_lookup (@Redis.lookup_store_self s _ _ _ _ due
    (fullKey_ne_indexKey hp op.key) (fullKey_ne_expiryKey hp op.key)
    (liveAt_counterDeadline (.str (ll2string n)) s (fullKey p op.key)
      (Double.roundNat (ttlMs op.ttl))))
  rcases amount_cases ha with ⟨key, d, ttl, rfl, rfl⟩ | ⟨key, d, f, ttl, rfl, hf⟩
  · have hcall : call lua drv p clock (.incr key d ttl) s = _ := reply_of_ok _ _ _ htail
    rw [hcall]
    exact ⟨rfl, hkeeps _⟩
  · have hcall : call lua drv p clock (.incrFloor key d f ttl) s = _ :=
      reply_of_ok _ _ _ ((incrFloorLua_some hf).trans htail)
    rw [hcall]
    exact ⟨rfl, hkeeps _⟩

/-- **A counter that is refused its lifetime** fails, and not with a
precondition. -/
theorem call_refused_lifetime (lua : Lua) (drv : Driver) (clock : ℕ) {op : KvOp} {a n : ℤ}
    (hok : ¬ TtlOk s.now (ttlMs op.ttl)) (ha : amount lua p s op = some a)
    (hn : s.count (fullKey p op.key) (some a) = .ok n) :
    ∃ m, (call lua drv p clock op s).1 = .error (.backendUnavailable m) := by
  obtain ⟨hpos, hbad⟩ := not_ttlOk_iff.mp hok
  have herr : ∀ name key, incrErr drv name key
      (.command (expireError "pexpire" (Double.roundNat (ttlMs op.ttl)))) = redisErr drv _ :=
    fun name key => incrErr_of_not_contains (not_contains_expireError _)
  rcases amount_cases ha with ⟨key, d, ttl, rfl, rfl⟩ | ⟨key, d, f, ttl, rfl, hf⟩
  · have hcall : call lua drv p clock (.incr key d ttl) s
        = (.error (incrErr drv "incr" key _), _) :=
      reply_of_error _ _ _ (incrTail_refused hn hpos hbad)
    exact ⟨_, (congrArg Prod.fst hcall).trans (congrArg Except.error (herr _ _))⟩
  · have hcall : call lua drv p clock (.incrFloor key d f ttl) s
        = (.error (incrErr drv "incr_floor" key _), _) :=
      reply_of_error _ _ _ ((incrFloorLua_some hf).trans (incrTail_refused hn hpos hbad))
    exact ⟨_, (congrArg Prod.fst hcall).trans (congrArg Except.error (herr _ _))⟩

/-- **A counter that cannot count** answers that a precondition failed, and
changes nothing. -/
theorem call_cannot_count (lua : Lua) (drv : Driver) (clock : ℕ) {op : KvOp} {a : ℤ}
    {e : CmdError} (ha : amount lua p s op = some a)
    (hn : s.count (fullKey p op.key) (some a) = .error e) :
    ∃ m, call lua drv p clock op s = (.error (.precondition m), s) := by
  have hword : Contains (ScriptError.reply (incrPrecondition ++ ": " ++ e.text)).text
      incrPrecondition := by
    rw [ScriptError.text, String.append_assoc]
    exact contains_incrPrecondition _
  rcases amount_cases ha with ⟨key, d, ttl, rfl, rfl⟩ | ⟨key, d, f, ttl, rfl, hf⟩
  · obtain ⟨m, hm⟩ := @incrErr_of_contains drv "incr" key _ hword
    refine ⟨m, ?_⟩
    rw [← hm]
    exact reply_of_error _ _ _ (incrTail_error hn)
  · obtain ⟨m, hm⟩ := @incrErr_of_contains drv "incr_floor" key _ hword
    refine ⟨m, ?_⟩
    rw [← hm]
    exact reply_of_error _ _ _ ((incrFloorLua_some hf).trans (incrTail_error hn))

end Call

/-! ## Adding -/

/-- **An exact add-and-get**, from a counter of `c`: a sum in 64 bits is what
the key keeps and what is answered, any other is refused. -/
structure AddsAndGets (lua : Lua) (drv : Driver) (p : String) (clock : ℕ) (key : String) (d : I64)
    (ttl : Option Duration) (s : Redis) (c : ℤ) : Prop where
  sum : InI64 (c + d.1) →
    (call lua drv p clock (.incr key d ttl) s).1 = .ok (.int (c + d.1))
      ∧ Keeps p key (call lua drv p clock (.incr key d ttl) s).2 (c + d.1)
  overflow : ¬ InI64 (c + d.1) →
    ∃ m, (call lua drv p clock (.incr key d ttl) s).1 = .error (.precondition m)

/-- **A sum can be told**: its lifetime is accepted, and a double holds it. -/
def SumTold (s : Redis) (c : ℤ) (d : I64) (ttl : Option Duration) : Prop :=
  InI64 (c + d.1) → TtlOk s.now (ttlMs ttl) ∧ Double.Held (c + d.1)

section Add

variable {p key : String} {s : Redis} {c : ℤ} {d : I64} {ttl : Option Duration}

theorem addsAndGets_iff (lua : Lua) (drv : Driver) (hp : p ≠ "") (h : IndexTyped p s) (clock : ℕ)
    (hc : s.counter (fullKey p key) = .ok c) :
    AddsAndGets lua drv p clock key d ttl s c ↔ SumTold s c d ttl := by
  have ha : amount lua p s (.incr key d ttl) = some d.1 := rfl
  have hcounts := fun hok hn => @call_counts p s lua drv hp h clock (.incr key d ttl) d.1
    (c + d.1) hok ha hn
  have hn : InI64 (c + d.1) → s.count (fullKey p key) (some d.1) = .ok (c + d.1) :=
    fun hi => Redis.count_eq_ok_iff.mpr ⟨d.2, c, hc, hi, rfl⟩
  constructor
  · intro hexact hi
    obtain ⟨hanswer, -⟩ := hexact.sum hi
    by_cases hok : TtlOk s.now (ttlMs ttl)
    · refine ⟨hok, Double.round_eq_self_iff.mp ?_⟩
      have hround := (hcounts hok (hn hi)).1.symm.trans hanswer
      exact KvReply.int.inj (Except.ok.inj hround)
    · obtain ⟨m, hm⟩ := call_refused_lifetime lua drv clock hok ha (hn hi)
      exact absurd (hm.symm.trans hanswer) (by simp)
  · intro htold
    refine ⟨fun hi => ?_, fun hi => ?_⟩
    · obtain ⟨hok, hheld⟩ := htold hi
      have hsum := hcounts hok (hn hi)
      rwa [Double.round_eq_self_iff.mpr hheld] at hsum
    · have herr : s.count (fullKey p key) (some d.1) = .error .overflow := by
        rw [Redis.count, Option.filter_some_pos (by simpa using d.2)]
        simp only [hc, if_neg hi]
      obtain ⟨m, hm⟩ := call_cannot_count lua drv clock ha herr
      exact ⟨m, congrArg Prod.fst hm⟩

/-- An exact add-and-get that answers a number answers its sum. -/
theorem AddsAndGets.answer {lua : Lua} {drv : Driver} {clock : ℕ} {n : ℤ}
    (h : AddsAndGets lua drv p clock key d ttl s c)
    (hr : (call lua drv p clock (.incr key d ttl) s).1 = .ok (.int n)) :
    InI64 (c + d.1) ∧ n = c + d.1 := by
  by_cases hi : InI64 (c + d.1)
  · exact ⟨hi, KvReply.int.inj (Except.ok.inj (hr.symm.trans (h.sum hi).1))⟩
  · obtain ⟨m, hm⟩ := h.overflow hi
    exact absurd (hm.symm.trans hr) (by simp)

end Add

/-- **A counter adds and gets exactly when its sum can be told.** Then two
calls in a row, or with the key left alone in between, answer different
numbers, unless the second adds nothing. -/
theorem incr_exact_iff (lua : Lua) (drv : Driver) {p : String} (hp : p ≠ "") {s : Redis}
    (h : IndexTyped p s) (clock : ℕ) {key : String} {c : ℤ}
    (hc : s.counter (fullKey p key) = .ok c) (d : I64) (ttl : Option Duration) :
    (AddsAndGets lua drv p clock key d ttl s c ↔ SumTold s c d ttl)
      ∧ ∀ (s' : Redis) (clock' : ℕ) (d' : I64) (ttl' : Option Duration) (n n' : ℤ),
        IndexTyped p s' →
        s'.lookup (fullKey p key)
          = (call lua drv p clock (.incr key d ttl) s).2.lookup (fullKey p key) →
        SumTold s c d ttl → SumTold s' (c + d.1) d' ttl' → d'.1 ≠ 0 →
        (call lua drv p clock (.incr key d ttl) s).1 = .ok (.int n) →
        (call lua drv p clock' (.incr key d' ttl') s').1 = .ok (.int n') →
        n' ≠ n := by
  have hiff := fun s c d ttl clock h hc => @addsAndGets_iff p key s c d ttl lua drv hp h clock hc
  refine ⟨hiff s c d ttl clock h hc, ?_⟩
  intro s' clock' d' ttl' n n' h' hsame htold htold' hd' hn hn'
  have hadds := (hiff s c d ttl clock h hc).mpr htold
  obtain ⟨hi, rfl⟩ := hadds.answer hn
  -- the second call counts from what the first stored
  have hc' : s'.counter (fullKey p key) = .ok (c + d.1) :=
    (Redis.counter_congr hsame).trans ((hadds.sum hi).2.counter hi)
  obtain ⟨-, rfl⟩ := ((hiff s' _ d' ttl' clock' h' hc').mpr htold').answer hn'
  omega

/-- A client numbers two things. -/
theorem incr_exact_one_two :
    (AddsAndGets Lua.integers Driver.plain "p" 0 "k" ⟨1, inI64_one⟩ none (Redis.empty 0) 0
        ↔ SumTold (Redis.empty 0) 0 ⟨1, inI64_one⟩ none)
      ∧ SumTold (Redis.empty 0) 0 ⟨1, inI64_one⟩ none := by
  refine ⟨(incr_exact_iff Lua.integers Driver.plain (by decide)
    (IndexInv.empty "p" 0).toIndexTyped 0 rfl ⟨1, inI64_one⟩ none).1, fun _ => ⟨?_, by decide⟩⟩
  exact fun hpos => absurd hpos (by decide)

/-- A counter that has reached the last integer a double holds with all those
before it. -/
def fullCounter : Redis :=
  (Redis.empty 0).put (fullKey "p" "k") ⟨.str (ll2string (2 ^ 53 - 1)), none⟩

/-- Two calls that add one to it. -/
def twoCalls : List KvEvent :=
  [.call 0 (.incr "k" ⟨1, inI64_one⟩ none), .call 0 (.incr "k" ⟨1, inI64_one⟩ none)]

/-- **Two calls in a row can answer the same number**: from `2 ^ 53 - 1` both
answer `2 ^ 53`, and the key keeps `2 ^ 53 + 1`. -/
theorem incr_answers_twice :
    fullCounter.counter (fullKey "p" "k") = .ok (2 ^ 53 - 1)
      ∧ numbers Lua.integers Driver.plain "p" "k" fullCounter twoCalls = [2 ^ 53, 2 ^ 53]
      ∧ Keeps "p" "k" ((kvSystem Lua.integers Driver.plain "p").final fullCounter twoCalls)
        (2 ^ 53 + 1) :=
  ⟨rfl, by decide, by decide⟩

/-! ## Adding above a floor -/

/-- **An exact floored counter**, from a counter of `c`: the call is refused
as a precondition and changes nothing, or the key keeps and the answer is
the floored counter with the delta. -/
def FloorsExactly (lua : Lua) (drv : Driver) (p : String) (clock : ℕ) (key : String) (d f : I64)
    (ttl : Option Duration) (s : Redis) (c : ℤ) : Prop :=
  (∃ m, call lua drv p clock (.incrFloor key d f ttl) s = (.error (.precondition m), s))
    ∨ (call lua drv p clock (.incrFloor key d f ttl) s).1 = .ok (.int (max c f.1 + d.1))
      ∧ Keeps p key (call lua drv p clock (.incrFloor key d f ttl) s).2 (max c f.1 + d.1)

/-- An operand that the script refuses. -/
def FloorRefused (c d f : ℤ) : Prop :=
  Double.exact ≤ c.natAbs ∨ Double.exact ≤ f.natAbs ∨ Double.exact ≤ d.natAbs

instance (c d f : ℤ) : Decidable (FloorRefused c d f) := inferInstanceAs (Decidable (_ ∨ _))

/-- **The step in doubles is the step**: what is missing to the floor, held
as a double, and the delta, held again. -/
def StepExact (c d f : ℤ) : Prop :=
  Double.round (Double.round (max c f - c) + d) = max c f - c + d

instance (c d f : ℤ) : Decidable (StepExact c d f) := inferInstanceAs (Decidable (_ = _))

/-- **A floored sum can be told**: an operand is refused, or the lifetime is
accepted, the step is exact and a double holds the sum. -/
def FloorTold (s : Redis) (c : ℤ) (d f : I64) (ttl : Option Duration) : Prop :=
  FloorRefused c d.1 f.1
    ∨ TtlOk s.now (ttlMs ttl) ∧ StepExact c d.1 f.1 ∧ Double.Held (max c f.1 + d.1)

section Floor

variable {p key : String} {s : Redis} {c : ℤ}

/-- **What a floored counter adds**, as a function of the three operands. -/
theorem floorAmount_eq (lua : Lua) {k : String} (hc : s.counter k = .ok c) (d f : ℤ) :
    floorAmount lua s k d f = if FloorRefused c d f then none
      else some (Double.round (Double.round (max c f - c) + d)) := by
  rw [floorAmount_of_counter lua hc]
  by_cases hr : FloorRefused c d f
  · rw [if_pos hr, if_pos]
    simpa only [FloorRefused, LuaNumber.beyond, Bool.or_eq_true,
      decide_eq_true_eq, Double.exact_le_natAbs_round, or_assoc] using hr
  · rw [if_neg hr, if_neg]
    · simp only [FloorRefused, not_or, not_le] at hr
      rw [Double.round_of_lt hr.1, Double.round_of_lt hr.2.1, Double.round_of_lt hr.2.2,
        floorStep_int]
    · simpa only [FloorRefused, LuaNumber.beyond, Bool.or_eq_true,
        decide_eq_true_eq, Double.exact_le_natAbs_round, or_assoc] using hr

/-- What is added to operands that are not refused stays far from the end of
64 bits. -/
theorem inI64_of_not_refused {d f : ℤ} (h : ¬ FloorRefused c d f) :
    InI64 (Double.round (Double.round (max c f - c) + d))
      ∧ InI64 (c + Double.round (Double.round (max c f - c) + d)) := by
  simp only [FloorRefused, not_or, not_le, Double.exact] at h
  obtain ⟨hc, hf, hd⟩ := h
  have hbase := Double.roundNat_le (max c f - c).natAbs
  have hstep := Double.roundNat_le (Double.round (max c f - c) + d).natAbs
  rw [← Double.natAbs_round] at hbase hstep
  unfold InI64
  omega

/-- An operand that is refused is a precondition, and nothing changes. -/
theorem call_floor_refused (lua : Lua) (drv : Driver) (clock : ℕ) {d f : I64}
    {ttl : Option Duration} (hc : s.counter (fullKey p key) = .ok c)
    (hr : FloorRefused c d.1 f.1) :
    ∃ m, call lua drv p clock (.incrFloor key d f ttl) s = (.error (.precondition m), s) := by
  have hnone : floorAmount lua s (fullKey p key) d f = none := by
    rw [floorAmount_eq lua hc, if_pos hr]
  obtain ⟨e, he, hword⟩ :=
    incrFloorLua_none (indexKey p) (expiryKey p) (ttlMs ttl) clock hnone
  have hcontains : Contains e.text incrPrecondition := by
    refine hword.resolve_left (fun hget => ?_)
    obtain ⟨raw, hraw, -⟩ := counter_read lua hc
    exact absurd (hraw.symm.trans hget) (by simp)
  obtain ⟨m, hm⟩ := @incrErr_of_contains drv "incr_floor" key e hcontains
  refine ⟨m, ?_⟩
  rw [← hm]
  exact reply_of_error _ _ _ he

end Floor

/-- **A floored counter is exact exactly when its sum can be told.** -/
theorem incrFloor_exact_iff (lua : Lua) (drv : Driver) {p : String} (hp : p ≠ "") {s : Redis}
    (h : IndexTyped p s) (clock : ℕ) {key : String} {c : ℤ}
    (hc : s.counter (fullKey p key) = .ok c) (d f : I64) (ttl : Option Duration) :
    FloorsExactly lua drv p clock key d f ttl s c ↔ FloorTold s c d f ttl := by
  by_cases hr : FloorRefused c d.1 f.1
  · exact iff_of_true (Or.inl (call_floor_refused lua drv clock hc hr)) (Or.inl hr)
  · -- the operands are small, so what is added can be counted
    obtain ⟨ha64, hsum64⟩ := inI64_of_not_refused hr
    have ha : amount lua p s (.incrFloor key d f ttl) = some _ :=
      (floorAmount_eq lua hc d.1 f.1).trans (if_neg hr)
    have hn := Redis.count_eq_ok_iff.mpr ⟨ha64, c, hc, hsum64, rfl⟩
    have hlost := fun hok => @call_refused_lifetime p s lua drv clock (.incrFloor key d f ttl)
      _ _ hok ha hn
    have hcounts := fun hok => @call_counts p s lua drv hp h clock (.incrFloor key d f ttl)
      _ _ hok ha hn
    constructor
    · rintro (⟨m, hm⟩ | ⟨hanswer, hkeeps⟩)
      · by_cases hok : TtlOk s.now (ttlMs ttl)
        · exact absurd ((hcounts hok).1.symm.trans (congrArg Prod.fst hm)) (by simp)
        · obtain ⟨m', hm'⟩ := hlost hok
          exact absurd (hm'.symm.trans (congrArg Prod.fst hm)) (by simp)
      · by_cases hok : TtlOk s.now (ttlMs ttl)
        · obtain ⟨hround, hkept⟩ := hcounts hok
          have hsum := ll2string_injective (Option.some.inj (hkept.symm.trans hkeeps))
          rw [hsum] at hround
          have hheld := KvReply.int.inj (Except.ok.inj (hround.symm.trans hanswer))
          refine Or.inr ⟨hok, ?_, Double.round_eq_self_iff.mp hheld⟩
          rw [StepExact]
          omega
        · obtain ⟨m, hm⟩ := hlost hok
          exact absurd (hm.symm.trans hanswer) (by simp)
    · rintro (hr' | ⟨hok, hstep, hheld⟩)
      · exact absurd hr' hr
      · obtain ⟨hround, hkept⟩ := hcounts hok
        have hsum : c + Double.round (Double.round (max c f.1 - c) + d.1) = max c f.1 + d.1 := by
          rw [hstep]
          omega
        rw [hsum] at hround hkept
        rw [Double.round_eq_self_iff.mpr hheld] at hround
        exact Or.inr ⟨hround, hkept⟩

/-- A microsecond clock as the floor. -/
theorem incrFloor_exact_clock :
    FloorsExactly Lua.integers Driver.plain "p" 0 "k" ⟨1, inI64_one⟩
      ⟨1800000000000000, by decide⟩ none (Redis.empty 0) 0 := by
  refine (incrFloor_exact_iff Lua.integers Driver.plain (by decide)
    (IndexInv.empty "p" 0).toIndexTyped 0 rfl ⟨1, inI64_one⟩ _ none).mpr
    (Or.inr ⟨fun hpos => ?_, by decide, by decide⟩)
  exact absurd hpos (by decide)

/-- A counter below zero. -/
def lowCounter : Redis :=
  (Redis.empty 0).put (fullKey "p" "k") ⟨.str (ll2string (-1)), none⟩

/-- **A floored counter can round**: from `-1`, with a floor of `2 ^ 53 - 1`
and a delta of `1`, it answers the floor. -/
theorem incrFloor_rounds :
    lowCounter.counter (fullKey "p" "k") = .ok (-1)
      ∧ (call Lua.integers Driver.plain "p" 0
          (.incrFloor "k" ⟨1, inI64_one⟩ ⟨2 ^ 53 - 1, by decide⟩ none) lowCounter).1
        = .ok (.int (2 ^ 53 - 1))
      ∧ ¬ FloorsExactly Lua.integers Driver.plain "p" 0 "k" ⟨1, inI64_one⟩
          ⟨2 ^ 53 - 1, by decide⟩ none lowCounter (-1) := by
  have hanswer : (call Lua.integers Driver.plain "p" 0
      (.incrFloor "k" ⟨1, inI64_one⟩ ⟨2 ^ 53 - 1, by decide⟩ none) lowCounter).1
      = .ok (.int (2 ^ 53 - 1)) := rfl
  refine ⟨rfl, hanswer, ?_⟩
  rintro (⟨m, hm⟩ | ⟨h, -⟩)
  · exact absurd (congrArg Prod.fst hm) (by rw [hanswer]; simp)
  · exact absurd (KvReply.int.inj (Except.ok.inj (hanswer.symm.trans h))) (by decide)
