import ClusterRedis.Redis

/-!
# Commands and scripts

The commands a script calls and the order in which each of them checks and
acts. What is checked before anything is changed decides what a failed
script leaves behind, so the order is the server's own: an expiry is
validated before a key is looked at, a counter before it is written.

Numbers pass between the server and a script as doubles. `Lua` stands for
the one part of the script language that is not a function of integers –
what `tonumber` makes of an arbitrary stored value – with the fact the
scripts rely on: the text of an integer is read as that integer, rounded to
a double.
-/

open Numerals

/-! ## Errors -/

/-- The errors a command raises. -/
inductive CmdError where
  | wrongType
  | notAnInteger
  | overflow
  | invalidExpire (cmd : String)
  deriving DecidableEq

/-- The text of an error reply. -/
def CmdError.text : CmdError → String
  | wrongType => "WRONGTYPE Operation against a key holding the wrong kind of value"
  | notAnInteger => "ERR value is not an integer or out of range"
  | overflow => "ERR increment or decrement would overflow"
  | invalidExpire cmd => "ERR invalid expire time in '" ++ cmd ++ "' command"

/-- **How a script fails**: a command raised, or it replied an error of its
own. -/
inductive ScriptError where
  | command (e : CmdError)
  | reply (text : String)
  deriving DecidableEq

/-- The text of a failed script's reply. -/
def ScriptError.text : ScriptError → String
  | command e => e.text
  | reply t => t

/-! ## Scripts -/

/-- **A script**: run on the server, it returns a reply or an error, and
the state it leaves either way. -/
def Script (α : Type) : Type := Redis → Except ScriptError α × Redis

namespace Script

variable {α β : Type}

instance : Monad Script where
  pure a := fun s => (.ok a, s)
  bind x f := fun s =>
    match x s with
    | (.ok a, t) => f a t
    | (.error e, t) => (.error e, t)

@[simp] theorem pure_apply (a : α) (s : Redis) : (pure a : Script α) s = (.ok a, s) := rfl

theorem bind_apply (x : Script α) (f : α → Script β) (s : Redis) :
    (x >>= f) s = match x s with
      | (.ok a, t) => f a t
      | (.error e, t) => (.error e, t) := rfl

/-- After a command that succeeds, the script goes on. -/
theorem bind_ok {x : Script α} {f : α → Script β} {s t : Redis} {a : α}
    (h : x s = (.ok a, t)) : (x >>= f) s = f a t := by
  rw [bind_apply, h]

/-- A command that raises ends the script, in the state it left. -/
theorem bind_error {x : Script α} {f : α → Script β} {s t : Redis} {e : ScriptError}
    (h : x s = (.error e, t)) : (x >>= f) s = (.error e, t) := by
  rw [bind_apply, h]

/-- `redis.error_reply`. -/
def errorReply (text : String) : Script α := fun s => (.error (.reply text), s)

/-- A command that raises. -/
def raise (e : CmdError) : Script α := fun s => (.error (.command e), s)

/-- `pcall`: an error becomes a result. -/
def pcall (x : Script α) : Script (Except ScriptError α) := fun s =>
  ((Except.ok (x s).1), (x s).2)

@[simp] theorem errorReply_apply (t : String) (s : Redis) :
    (errorReply t : Script α) s = (.error (.reply t), s) := rfl

@[simp] theorem raise_apply (e : CmdError) (s : Redis) :
    (raise e : Script α) s = (.error (.command e), s) := rfl

@[simp] theorem pcall_apply (x : Script α) (s : Redis) :
    pcall x s = (Except.ok (x s).1, (x s).2) := rfl

end Script

/-! ## Commands -/

/-- **An expiry the server takes**: positive, and its end fits a signed
64-bit millisecond clock. -/
def ExpireOk (now ttl : ℕ) : Prop := 0 < ttl ∧ now + ttl < 2 ^ 63

instance (now ttl : ℕ) : Decidable (ExpireOk now ttl) := inferInstanceAs (Decidable (_ ∧ _))

/-- The refusal of an expiry: one past 64 bits is no integer to the server. -/
def expireError (cmd : String) (ttl : ℕ) : CmdError :=
  if 2 ^ 63 ≤ ttl then .notAnInteger else .invalidExpire cmd

namespace Redis

open Script

/-- `SET key value [NX] [PX ttl]`: whether it stored. -/
def set (k : String) (v : List UInt8) (px : Option ℕ) (nx : Bool) : Script Bool := fun s =>
  if px.any (fun t => !decide (ExpireOk s.now t)) then raise (expireError "set" (px.getD 0)) s
  else if nx && (s.lookup k).isSome then (.ok false, s)
  else (.ok true, s.put k ⟨.str v, px.map (s.now + ·)⟩)

/-- `GET key`. -/
def get (k : String) : Script (Option (List UInt8)) := fun s =>
  match s.lookup k with
  | none => (.ok none, s)
  | some ⟨.str b, _⟩ => (.ok (some b), s)
  | some ⟨.zset _, _⟩ => raise .wrongType s

theorem get_absent {s : Redis} {k : String} (h : s.lookup k = none) : get k s = (.ok none, s) := by
  rw [get, h]

theorem get_str {s : Redis} {k : String} {b : List UInt8} {e : Option ℕ}
    (h : s.lookup k = some ⟨.str b, e⟩) : get k s = (.ok (some b), s) := by
  rw [get, h]

theorem get_zset {s : Redis} {k : String} {z : ZSet} {e : Option ℕ}
    (h : s.lookup k = some ⟨.zset z, e⟩) : get k s = (.error (.command .wrongType), s) := by
  rw [get, h]
  rfl

/-- `DEL key`: how many keys it deleted. -/
def delete (k : String) : Script ℕ := fun s =>
  if (s.lookup k).isSome then (.ok 1, s.del k) else (.ok 0, s)

/-- `EXISTS key`. -/
def existsKey (k : String) : Script ℕ := fun s =>
  (.ok (if (s.lookup k).isSome then 1 else 0), s)

/-- `PEXPIRE key ttl`: whether there was a key. A time of zero is past at
once and deletes it. The time is an integer here: how a number that a script
passes is printed, and that the text of a very large one may be no integer to
the server, is not modelled. -/
def pexpire (k : String) (ttl : ℕ) : Script ℕ := fun s =>
  if 2 ^ 63 ≤ s.now + ttl then raise (expireError "pexpire" ttl) s
  else match s.lookup k with
    | none => (.ok 0, s)
    | some o =>
      if ttl = 0 then (.ok 1, s.del k)
      else (.ok 1, s.put k { o with expireAt := some (s.now + ttl) })

section Expire

variable {s : Redis} {k : String} {ttl : ℕ}

/-- `PEXPIRE` of a key that is there. -/
theorem pexpire_run {o : Obj} (hl : s.lookup k = some o) (hok : ExpireOk s.now ttl) :
    pexpire k ttl s = (.ok 1, s.put k { o with expireAt := some (s.now + ttl) }) := by
  rw [pexpire, if_neg (not_le.mpr hok.2), hl]
  show (if ttl = 0 then _ else _) = _
  rw [if_neg (Nat.pos_iff_ne_zero.mp hok.1)]

/-- `PEXPIRE` past the end of the clock. -/
theorem pexpire_refused (hpos : 0 < ttl) (hbad : ¬ ExpireOk s.now ttl) :
    pexpire k ttl s = (.error (.command (expireError "pexpire" ttl)), s) := by
  rw [pexpire, if_pos (not_lt.mp (fun h => hbad ⟨hpos, h⟩))]
  rfl

end Expire

/-- `PERSIST key`. -/
def persist (k : String) : Script ℕ := fun s =>
  match s.lookup k with
  | some ⟨v, some _⟩ => (.ok 1, s.put k ⟨v, none⟩)
  | _ => (.ok 0, s)

/-- The reply of `PTTL key`: `-2` for no key, `-1` for no expiry, else the
milliseconds left. -/
def pttlReply (s : Redis) (k : String) : ℤ :=
  match s.lookup k with
  | none => -2
  | some ⟨_, none⟩ => -1
  | some ⟨_, some d⟩ => (d : ℤ) - s.now

/-- `PTTL key`. -/
def pttl (k : String) : Script ℤ := fun s => (.ok (s.pttlReply k), s)

/-- **The integer a key counts from**: `0` when absent, else the integer
its text denotes. -/
def counter (s : Redis) (k : String) : Except CmdError ℤ :=
  match s.lookup k with
  | none => .ok 0
  | some ⟨.str b, _⟩ => match string2ll b with
    | some n => .ok n
    | none => .error .notAnInteger
  | some ⟨.zset _, _⟩ => .error .wrongType

/-- **What `INCRBY` makes of a counter**: the new value, or why there is
none. The delta of a text that is no integer is `none`. -/
def count (s : Redis) (k : String) (delta : Option ℤ) : Except CmdError ℤ :=
  match delta.filter (fun d => decide (InI64 d)) with
  | none => .error .notAnInteger
  | some d => match s.counter k with
    | .error e => .error e
    | .ok n => if InI64 (n + d) then .ok (n + d) else .error .overflow

/-- A counter that has counted; its expiry is the one it had. -/
def counted (s : Redis) (k : String) (n : ℤ) : Obj :=
  ⟨.str (ll2string n), (s.lookup k).bind Obj.expireAt⟩

/-- `INCRBY key delta`. -/
def incrby (k : String) (delta : Option ℤ) : Script ℤ := fun s =>
  match s.count k delta with
  | .error e => raise e s
  | .ok n => (.ok n, s.put k (s.counted k n))

section Counting

variable {s : Redis} {k : String} {a n : ℤ}

/-- An expiry read off a live object is not past. -/
theorem liveAt_counted (k : String) (n : ℤ) : (s.counted k n).liveAt s.now = true := by
  cases h : s.lookup k with
  | none => rw [counted, h]; rfl
  | some o =>
    rw [counted, h]
    exact (liveAt_of_lookup h : o.liveAt s.now = true)

theorem count_eq_ok_iff :
    s.count k (some a) = .ok n
      ↔ InI64 a ∧ ∃ c, s.counter k = .ok c ∧ InI64 (c + a) ∧ n = c + a := by
  unfold count
  by_cases ha : InI64 a
  · rw [Option.filter_some_pos (by simpa using ha)]
    cases hc : s.counter k with
    | error e => simp
    | ok c =>
      by_cases hb : InI64 (c + a)
      · simp [hb, ha, eq_comm]
      · simp [hb]
  · rw [Option.filter_some_neg (by simpa using ha)]
    simp [ha]

/-- A counter's text is the text of its value. -/
theorem lookup_of_counter {o : Obj} {c : ℤ} (hl : s.lookup k = some o) (hc : s.counter k = .ok c) :
    o.value = .str (ll2string c) ∧ InI64 c := by
  obtain ⟨v, e⟩ := o
  unfold counter at hc
  rw [hl] at hc
  cases v with
  | zset z => exact absurd hc (by simp)
  | str b =>
    cases hb : string2ll b with
    | none =>
      simp only [hb] at hc
      exact absurd hc (by simp)
    | some m =>
      simp only [hb] at hc
      obtain rfl : m = c := Except.ok.inj hc
      obtain ⟨hm, rfl⟩ := string2ll_eq_some_iff.mp hb
      exact ⟨rfl, hm⟩

theorem inI64_of_counter {c : ℤ} (hc : s.counter k = .ok c) : InI64 c := by
  cases hl : s.lookup k with
  | none =>
    rw [counter, hl] at hc
    rw [← Except.ok.inj hc]
    decide
  | some o => exact (lookup_of_counter hl hc).2

theorem counter_congr {t : Redis} (h : t.lookup k = s.lookup k) : t.counter k = s.counter k := by
  unfold counter
  rw [h]

/-- What has been counted is what is counted from next. -/
theorem counter_counted {t : Redis} (hn : InI64 n) (h : t.lookup k = some (s.counted k n)) :
    t.counter k = .ok n := by
  unfold counter
  rw [h]
  simp [counted, string2ll_ll2string hn]

end Counting

/-- A command on a sorted set: refused on a key of another type. -/
def onZSet {α : Type} (z : String) (f : Redis → α × Redis) : Script α := fun s =>
  match s.lookup z with
  | some ⟨.str _, _⟩ => raise .wrongType s
  | _ => (.ok (f s).1, (f s).2)

/-- `ZADD key score member`. -/
def zadd (z : String) (x : ℤ) (m : String) : Script Unit := onZSet z (fun s => ((), s.zins z m x))

/-- `ZREM key member`. -/
def zrem (z m : String) : Script Unit := onZSet z (fun s => ((), s.zdel z m))

/-- An end of a lexicographic range. -/
inductive LexBound where
  | incl (b : List ℕ)
  | excl (b : List ℕ)

/-- Above the lower end. -/
def LexBound.above (lo : LexBound) (b : List ℕ) : Bool :=
  match lo with
  | incl l => decide (l ≤ b)
  | excl l => decide (l < b)

/-- Below the upper end. -/
def LexBound.below (hi : LexBound) (b : List ℕ) : Bool :=
  match hi with
  | incl h => decide (b ≤ h)
  | excl h => decide (b < h)

/-- The members of a range, in byte order. -/
def lexRange (s : Redis) (z : String) (lo hi : LexBound) : List String :=
  ((s.zmembers z).keys.filter (fun m => lo.above (utf8 m) && hi.below (utf8 m))).insertionSort
    byteLe

/-- `ZRANGEBYLEX key min max LIMIT 0 count`; the count is read as a signed
64-bit integer. -/
def zrangebylex (z : String) (lo hi : LexBound) (count : ℕ) : Script (List String) :=
  if 2 ^ 63 ≤ count then raise .notAnInteger
  else onZSet z (fun s => ((s.lexRange z lo hi).take count, s))

/-- `MGET key …`: a key that holds no string reads as absent. -/
def mget (ks : List String) : Script (List (Option (List UInt8))) := fun s =>
  (.ok (ks.map (fun k => match s.lookup k with
    | some ⟨.str b, _⟩ => some b
    | _ => none)), s)

/-- Members by score, those of one score in byte order. -/
def scoreLe (s : Redis) (z m m' : String) : Prop :=
  (s.score z m).getD 0 < (s.score z m').getD 0
    ∨ (s.score z m).getD 0 = (s.score z m').getD 0 ∧ byteLe m m'

instance (s : Redis) (z : String) : DecidableRel (s.scoreLe z) :=
  fun _ _ => inferInstanceAs (Decidable (_ ∨ _))

/-- `ZRANGEBYSCORE key (min +inf`. -/
def zrangebyscore (z : String) (lo : ℤ) : Script (List String) := onZSet z (fun s =>
  (((s.zmembers z).keys.filter (fun m => decide (lo < (s.score z m).getD 0))).insertionSort
    (s.scoreLe z), s))

/-- `ZREMRANGEBYSCORE key -inf max`. -/
def zremrangebyscore (z : String) (hi : ℤ) : Script Unit := onZSet z (fun s =>
  ((), ((s.zmembers z).keys.filter (fun m => decide ((s.score z m).getD 0 ≤ hi))).foldl
    (fun t m => t.zdel z m) s))

end Redis

/-! ## The script language -/

/-- **A number a script holds.** A double that is no integer is a fraction
below `2 ^ 53`, an infinity or not a number; which fraction does not matter
to a script that passes it on as an integer. -/
inductive LuaNumber where
  | int (n : ℤ)
  | frac
  | inf
  | nan

/-- `math.abs(x) >= 2^53`. -/
def LuaNumber.beyond : LuaNumber → Bool
  | int n => decide (Double.exact ≤ n.natAbs)
  | frac => false
  | inf => true
  | nan => false

/-- **The script language's reading of stored values.** -/
structure Lua where
  /-- `tonumber` of a stored value. -/
  tonumber : List UInt8 → Option LuaNumber
  /-- The text of an integer is read as that integer, as a double. -/
  tonumber_ll2string : ∀ n, InI64 n → tonumber (ll2string n) = some (.int (Double.round n))

/-- A reader that knows the text of integers and nothing else. -/
def Lua.integers : Lua where
  tonumber b := (string2ll b).map (fun n => .int (Double.round n))
  tonumber_ll2string n h := by rw [string2ll_ll2string h, Option.map_some]

/-- A number's type holds what the server sends it: an integer reply becomes
a double. -/
def Script.luaReply (x : Script ℤ) : Script ℤ := do
  let n ← x
  pure (Double.round n)
