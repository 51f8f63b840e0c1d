import Mathlib.Data.List.Infix
import ClusterRedis.Commands

/-!
# Calls of a client

A client runs a script and makes a result of its reply. What the client
adds to the server's behaviour is small and is all here: lifetimes become
milliseconds that fit 64 bits, and an error reply becomes an error of the
cluster interface, told apart by a word in its text.

`Driver` stands for the one thing the client takes from its library: how an
error reply prints. The word the counters look for is in the print exactly
when it is in the reply.
-/

/-! ## Durations -/

/-- A duration, in nanoseconds; its whole seconds fit 64 bits. -/
structure Duration where
  nanos : ℕ
  lt : nanos < 2 ^ 64 * 10 ^ 9

/-- Whole milliseconds. -/
def Duration.asMillis (d : Duration) : ℕ := d.nanos / 10 ^ 6

/-- `Duration::from_millis`, of a count that fits 64 bits. -/
def Duration.ofMillis (n : ℕ) (h : n < 2 ^ 64) : Duration :=
  ⟨n * 10 ^ 6, by omega⟩

/-- A millisecond count as the server is sent it: at least one, and at most
what 64 bits hold. -/
def clampMs (n : ℕ) : ℕ := max 1 (min n (2 ^ 64 - 1))

theorem clampMs_pos (n : ℕ) : 0 < clampMs n := lt_of_lt_of_le Nat.one_pos (le_max_left _ _)

/-! ## Errors -/

/-- The errors of the cluster interface that this plugin returns. -/
inductive ClusterError where
  | precondition (reason : String)
  | backendUnavailable (reason : String)
  | internal (reason : String)
  | invalidReference (message : String)
  | leaseExpired
  deriving DecidableEq

/-- The start of every message a counter script refuses with. -/
def incrPrecondition : String := "MCPG_KV_INCR_PRECONDITION"

/-- `str::contains`. -/
def Contains (s word : String) : Prop := word.toList <:+: s.toList

instance (s word : String) : Decidable (Contains s word) :=
  inferInstanceAs (Decidable (word.toList <:+: s.toList))

/-- **The client library**: how an error reply prints. -/
structure Driver where
  /-- The print of an error. -/
  display : ScriptError → String
  /-- The counters' word is printed when it was replied, and only then. -/
  contains_display : ∀ e, Contains (display e) incrPrecondition ↔ Contains e.text incrPrecondition

/-- A library that prints the reply as it is. -/
def Driver.plain : Driver := ⟨ScriptError.text, fun _ => Iff.rfl⟩

/-! ## Calls -/

/-- **A call**: its result, and the state it leaves the server in. -/
def Call (α : Type) : Type := Redis → Except ClusterError α × Redis

namespace Call

variable {α β : Type}

/-- Run a script; make a result of its reply, or an error of its error. -/
def invoke (err : ScriptError → ClusterError) (x : Script α) (f : α → β) : Call β := fun s =>
  match x s with
  | (.ok a, t) => (.ok (f a), t)
  | (.error e, t) => (.error (err e), t)

theorem invoke_ok {err : ScriptError → ClusterError} {x : Script α} {f : α → β} {s t : Redis}
    {a : α} (h : x s = (.ok a, t)) : invoke err x f s = (.ok (f a), t) := by
  rw [invoke, h]

theorem invoke_error {err : ScriptError → ClusterError} {x : Script α} {f : α → β}
    {s t : Redis} {e : ScriptError} (h : x s = (.error e, t)) :
    invoke err x f s = (.error (err e), t) := by
  rw [invoke, h]

/-- A call leaves the server where its script does. -/
@[simp] theorem invoke_snd (err : ScriptError → ClusterError) (x : Script α) (f : α → β)
    (s : Redis) : (invoke err x f s).2 = (x s).2 := by
  unfold invoke
  split
  · next h => rw [h]
  · next h => rw [h]

end Call
