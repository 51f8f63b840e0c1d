import ClusterRedis.Client

/-!
# A client's commands among others'

A client that takes several commands to do its work shares the server with
others, and between any two of its commands they may do anything. A
`Client` program runs on a connection that says what: before each command
the next of `others` changes the server, and a state a command ran in is
noted in `seen`. A statement over all connections is a statement over all
interleavings.

`SCAN` is not a function of the server's state: a server is free in what it
returns at each step, as long as a whole scan returns what was there
throughout. So the replies to `SCAN` are part of the connection, and what is
promised of them is for the statements to say.

`Conn.Follows` is what every program keeps. `Conn.Holds` is an invariant of
the server that others keep too, and `Client.Returns` the rules for programs
that return where it holds.
-/

/-- **A connection** to a server that others use. -/
structure Conn where
  redis : Redis
  /-- What others do before each of the next commands. -/
  others : List (Redis → Redis)
  /-- What the server replies to the next `SCAN`s: a cursor and keys. -/
  scans : List (UInt64 × List String)
  /-- What the client's clock reads when the server's reads a time. -/
  clock : ℕ → ℕ
  /-- The states commands ran in. -/
  seen : List Redis
  /-- The `SCAN`s sent: the cursor and the pattern. -/
  scanned : List (UInt64 × String)

/-- **A program of a client.** -/
def Client (α : Type) : Type := Conn → Except ClusterError α × Conn

namespace Client

variable {α β : Type}

instance : Monad Client where
  pure a := fun c => (.ok a, c)
  bind x f := fun c =>
    match x c with
    | (.ok a, d) => f a d
    | (.error e, d) => (.error e, d)

theorem pure_apply (a : α) (c : Conn) : (pure a : Client α) c = (.ok a, c) := rfl

theorem bind_apply (x : Client α) (f : α → Client β) (c : Conn) :
    (x >>= f) c = match x c with
      | (.ok a, d) => f a d
      | (.error e, d) => (.error e, d) := rfl

theorem bind_ok {x : Client α} {f : α → Client β} {c d : Conn} {a : α} (h : x c = (.ok a, d)) :
    (x >>= f) c = f a d := by
  rw [bind_apply, h]

/-- **A program that returns has returned at every step.** -/
theorem bind_eq_ok {x : Client α} {f : α → Client β} {c e : Conn} {b : β} :
    (x >>= f) c = (.ok b, e) ↔ ∃ a d, x c = (.ok a, d) ∧ f a d = (.ok b, e) := by
  rw [bind_apply]
  constructor
  · intro h
    match hx : x c with
    | (.ok a, d) =>
      rw [hx] at h
      exact ⟨a, d, rfl, h⟩
    | (.error e', d) =>
      rw [hx] at h
      exact nomatch h
  · rintro ⟨a, d, hx, hf⟩
    rw [hx]
    exact hf

end Client

namespace Conn

/-- The others' turn before a command. -/
def turn (c : Conn) : Conn :=
  { c with
    redis := c.others.headD id c.redis
    others := c.others.tail
    seen := c.seen ++ [c.others.headD id c.redis] }

/-- A `SCAN` has been sent, and its reply taken. -/
def answered (c : Conn) (scans : List (UInt64 × List String)) (sent : UInt64 × String) : Conn :=
  { c.turn with scans := scans, scanned := c.scanned ++ [sent] }

/-- **What every program keeps**: states once seen, and the clock. -/
structure Grows (c d : Conn) : Prop where
  seen : c.seen <+: d.seen
  clock : d.clock = c.clock

theorem Grows.refl (c : Conn) : c.Grows c := ⟨List.prefix_rfl, rfl⟩

theorem Grows.trans {c d e : Conn} (h : c.Grows d) (h' : d.Grows e) : c.Grows e :=
  ⟨h.seen.trans h'.seen, h'.clock.trans h.clock⟩

theorem grows_answered (c : Conn) (scans : List (UInt64 × List String)) (sent : UInt64 × String) :
    c.Grows (c.answered scans sent) := ⟨List.prefix_append _ _, rfl⟩

/-- **What a program that sends no `SCAN` keeps**: the scan, too. -/
structure Follows (c d : Conn) : Prop extends Grows c d where
  scans : d.scans = c.scans
  scanned : d.scanned = c.scanned

theorem Follows.refl (c : Conn) : c.Follows c := ⟨Grows.refl c, rfl, rfl⟩

theorem Follows.trans {c d e : Conn} (h : c.Follows d) (h' : d.Follows e) : c.Follows e :=
  ⟨h.toGrows.trans h'.toGrows, h'.scans.trans h.scans, h'.scanned.trans h.scanned⟩

/-- A command's turn, and what it makes of the server. -/
theorem follows_redis (c : Conn) (s : Redis) : c.Follows { c.turn with redis := s } :=
  ⟨⟨List.prefix_append _ _, rfl⟩, rfl, rfl⟩

/-- **An invariant of the server**: it holds, it held whenever a command
ran, and others keep it. -/
structure Holds (P : Redis → Prop) (c : Conn) : Prop where
  redis : P c.redis
  others : ∀ f ∈ c.others, ∀ s, P s → P (f s)
  seen : ∀ s ∈ c.seen, P s

/-- It holds with nobody else, before the first command, if it does now. -/
theorem Holds.alone {P : Redis → Prop} {c : Conn} (ho : c.others = []) (hs : c.seen = [])
    (h : P c.redis) : c.Holds P where
  redis := h
  others := fun _ hf => absurd (ho ▸ hf) List.not_mem_nil
  seen := fun _ hm => absurd (hs ▸ hm) List.not_mem_nil

theorem Holds.turn {P : Redis → Prop} {c : Conn} (h : c.Holds P) : c.turn.Holds P := by
  have hnext : P (c.others.headD id c.redis) := by
    cases ho : c.others with
    | nil => exact h.redis
    | cons f fs => exact h.others f (ho ▸ List.mem_cons_self) _ h.redis
  refine ⟨hnext, fun f hf => h.others f (List.mem_of_mem_tail hf), fun s hs => ?_⟩
  rcases List.mem_append.mp hs with hs | hs
  · exact h.seen s hs
  · rw [List.mem_singleton.mp hs]
    exact hnext

theorem Holds.answered {P : Redis → Prop} {c : Conn} (h : c.Holds P)
    (scans : List (UInt64 × List String)) (sent : UInt64 × String) :
    (c.answered scans sent).Holds P :=
  ⟨h.turn.redis, h.turn.others, h.turn.seen⟩

end Conn

namespace Client

variable {α β : Type}

/-- **Run a command or a script.** -/
def exec (err : ScriptError → ClusterError) (x : Script α) : Client α := fun c =>
  ((x c.turn.redis).1.mapError err, { c.turn with redis := (x c.turn.redis).2 })

/-- Send `SCAN cursor MATCH pattern COUNT 1000`. A connection with no reply
left is lost. -/
def scan (lost : ClusterError) (cursor : UInt64) (pattern : String) :
    Client (UInt64 × List String) :=
  fun c => match c.scans with
  | [] => (.error lost, c.turn)
  | r :: rs => (.ok r, c.answered rs (cursor, pattern))

/-- Read the client's clock. -/
def readClock : Client ℕ := fun c => (.ok (c.clock c.redis.now), c)

/-- Run a program and ignore how it ends. -/
def attempt (x : Client α) : Client Unit := fun c => (.ok (), (x c).2)

/-- What a command that succeeded replied in its turn. -/
theorem exec_ok_turn {err : ScriptError → ClusterError} {x : Script α} {c d : Conn} {a : α}
    (h : exec err x c = (.ok a, d)) : (x c.turn.redis).1 = .ok a := by
  have hr : (x c.turn.redis).1.mapError err = .ok a := congrArg Prod.fst h
  cases hx : (x c.turn.redis).1 with
  | error e =>
    rw [hx] at hr
    exact nomatch hr
  | ok b =>
    rw [hx] at hr
    exact congrArg Except.ok (Except.ok.inj hr)

/-- What a command that succeeded did. -/
theorem exec_eq_ok {err : ScriptError → ClusterError} {x : Script α} {c d : Conn} {a : α}
    (h : exec err x c = (.ok a, d)) :
    c.Follows d ∧ ∃ s ∈ d.seen, (x s).1 = .ok a ∧ d.redis = (x s).2 := by
  have hd : { c.turn with redis := (x c.turn.redis).2 } = d := congrArg Prod.snd h
  subst hd
  refine ⟨c.follows_redis _, c.turn.redis, ?_, exec_ok_turn h, rfl⟩
  exact List.mem_append_right _ (List.mem_singleton.mpr rfl)

/-- **A command where nobody else comes between.** -/
theorem exec_alone_ok {err : ScriptError → ClusterError} {x : Script α} {c : Conn} {a : α}
    {t : Redis} (ho : c.others = []) (hx : x c.redis = (.ok a, t)) :
    exec err x c = (.ok a, { c with redis := t, seen := c.seen ++ [c.redis] }) := by
  obtain ⟨r, others, scans, clock, seen, scanned⟩ := c
  obtain rfl : others = [] := ho
  show ((x r).1.mapError err, Conn.mk (x r).2 [] scans clock (seen ++ [r]) scanned) = _
  rw [hx]
  rfl

/-- **A command that only reads, where nobody else comes between.** -/
theorem exec_alone {err : ScriptError → ClusterError} {x : Script α} {c : Conn} {a : α}
    (ho : c.others = []) (hx : x c.redis = (.ok a, c.redis)) :
    exec err x c = (.ok a, { c with seen := c.seen ++ [c.redis] }) := exec_alone_ok ho hx

/-! ## Programs that return -/

/-- **A program that returns**: from every connection on which an invariant
holds it returns a result with the property, and the invariant still
holds. -/
def Returns (P : Redis → Prop) (x : Client α) (Q : α → Prop) : Prop :=
  ∀ c : Conn, c.Holds P → ∃ a d, x c = (.ok a, d) ∧ d.Holds P ∧ Q a

namespace Returns

variable {P : Redis → Prop} {Q : α → Prop} {R : β → Prop}

theorem pure {a : α} (h : Q a) : Returns P (Pure.pure a) Q := fun c hc => ⟨a, c, rfl, hc, h⟩

theorem bind {x : Client α} {f : α → Client β} (hx : Returns P x Q)
    (hf : ∀ a, Q a → Returns P (f a) R) : Returns P (x >>= f) R := by
  intro c hc
  obtain ⟨a, d, hxc, hd, ha⟩ := hx c hc
  obtain ⟨b, e, hfd, he, hb⟩ := hf a ha d hd
  exact ⟨b, e, (bind_ok hxc).trans hfd, he, hb⟩

/-- A command that cannot fail where the invariant holds, and keeps it. -/
theorem exec {err : ScriptError → ClusterError} {x : Script α}
    (hx : ∀ s, P s → ∃ a, (x s).1 = .ok a ∧ Q a) (hP : ∀ s, P s → P (x s).2) :
    Returns P (Client.exec err x) Q := by
  intro c hc
  have ht := hc.turn
  obtain ⟨a, ha, hQ⟩ := hx _ ht.redis
  refine ⟨a, { c.turn with redis := (x c.turn.redis).2 }, ?_,
    ⟨hP _ ht.redis, ht.others, ht.seen⟩, hQ⟩
  show ((x c.turn.redis).1.mapError err, _) = _
  rw [ha]
  rfl

/-- A command whose end is ignored, and which keeps the invariant. -/
theorem attempt {err : ScriptError → ClusterError} {x : Script α} (hP : ∀ s, P s → P (x s).2) :
    Returns P (Client.attempt (Client.exec err x)) (fun _ => True) := by
  intro c hc
  have ht := hc.turn
  exact ⟨(), _, rfl, ⟨hP _ ht.redis, ht.others, ht.seen⟩, trivial⟩

theorem readClock : Returns P Client.readClock (fun _ => True) :=
  fun c hc => ⟨_, c, rfl, hc, trivial⟩

end Returns

end Client
