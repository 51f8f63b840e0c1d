import ClusterRedis.Clockwork
import ClusterRedis.PubSub
import ClusterRedis.Turns

/-!
# A subscription over its connections

A connection of a subscription may break. What had come over it is still
read; then the task sleeps for about five seconds, connects again and
subscribes again. What is published meanwhile reaches nobody, and nothing is
published twice.

So what the consumer gets is told connection by connection: of what was
published while a connection was subscribed it gets a first part, in order,
and all of it unless the connection breaks (`reception_by_connection`).

The task looks whether its stream is there only between two messages. While
it waits for one on a connection that is up it does not
(`ends_after_drop_iff`).
-/

/-! ## Jitter -/

/-- `jittered`: a duration, less a fifth, and at random up to two fifths
more. The entropy is the nanoseconds of the clock's second; products are in
64 bits. -/
def jitteredMs (baseMs entropy : ℕ) : ℕ :=
  baseMs - baseMs / 5 + entropy % (baseMs * 2 % 2 ^ 64 / 5 + 1)

theorem jitteredMs_lt {baseMs : ℕ} (h : baseMs < 2 ^ 64) (entropy : ℕ) :
    jitteredMs baseMs entropy < 2 ^ 64 := by
  have hmod : entropy % (baseMs * 2 % 2 ^ 64 / 5 + 1) < baseMs * 2 % 2 ^ 64 / 5 + 1 :=
    Nat.mod_lt _ (Nat.succ_pos _)
  unfold jitteredMs
  omega

/-- **`jittered`.** -/
def jittered (base : Duration) (entropy : ℕ) : Duration :=
  if base.asMillis % 2 ^ 64 * 2 % 2 ^ 64 / 5 = 0 then base
  else Duration.ofMillis (jitteredMs (base.asMillis % 2 ^ 64) entropy)
    (jitteredMs_lt (Nat.mod_lt _ (by decide)) entropy)

/-- The pause of a subscription. -/
def pauseMs (entropy : ℕ) : ℕ :=
  (jittered (Duration.ofMillis 5000 (by decide)) entropy).asMillis

/-- **A pause is from four to six seconds.** -/
theorem pauseMs_mem (entropy : ℕ) : 4000 ≤ pauseMs entropy ∧ pauseMs entropy ≤ 6000 := by
  have hpause : pauseMs entropy = 4000 + entropy % 2001 := by
    unfold pauseMs jittered
    rw [if_neg (by decide)]
    exact Nat.mul_div_cancel _ (by decide)
  have hmod : entropy % 2001 < 2001 := Nat.mod_lt _ (by decide)
  omega

/-! ## The task -/

/-- **Where the task of a subscription stands.** -/
inductive SubscriptionTask where
  /-- At the top of its loop. -/
  | check
  /-- It connects again, -/
  | connect
  /-- asks to be subscribed -/
  | subscribe
  /-- and waits for the reply. -/
  | confirm
  /-- At the top of its inner loop, -/
  | look
  /-- with a message to wait for, -/
  | read
  /-- or one to put into the queue. -/
  | send (m : PublishedMessage)
  /-- It sleeps until a time. -/
  | sleep (wakeAt : ℕ)
  | ended
  deriving DecidableEq

/-- **A connection that is subscribed**: what came over it and is not read
yet, and whether more can come. -/
structure PubSubConn where
  unread : List (List UInt8)
  up : Bool
  deriving DecidableEq

/-- **A subscription over its connections.** -/
structure Reception where
  /-- Milliseconds. -/
  now : ℕ
  task : SubscriptionTask
  conn : Option PubSubConn
  queue : List PublishedMessage
  /-- What the consumer has got from the stream. -/
  yielded : List PublishedMessage
  /-- The consumer has its stream. -/
  streamed : Bool
  /-- What was published on the channel, and whether a connection was
  subscribed then. -/
  published : List (Arrival × Bool)
  /-- What was published while each of the earlier connections was
  subscribed, -/
  past : List (List Arrival)
  /-- and while the last was. -/
  latest : List Arrival
  /-- When the task began to connect again. -/
  attempts : List ℕ

/-- One step of a publisher, of anybody else who publishes, of the network,
of the task or of the consumer. -/
inductive ReceptionEvent where
  | tick (d : ℕ)
  | publish (p topic : String) (routingKey : Option String) (payload : List UInt8)
      (fault : Option (Bool × String))
  | foreign (channel : String) (bytes : List UInt8)
  /-- The connection breaks, and of what is not read the first `n` remain. -/
  | lose (n : ℕ)
  /-- The task goes on. What it asked of the server succeeded, or did not. -/
  | task (ok : Bool) (entropy : ℕ)
  | next
  | dropStream
  deriving DecidableEq

namespace Reception

/-- `subscribe_async` returns: the first connection is subscribed. -/
def start : Reception where
  now := 0
  task := .check
  conn := some ⟨[], true⟩
  queue := []
  yielded := []
  streamed := true
  published := []
  past := []
  latest := []
  attempts := []

end Reception

namespace Subscription

variable (S : Subscription)

/-- A message is published on a channel. -/
def overhear (w : Reception) (channel : String) (a : Arrival) (raw : List UInt8) : Reception :=
  if channel = S.channel then
    match w.conn with
    | some ⟨unread, true⟩ =>
      { w with
        conn := some ⟨unread ++ [raw], true⟩
        published := w.published ++ [(a, true)]
        latest := w.latest ++ [a] }
    | _ => { w with published := w.published ++ [(a, false)] }
  else w

/-- `publish_async`, whose request reaches the server or does not. -/
def publishOver (w : Reception) (p topic : String) (rk : Option String) (payload : List UInt8)
    (fault : Option (Bool × String)) : Reception :=
  match publishAsync p topic rk payload with
  | .error _ => w
  | .ok (channel, wire) =>
    if fault.all Prod.fst then S.overhear w channel (.published rk payload) wire else w

/-- The task sleeps, without a connection. -/
def pause (w : Reception) (entropy : ℕ) : Reception :=
  { w with conn := none, task := .sleep (w.now + pauseMs entropy) }

/-- The task returns. -/
def stop (w : Reception) : Reception := { w with conn := none, task := .ended }

/-- **The task goes on.** -/
def taskStep (w : Reception) (ok : Bool) (entropy : ℕ) : Reception :=
  match w.task with
  | .check =>
    if w.streamed then
      if w.conn.isSome then { w with task := .look }
      else { w with task := .connect, attempts := w.attempts ++ [w.now] }
    else stop w
  | .connect => if ok then { w with task := .subscribe } else pause w entropy
  | .subscribe =>
    if ok then
      { w with
        task := .confirm
        conn := some ⟨[], true⟩
        past := w.past ++ [w.latest]
        latest := [] }
    else pause w entropy
  | .confirm => if ok then { w with task := .look } else pause w entropy
  | .look => if w.streamed then { w with task := .read } else stop w
  | .read => match w.conn with
    | some ⟨raw :: rest, up⟩ =>
      { w with
        conn := some ⟨rest, up⟩
        task := match S.deliver raw with
          | some m => .send m
          | none => .look }
    -- the stream of messages has ended
    | some ⟨[], false⟩ => pause w entropy
    | _ => w
  | .send m =>
    if w.streamed then
      if w.queue.length < S.buffer then { w with queue := w.queue ++ [m], task := .look } else w
    else stop w
  | .sleep wakeAt => if wakeAt ≤ w.now then { w with task := .check } else w
  | .ended => w

/-- The consumer takes the next message of its stream. -/
def take (w : Reception) : Reception :=
  match w.queue with
  | m :: rest => { w with queue := rest, yielded := w.yielded ++ [m] }
  | [] => w

/-- **A subscription over its connections, and its surroundings.** -/
def reception : System Reception ReceptionEvent Unit where
  step w
    | .tick d => ((), { w with now := w.now + d })
    | .publish p topic rk payload fault => ((), S.publishOver w p topic rk payload fault)
    | .foreign channel bytes => ((), S.overhear w channel (.foreign bytes) bytes)
    | .lose n => ((), { w with conn := w.conn.map (fun c => ⟨c.unread.take n, false⟩) })
    | .task ok entropy => ((), S.taskStep w ok entropy)
    | .next => ((), take w)
    | .dropStream => ((), { w with streamed := false, queue := [] })

/-! ## What a step can do -/

/-- **What a step can do.** -/
inductive Receives (w : Reception) : Reception → Prop
  | stay : Receives w w
  | tick (d : ℕ) : Receives w { w with now := w.now + d }
  | heard {a : Arrival} {raw : List UInt8} {unread : List (List UInt8)} (ha : a.Wire raw)
      (hc : w.conn = some ⟨unread, true⟩) :
      Receives w { w with
        conn := some ⟨unread ++ [raw], true⟩
        published := w.published ++ [(a, true)]
        latest := w.latest ++ [a] }
  | missed (a : Arrival) : Receives w { w with published := w.published ++ [(a, false)] }
  | lost {c : PubSubConn} (n : ℕ) (hc : w.conn = some c) :
      Receives w { w with conn := some ⟨c.unread.take n, false⟩ }
  | stop (hs : w.streamed = false) : Receives w (stop w)
  | resume {c : PubSubConn} (ht : w.task = .check) (hc : w.conn = some c) :
      Receives w { w with task := .look }
  | attempt (ht : w.task = .check) (hc : w.conn = none) :
      Receives w { w with task := .connect, attempts := w.attempts ++ [w.now] }
  | connect (ht : w.task = .connect) : Receives w { w with task := .subscribe }
  | subscribe (ht : w.task = .subscribe) :
      Receives w { w with
        task := .confirm
        conn := some ⟨[], true⟩
        past := w.past ++ [w.latest]
        latest := [] }
  | confirm (ht : w.task = .confirm) : Receives w { w with task := .look }
  | look (ht : w.task = .look) : Receives w { w with task := .read }
  | read {raw : List UInt8} {rest : List (List UInt8)} {up : Bool} (ht : w.task = .read)
      (hc : w.conn = some ⟨raw :: rest, up⟩) :
      Receives w { w with
        conn := some ⟨rest, up⟩
        task := match S.deliver raw with
          | some m => .send m
          | none => .look }
  | send {m : PublishedMessage} (ht : w.task = .send m) (hs : w.streamed = true) :
      Receives w { w with queue := w.queue ++ [m], task := .look }
  /-- With nothing read that is not in the queue. -/
  | pause (entropy : ℕ) (ht : w.task = .connect ∨ w.task = .subscribe ∨ w.task = .confirm
      ∨ w.task = .read) : Receives w (pause w entropy)
  | wake {wakeAt : ℕ} (ht : w.task = .sleep wakeAt) (hw : wakeAt ≤ w.now) :
      Receives w { w with task := .check }
  | yield {m : PublishedMessage} {rest : List PublishedMessage} (hq : w.queue = m :: rest) :
      Receives w { w with queue := rest, yielded := w.yielded ++ [m] }
  | drop : Receives w { w with streamed := false, queue := [] }

variable {S} {w : Reception}

theorem overhear_receives (channel : String) {a : Arrival} {raw : List UInt8} (ha : a.Wire raw) :
    S.Receives w (S.overhear w channel a raw) := by
  unfold overhear
  split
  · split
    · next unread hc => exact .heard ha hc
    · exact .missed a
  · exact .stay

theorem publishOver_receives (p topic : String) (rk : Option String) (payload : List UInt8)
    (fault : Option (Bool × String)) :
    S.Receives w (S.publishOver w p topic rk payload fault) := by
  unfold publishOver publishAsync
  cases he : encode rk payload with
  | error e => exact .stay
  | ok wire =>
    dsimp only
    split
    · exact overhear_receives _ (a := .published rk payload) he
    · exact .stay

theorem taskStep_receives (ok : Bool) (entropy : ℕ) :
    S.Receives w (S.taskStep w ok entropy) := by
  unfold taskStep
  split
  · next ht =>
    split
    · split
      · next hc =>
        obtain ⟨c, hc⟩ := Option.isSome_iff_exists.mp hc
        exact .resume ht hc
      · next hc => exact .attempt ht (Option.not_isSome_iff_eq_none.mp hc)
    · next hs => exact .stop (Bool.eq_false_iff.mpr hs)
  · next ht =>
    split
    · exact .connect ht
    · exact .pause entropy (Or.inl ht)
  · next ht =>
    split
    · exact .subscribe ht
    · exact .pause entropy (Or.inr (Or.inl ht))
  · next ht =>
    split
    · exact .confirm ht
    · exact .pause entropy (Or.inr (Or.inr (Or.inl ht)))
  · next ht =>
    split
    · exact .look ht
    · next hs => exact .stop (Bool.eq_false_iff.mpr hs)
  · next ht =>
    split
    · next hc => exact .read ht hc
    · exact .pause entropy (Or.inr (Or.inr (Or.inr ht)))
    · exact .stay
  · next m ht =>
    split
    · next hs =>
      split
      · exact .send ht hs
      · exact .stay
    · next hs => exact .stop (Bool.eq_false_iff.mpr hs)
  · next ht =>
    split
    · next hw => exact .wake ht hw
    · exact .stay
  · exact .stay

/-- **Every step is one of these.** -/
theorem reception_receives (w : Reception) (e : ReceptionEvent) :
    S.Receives w (S.reception.step w e).2 := by
  cases e with
  | tick d => exact .tick d
  | publish p topic rk payload fault => exact publishOver_receives p topic rk payload fault
  | foreign channel bytes => exact overhear_receives channel (a := .foreign bytes) rfl
  | lose n =>
    show S.Receives w { w with conn := w.conn.map (fun c => ⟨c.unread.take n, false⟩) }
    cases hc : w.conn with
    | none =>
      rw [Option.map_none, ← hc]
      exact .stay
    | some c => exact .lost n hc
  | task ok entropy => exact taskStep_receives ok entropy
  | next =>
    show S.Receives w (take w)
    unfold take
    split
    · next hq => exact .yield hq
    · exact .stay
  | dropStream => exact .drop

/-! ## Connection by connection -/

/-- What the task has in hand, after what is queued. -/
def inHand (w : Reception) : List PublishedMessage :=
  w.queue ++ match w.task with
    | .send m => [m]
    | _ => []

/-- The bytes that are not read yet. -/
def unread (w : Reception) : List (List UInt8) :=
  match w.conn with
  | some c => c.unread
  | none => []

/-- More can come over the connection. -/
def IsUp (w : Reception) : Prop := ∃ l, w.conn = some ⟨l, true⟩

/-- **What has been read**: of what was published while each of the earlier
connections was subscribed, and while the last was, the first `parts` and
`part`. What came over the last and is not read is `rest`; `later` is for the
consumer, if it keeps its stream. -/
structure Told (S : Subscription) (w : Reception) (parts : List (List Arrival))
    (part rest : List Arrival) (later : List PublishedMessage) : Prop where
  past : List.Forall₂ (· <+: ·) parts w.past
  latest : part ++ rest <+: w.latest
  up : IsUp w → part ++ rest = w.latest
  wire : List.Forall₂ Arrival.Wire rest (unread w)
  delivered : S.Delivered (parts.flatten ++ part) (w.yielded ++ later)
  hand : w.streamed = true → later = inHand w
  dropped : w.streamed = false → w.queue = []

namespace Told

variable {parts : List (List Arrival)} {part rest : List Arrival}
  {later : List PublishedMessage}

theorem start (S : Subscription) : S.Told Reception.start [] [] [] [] where
  past := .nil
  latest := List.nil_prefix
  up _ := rfl
  wire := .nil
  delivered := .nil
  hand _ := rfl
  dropped h := Bool.noConfusion h

/-- A step that is not about what has been read or is to be. -/
theorem congr (h : S.Told w parts part rest later) {w' : Reception} (hpast : w'.past = w.past)
    (hlatest : w'.latest = w.latest) (hconn : w'.conn = w.conn) (hyielded : w'.yielded = w.yielded)
    (hhand : w'.streamed = true → w.streamed = true ∧ inHand w' = inHand w)
    (hdropped : w'.streamed = false → w'.queue = []) :
    S.Told w' parts part rest later where
  past := hpast ▸ h.past
  latest := hlatest ▸ h.latest
  up hup := by
    rw [IsUp, hconn] at hup
    exact (h.up hup).trans hlatest.symm
  wire := by
    rw [Subscription.unread, hconn]
    exact h.wire
  delivered := hyielded ▸ h.delivered
  hand hs := (h.hand (hhand hs).1).trans (hhand hs).2.symm
  dropped := hdropped

/-- The connection is given up: what came over it and is not read is lost. -/
theorem hangUp (h : S.Told w parts part rest later) {w' : Reception} (hpast : w'.past = w.past)
    (hlatest : w'.latest = w.latest) (hconn : w'.conn = none) (hyielded : w'.yielded = w.yielded)
    (hhand : w'.streamed = true → w.streamed = true ∧ inHand w' = inHand w)
    (hdropped : w'.streamed = false → w'.queue = []) :
    S.Told w' parts part [] later where
  past := hpast ▸ h.past
  latest := by
    rw [hlatest, List.append_nil]
    exact (List.prefix_append part rest).trans h.latest
  up := by
    rintro ⟨l, hl⟩
    exact nomatch hconn.symm.trans hl
  wire := by
    rw [Subscription.unread, hconn]
    exact .nil
  delivered := hyielded ▸ h.delivered
  hand hs := (h.hand (hhand hs).1).trans (hhand hs).2.symm
  dropped := hdropped

/-- **Every step keeps it.** -/
theorem step (h : S.Told w parts part rest later) {w' : Reception} (hw : S.Receives w w') :
    ∃ parts' part' rest' later', S.Told w' parts' part' rest' later' := by
  cases hw with
  | stay => exact ⟨_, _, _, _, h⟩
  | tick d => exact ⟨_, _, _, _, h.congr rfl rfl rfl rfl (fun hs => ⟨hs, rfl⟩) h.dropped⟩
  | @heard a raw unread ha hc =>
    have hmore : part ++ (rest ++ [a]) = w.latest ++ [a] := by
      rw [← List.append_assoc, h.up ⟨unread, hc⟩]
    refine ⟨parts, part, rest ++ [a], later, h.past, ?_, fun _ => hmore, ?_, h.delivered, h.hand,
      h.dropped⟩
    · rw [hmore]
    · have hwire := h.wire
      rw [Subscription.unread, hc] at hwire
      exact List.rel_append hwire (.cons ha .nil)
  | missed a => exact ⟨_, _, _, _, h.congr rfl rfl rfl rfl (fun hs => ⟨hs, rfl⟩) h.dropped⟩
  | @lost c n hc =>
    refine ⟨parts, part, rest.take n, later, h.past, ?_, ?_, ?_, h.delivered, h.hand, h.dropped⟩
    · exact (List.prefix_append_right_inj part |>.mpr (List.take_prefix n rest)).trans h.latest
    · rintro ⟨l, hl⟩
      cases hl
    · have hwire := h.wire
      rw [Subscription.unread, hc] at hwire
      exact List.forall₂_take n hwire
  | stop hs =>
    exact ⟨_, _, _, _, h.hangUp rfl rfl rfl rfl (fun hs' => absurd (hs.symm.trans hs') (by simp))
      h.dropped⟩
  | resume ht hc =>
    exact ⟨_, _, _, _, h.congr rfl rfl rfl rfl (fun hs => ⟨hs, by simp [inHand, ht]⟩) h.dropped⟩
  | attempt ht hc =>
    exact ⟨_, _, _, _, h.congr rfl rfl rfl rfl (fun hs => ⟨hs, by simp [inHand, ht]⟩) h.dropped⟩
  | connect ht =>
    exact ⟨_, _, _, _, h.congr rfl rfl rfl rfl (fun hs => ⟨hs, by simp [inHand, ht]⟩) h.dropped⟩
  | subscribe ht =>
    refine ⟨parts ++ [part], [], [], later, ?_, List.nil_prefix, fun _ => rfl, .nil, ?_, ?_,
      h.dropped⟩
    · exact List.rel_append h.past (.cons ((List.prefix_append part rest).trans h.latest) .nil)
    · rw [List.flatten_append, List.flatten_singleton, List.append_nil]
      exact h.delivered
    · intro hs
      rw [h.hand hs]
      simp [inHand, ht]
  | confirm ht =>
    exact ⟨_, _, _, _, h.congr rfl rfl rfl rfl (fun hs => ⟨hs, by simp [inHand, ht]⟩) h.dropped⟩
  | look ht =>
    exact ⟨_, _, _, _, h.congr rfl rfl rfl rfl (fun hs => ⟨hs, by simp [inHand, ht]⟩) h.dropped⟩
  | @read raw more up ht hc =>
    have hwire := h.wire
    rw [Subscription.unread, hc] at hwire
    obtain ⟨a, rest', ha, hrest, rfl⟩ := List.forall₂_cons_right_iff.mp hwire
    have hmore : (part ++ [a]) ++ rest' = part ++ a :: rest' := by
      rw [List.append_assoc, List.singleton_append]
    refine ⟨parts, part ++ [a], rest', later ++ (S.deliver raw).toList, h.past, ?_, ?_, hrest, ?_,
      ?_, h.dropped⟩
    · rw [hmore]
      exact h.latest
    · rintro ⟨l, hl⟩
      rw [hmore]
      cases hl
      exact h.up ⟨_, hc⟩
    · rw [← List.append_assoc, ← List.append_assoc]
      exact h.delivered.concat ha
    · intro hs
      rw [h.hand hs]
      cases hd : S.deliver raw <;> simp [inHand, ht]
  | send ht hs =>
    refine ⟨_, _, _, _, h.congr rfl rfl rfl rfl (fun hs => ⟨hs, by simp [inHand, ht]⟩) ?_⟩
    exact fun hs' => absurd (hs.symm.trans hs') (by simp)
  | pause entropy ht =>
    refine ⟨_, _, _, _, h.hangUp rfl rfl rfl rfl (fun hs => ⟨hs, ?_⟩) h.dropped⟩
    rcases ht with ht | ht | ht | ht <;> simp [inHand, ht, pause]
  | wake ht hwake =>
    exact ⟨_, _, _, _, h.congr rfl rfl rfl rfl (fun hs => ⟨hs, by simp [inHand, ht]⟩) h.dropped⟩
  | @yield m more hq =>
    have hs : w.streamed = true := by
      by_contra hno
      exact nomatch hq.symm.trans (h.dropped (Bool.eq_false_iff.mpr hno))
    have hlater : later = m :: inHand { w with queue := more, yielded := w.yielded ++ [m] } := by
      rw [h.hand hs, inHand, hq]
      rfl
    refine ⟨parts, part, rest, _, h.past, h.latest, h.up, h.wire, ?_, fun _ => rfl, ?_⟩
    · have hdel := h.delivered
      rw [hlater] at hdel
      rwa [List.append_assoc, List.singleton_append]
    · exact fun hs' => absurd (hs.symm.trans hs') (by simp)
  | drop =>
    exact ⟨_, _, _, _, h.congr rfl rfl rfl rfl (fun hs => Bool.noConfusion hs) (fun _ => rfl)⟩

end Told

/-- **Each message on the channel is in the stretch of the connection it was
published to**, or was published while there was none. -/
def Stretched (w : Reception) : Prop :=
  (w.published.filter Prod.snd).map Prod.fst = w.past.flatten ++ w.latest

theorem Stretched.step (h : Stretched w) {w' : Reception} (hw : S.Receives w w') :
    Stretched w' := by
  unfold Stretched at h ⊢
  cases hw with
  | heard ha hc =>
    show ((w.published ++ [(_, true)]).filter Prod.snd).map Prod.fst = w.past.flatten ++ (_ ++ [_])
    rw [List.filter_append, List.map_append, h, List.append_assoc]
    rfl
  | missed a =>
    show ((w.published ++ [(a, false)]).filter Prod.snd).map Prod.fst = _
    rw [List.filter_append, List.map_append, h]
    exact List.append_nil _
  | subscribe ht =>
    show _ = (w.past ++ [w.latest]).flatten ++ []
    rw [List.flatten_append, List.flatten_singleton, List.append_nil]
    exact h
  | stay => exact h
  | tick d => exact h
  | lost n hc => exact h
  | stop hs => exact h
  | resume ht hc => exact h
  | attempt ht hc => exact h
  | connect ht => exact h
  | confirm ht => exact h
  | look ht => exact h
  | read ht hc => exact h
  | send ht hs => exact h
  | pause entropy ht => exact h
  | wake ht hwake => exact h
  | yield hq => exact h
  | drop => exact h

/-- **A connection is there** exactly while the task works with one; at the
top of its loop it may have one or not. -/
def Wired (w : Reception) : Prop :=
  match w.task with
  | .check => True
  | .confirm | .look | .read | .send _ => w.conn.isSome = true
  | .connect | .subscribe | .sleep _ | .ended => w.conn = none

theorem Wired.step (h : Wired w) {w' : Reception} (hw : S.Receives w w') : Wired w' := by
  have hconn : ∀ c c' : PubSubConn, w.conn = some c → Wired { w with conn := some c' } := by
    intro c c' hc
    unfold Wired at h ⊢
    revert h
    show _ → match w.task with | _ => _
    cases w.task <;> simp [hc]
  cases hw with
  | stay => exact h
  | tick d => exact h
  | heard ha hc => exact hconn _ _ hc
  | missed a => exact h
  | lost n hc => exact hconn _ _ hc
  | stop hs => exact rfl
  | resume ht hc =>
    show w.conn.isSome = true
    rw [hc]
    rfl
  | attempt ht hc => exact hc
  | connect ht =>
    rw [Wired, ht] at h
    exact h
  | subscribe ht => exact rfl
  | confirm ht =>
    rw [Wired, ht] at h
    exact h
  | look ht =>
    rw [Wired, ht] at h
    exact h
  | @read raw rest up ht hc =>
    unfold Wired
    dsimp only
    cases S.deliver raw <;> rfl
  | send ht hs =>
    rw [Wired, ht] at h
    exact h
  | pause entropy ht => exact rfl
  | wake ht hwake => trivial
  | yield hq => exact h
  | drop => exact h

/-! ## While a connection is up -/

/-- Nothing that came over the connection is left to do. -/
def Idle (w : Reception) : Prop := w.task = .read ∧ w.conn = some ⟨[], true⟩ ∧ w.queue = []

/-- How much the task has left to do with what it has in hand. -/
def stepsLeft : SubscriptionTask → ℕ
  | .send _ => 3
  | .check | .confirm => 2
  | .look => 1
  | _ => 0

theorem stepsLeft_deliver (S : Subscription) (raw : List UInt8) :
    stepsLeft (match S.deliver raw with
      | some m => .send m
      | none => .look) ≤ 3 := by
  cases S.deliver raw with
  | none => exact Nat.one_le_ofNat
  | some m => exact le_refl 3

/-- How much is left to do. -/
def toDo (w : Reception) : ℕ := 4 * (unread w).length + stepsLeft w.task + w.queue.length

theorem Idle.toDo (h : Idle w) : Subscription.toDo w = 0 := by
  obtain ⟨htask, hc, hq⟩ := h
  rw [Subscription.toDo, unread, hc, htask, hq]
  rfl

/-- A step of the task, whose requests succeed, or of the consumer. -/
def Attends : ReceptionEvent → Prop
  | .task ok _ => ok = true
  | .next => True
  | _ => False

/-- **A turn**: the task and the consumer take steps in any order, each at
least once. -/
def Attended (es : List ReceptionEvent) : Prop :=
  (∀ e ∈ es, Attends e) ∧ (∃ entropy, .task true entropy ∈ es) ∧ .next ∈ es

/-- The consumer keeps its stream and the connection is up. -/
structure Following (w : Reception) : Prop where
  streamed : w.streamed = true
  up : IsUp w
  wired : Wired w

/-- **What such a step does**: nothing arrives or is lost, and less is left
to do unless nothing changes. -/
structure Progress (w w' : Reception) : Prop where
  following : Following w'
  published : w'.published = w.published
  past : w'.past = w.past
  latest : w'.latest = w.latest
  less : w' = w ∨ toDo w' < toDo w

theorem Following.taskStep (h : Following w) (entropy : ℕ) :
    Progress w (S.taskStep w true entropy) := by
  obtain ⟨hs, ⟨l, hc⟩, hwired⟩ := h
  have hwired' : Wired (S.taskStep w true entropy) := hwired.step (taskStep_receives true entropy)
  have hnone : w.conn ≠ none := by simp [hc]
  revert hwired'
  unfold Wired at hwired
  unfold Subscription.taskStep
  cases ht : w.task with
  | check =>
    dsimp only
    rw [if_pos hs, if_pos (by rw [hc]; rfl)]
    intro hwired'
    exact ⟨⟨hs, ⟨l, hc⟩, hwired'⟩, rfl, rfl, rfl, Or.inr (by simp [toDo, stepsLeft, unread, ht])⟩
  | connect =>
    rw [ht] at hwired
    exact absurd hwired hnone
  | subscribe =>
    rw [ht] at hwired
    exact absurd hwired hnone
  | confirm =>
    intro hwired'
    exact ⟨⟨hs, ⟨l, hc⟩, hwired'⟩, rfl, rfl, rfl, Or.inr (by simp [toDo, stepsLeft, unread, ht])⟩
  | look =>
    dsimp only
    rw [if_pos hs]
    intro hwired'
    exact ⟨⟨hs, ⟨l, hc⟩, hwired'⟩, rfl, rfl, rfl, Or.inr (by simp [toDo, stepsLeft, unread, ht])⟩
  | read =>
    rw [hc]
    cases l with
    | nil => exact fun hwired' => ⟨⟨hs, ⟨[], hc⟩, hwired'⟩, rfl, rfl, rfl, Or.inl rfl⟩
    | cons raw rest =>
      intro hwired'
      refine ⟨⟨hs, ⟨rest, rfl⟩, hwired'⟩, rfl, rfl, rfl, Or.inr ?_⟩
      have hleft := stepsLeft_deliver S raw
      show 4 * rest.length + stepsLeft (match S.deliver raw with
        | some m => .send m
        | none => .look) + w.queue.length < toDo w
      rw [toDo, unread, hc, ht, List.length_cons]
      omega
  | send m =>
    dsimp only
    rw [if_pos hs]
    intro hwired'
    by_cases hroom : w.queue.length < S.buffer
    · rw [if_pos hroom] at hwired' ⊢
      refine ⟨⟨hs, ⟨l, hc⟩, hwired'⟩, rfl, rfl, rfl, Or.inr ?_⟩
      simp [toDo, stepsLeft, unread, ht]
      omega
    · rw [if_neg hroom] at hwired' ⊢
      exact ⟨⟨hs, ⟨l, hc⟩, hwired'⟩, rfl, rfl, rfl, Or.inl rfl⟩
  | sleep t =>
    rw [ht] at hwired
    exact absurd hwired hnone
  | ended =>
    rw [ht] at hwired
    exact absurd hwired hnone

theorem Following.take (h : Following w) : Progress w (take w) := by
  unfold Subscription.take
  split
  · next m rest hq =>
    refine ⟨⟨h.streamed, h.up, h.wired⟩, rfl, rfl, rfl, Or.inr ?_⟩
    show 4 * (unread w).length + stepsLeft w.task + rest.length < toDo w
    rw [toDo, hq, List.length_cons]
    omega
  · exact ⟨h, rfl, rfl, rfl, Or.inl rfl⟩

theorem Following.step (h : Following w) {e : ReceptionEvent} (he : Attends e) :
    Progress w (S.reception.step w e).2 := by
  cases e with
  | task ok entropy =>
    obtain rfl : ok = true := he
    exact h.taskStep entropy
  | next => exact h.take
  | tick d => exact he.elim
  | publish => exact he.elim
  | foreign => exact he.elim
  | lose n => exact he.elim
  | dropStream => exact he.elim

/-- When a step of either does nothing there is nothing left to do. -/
theorem Following.idle_of_stuck (h : Following w) {entropy : ℕ}
    (ht : S.taskStep w true entropy = w) (hn : Subscription.take w = w) : Idle w := by
  obtain ⟨hs, ⟨l, hc⟩, hwired⟩ := h
  have hqueue : w.queue = [] := by
    cases hq : w.queue with
    | nil => rfl
    | cons m rest =>
      have hlen := congrArg (fun w => w.queue.length) hn
      simp [Subscription.take, hq] at hlen
  have hnone : w.conn ≠ none := by simp [hc]
  have htask := congrArg Reception.task ht
  have hconn := congrArg Reception.conn ht
  unfold Wired at hwired
  unfold Subscription.taskStep at htask hconn
  cases hst : w.task with
  | check => simp [hst, hs, hc] at htask
  | connect =>
    rw [hst] at hwired
    exact absurd hwired hnone
  | subscribe =>
    rw [hst] at hwired
    exact absurd hwired hnone
  | confirm => simp [hst] at htask
  | look => simp [hst, hs] at htask
  | read =>
    cases l with
    | nil => exact ⟨hst, hc, hqueue⟩
    | cons raw rest => simp [hst, hc] at hconn
  | send m => simp [hst, hs, hqueue, S.buffer_pos] at htask
  | sleep t =>
    rw [hst] at hwired
    exact absurd hwired hnone
  | ended =>
    rw [hst] at hwired
    exact absurd hwired hnone

/-- What came over a connection that is up is read, sent and consumed. -/
theorem Following.turn (h : Following w) {es : List ReceptionEvent} (hes : Attended es) :
    Following (S.reception.final w es)
      ∧ (Idle (S.reception.final w es)
        ∨ ¬ Idle w ∧ toDo (S.reception.final w es) < toDo w) := by
  obtain ⟨hall, ⟨entropy, ht⟩, hn⟩ := hes
  have hmoves := S.reception.stuck_or_less (I := Following) (E := Attends) toDo
    (fun s e hI he => ⟨(hI.step he).following, (hI.step he).less⟩) h hall
  refine ⟨hmoves.1, ?_⟩
  rcases hmoves.2 with ⟨hstuck, hsame⟩ | hless
  · rw [hsame]
    exact Or.inl (h.idle_of_stuck (hstuck _ ht) (hstuck _ hn))
  · by_cases hidle : Idle w
    · rw [hidle.toDo] at hless
      exact absurd hless (Nat.not_lt_zero _)
    · exact Or.inr ⟨hidle, hless⟩

/-- Such steps leave what was published where it was. -/
theorem Following.books (h : Following w) {es : List ReceptionEvent} (hes : ∀ e ∈ es, Attends e) :
    (S.reception.final w es).past = w.past ∧ (S.reception.final w es).latest = w.latest := by
  induction es generalizing w with
  | nil => exact ⟨rfl, rfl⟩
  | cons e es ih =>
    have hp := h.step (S := S) (hes e List.mem_cons_self)
    obtain ⟨hpast, hlatest⟩ := ih hp.following (fun e' he' => hes e' (List.mem_cons_of_mem _ he'))
    exact ⟨hpast.trans hp.past, hlatest.trans hp.latest⟩

/-- What every run keeps. -/
structure Kept (S : Subscription) (w : Reception) : Prop where
  told : ∃ parts part rest later, S.Told w parts part rest later
  stretched : Stretched w
  wired : Wired w

theorem kept_final (S : Subscription) (es : List ReceptionEvent) :
    S.Kept (S.reception.final Reception.start es) := by
  refine S.reception.inv_final (G := fun _ _ => True) (fun w e h _ => ?_)
    ⟨⟨_, _, _, _, Told.start S⟩, rfl, trivial⟩ (System.along_of_mem _ (fun _ _ => trivial))
  have hw := reception_receives (S := S) w e
  obtain ⟨_, _, _, _, htold⟩ := h.told
  exact ⟨htold.step hw, h.stretched.step hw, h.wired.step hw⟩

/-- When nothing is left to do, all that was published while the last
connection was subscribed has been read and consumed. -/
theorem Kept.idle (h : S.Kept w) (hs : w.streamed = true) (hidle : Idle w) :
    ∃ parts, List.Forall₂ (· <+: ·) parts w.past
      ∧ S.Delivered (parts.flatten ++ w.latest) w.yielded := by
  obtain ⟨parts, part, rest, later, htold⟩ := h.told
  obtain ⟨htask, hc, hq⟩ := hidle
  have hrest : rest = [] := by
    have hwire := htold.wire
    rw [unread, hc] at hwire
    exact List.forall₂_nil_right_iff.mp hwire
  have hlater : later = [] := by
    rw [htold.hand hs, inHand, hq, htask]
    rfl
  have hpart := htold.up ⟨[], hc⟩
  have hdel := htold.delivered
  rw [hrest, List.append_nil] at hpart
  rw [hpart, hlater, List.append_nil] at hdel
  exact ⟨parts, htold.past, hdel⟩

/-- **What the consumer gets, connection by connection.** In every run of
publishers, of others, of the network, of the subscription and of its
consumer: what was published on the channel while a connection was subscribed
is the stretch of that connection; what the consumer has got is a first part
of what is to come out of a first part of each stretch, one stretch after the
other; and while the connection is up and the consumer keeps its stream, with
nothing more arriving, all of the last stretch comes out. So nothing comes
out twice or out of order, and what does not come out was published while no
connection was subscribed, or is the end of what one that broke was to
carry. -/
theorem reception_by_connection (S : Subscription) (es : List ReceptionEvent) :
    ((S.reception.final Reception.start es).published.filter Prod.snd).map Prod.fst
        = (S.reception.final Reception.start es).past.flatten
          ++ (S.reception.final Reception.start es).latest
      ∧ (∃ parts part later,
        List.Forall₂ (· <+: ·) parts (S.reception.final Reception.start es).past
          ∧ part <+: (S.reception.final Reception.start es).latest
          ∧ S.Delivered (parts.flatten ++ part)
            ((S.reception.final Reception.start es).yielded ++ later))
      ∧ ((S.reception.final Reception.start es).streamed = true →
        IsUp (S.reception.final Reception.start es) →
        ∃ n, ∀ turns : List (List ReceptionEvent), (∀ fs ∈ turns, Attended fs) →
          n ≤ turns.length →
          ∃ parts, List.Forall₂ (· <+: ·) parts (S.reception.final Reception.start es).past
            ∧ S.Delivered (parts.flatten ++ (S.reception.final Reception.start es).latest)
              (S.reception.final Reception.start (es ++ turns.flatten)).yielded) := by
  have hkept := kept_final S es
  refine ⟨hkept.stretched, ?_, fun hs hup => ?_⟩
  · obtain ⟨parts, part, rest, later, htold⟩ := hkept.told
    exact ⟨parts, part, later, htold.past, (List.prefix_append part rest).trans htold.latest,
      htold.delivered⟩
  · have hfollow : Following (S.reception.final Reception.start es) := ⟨hs, hup, hkept.wired⟩
    refine ⟨toDo (S.reception.final Reception.start es) + 1, fun turns hturns hn => ?_⟩
    have hattends : ∀ e ∈ turns.flatten, Attends e := by
      intro e he
      obtain ⟨fs, hfs, he⟩ := List.mem_flatten.mp he
      exact (hturns fs hfs).1 e he
    have hidle := S.reception.done_of_turns (I := Following) (D := Idle) (T := Attended) toDo
      (fun _ _ hI hT => hI.turn hT) hfollow hturns hn
    obtain ⟨hpast, hlatest⟩ := hfollow.books (S := S) hattends
    have hend := (System.stuck_or_less S.reception (I := Following) (E := Attends) toDo
      (fun s e hI he => ⟨(hI.step he).following, (hI.step he).less⟩) hfollow hattends).1
    rw [← System.final_append] at hidle hpast hlatest hend
    rw [← hpast, ← hlatest]
    exact (kept_final S (es ++ turns.flatten)).idle hend.streamed hidle

/-- A topic without a filter, and a queue for one message. -/
def anyMessage : Subscription := ⟨"p:", "t", none, "a", 1, by decide⟩

/-- What is published between two connections is missed; what came over the
first is not. -/
example : (anyMessage.reception.final Reception.start
    [.publish "p:" "t" none [1] none, .lose 1, .task true 0, .task true 0, .task true 0,
      .task true 0, .task true 0, .task true 0, .task true 0, .publish "p:" "t" none [2] none,
      .tick 4000, .task true 0, .task true 0, .task true 0, .task true 0,
      .publish "p:" "t" none [3] none, .next, .task true 0, .task true 0, .task true 0,
      .task true 0, .next]).yielded
    = [⟨"t", none, [1], "a"⟩, ⟨"t", none, [3], "a"⟩] := by decide +kernel

/-! ## How often it connects again -/

/-- **When the task connects**: its attempts are four seconds apart, and the
next will be; a sleep ends within six. -/
structure Paced (w : Reception) : Prop where
  spaced : w.attempts.Pairwise (fun a b => a + 4000 ≤ b)
  begun : ∀ a ∈ w.attempts, a ≤ w.now
  asleep : ∀ t, w.task = .sleep t → t ≤ w.now + 6000 ∧ ∀ a ∈ w.attempts, a + 4000 ≤ t
  awake : w.task = .check → w.conn = none → ∀ a ∈ w.attempts, a + 4000 ≤ w.now

/-- A step that starts no attempt and no sleep. -/
theorem Paced.congr (h : Paced w) {w' : Reception} (ha : w'.attempts = w.attempts)
    (hn : w.now ≤ w'.now) (hs : ∀ t, w'.task = .sleep t → w.task = .sleep t)
    (hc : w'.task = .check → w'.conn = none → w.task = .check ∧ w.conn = none) : Paced w' where
  spaced := ha ▸ h.spaced
  begun a hm := (h.begun a (ha ▸ hm)).trans hn
  asleep t ht := by
    obtain ⟨hsoon, hlate⟩ := h.asleep t (hs t ht)
    exact ⟨hsoon.trans (Nat.add_le_add_right hn 6000), ha ▸ hlate⟩
  awake ht hno a hm := by
    obtain ⟨ht, hno⟩ := hc ht hno
    exact (h.awake ht hno a (ha ▸ hm)).trans hn

theorem Paced.step (h : Paced w) {w' : Reception} (hw : S.Receives w w') : Paced w' := by
  cases hw with
  | stay => exact h
  | tick d => exact h.congr rfl (Nat.le_add_right _ d) (fun _ => id) (fun ht hc => ⟨ht, hc⟩)
  | heard ha hc => exact h.congr rfl (le_refl _) (fun _ => id) (fun _ hno => nomatch hno)
  | missed a => exact h.congr rfl (le_refl _) (fun _ => id) (fun ht hc => ⟨ht, hc⟩)
  | lost n hc => exact h.congr rfl (le_refl _) (fun _ => id) (fun _ hno => nomatch hno)
  | stop hs => exact h.congr rfl (le_refl _) (fun _ ht => nomatch ht) (fun ht => nomatch ht)
  | resume ht hc => exact h.congr rfl (le_refl _) (fun _ ht => nomatch ht) (fun ht => nomatch ht)
  | attempt ht hc =>
    refine ⟨?_, ?_, (fun _ ht => nomatch ht), fun ht => nomatch ht⟩
    · refine List.pairwise_append.mpr ⟨h.spaced, List.pairwise_singleton _ _, ?_⟩
      intro a ha b hb
      rw [List.mem_singleton.mp hb]
      exact h.awake ht hc a ha
    · intro a ha
      rcases List.mem_append.mp ha with ha | ha
      · exact h.begun a ha
      · exact le_of_eq (List.mem_singleton.mp ha)
  | connect ht => exact h.congr rfl (le_refl _) (fun _ ht => nomatch ht) (fun ht => nomatch ht)
  | subscribe ht => exact h.congr rfl (le_refl _) (fun _ ht => nomatch ht) (fun ht => nomatch ht)
  | confirm ht => exact h.congr rfl (le_refl _) (fun _ ht => nomatch ht) (fun ht => nomatch ht)
  | look ht => exact h.congr rfl (le_refl _) (fun _ ht => nomatch ht) (fun ht => nomatch ht)
  | @read raw rest up ht hc =>
    refine h.congr rfl (le_refl _) ?_ ?_
    · dsimp only
      cases S.deliver raw <;> exact fun _ ht => nomatch ht
    · dsimp only
      cases S.deliver raw <;> exact fun ht => nomatch ht
  | send ht hs => exact h.congr rfl (le_refl _) (fun _ ht => nomatch ht) (fun ht => nomatch ht)
  | pause entropy ht =>
    obtain ⟨hlong, hshort⟩ := pauseMs_mem entropy
    refine ⟨h.spaced, h.begun, ?_, fun ht => nomatch ht⟩
    rintro t ⟨⟩
    refine ⟨Nat.add_le_add_left hshort _, fun a ha => ?_⟩
    have hbegun : a ≤ w.now := h.begun a ha
    exact Nat.add_le_add hbegun hlong
  | @wake t ht hwake =>
    refine ⟨h.spaced, h.begun, (fun _ ht => nomatch ht), fun _ _ a ha => ?_⟩
    exact ((h.asleep t ht).2 a ha).trans hwake
  | yield hq => exact h.congr rfl (le_refl _) (fun _ => id) (fun ht hc => ⟨ht, hc⟩)
  | drop => exact h.congr rfl (le_refl _) (fun _ => id) (fun ht hc => ⟨ht, hc⟩)

theorem paced_final (S : Subscription) (es : List ReceptionEvent) :
    Paced (S.reception.final Reception.start es) := by
  refine S.reception.inv_final (G := fun _ _ => True)
    (fun w e h _ => h.step (S := S) (reception_receives w e))
    ⟨.nil, (fun a ha => nomatch ha), (fun _ ht => nomatch ht), fun _ _ a ha => nomatch ha⟩
    (System.along_of_mem _ (fun _ _ => trivial))

/-- What anybody does but the task leaves the task where it stands. -/
theorem task_of_others (w : Reception) {e : ReceptionEvent} (he : ∀ ok n, e ≠ .task ok n) :
    (S.reception.step w e).2.task = w.task := by
  have hover : ∀ channel a raw, (S.overhear w channel a raw).task = w.task := by
    intro channel a raw
    unfold overhear
    split
    · split <;> rfl
    · rfl
  cases e with
  | tick d => rfl
  | publish p topic rk payload fault =>
    show (S.publishOver w p topic rk payload fault).task = w.task
    unfold publishOver
    split
    · rfl
    · split
      · exact hover _ _ _
      · rfl
  | foreign channel bytes => exact hover _ _ _
  | lose n => rfl
  | task ok n => exact absurd rfl (he ok n)
  | next =>
    show (take w).task = w.task
    unfold take
    split <;> rfl
  | dropStream => rfl

/-- **A sleep begins** for four to six seconds. -/
theorem sleep_begins {w' : Reception} (hw : S.Receives w w') (hno : ∀ t, w.task ≠ .sleep t) {t : ℕ}
    (ht : w'.task = .sleep t) : w.now + 4000 ≤ t ∧ t ≤ w.now + 6000 := by
  cases hw with
  | pause entropy hp =>
    obtain ⟨hlong, hshort⟩ := pauseMs_mem entropy
    obtain rfl : w.now + pauseMs entropy = t := by simpa [pause] using ht
    exact ⟨Nat.add_le_add_left hlong _, Nat.add_le_add_left hshort _⟩
  | @read raw rest up hr hc =>
    dsimp only at ht
    cases hd : S.deliver raw <;> rw [hd] at ht <;> cases ht
  | stay => exact absurd ht (hno t)
  | tick d => exact absurd ht (hno t)
  | heard ha hc => exact absurd ht (hno t)
  | missed a => exact absurd ht (hno t)
  | lost n hc => exact absurd ht (hno t)
  | yield hq => exact absurd ht (hno t)
  | drop => exact absurd ht (hno t)
  | stop hs => cases ht
  | resume hr hc => cases ht
  | attempt hr hc => cases ht
  | connect hr => cases ht
  | subscribe hr => cases ht
  | confirm hr => cases ht
  | look hr => cases ht
  | send hr hs => cases ht
  | wake hr hwake => cases ht

/-- **A sleep ends** when its time has come. -/
theorem sleep_ends (w : Reception) (e : ReceptionEvent) {t : ℕ} (ht : w.task = .sleep t) :
    (S.reception.step w e).2.task = .sleep t ∨ t ≤ w.now := by
  by_cases he : ∀ ok n, e ≠ .task ok n
  · exact Or.inl ((task_of_others w he).trans ht)
  · push Not at he
    obtain ⟨ok, n, rfl⟩ := he
    show (S.taskStep w ok n).task = .sleep t ∨ _
    rw [taskStep, ht]
    dsimp only
    split
    · next hw => exact Or.inr hw
    · exact Or.inl ht

/-- **A subscription does not hammer the server.** In every run, however often
the connection breaks, however often connecting fails and whatever the clock
says: its attempts to connect again are at least four seconds apart, so that
in any `4 n` seconds there are at most `n`; a step that puts it to sleep does so
for four to six seconds, and no step wakes it before they are over. -/
theorem attempts_spaced (S : Subscription) (es : List ReceptionEvent) :
    (S.reception.final Reception.start es).attempts.Pairwise (fun a b => a + 4000 ≤ b)
      ∧ (∀ t n, ((S.reception.final Reception.start es).attempts.filter
        (fun a => t ≤ a ∧ a < t + 4000 * n)).length ≤ n)
      ∧ (∀ t, (S.reception.final Reception.start es).task = .sleep t →
        t ≤ (S.reception.final Reception.start es).now + 6000)
      ∧ (∀ e t, (∀ t', (S.reception.final Reception.start es).task ≠ .sleep t') →
        (S.reception.final Reception.start (es ++ [e])).task = .sleep t →
        (S.reception.final Reception.start es).now + 4000 ≤ t
          ∧ t ≤ (S.reception.final Reception.start es).now + 6000)
      ∧ ∀ e t, (S.reception.final Reception.start es).task = .sleep t →
        (S.reception.final Reception.start (es ++ [e])).task = .sleep t
          ∨ t ≤ (S.reception.final Reception.start es).now := by
  have hpaced := paced_final S es
  refine ⟨hpaced.spaced, fun t n => ?_, fun t ht => (hpaced.asleep t ht).1, fun e t hno ht => ?_,
    fun e t ht => ?_⟩
  · refine length_le_of_spaced (g := 4000) (t := t) (hpaced.spaced.filter _) (fun a ha => ?_)
    simpa using (List.mem_filter.mp ha).2
  · rw [System.final_append] at ht
    exact sleep_begins (reception_receives (S := S) _ e) hno ht
  · rw [System.final_append]
    exact sleep_ends _ e ht

/-! ## A stream that is dropped -/

/-- **The task waits on a connection that is up**, with nothing to read. -/
def Stranded (w : Reception) : Prop := w.task = .read ∧ w.conn = some ⟨[], true⟩

/-- **Nothing comes over the subscription's connection**: time passes, the task
goes on whether what it asks of the server succeeds or not, the consumer does
what it does, and what is published is for other channels. -/
def Quiet (S : Subscription) : ReceptionEvent → Prop
  | .tick _ => True
  | .task _ _ => True
  | .next => True
  | .dropStream => True
  | .publish p topic rk payload _ =>
    ∀ channel wire, publishAsync p topic rk payload = .ok (channel, wire) → channel ≠ S.channel
  | .foreign channel _ => channel ≠ S.channel
  | .lose _ => False

/-- The task goes on. -/
def IsTask (e : ReceptionEvent) : Prop := ∃ ok entropy, e = .task ok entropy

/-- **A quiet turn**: quiet steps in any order, with one of the task's or more
among them. -/
def QuietTurn (S : Subscription) (es : List ReceptionEvent) : Prop :=
  (∀ e ∈ es, S.Quiet e) ∧ ∃ e ∈ es, IsTask e

/-- How long a step takes. -/
def takes : ReceptionEvent → ℕ
  | .tick d => d
  | _ => 0

/-- How long some steps take. -/
def elapsed (es : List ReceptionEvent) : ℕ := (es.map takes).sum

/-- **The task goes on for long enough**: three quiet turns, a quiet time of six
seconds, whatever happens in it, and two more turns. -/
structure GoesOnFor (S : Subscription) (first : List (List ReceptionEvent))
    (wait : List ReceptionEvent) (last : List (List ReceptionEvent)) : Prop where
  before : ∀ es ∈ first, S.QuietTurn es
  three : 3 ≤ first.length
  quiet : ∀ e ∈ wait, S.Quiet e
  long : 6000 ≤ elapsed wait
  after : ∀ es ∈ last, S.QuietTurn es
  two : 2 ≤ last.length

/-- It is quiet all along. -/
theorem GoesOnFor.all_quiet {first last : List (List ReceptionEvent)} {wait : List ReceptionEvent}
    (h : S.GoesOnFor first wait last) :
    ∀ e ∈ first.flatten ++ wait ++ last.flatten, S.Quiet e := by
  intro e he
  rcases List.mem_append.mp he with he | he
  · rcases List.mem_append.mp he with he | he
    · obtain ⟨es, hes, he⟩ := List.mem_flatten.mp he
      exact (h.before es hes).1 e he
    · exact h.quiet e he
  · obtain ⟨es, hes, he⟩ := List.mem_flatten.mp he
    exact (h.after es hes).1 e he

/-- How much is left to a task whose stream is dropped. -/
def turnsLeft : SubscriptionTask → ℕ
  | .ended => 0
  | .check | .look | .send _ => 1
  | .sleep _ => 2
  | .read | .confirm => 3
  | .subscribe => 4
  | .connect => 5

/-- A stream is dropped, and its task is not stranded. -/
structure Leaving (w : Reception) : Prop where
  dropped : w.streamed = false
  wired : Wired w
  soon : ∀ t, w.task = .sleep t → t ≤ w.now + 6000
  free : ¬ Stranded w

/-- **What a step of the task leaves of it**: the task ends, has less left, or
sleeps on. -/
theorem Leaving.taskStep (h : Leaving w) (ok : Bool) (entropy : ℕ) :
    Leaving (S.taskStep w ok entropy)
      ∧ ((S.taskStep w ok entropy).task = .ended
        ∨ w.task ≠ .ended ∧ turnsLeft (S.taskStep w ok entropy).task < turnsLeft w.task
        ∨ ∃ t, w.task = .sleep t ∧ w.now < t ∧ S.taskStep w ok entropy = w) := by
  obtain ⟨hs, hwired, hsoon, hfree⟩ := h
  have hwired' : Wired (S.taskStep w ok entropy) := hwired.step (taskStep_receives ok entropy)
  have hno : ¬ w.streamed = true := by simp [hs]
  have hslept : Leaving (pause w entropy) := by
    refine ⟨hs, rfl, ?_, fun hst => nomatch hst.1⟩
    rintro t ⟨⟩
    exact Nat.add_le_add_left (pauseMs_mem entropy).2 _
  have hstop : Leaving (stop w) :=
    ⟨hs, rfl, (fun _ ht => nomatch ht), fun hst => nomatch hst.1⟩
  revert hwired'
  unfold Subscription.taskStep
  cases ht : w.task with
  | check =>
    dsimp only
    rw [if_neg hno]
    exact fun _ => ⟨hstop, Or.inl rfl⟩
  | connect =>
    cases ok with
    | true =>
      exact fun hwired' => ⟨⟨hs, hwired', (fun _ ht => nomatch ht), fun hst => nomatch hst.1⟩,
        Or.inr (Or.inl ⟨by simp, Nat.lt_succ_self 4⟩)⟩
    | false => exact fun _ => ⟨hslept, Or.inr (Or.inl ⟨by simp, (by decide : 2 < 5)⟩)⟩
  | subscribe =>
    cases ok with
    | true =>
      exact fun hwired' => ⟨⟨hs, hwired', (fun _ ht => nomatch ht), fun hst => nomatch hst.1⟩,
        Or.inr (Or.inl ⟨by simp, Nat.lt_succ_self 3⟩)⟩
    | false => exact fun _ => ⟨hslept, Or.inr (Or.inl ⟨by simp, (by decide : 2 < 4)⟩)⟩
  | confirm =>
    cases ok with
    | true =>
      exact fun hwired' => ⟨⟨hs, hwired', (fun _ ht => nomatch ht), fun hst => nomatch hst.1⟩,
        Or.inr (Or.inl ⟨by simp, (by decide : 1 < 3)⟩)⟩
    | false => exact fun _ => ⟨hslept, Or.inr (Or.inl ⟨by simp, Nat.lt_succ_self 2⟩)⟩
  | look =>
    dsimp only
    rw [if_neg hno]
    exact fun _ => ⟨hstop, Or.inl rfl⟩
  | read =>
    rw [Wired, ht] at hwired
    obtain ⟨⟨l, up⟩, hc⟩ := Option.isSome_iff_exists.mp hwired
    rw [hc]
    cases l with
    | nil =>
      cases up with
      | true => exact absurd ⟨ht, hc⟩ hfree
      | false => exact fun _ => ⟨hslept, Or.inr (Or.inl ⟨by simp, Nat.lt_succ_self 2⟩)⟩
    | cons raw rest =>
      -- a message that is read is not waited for
      intro hwired'
      refine ⟨⟨hs, hwired', ?_, ?_⟩, Or.inr (Or.inl ⟨by simp, ?_⟩)⟩
      · dsimp only
        cases S.deliver raw <;> exact fun _ ht => nomatch ht
      · rintro ⟨ht, -⟩
        revert ht
        dsimp only
        cases S.deliver raw <;> exact fun ht => nomatch ht
      · dsimp only
        cases S.deliver raw <;> exact (by decide : 1 < 3)
  | send m =>
    dsimp only
    rw [if_neg hno]
    exact fun _ => ⟨hstop, Or.inl rfl⟩
  | sleep t =>
    dsimp only
    by_cases hdue : t ≤ w.now
    · rw [if_pos hdue]
      exact fun hwired' => ⟨⟨hs, hwired', (fun _ ht => nomatch ht), fun hst => nomatch hst.1⟩,
        Or.inr (Or.inl ⟨by simp, Nat.lt_succ_self 1⟩)⟩
    · rw [if_neg hdue]
      exact fun _ => ⟨⟨hs, hwired, hsoon, hfree⟩,
        Or.inr (Or.inr ⟨t, rfl, Nat.lt_of_not_le hdue, rfl⟩)⟩
  | ended =>
    exact fun _ => ⟨⟨hs, hwired, (fun t ht' => nomatch ht.symm.trans ht'), hfree⟩, Or.inl ht⟩

/-- What is published for another channel does nothing. -/
theorem publishOver_quiet {p topic : String} {rk : Option String} {payload : List UInt8}
    {fault : Option (Bool × String)} (he : S.Quiet (.publish p topic rk payload fault)) :
    S.publishOver w p topic rk payload fault = w := by
  unfold publishOver
  split
  · rfl
  · next channel wire hp =>
    rw [overhear, if_neg (he channel wire hp), ite_self]

/-- **What a quiet step does** that is not the task's. -/
theorem Leaving.quiet (h : Leaving w) {e : ReceptionEvent} (he : S.Quiet e) (hno : ¬ IsTask e) :
    Leaving (S.reception.step w e).2 ∧ (S.reception.step w e).2.task = w.task := by
  have htask := task_of_others (S := S) w (e := e) (fun ok n heq => hno ⟨ok, n, heq⟩)
  have hwired := h.wired.step (reception_receives (S := S) w e)
  obtain ⟨hs, hconn, hnow⟩ : (S.reception.step w e).2.streamed = false
      ∧ (S.reception.step w e).2.conn = w.conn ∧ w.now ≤ (S.reception.step w e).2.now := by
    cases e with
    | tick d => exact ⟨h.dropped, rfl, Nat.le_add_right _ d⟩
    | publish p topic rk payload fault =>
      have hsame : S.publishOver w p topic rk payload fault = w := publishOver_quiet he
      exact ⟨(congrArg Reception.streamed hsame).trans h.dropped, congrArg Reception.conn hsame,
        le_of_eq (congrArg Reception.now hsame).symm⟩
    | foreign channel bytes =>
      have hsame : S.overhear w channel (.foreign bytes) bytes = w := if_neg he
      exact ⟨(congrArg Reception.streamed hsame).trans h.dropped, congrArg Reception.conn hsame,
        le_of_eq (congrArg Reception.now hsame).symm⟩
    | lose n => exact he.elim
    | task ok n => exact absurd ⟨ok, n, rfl⟩ hno
    | next =>
      show (take w).streamed = _ ∧ (take w).conn = _ ∧ w.now ≤ (take w).now
      unfold take
      split <;> exact ⟨h.dropped, rfl, le_refl _⟩
    | dropStream => exact ⟨rfl, rfl, le_refl _⟩
  refine ⟨⟨hs, hwired, fun t ht => ?_, fun hst => h.free ⟨htask ▸ hst.1, hconn ▸ hst.2⟩⟩, htask⟩
  exact (h.soon t (htask ▸ ht)).trans (Nat.add_le_add_right hnow _)

/-- **What any quiet step leaves of it**: it ends, or has no more left, and less
after a step of the task unless it sleeps on. -/
theorem Leaving.step (h : Leaving w) {e : ReceptionEvent} (he : S.Quiet e) :
    Leaving (S.reception.step w e).2
      ∧ ((S.reception.step w e).2.task = w.task
          ∧ (IsTask e → w.task = .ended ∨ ∃ t, w.task = .sleep t ∧ w.now < t)
        ∨ (S.reception.step w e).2.task = .ended
        ∨ turnsLeft (S.reception.step w e).2.task < turnsLeft w.task) := by
  by_cases htask : IsTask e
  · obtain ⟨ok, n, rfl⟩ := htask
    obtain ⟨hleaving, hmove⟩ := h.taskStep (S := S) ok n
    refine ⟨hleaving, ?_⟩
    rcases hmove with hend | ⟨-, hless⟩ | ⟨t, ht, hlate, hsame⟩
    · exact Or.inr (Or.inl hend)
    · exact Or.inr (Or.inr hless)
    · exact Or.inl ⟨congrArg Reception.task hsame, fun _ => Or.inr ⟨t, ht, hlate⟩⟩
  · obtain ⟨hleaving, hsame⟩ := h.quiet he htask
    exact ⟨hleaving, Or.inl ⟨hsame, fun hno => absurd hno htask⟩⟩

/-- The task sleeps, or is where it looks whether its stream is there, or has
ended. -/
def Rested (w : Reception) : Prop := turnsLeft w.task ≤ 2

/-- **It comes to rest** within three turns. -/
theorem Leaving.rests (h : Leaving w) {turns : List (List ReceptionEvent)}
    (ht : ∀ es ∈ turns, S.QuietTurn es) (hn : 3 ≤ turns.length) :
    Leaving (S.reception.final w turns.flatten) ∧ Rested (S.reception.final w turns.flatten) := by
  refine S.reception.done_of_steps (I := Leaving) (D := Rested) (fun w => turnsLeft w.task - 3)
    (fun w e hw he => ?_) h ht ?_
  · obtain ⟨hleaving, hmove⟩ := hw.step he
    refine ⟨hleaving, ?_⟩
    unfold Rested
    rcases hmove with ⟨hsame, hwork⟩ | hend | hless
    · rw [hsame]
      by_cases hrest : turnsLeft w.task ≤ 2
      · exact Or.inl hrest
      · refine Or.inr ⟨hrest, le_refl _, fun htask => absurd ?_ hrest⟩
        rcases hwork htask with hend | ⟨t, hsleep, -⟩
        · rw [hend]
          exact Nat.zero_le 2
        · rw [hsleep]
          exact le_refl 2
    · rw [hend]
      exact Or.inl (Nat.zero_le 2)
    · by_cases hrest : turnsLeft (S.reception.step w e).2.task ≤ 2
      · exact Or.inl hrest
      · exact Or.inr (by omega)
  · have hle : turnsLeft w.task ≤ 5 := by cases w.task <;> simp [turnsLeft]
    omega

/-- **It is at rest**, and if it sleeps it wakes by `t₀`. -/
structure Resting (t₀ : ℕ) (w : Reception) : Prop where
  leaving : Leaving w
  rested : Rested w
  due : ∀ t, w.task = .sleep t → t ≤ t₀

/-- What is at rest stays so, and sleeps once. -/
theorem Resting.step {t₀ : ℕ} (h : Resting t₀ w) {e : ReceptionEvent} (he : S.Quiet e) :
    Resting t₀ (S.reception.step w e).2 := by
  obtain ⟨hleaving, hmove⟩ := h.leaving.step he
  refine ⟨hleaving, ?_, fun t ht => ?_⟩
  · rcases hmove with ⟨hsame, -⟩ | hend | hless
    · exact (congrArg turnsLeft hsame).trans_le h.rested
    · exact (congrArg turnsLeft hend).trans_le (Nat.zero_le 2)
    · exact hless.le.trans h.rested
  · rcases hmove with ⟨hsame, -⟩ | hend | hless
    · exact h.due t (hsame.symm.trans ht)
    · exact absurd (hend.symm.trans ht) (by simp)
    · have hrest := h.rested
      rw [ht] at hless
      exact absurd (lt_of_lt_of_le hless hrest) (lt_irrefl 2)

/-- No step turns the clock back. -/
theorem now_le_of_receives {w' : Reception} (hw : S.Receives w w') : w.now ≤ w'.now := by
  cases hw with
  | tick d => exact Nat.le_add_right _ d
  | _ => exact le_refl _

/-- The clock goes on by what the steps take. -/
theorem elapsed_le (S : Subscription) (w : Reception) (es : List ReceptionEvent) :
    w.now + elapsed es ≤ (S.reception.final w es).now := by
  induction es generalizing w with
  | nil => exact le_refl _
  | cons e es ih =>
    have hstep : w.now + takes e ≤ (S.reception.step w e).2.now := by
      cases e with
      | tick d => exact le_refl _
      | _ => exact now_le_of_receives (reception_receives (S := S) w _)
    calc
      w.now + elapsed (e :: es) = w.now + takes e + elapsed es := by
        rw [elapsed, List.map_cons, List.sum_cons, ← Nat.add_assoc]
        rfl
      _ ≤ (S.reception.step w e).2.now + elapsed es := Nat.add_le_add_right hstep _
      _ ≤ (S.reception.final w (e :: es)).now := ih _

/-- **What is at rest ends** within two turns, when its sleep is over. -/
theorem Resting.ends {t₀ : ℕ} (h : Resting t₀ w) (hdue : t₀ ≤ w.now)
    {turns : List (List ReceptionEvent)} (ht : ∀ es ∈ turns, S.QuietTurn es)
    (hn : 2 ≤ turns.length) : (S.reception.final w turns.flatten).task = .ended := by
  refine (S.reception.done_of_steps (I := fun w => Resting t₀ w ∧ t₀ ≤ w.now)
    (D := fun w => w.task = .ended) (fun w => turnsLeft w.task - 1) (fun w e hw he => ?_)
    ⟨h, hdue⟩ ht ?_).2
  · obtain ⟨hrest, hlate⟩ := hw
    have hnow := now_le_of_receives (reception_receives (S := S) w e)
    refine ⟨⟨hrest.step he, hlate.trans hnow⟩, ?_⟩
    have hleft := hrest.rested
    unfold Rested at hleft
    rcases (hrest.leaving.step he).2 with ⟨hsame, hwork⟩ | hend | hless
    · rw [hsame]
      by_cases hended : w.task = .ended
      · exact Or.inl hended
      · refine Or.inr ⟨hended, le_refl _, fun htask => ?_⟩
        rcases hwork htask with hend | ⟨t, hsleep, hbefore⟩
        · exact absurd hend hended
        · exact absurd ((hrest.due t hsleep).trans hlate) (Nat.not_le_of_lt hbefore)
    · exact Or.inl hend
    · by_cases hend : (S.reception.step w e).2.task = .ended
      · exact Or.inl hend
      · have hpos : 0 < turnsLeft (S.reception.step w e).2.task := by
          revert hend
          cases (S.reception.step w e).2.task <;> simp [turnsLeft]
        refine Or.inr ⟨fun hended => ?_, by omega, fun _ => by omega⟩
        rw [hended] at hless
        exact absurd hless (Nat.not_lt_zero _)
  · have hleft := h.rested
    unfold Rested at hleft
    omega

/-- **A task that is not stranded ends** when it goes on for long enough. -/
theorem Leaving.ends (h : Leaving w) {first last : List (List ReceptionEvent)}
    {wait : List ReceptionEvent} (hes : S.GoesOnFor first wait last) :
    (S.reception.final w (first.flatten ++ wait ++ last.flatten)).task = .ended := by
  obtain ⟨hleaving, hrested⟩ := h.rests hes.before hes.three
  rw [System.final_append, System.final_append]
  generalize S.reception.final w first.flatten = v at hleaving hrested ⊢
  have hresting : Resting (v.now + 6000) (S.reception.final v wait) :=
    S.reception.inv_final (fun _ _ hI he => hI.step he)
      ⟨hleaving, hrested, hleaving.soon⟩ (S.reception.along_of_mem hes.quiet)
  exact hresting.ends ((Nat.add_le_add_left hes.long _).trans (elapsed_le S v wait)) hes.after
    hes.two

/-- A stranded task stays where it is. -/
theorem Stranded.step (h : Stranded w) {e : ReceptionEvent} (he : S.Quiet e) :
    Stranded (S.reception.step w e).2 := by
  cases e with
  | tick d => exact h
  | task ok n =>
    have hstay : S.taskStep w ok n = w := by
      rw [taskStep, h.1, h.2]
    show Stranded (S.taskStep w ok n)
    rw [hstay]
    exact h
  | next =>
    show Stranded (take w)
    unfold take
    split <;> exact h
  | dropStream => exact h
  | publish p topic rk payload fault =>
    show Stranded (S.publishOver w p topic rk payload fault)
    rw [publishOver_quiet he]
    exact h
  | foreign channel bytes =>
    show Stranded (S.overhear w channel (.foreign bytes) bytes)
    rw [overhear, if_neg he]
    exact h
  | lose n => exact he.elim

/-- Nothing comes out of a stream that is dropped. -/
theorem yielded_of_dropped (hs : w.streamed = false) (hq : w.queue = [])
    (fs : List ReceptionEvent) : (S.reception.final w fs).yielded = w.yielded := by
  refine (S.reception.inv_final (G := fun _ _ => True)
    (I := fun v => v.streamed = false ∧ v.queue = [] ∧ v.yielded = w.yielded)
    (fun v e h _ => ?_) ⟨hs, hq, rfl⟩ (System.along_of_mem _ (fun _ _ => trivial))).2.2
  have hno : ¬ v.streamed = true := by simp [h.1]
  have hv := reception_receives (S := S) v e
  generalize (S.reception.step v e).2 = v' at hv ⊢
  cases hv with
  | send ht hs => exact absurd hs hno
  | yield hq => exact absurd (h.2.1.symm.trans hq) (by simp)
  | drop => exact ⟨rfl, rfl, h.2.2⟩
  | stay => exact h
  | tick d => exact h
  | heard ha hc => exact h
  | missed a => exact h
  | lost n hc => exact h
  | stop hs => exact h
  | resume ht hc => exact h
  | attempt ht hc => exact h
  | connect ht => exact h
  | subscribe ht => exact h
  | confirm ht => exact h
  | look ht => exact h
  | read ht hc => exact h
  | pause entropy ht => exact h
  | wake ht hwake => exact h

/-- **When the task of a dropped stream ends.** In every run after which the
consumer has dropped its stream: nothing comes out any more; whatever the server
answers, the task ends once it has gone on for long enough, with as much time
between its steps as there may be, if and only if it is not waiting on a
connection that is up with nothing to read; and if it is, it waits on, with its
connection, until the next message of the channel or until the connection
breaks, and then ends. -/
theorem ends_after_drop_iff (S : Subscription) (es : List ReceptionEvent)
    (hdrop : (S.reception.final Reception.start es).streamed = false) :
    (∀ fs, (S.reception.final Reception.start (es ++ fs)).yielded
        = (S.reception.final Reception.start es).yielded)
      ∧ ((∀ first wait last, S.GoesOnFor first wait last →
          (S.reception.final Reception.start
            (es ++ (first.flatten ++ wait ++ last.flatten))).task = .ended)
        ↔ ¬ Stranded (S.reception.final Reception.start es))
      ∧ (Stranded (S.reception.final Reception.start es) →
        (∀ fs, (∀ e ∈ fs, S.Quiet e) → Stranded (S.reception.final Reception.start (es ++ fs)))
        ∧ ∀ e, (∃ n, e = .lose n) ∨ (∃ bytes, e = .foreign S.channel bytes) →
          ∀ first wait last, S.GoesOnFor first wait last →
            (S.reception.final Reception.start
              (es ++ e :: (first.flatten ++ wait ++ last.flatten))).task = .ended) := by
  have hkept := kept_final S es
  have hpaced := paced_final S es
  obtain ⟨_, _, _, _, htold⟩ := hkept.told
  have hwaits : Stranded (S.reception.final Reception.start es) → ∀ fs, (∀ e ∈ fs, S.Quiet e) →
      Stranded (S.reception.final Reception.start (es ++ fs)) := by
    intro hst fs hfs
    rw [System.final_append]
    exact S.reception.inv_final (fun _ _ hI he => hI.step he) hst (S.reception.along_of_mem hfs)
  refine ⟨fun fs => ?_, ⟨fun hends hst => ?_, fun hfree first wait last hfs => ?_⟩, fun hst =>
    ⟨hwaits hst, ?_⟩⟩
  · rw [System.final_append]
    exact yielded_of_dropped hdrop (htold.dropped hdrop) fs
  · have hturns : ∀ t ∈ List.replicate 3 [ReceptionEvent.task true 0], S.QuietTurn t := by
      intro t ht
      rw [List.eq_of_mem_replicate ht]
      exact ⟨fun e he => by rw [List.mem_singleton.mp he]; trivial,
        _, List.mem_singleton_self _, true, 0, rfl⟩
    have hwait : ∀ e ∈ [ReceptionEvent.tick 6000], S.Quiet e := by
      intro e he
      rw [List.mem_singleton.mp he]
      trivial
    have hfor : S.GoesOnFor (List.replicate 3 [.task true 0]) [.tick 6000]
        (List.replicate 3 [.task true 0]) :=
      ⟨hturns, le_refl _, hwait, le_refl _, hturns, Nat.le_succ 2⟩
    refine absurd (hends _ _ _ hfor) (fun hend => ?_)
    have hstays := hwaits hst _ hfor.all_quiet
    exact nomatch hend.symm.trans hstays.1
  · rw [System.final_append]
    exact Leaving.ends ⟨hdrop, hkept.wired, fun t ht => (hpaced.asleep t ht).1, hfree⟩ hfs
  · intro e he first wait last hfs
    rw [System.final_append]
    show (S.reception.final (S.reception.step (S.reception.final Reception.start es) e).2
      (first.flatten ++ wait ++ last.flatten)).task = .ended
    have hwired := hkept.wired.step (S := S)
      (reception_receives (S.reception.final Reception.start es) e)
    have hpaced' := hpaced.step (S := S)
      (reception_receives (S.reception.final Reception.start es) e)
    generalize S.reception.final Reception.start es = w at hdrop hst hwired hpaced'
    refine Leaving.ends ⟨?_, hwired, fun t ht => (hpaced'.asleep t ht).1, ?_⟩ hfs
    · rcases he with ⟨n, rfl⟩ | ⟨bytes, rfl⟩
      · exact hdrop
      · show (S.overhear w S.channel (.foreign bytes) bytes).streamed = false
        rw [overhear, if_pos rfl, hst.2]
        exact hdrop
    · rintro ⟨-, hc⟩
      rcases he with ⟨n, rfl⟩ | ⟨bytes, rfl⟩
      · replace hc : w.conn.map (fun c => (⟨c.unread.take n, false⟩ : PubSubConn))
          = some ⟨[], true⟩ := hc
        rw [hst.2] at hc
        simp at hc
      · replace hc : (S.overhear w S.channel (.foreign bytes) bytes).conn = some ⟨[], true⟩ := hc
        rw [overhear, if_pos rfl, hst.2] at hc
        cases hc

/-- A stream that is dropped before its task looks, and one that is dropped
while it waits; the task's steps follow one another at once, but for a pause. -/
theorem ends_after_drop_both :
    (anyMessage.reception.final Reception.start
        ([.lose 0, .task true 0, .task true 0, .task true 0, .dropStream]
          ++ ([[.task true 0], [.tick 1, .task false 0], [.task false 0]].flatten
            ++ [.tick 4000, .task true 0, .tick 2000]
            ++ [[.task true 0], [.next, .task true 0]].flatten))).task = .ended
      ∧ (anyMessage.reception.final Reception.start ([.task true 0, .task true 0, .dropStream]
        ++ [.tick 6000, .task true 0, .foreign "q" [], .task true 0])).conn
          = some ⟨[], true⟩ := by
  constructor
  · refine (ends_after_drop_iff anyMessage [.lose 0, .task true 0, .task true 0, .task true 0,
      .dropStream] rfl).2.1.mpr (fun hst => nomatch hst.1) _ _ _ ⟨?_, ?_, ?_, ?_, ?_, ?_⟩
    · simp [QuietTurn, Quiet, IsTask]
    · exact le_refl 3
    · simp [Quiet]
    · exact le_refl 6000
    · simp [QuietTurn, Quiet, IsTask]
    · exact le_refl 2
  · have hother : "q" ≠ anyMessage.channel := by decide
    exact (((ends_after_drop_iff anyMessage [.task true 0, .task true 0, .dropStream]
      rfl).2.2 ⟨rfl, rfl⟩).1 _ (by simp [Quiet, hother])).2

end Subscription
