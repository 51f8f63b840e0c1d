import ClusterRedis.Client
import ClusterRedis.Envelope
import ClusterRedis.Runs

/-!
# Publish and subscribe

A publisher wraps its message in an envelope and publishes it on the topic's
channel. A subscription reads the channel in a task of its own: it decodes
each message, leaves out what does not decode and what its filter does not
want, and sends the rest through a queue of bounded length to the consumer
of its stream. While the queue is full the task waits.

`Delivered` says what is to come out of what arrived, in terms of what the
publishers passed and of the format of what others sent. At every moment
what the consumer got, what is queued and what is left to read make exactly
that (`delivered_step`), and reading uses it up (`idle_of_turns`).

The connection stays up here, and the consumer keeps its stream.
-/

/-- **`channel_name`**: the channel of a topic. -/
def channelName (p topic : String) : String := p ++ "topic:" ++ topic

/-- **`publish_async`** up to its request: the channel and the bytes. -/
def publishAsync (p topic : String) (routingKey : Option String) (payload : List UInt8) :
    Except ClusterError (String × List UInt8) :=
  match encode routingKey payload with
  | .ok wire => .ok (channelName p topic, wire)
  | .error e => .error (.internal ("publish envelope: " ++ e.text))

/-- **A message of a stream.** -/
structure PublishedMessage where
  topic : String
  routingKey : Option String
  payload : List UInt8
  fromNode : String
  deriving DecidableEq

/-- What arrived on a channel: a message of a publisher with what it passed,
or bytes of anybody. -/
inductive Arrival where
  | published (routingKey : Option String) (payload : List UInt8)
  | foreign (bytes : List UInt8)

/-- The bytes it came as. -/
def Arrival.Wire : Arrival → List UInt8 → Prop
  | published rk payload, raw => encode rk payload = .ok raw
  | foreign bytes, raw => raw = bytes

/-- **What it carries**: what its publisher passed, or what its bytes are an
envelope of. -/
def Arrival.Carries : Arrival → Option String → List UInt8 → Prop
  | published rk payload, rk', payload' => rk' = rk ∧ payload' = payload
  | foreign bytes, rk, payload => Envelope rk payload bytes

theorem Arrival.carries_iff {a : Arrival} {raw : List UInt8} (h : a.Wire raw)
    {rk : Option String} {payload : List UInt8} :
    a.Carries rk payload ↔ Envelope rk payload raw := by
  cases a with
  | published rk' payload' =>
    have henv : Envelope rk' payload' raw := encode_eq_ok_iff.mp h
    constructor
    · rintro ⟨rfl, rfl⟩
      exact henv
    · exact henv.unique
  | foreign bytes =>
    rw [show raw = bytes from h]
    exact Iff.rfl

/-- **A subscription.** -/
structure Subscription where
  /-- `key_prefix`. -/
  p : String
  topic : String
  /-- `routing_key_filter`. -/
  filter : Option String
  node : String
  /-- How many messages the queue holds. -/
  buffer : ℕ
  buffer_pos : 0 < buffer

/-- What a subscription has read, queued and yielded. -/
structure Feed where
  /-- What has arrived on the channel, in order. -/
  arrived : List Arrival
  /-- The bytes of it that are still to be read. -/
  unread : List (List UInt8)
  /-- A message that waits for room in the queue. -/
  sending : Option PublishedMessage
  queue : List PublishedMessage
  /-- What the consumer has got from the stream. -/
  yielded : List PublishedMessage

/-- One step of a publisher, of anybody else who publishes, of the task or
of the consumer. A publisher's request may fail, before or after it is
carried out, with an error of some text. -/
inductive FeedEvent where
  | publish (p topic : String) (routingKey : Option String) (payload : List UInt8)
      (fault : Option (Bool × String))
  | foreign (channel : String) (bytes : List UInt8)
  | receive
  | send
  | next
  deriving DecidableEq

namespace Feed

/-- Nothing has arrived yet. -/
def start : Feed := ⟨[], [], none, [], []⟩

/-- Nothing is left to read, to send or to consume. -/
def Idle (w : Feed) : Prop := w.unread = [] ∧ w.sending = none ∧ w.queue = []

/-- How much is left to do. -/
def work (w : Feed) : ℕ :=
  3 * w.unread.length + 2 * w.sending.toList.length + w.queue.length

end Feed

namespace Subscription

variable (S : Subscription)

/-- The channel it reads. -/
def channel : String := channelName S.p S.topic

/-- **What the loop makes of a message**: one for the stream, or nothing. -/
def deliver (raw : List UInt8) : Option PublishedMessage :=
  match decode raw with
  | .error _ => none
  | .ok (rk, payload) => match S.filter with
    | none => some ⟨S.topic, rk, payload, S.node⟩
    | some want => if rk ≠ some want then none else some ⟨S.topic, rk, payload, S.node⟩

/-- A message is published on a channel. -/
def arrive (w : Feed) (channel : String) (a : Arrival) (raw : List UInt8) : Feed :=
  if channel = S.channel then
    { w with arrived := w.arrived ++ [a], unread := w.unread ++ [raw] }
  else w

/-- `publish_async`, with its answer. -/
def publish (w : Feed) (p topic : String) (rk : Option String) (payload : List UInt8)
    (fault : Option (Bool × String)) : Except ClusterError Unit × Feed :=
  match publishAsync p topic rk payload with
  | .error e => (.error e, w)
  | .ok (channel, wire) => match fault with
    | none => (.ok (), S.arrive w channel (.published rk payload) wire)
    | some (reached, e) =>
      (.error (.backendUnavailable ("PUBLISH `" ++ channel ++ "`: " ++ e)),
        if reached then S.arrive w channel (.published rk payload) wire else w)

/-- The task takes its next message. -/
def receive (w : Feed) : Feed :=
  match w.sending, w.unread with
  | none, raw :: rest => { w with unread := rest, sending := S.deliver raw }
  | _, _ => w

/-- The message that waits is put into the queue, when there is room. -/
def send (w : Feed) : Feed :=
  match w.sending with
  | some m => if w.queue.length < S.buffer then
      { w with sending := none, queue := w.queue ++ [m] }
    else w
  | none => w

/-- The consumer takes the next message of its stream. -/
def next (w : Feed) : Feed :=
  match w.queue with
  | m :: rest => { w with queue := rest, yielded := w.yielded ++ [m] }
  | [] => w

/-- **The subscription and its surroundings.** -/
def system : System Feed FeedEvent (Option (Except ClusterError Unit)) where
  step w
    | .publish p topic rk payload fault =>
      (some (S.publish w p topic rk payload fault).1, (S.publish w p topic rk payload fault).2)
    | .foreign channel bytes => (none, S.arrive w channel (.foreign bytes) bytes)
    | .receive => (none, S.receive w)
    | .send => (none, S.send w)
    | .next => (none, next w)

/-- **What a message that arrived becomes** in the stream: it carries a
routing key that the filter wants, and a payload. -/
def Yields (a : Arrival) (m : PublishedMessage) : Prop :=
  ∃ rk payload, a.Carries rk payload ∧ (∀ f, S.filter = some f → rk = some f)
    ∧ m = ⟨S.topic, rk, payload, S.node⟩

/-- **What comes out of what arrived**, in the same order. -/
inductive Delivered : List Arrival → List PublishedMessage → Prop where
  | nil : Delivered [] []
  | yield {a m as ms} (h : S.Yields a m) (t : Delivered as ms) : Delivered (a :: as) (m :: ms)
  | skip {a as ms} (h : ∀ m, ¬ S.Yields a m) (t : Delivered as ms) : Delivered (a :: as) ms

variable {S} {w : Feed}

/-- **The loop delivers what a message becomes.** -/
theorem deliver_eq_some_iff {a : Arrival} {raw : List UInt8} (h : a.Wire raw)
    {m : PublishedMessage} : S.deliver raw = some m ↔ S.Yields a m := by
  have hcarries : ∀ rk payload, a.Carries rk payload ↔ decode raw = .ok (rk, payload) :=
    fun rk payload => (Arrival.carries_iff h).trans decode_eq_ok_iff.symm
  unfold deliver Yields
  cases hd : decode raw with
  | error e =>
    refine iff_of_false (fun hm => nomatch hm) ?_
    rintro ⟨rk, payload, hc, -⟩
    exact nomatch hd.symm.trans ((hcarries rk payload).mp hc)
  | ok pair =>
    obtain ⟨rk, payload⟩ := pair
    have hone : ∀ rk' payload', a.Carries rk' payload' ↔ rk' = rk ∧ payload' = payload := by
      intro rk' payload'
      rw [hcarries, hd, Except.ok.injEq, Prod.mk.injEq, eq_comm, @eq_comm _ payload]
    simp only [hone]
    cases S.filter with
    | none =>
      constructor
      · intro hm
        refine ⟨rk, payload, ⟨rfl, rfl⟩, ?_, (Option.some.inj hm).symm⟩
        exact fun f hf => nomatch hf
      · rintro ⟨_, _, ⟨rfl, rfl⟩, -, rfl⟩
        rfl
    | some want =>
      by_cases hw : rk = some want
      · simp only [hw, ne_eq, not_true, if_false]
        constructor
        · intro hm
          exact ⟨_, payload, ⟨rfl, rfl⟩, fun f hf => hf ▸ rfl, (Option.some.inj hm).symm⟩
        · rintro ⟨_, _, ⟨rfl, rfl⟩, -, rfl⟩
          rfl
      · simp only [ne_eq, hw, not_false_eq_true, if_true]
        refine iff_of_false (fun hm => nomatch hm) ?_
        rintro ⟨_, _, ⟨rfl, rfl⟩, hf, -⟩
        exact hw (hf want rfl)

namespace Delivered

/-- One more message arrives. -/
theorem concat {as : List Arrival} {ms : List PublishedMessage} (h : S.Delivered as ms)
    {a : Arrival} {raw : List UInt8} (ha : a.Wire raw) :
    S.Delivered (as ++ [a]) (ms ++ (S.deliver raw).toList) := by
  induction h with
  | nil =>
    cases hd : S.deliver raw with
    | some m => exact .yield ((deliver_eq_some_iff ha).mp hd) .nil
    | none =>
      refine .skip (fun m hm => ?_) .nil
      exact nomatch hd.symm.trans ((deliver_eq_some_iff ha).mpr hm)
  | yield hy _ ih => exact .yield hy ih
  | skip hy _ ih => exact .skip hy ih

end Delivered

/-! ## Nothing is lost, doubled or reordered -/

/-- **What is on its way**: what is queued, what waits, and what the loop
will make of what it has not read. -/
def pending (S : Subscription) (w : Feed) : List PublishedMessage :=
  w.queue ++ (w.sending.toList ++ w.unread.filterMap S.deliver)

/-- The consumer has got, or will get, what is to come out. -/
def Accounts (S : Subscription) (w : Feed) : Prop :=
  S.Delivered w.arrived (w.yielded ++ S.pending w)

theorem accounts_arrive (h : S.Accounts w) {channel : String} {a : Arrival} {raw : List UInt8}
    (ha : a.Wire raw) : S.Accounts (S.arrive w channel a raw) := by
  unfold arrive
  split_ifs with hc
  · have hmore := h.concat ha
    show S.Delivered _ (w.yielded ++ (w.queue ++ (w.sending.toList
      ++ (w.unread ++ [raw]).filterMap S.deliver)))
    have hlast : [raw].filterMap S.deliver = (S.deliver raw).toList := by
      rw [List.filterMap_cons]
      cases S.deliver raw with
      | none => rfl
      | some m => rfl
    rw [List.filterMap_append, hlast]
    unfold pending at hmore
    simpa only [List.append_assoc] using hmore
  · exact h

theorem accounts_publish (h : S.Accounts w) (p topic : String) (rk : Option String)
    (payload : List UInt8) (fault : Option (Bool × String)) :
    S.Accounts (S.publish w p topic rk payload fault).2 := by
  unfold publish publishAsync
  cases he : encode rk payload with
  | error e => exact h
  | ok wire =>
    have hsent : S.Accounts (S.arrive w (channelName p topic) (.published rk payload) wire) :=
      accounts_arrive h (a := .published rk payload) he
    rcases fault with _ | ⟨_ | _, e⟩
    · exact hsent
    · exact h
    · exact hsent

/-- **A step of the task or the consumer** moves messages on, and does
something unless it changes nothing. -/
structure Moves (S : Subscription) (w w' : Feed) : Prop where
  arrived : w'.arrived = w.arrived
  kept : w'.yielded ++ S.pending w' = w.yielded ++ S.pending w
  less : w' = w ∨ w'.work < w.work

theorem Moves.stays (S : Subscription) (w : Feed) : S.Moves w w := ⟨rfl, rfl, Or.inl rfl⟩

theorem receive_moves (S : Subscription) (w : Feed) : S.Moves w (S.receive w) := by
  obtain ⟨arrived, unread, sending, queue, yielded⟩ := w
  cases sending with
  | some m => exact .stays S _
  | none =>
    cases unread with
    | nil => exact .stays S _
    | cons raw rest =>
      have hread : (S.deliver raw).toList ++ rest.filterMap S.deliver
          = (raw :: rest).filterMap S.deliver := by
        rw [List.filterMap_cons]
        cases S.deliver raw with
        | none => rfl
        | some m => rfl
      refine ⟨rfl, congrArg (fun l => yielded ++ (queue ++ l)) hread, Or.inr ?_⟩
      have hone : (S.deliver raw).toList.length ≤ 1 := by
        cases S.deliver raw with
        | none => exact Nat.zero_le _
        | some m => exact le_refl _
      show 3 * rest.length + 2 * (S.deliver raw).toList.length + queue.length
        < 3 * (rest.length + 1) + 2 * 0 + queue.length
      omega

theorem send_moves (S : Subscription) (w : Feed) : S.Moves w (S.send w) := by
  obtain ⟨arrived, unread, sending, queue, yielded⟩ := w
  cases sending with
  | none => exact .stays S _
  | some m =>
    by_cases hroom : queue.length < S.buffer
    · have hsend : S.send ⟨arrived, unread, some m, queue, yielded⟩
          = ⟨arrived, unread, none, queue ++ [m], yielded⟩ := if_pos hroom
      rw [hsend]
      refine ⟨rfl, congrArg (yielded ++ ·) ?_, Or.inr ?_⟩
      · exact List.append_assoc queue [m] _
      · show 3 * unread.length + 2 * 0 + (queue ++ [m]).length
          < 3 * unread.length + 2 * 1 + queue.length
        rw [List.length_append, List.length_singleton]
        omega
    · have hsend : S.send ⟨arrived, unread, some m, queue, yielded⟩
          = ⟨arrived, unread, some m, queue, yielded⟩ := if_neg hroom
      rw [hsend]
      exact .stays S _

theorem next_moves (S : Subscription) (w : Feed) : S.Moves w (next w) := by
  obtain ⟨arrived, unread, sending, queue, yielded⟩ := w
  cases queue with
  | nil => exact .stays S _
  | cons m rest =>
    refine ⟨rfl, List.append_assoc yielded [m] _, Or.inr ?_⟩
    show 3 * unread.length + 2 * sending.toList.length + rest.length
      < 3 * unread.length + 2 * sending.toList.length + (rest.length + 1)
    omega

theorem Moves.accounts {w' : Feed} (hm : S.Moves w w') (h : S.Accounts w) : S.Accounts w' := by
  rw [Accounts, hm.arrived, hm.kept]
  exact h

/-- **At every moment what the consumer got and what is on its way make what
is to come out.** -/
theorem accounts_step (w : Feed) (e : FeedEvent) (h : S.Accounts w) :
    S.Accounts (S.system.step w e).2 := by
  cases e with
  | publish p topic rk payload fault => exact accounts_publish h p topic rk payload fault
  | foreign channel bytes => exact accounts_arrive h (a := .foreign bytes) rfl
  | receive => exact (receive_moves S w).accounts h
  | send => exact (send_moves S w).accounts h
  | next => exact (next_moves S w).accounts h

/-! ## The stream does not end -/

/-- A step of the task or of the consumer. -/
def Reads : FeedEvent → Prop
  | .receive | .send | .next => True
  | .publish .. | .foreign .. => False

/-- **A turn**: the task and the consumer take steps in any order, each kind
at least once. -/
def Turn (es : List FeedEvent) : Prop :=
  (∀ e ∈ es, Reads e) ∧ .receive ∈ es ∧ .send ∈ es ∧ .next ∈ es

theorem reads_moves (w : Feed) {e : FeedEvent} (he : Reads e) :
    S.Moves w (S.system.step w e).2 := by
  cases e with
  | publish => exact he.elim
  | foreign => exact he.elim
  | receive => exact receive_moves S w
  | send => exact send_moves S w
  | next => exact next_moves S w

/-- When none of the steps does anything there is nothing left to do. -/
theorem idle_of_stuck (hr : S.receive w = w) (hs : S.send w = w) (hn : next w = w) : w.Idle := by
  obtain ⟨arrived, unread, sending, queue, yielded⟩ := w
  cases queue with
  | cons m rest =>
    exact absurd (congrArg (fun w => w.queue.length) hn) (Nat.ne_of_lt (Nat.lt_succ_self _))
  | nil =>
    cases sending with
    | some m =>
      have hsend : S.send ⟨arrived, unread, some m, [], yielded⟩
          = ⟨arrived, unread, none, [m], yielded⟩ := if_pos S.buffer_pos
      exact nomatch congrArg Feed.sending (hsend.symm.trans hs)
    | none =>
      cases unread with
      | cons raw rest =>
        exact absurd (congrArg (fun w => w.unread.length) hr) (Nat.ne_of_lt (Nat.lt_succ_self _))
      | nil => exact ⟨rfl, rfl, rfl⟩

/-- Steps that read leave what arrived, and either nothing happens or less
is left to do. -/
theorem reads_final (w : Feed) {es : List FeedEvent} (hes : ∀ e ∈ es, Reads e) :
    (S.system.final w es).arrived = w.arrived
      ∧ ((∀ e ∈ es, (S.system.step w e).2 = w) ∧ S.system.final w es = w
        ∨ (S.system.final w es).work < w.work) := by
  induction es generalizing w with
  | nil => exact ⟨rfl, Or.inl ⟨fun e he => absurd he List.not_mem_nil, rfl⟩⟩
  | cons e es ih =>
    have hm := reads_moves (S := S) w (hes e List.mem_cons_self)
    obtain ⟨harr, hrest⟩ := ih (S.system.step w e).2
      (fun e' he' => hes e' (List.mem_cons_of_mem _ he'))
    refine ⟨harr.trans hm.arrived, ?_⟩
    show (_ ∧ S.system.final (S.system.step w e).2 es = w)
      ∨ (S.system.final (S.system.step w e).2 es).work < w.work
    rcases hm.less with hsame | hless
    · rw [hsame] at hrest ⊢
      refine hrest.imp_left (And.imp_left (fun hall e' he' => ?_))
      rcases List.mem_cons.mp he' with rfl | he'
      · exact hsame
      · exact hall e' he'
    · refine Or.inr ?_
      rcases hrest with ⟨-, hend⟩ | hend
      · rw [hend]
        exact hless
      · exact hend.trans hless

theorem idle_of_work (h : w.work = 0) : w.Idle := by
  obtain ⟨arrived, unread, sending, queue, yielded⟩ := w
  simp only [Feed.work, Nat.add_eq_zero_iff, Nat.mul_eq_zero, List.length_eq_zero_iff,
    Option.toList_eq_nil_iff] at h
  exact ⟨h.1.1.resolve_left (by decide), h.1.2.resolve_left (by decide), h.2⟩

theorem work_of_idle (h : w.Idle) : w.work = 0 := by
  obtain ⟨hu, hs, hq⟩ := h
  rw [Feed.work, hu, hs, hq]
  rfl

/-- **As many turns as there is work leave nothing to do.** -/
theorem idle_of_turns (w : Feed) {turns : List (List FeedEvent)} (ht : ∀ es ∈ turns, Turn es)
    (hn : w.work ≤ turns.length) : (S.system.final w turns.flatten).Idle := by
  induction turns generalizing w with
  | nil => exact idle_of_work (Nat.le_zero.mp hn)
  | cons es turns ih =>
    obtain ⟨hreads, hr, hs, hc⟩ := ht es List.mem_cons_self
    rw [List.flatten_cons, System.final_append]
    refine ih _ (fun fs hfs => ht fs (List.mem_cons_of_mem _ hfs)) ?_
    rcases (reads_final (S := S) w hreads).2 with ⟨hstuck, hend⟩ | hless
    · -- a turn in which nothing happened: nothing was left
      rw [hend, work_of_idle (idle_of_stuck (hstuck _ hr) (hstuck _ hs) (hstuck _ hc))]
      exact Nat.zero_le _
    · exact Nat.le_of_lt_succ (lt_of_lt_of_le hless hn)

/-- **Filtered delivery is exact.** In every run of publishers, of others and
of the subscription: what the consumer has got is a first part of what is to
come out of what has arrived, and all of it when nothing is left to read;
with nothing more arriving that point is reached, in whatever order the task
and the consumer take their turns; and a message whose routing key is too
long is an error to its publisher and nothing to anybody else. -/
theorem filtered_delivery (S : Subscription) (es : List FeedEvent) :
    (∃ later, S.Delivered (S.system.final Feed.start es).arrived
        ((S.system.final Feed.start es).yielded ++ later))
      ∧ ((S.system.final Feed.start es).Idle →
        S.Delivered (S.system.final Feed.start es).arrived
          (S.system.final Feed.start es).yielded)
      ∧ (∃ n, ∀ turns : List (List FeedEvent), (∀ fs ∈ turns, Turn fs) → n ≤ turns.length →
        (S.system.final Feed.start (es ++ turns.flatten)).Idle
          ∧ (S.system.final Feed.start (es ++ turns.flatten)).arrived
            = (S.system.final Feed.start es).arrived)
      ∧ ∀ p topic rk payload fault, MAX_RK_LEN < (asBytes rk).length →
        S.system.step (S.system.final Feed.start es) (.publish p topic (some rk) payload fault)
          = (some (.error (.internal ("publish envelope: "
              ++ (EnvelopeError.tooLong (asBytes rk).length).text))),
            S.system.final Feed.start es) := by
  have hacc : S.Accounts (S.system.final Feed.start es) :=
    S.system.inv_final (G := fun _ _ => True) (fun w e h _ => accounts_step w e h) .nil
      (System.along_of_mem _ (fun _ _ => trivial))
  refine ⟨⟨_, hacc⟩, ?_, ?_, ?_⟩
  · intro hidle
    obtain ⟨hu, hs, hq⟩ := hidle
    have hnone : S.pending (S.system.final Feed.start es) = [] := by
      rw [pending, hu, hs, hq]
      rfl
    rw [Accounts, hnone, List.append_nil] at hacc
    exact hacc
  · refine ⟨(S.system.final Feed.start es).work, fun turns hturns hn => ?_⟩
    rw [System.final_append]
    refine ⟨idle_of_turns _ hturns hn, (reads_final _ ?_).1⟩
    intro e he
    obtain ⟨fs, hfs, he⟩ := List.mem_flatten.mp he
    exact (hturns fs hfs).1 e he
  · intro p topic rk payload fault hlong
    have henc : encode (some rk) payload = .error (.tooLong (asBytes rk).length) :=
      encode_eq_error_iff.mpr ⟨rk, rfl, hlong, rfl⟩
    show (some (S.publish _ p topic (some rk) payload fault).1, _) = _
    rw [publish, publishAsync, henc]

/-- An empty routing key is wanted: none, another and bytes that are no
envelope are left out. -/
example : ((⟨"p:", "t", some "", "a", 1, by decide⟩ : Subscription).system.final Feed.start
    [.publish "p:" "t" none [1] none, .foreign "p:topic:t" [2, 0],
      .publish "p:" "t" (some "k") [3] none,
      .publish "p:" "t" (some "") [4] none, .receive, .receive, .receive, .receive, .send,
      .next]).yielded = [⟨"t", some "", [4], "a"⟩] := by decide +kernel

end Subscription
