import ClusterRedis.PubSub

/-!
# Who a message is from

A message of a stream has a field for the node it is from. The envelope does
not carry it: a publisher's node id is not sent, and what the subscription
writes into the field is the id of its own node.

To say what the field should be, every message is followed from the backend
that published it to the stream it is yielded by: a `TracedFeed` is a `Feed`
in which each message has its publisher with it. What is traced changes
nothing (`forget_final`); it is only compared with the field in the end
(`from_node_iff`).
-/

/-- **A backend**, as far as it publishes and subscribes. -/
structure RedisBackend where
  keyPrefix : String
  nodeId : String

/-- Something with the node id of the backend it was published by, or with
none when it was published by anybody else. -/
structure Traced (α : Type) where
  publisher : Option String
  item : α
  deriving DecidableEq

/-- **A subscription's feed, with the publishers of its messages.** -/
structure TracedFeed where
  arrived : List (Traced Arrival)
  unread : List (Traced (List UInt8))
  sending : Option (Traced PublishedMessage)
  queue : List (Traced PublishedMessage)
  yielded : List (Traced PublishedMessage)

/-- One step: a backend publishes, or anything else happens. -/
inductive TracedEvent where
  | publish (backend : RedisBackend) (topic : String) (routingKey : Option String)
      (payload : List UInt8) (fault : Option (Bool × String))
  | foreign (channel : String) (bytes : List UInt8)
  | receive
  | send
  | next

/-- The step without the publisher's name. -/
def TracedEvent.forget : TracedEvent → FeedEvent
  | publish A topic rk payload fault => .publish A.keyPrefix topic rk payload fault
  | foreign channel bytes => .foreign channel bytes
  | receive => .receive
  | send => .send
  | next => .next

namespace TracedFeed

def start : TracedFeed := ⟨[], [], none, [], []⟩

/-- The feed without its publishers. -/
def forget (w : TracedFeed) : Feed where
  arrived := w.arrived.map Traced.item
  unread := w.unread.map Traced.item
  sending := w.sending.map Traced.item
  queue := w.queue.map Traced.item
  yielded := w.yielded.map Traced.item

end TracedFeed

/-- **`RedisBackend::subscribe`**. -/
def RedisBackend.subscribe (B : RedisBackend) (topic : String) (filter : Option String)
    (buffer : ℕ) (hbuffer : 0 < buffer) : Subscription :=
  ⟨B.keyPrefix, topic, filter, B.nodeId, buffer, hbuffer⟩

namespace Subscription

variable (S : Subscription)

/-- A message of a publisher is published on a channel. -/
def tracedArrive (w : TracedFeed) (channel : String) (by' : Option String) (a : Arrival)
    (raw : List UInt8) : TracedFeed :=
  if channel = S.channel then
    { w with arrived := w.arrived ++ [⟨by', a⟩], unread := w.unread ++ [⟨by', raw⟩] }
  else w

/-- **`RedisBackend::publish`**. -/
def tracedPublish (w : TracedFeed) (A : RedisBackend) (topic : String) (rk : Option String)
    (payload : List UInt8) (fault : Option (Bool × String)) : TracedFeed :=
  match publishAsync A.keyPrefix topic rk payload with
  | .error _ => w
  | .ok (channel, wire) =>
    if fault.all Prod.fst then
      S.tracedArrive w channel (some A.nodeId) (.published rk payload) wire
    else w

/-- The task takes its next message. -/
def tracedReceive (w : TracedFeed) : TracedFeed :=
  match w.sending, w.unread with
  | none, raw :: rest =>
    { w with unread := rest, sending := (S.deliver raw.item).map (Traced.mk raw.publisher) }
  | _, _ => w

/-- The message that waits is put into the queue, when there is room. -/
def tracedSend (w : TracedFeed) : TracedFeed :=
  match w.sending with
  | some m => if w.queue.length < S.buffer then
      { w with sending := none, queue := w.queue ++ [m] }
    else w
  | none => w

/-- The consumer takes the next message of its stream. -/
def tracedNext (w : TracedFeed) : TracedFeed :=
  match w.queue with
  | m :: rest => { w with queue := rest, yielded := w.yielded ++ [m] }
  | [] => w

/-- **The subscription and its surroundings, with the publishers.** -/
def traced : System TracedFeed TracedEvent Unit where
  step w
    | .publish A topic rk payload fault => ((), S.tracedPublish w A topic rk payload fault)
    | .foreign channel bytes => ((), S.tracedArrive w channel none (.foreign bytes) bytes)
    | .receive => ((), S.tracedReceive w)
    | .send => ((), S.tracedSend w)
    | .next => ((), tracedNext w)

variable {S} {w : TracedFeed}

/-! ## Tracing changes nothing -/

theorem forget_tracedArrive (channel : String) (by' : Option String) (a : Arrival)
    (raw : List UInt8) :
    (S.tracedArrive w channel by' a raw).forget = S.arrive w.forget channel a raw := by
  unfold tracedArrive arrive
  split
  · simp [TracedFeed.forget]
  · rfl

theorem forget_tracedPublish (A : RedisBackend) (topic : String) (rk : Option String)
    (payload : List UInt8) (fault : Option (Bool × String)) :
    (S.tracedPublish w A topic rk payload fault).forget
      = (S.publish w.forget A.keyPrefix topic rk payload fault).2 := by
  unfold tracedPublish publish
  cases publishAsync A.keyPrefix topic rk payload with
  | error e => rfl
  | ok sent =>
    rcases fault with _ | ⟨_ | _, e⟩
    · exact forget_tracedArrive sent.1 (some A.nodeId) (.published rk payload) sent.2
    · rfl
    · exact forget_tracedArrive sent.1 (some A.nodeId) (.published rk payload) sent.2

theorem forget_tracedReceive : (S.tracedReceive w).forget = S.receive w.forget := by
  obtain ⟨arrived, unread, sending, queue, yielded⟩ := w
  cases sending with
  | some m => rfl
  | none =>
    cases unread with
    | nil => rfl
    | cons raw rest =>
      have hsame : ((S.deliver raw.item).map (Traced.mk raw.publisher)).map Traced.item
          = S.deliver raw.item := by
        rw [Option.map_map]
        exact Option.map_id'
      simp only [tracedReceive, receive, TracedFeed.forget, Option.map_none, List.map_cons, hsame]

theorem forget_tracedSend : (S.tracedSend w).forget = S.send w.forget := by
  obtain ⟨arrived, unread, sending, queue, yielded⟩ := w
  cases sending with
  | none => rfl
  | some m =>
    unfold tracedSend send
    simp only [TracedFeed.forget, Option.map_some, List.length_map]
    split
    · simp
    · rfl

theorem forget_tracedNext : (tracedNext w).forget = next w.forget := by
  obtain ⟨arrived, unread, sending, queue, yielded⟩ := w
  cases queue with
  | nil => rfl
  | cons m rest => simp [tracedNext, next, TracedFeed.forget]

/-- **A traced step is the step.** -/
theorem forget_step (S : Subscription) (w : TracedFeed) (e : TracedEvent) :
    (S.traced.step w e).2.forget = (S.system.step w.forget e.forget).2 := by
  cases e with
  | publish A topic rk payload fault => exact forget_tracedPublish A topic rk payload fault
  | foreign channel bytes => exact forget_tracedArrive channel none (.foreign bytes) bytes
  | receive => exact forget_tracedReceive
  | send => exact forget_tracedSend
  | next => exact forget_tracedNext

/-- **A traced run is the run.** -/
theorem forget_final (S : Subscription) (w : TracedFeed) (es : List TracedEvent) :
    (S.traced.final w es).forget = S.system.final w.forget (es.map TracedEvent.forget) := by
  induction es generalizing w with
  | nil => rfl
  | cons e es ih =>
    show (S.traced.final (S.traced.step w e).2 es).forget = S.system.final _ _
    rw [ih, forget_step]
    rfl

/-! ## What the field says -/

/-- **What the loop makes of a message**: its field is the node of the
subscription, and its routing key was one that fits an envelope. -/
structure Own (S : Subscription) (m : PublishedMessage) : Prop where
  fromNode : m.fromNode = S.node
  fits : ∀ k, m.routingKey = some k → (asBytes k).length ≤ MAX_RK_LEN

theorem own_of_deliver {raw : List UInt8} {m : PublishedMessage} (h : S.deliver raw = some m) :
    S.Own m := by
  obtain ⟨rk, payload, hcarries, -, rfl⟩ := (deliver_eq_some_iff (a := .foreign raw) rfl).mp h
  refine ⟨rfl, fun k hk => ?_⟩
  obtain rfl : rk = some k := hk
  cases hcarries with
  | routed k payload hfits => exact hfits

/-- Every message on its way, and every message yielded, is the loop's. -/
structure OwnFeed (S : Subscription) (w : TracedFeed) : Prop where
  sending : ∀ m ∈ w.sending, S.Own m.item
  queue : ∀ m ∈ w.queue, S.Own m.item
  yielded : ∀ m ∈ w.yielded, S.Own m.item

theorem OwnFeed.tracedArrive (h : S.OwnFeed w) (channel : String) (by' : Option String)
    (a : Arrival) (raw : List UInt8) : S.OwnFeed (S.tracedArrive w channel by' a raw) := by
  unfold Subscription.tracedArrive
  split
  · exact ⟨h.sending, h.queue, h.yielded⟩
  · exact h

theorem ownFeed_start (S : Subscription) : S.OwnFeed TracedFeed.start where
  sending := fun m hm => absurd hm (by simp [TracedFeed.start])
  queue := fun m hm => absurd hm List.not_mem_nil
  yielded := fun m hm => absurd hm List.not_mem_nil

theorem ownFeed_step (w : TracedFeed) (e : TracedEvent) (h : S.OwnFeed w) :
    S.OwnFeed (S.traced.step w e).2 := by
  obtain ⟨arrived, unread, sending, queue, yielded⟩ := w
  cases e with
  | publish A topic rk payload fault =>
    show S.OwnFeed (S.tracedPublish _ A topic rk payload fault)
    unfold tracedPublish
    split
    · exact h
    · split
      · exact h.tracedArrive _ _ _ _
      · exact h
  | foreign channel bytes => exact h.tracedArrive channel none (.foreign bytes) bytes
  | receive =>
    cases sending with
    | some m => exact h
    | none => cases unread with
      | nil => exact h
      | cons raw rest =>
        refine ⟨fun m hm => ?_, h.queue, h.yielded⟩
        obtain ⟨m', hm', rfl⟩ := Option.map_eq_some_iff.mp hm
        exact own_of_deliver hm'
  | send =>
    cases sending with
    | none => exact h
    | some m =>
      by_cases hroom : queue.length < S.buffer
      · have hsend : S.tracedSend ⟨arrived, unread, some m, queue, yielded⟩
            = ⟨arrived, unread, none, queue ++ [m], yielded⟩ := if_pos hroom
        show S.OwnFeed (S.tracedSend ⟨arrived, unread, some m, queue, yielded⟩)
        rw [hsend]
        refine ⟨fun m' hm' => absurd hm' (by simp), fun m' hm' => ?_, h.yielded⟩
        rcases List.mem_append.mp hm' with hm' | hm'
        · exact h.queue m' hm'
        · rw [List.mem_singleton.mp hm']
          exact h.sending m rfl
      · have hsend : S.tracedSend ⟨arrived, unread, some m, queue, yielded⟩
            = ⟨arrived, unread, some m, queue, yielded⟩ := if_neg hroom
        show S.OwnFeed (S.tracedSend ⟨arrived, unread, some m, queue, yielded⟩)
        rw [hsend]
        exact h
  | next =>
    cases queue with
    | nil => exact h
    | cons m rest =>
      refine ⟨h.sending, fun m' hm' => h.queue m' (List.mem_cons_of_mem m hm'), fun m' hm' => ?_⟩
      rcases List.mem_append.mp hm' with hm' | hm'
      · exact h.yielded m' hm'
      · rw [List.mem_singleton.mp hm']
        exact h.queue m List.mem_cons_self

/-- **In every run, what is yielded has the subscription's node in its
field**, whoever published it. -/
theorem ownFeed_final (S : Subscription) (es : List TracedEvent) :
    S.OwnFeed (S.traced.final TracedFeed.start es) :=
  S.traced.inv_final (G := fun _ _ => True) (fun w e h _ => ownFeed_step w e h)
    (ownFeed_start S)
    (System.along_of_mem _ (fun _ _ => trivial))

end Subscription

/-- **A message that a backend published is yielded with its name**: with a
routing key and a payload, in a state of a feed. -/
def NamesPublisher (node : String) (rk : Option String) (payload : List UInt8) (w : TracedFeed) :
    Prop :=
  ∀ m ∈ w.yielded, m.publisher = some node → m.item.routingKey = rk → m.item.payload = payload →
    m.item.fromNode = node

/-- A message that is published, read, queued and consumed. -/
def handedOver (A : RedisBackend) (topic : String) (rk : Option String) (payload : List UInt8) :
    List TracedEvent :=
  [.publish A topic rk payload none, .receive, .send, .next]

theorem yielded_handedOver {A B : RedisBackend} (hp : A.keyPrefix = B.keyPrefix) (topic : String)
    {rk : Option String} (hrk : RoutingKeyFits rk) (payload : List UInt8) :
    ((B.subscribe topic none 1 Nat.one_pos).traced.final TracedFeed.start
        (handedOver A topic rk payload)).yielded
      = [⟨some A.nodeId, ⟨topic, rk, payload, B.nodeId⟩⟩] := by
  obtain ⟨wire, henc⟩ : ∃ wire, encode rk payload = .ok wire := exists_encode_iff.mpr hrk
  have hsent : publishAsync A.keyPrefix topic rk payload
      = .ok ((B.subscribe topic none 1 Nat.one_pos).channel, wire) := by
    rw [publishAsync, henc, hp]
    rfl
  have hdeliver : (B.subscribe topic none 1 Nat.one_pos).deliver wire
      = some ⟨topic, rk, payload, B.nodeId⟩ := by
    refine (Subscription.deliver_eq_some_iff (a := .published rk payload) henc).mpr ?_
    exact ⟨rk, payload, ⟨rfl, rfl⟩, fun f hf => (by cases hf), rfl⟩
  have harrive : (B.subscribe topic none 1 Nat.one_pos).tracedPublish TracedFeed.start A topic rk
      payload none = ⟨[⟨some A.nodeId, .published rk payload⟩], [⟨some A.nodeId, wire⟩], none, [],
        []⟩ := by
    rw [Subscription.tracedPublish, hsent]
    show Subscription.tracedArrive _ _ _ _ _ _ = _
    rw [Subscription.tracedArrive, if_pos rfl]
    rfl
  have hreceive : ∀ as, (B.subscribe topic none 1 Nat.one_pos).tracedReceive
      ⟨as, [⟨some A.nodeId, wire⟩], none, [], []⟩
      = ⟨as, [], some ⟨some A.nodeId, ⟨topic, rk, payload, B.nodeId⟩⟩, [], []⟩ := by
    intro as
    simp only [Subscription.tracedReceive, hdeliver, Option.map_some]
  show (Subscription.tracedNext (Subscription.tracedSend _ (Subscription.tracedReceive _
    (Subscription.tracedPublish _ TracedFeed.start A topic rk payload none)))).yielded = _
  rw [harrive, hreceive]
  rfl

/-- **A message names its publisher exactly when it is yielded by a stream of
the same node**: for two backends with one key prefix, every topic, routing
key and payload, in every run of every subscription of the second to the
topic – unless the routing key is too long to be published at all. -/
theorem from_node_iff (A B : RedisBackend) (hp : A.keyPrefix = B.keyPrefix) (topic : String)
    (rk : Option String) (payload : List UInt8) :
    (∀ filter buffer hbuffer es, NamesPublisher A.nodeId rk payload
        ((B.subscribe topic filter buffer hbuffer).traced.final TracedFeed.start es))
      ↔ A.nodeId = B.nodeId ∨ ¬ RoutingKeyFits rk := by
  constructor
  · intro h
    refine or_iff_not_imp_right.mpr (fun hrk => ?_)
    have hall := h none 1 Nat.one_pos (handedOver A topic rk payload)
    rw [NamesPublisher, yielded_handedOver hp topic (not_not.mp hrk) payload] at hall
    exact (hall _ List.mem_cons_self rfl rfl rfl).symm
  · intro h filter buffer hbuffer es m hm _ hkey _
    have hown := (Subscription.ownFeed_final (B.subscribe topic filter buffer hbuffer) es).yielded
      m hm
    rcases h with h | h
    · exact hown.fromNode.trans h.symm
    · exact absurd (fun k hk => hown.fits k (hkey.trans hk)) h

/-- A node that reads what it published itself. -/
theorem from_node_own :
    NamesPublisher "a" none [1] (((⟨"p:", "a"⟩ : RedisBackend).subscribe "t" none 1
      Nat.one_pos).traced.final TracedFeed.start (handedOver ⟨"p:", "a"⟩ "t" none [1])) :=
  (from_node_iff ⟨"p:", "a"⟩ ⟨"p:", "a"⟩ rfl "t" none [1]).mpr (Or.inl rfl) none 1 Nat.one_pos _

/-- **A message of one node to another** is yielded as the other's own. -/
theorem from_node_is_readers :
    (((⟨"p:", "b"⟩ : RedisBackend).subscribe "t" none 1 Nat.one_pos).traced.final TracedFeed.start
        (handedOver ⟨"p:", "a"⟩ "t" none [1])).yielded
      = [⟨some "a", ⟨"t", none, [1], "b"⟩⟩]
      ∧ ¬ NamesPublisher "a" none [1] (((⟨"p:", "b"⟩ : RedisBackend).subscribe "t" none 1
        Nat.one_pos).traced.final TracedFeed.start (handedOver ⟨"p:", "a"⟩ "t" none [1])) := by
  have hfits : RoutingKeyFits none := fun k hk => (by cases hk)
  have hyielded := @yielded_handedOver ⟨"p:", "a"⟩ ⟨"p:", "b"⟩ rfl "t" none hfits [1]
  refine ⟨hyielded, fun h => ?_⟩
  rw [NamesPublisher, hyielded] at h
  exact absurd (h _ List.mem_cons_self rfl rfl rfl) (by decide)
