import ClusterRedis.Config
import ClusterRedis.PlainPrefix

/-!
# The topic bus

The bus publishes on the channel `{topic_prefix}:{topic}` and subscribes to
the pattern `{topic_prefix}:{pattern}`. The publisher's prefix is a part of a
name, the subscriber's of a pattern, and what a subscription yields is what
is left when the prefix is taken off as a name again.

The two prefixes agree exactly when the prefix is plain
(`topic_bus_literal_iff`). Under a plain prefix one message remains that is
yielded and should not be: a message on the empty topic, to a pattern of
stars. The server does not match it with stars alone, but with stars behind
a prefix.
-/

open RedisKv

/-- **The bus**, by its prefix. -/
structure RedisTopicBus where
  topicPrefix : String

/-- A message on a channel. -/
structure ChannelMessage where
  channel : String
  payload : List UInt8
  deriving DecidableEq

/-- A message of a subscription. -/
structure Message where
  topic : String
  payload : List UInt8
  deriving DecidableEq

/-- **A pattern subscription**: the pattern the server has, and what is taken
off the channel of a message. -/
structure TopicSubscription where
  fullPattern : String
  prefixStrip : String

namespace RedisTopicBus

variable (b : RedisTopicBus)

/-- `full_topic`: the channel of a topic, and the pattern of a pattern. -/
def fullTopic (topic : String) : String :=
  if b.topicPrefix = "" then topic else b.topicPrefix ++ ":" ++ topic

/-- **`publish`**: what the server is sent. -/
def publish (topic : String) (payload : List UInt8) : ChannelMessage := ⟨b.fullTopic topic, payload⟩

/-- **`subscribe`**: what the server is asked for, and what the stream takes
off. -/
def subscribe (pattern : String) : TopicSubscription where
  fullPattern := b.fullTopic pattern
  prefixStrip := if b.topicPrefix = "" then "" else b.topicPrefix ++ ":"

end RedisTopicBus

namespace TopicSubscription

variable (S : TopicSubscription)

/-- What the stream makes of a message it gets. -/
def onMessage (m : ChannelMessage) : Message where
  topic := if S.prefixStrip ≠ "" then (stripStart S.prefixStrip m.channel).getD m.channel
    else m.channel
  payload := m.payload

/-- **What a message on a channel becomes**: nothing when the server does not
match its channel. -/
def receive (m : ChannelMessage) : Option Message :=
  if KeyMatch S.fullPattern m.channel then some (S.onMessage m) else none

/-- The stream of what is published, in its order. -/
def stream (ms : List ChannelMessage) : List Message := ms.filterMap S.receive

end TopicSubscription

namespace RedisTopicBus

variable (b : RedisTopicBus)

/-- **The prefix is taken literally**, at a pattern and a message of the bus:
the message is yielded when its topic matches the pattern, as it was
published, and not otherwise; and no message on another channel is yielded
than on one that starts with the prefix. -/
structure Literal (pattern topic : String) (payload : List UInt8) : Prop where
  yields : (b.subscribe pattern).receive (b.publish topic payload)
    = if KeyMatch pattern topic then some ⟨topic, payload⟩ else none
  own : ∀ m, (b.subscribe pattern).receive m ≠ none → StartsWith (b.topicPrefix ++ ":") m.channel

variable {b}

theorem separated_ne_empty : b.topicPrefix ++ ":" ≠ "" := by
  intro h
  have := congrArg String.toList h
  simp at this

section Prefixed

variable (hb : b.topicPrefix ≠ "")

include hb

theorem fullTopic_eq (topic : String) : b.fullTopic topic = b.topicPrefix ++ ":" ++ topic :=
  if_neg hb

/-- What is published on a topic is yielded with that topic. -/
theorem onMessage_publish (pattern topic : String) (payload : List UInt8) :
    (b.subscribe pattern).onMessage (b.publish topic payload) = ⟨topic, payload⟩ := by
  have hstrip : (b.subscribe pattern).prefixStrip = b.topicPrefix ++ ":" := if_neg hb
  rw [TopicSubscription.onMessage, hstrip, if_pos separated_ne_empty, publish, fullTopic_eq hb,
    stripStart_append]
  rfl

theorem receive_eq (pattern : String) (m : ChannelMessage) :
    (b.subscribe pattern).receive m
      = if KeyMatch (b.topicPrefix ++ ":" ++ pattern) m.channel
        then some ((b.subscribe pattern).onMessage m) else none := by
  rw [TopicSubscription.receive, show (b.subscribe pattern).fullPattern = _ from
    fullTopic_eq hb pattern]

/-- **What a subscription yields of a message of the bus**, under a plain
prefix. -/
theorem receive_publish_of_plain (hp : PlainPrefix b.topicPrefix) (pattern topic : String)
    (payload : List UInt8) :
    (b.subscribe pattern).receive (b.publish topic payload)
      = if KeyMatch pattern topic ∨ LoneStars pattern topic then some ⟨topic, payload⟩
        else none := by
  have hplain : PlainPrefix (b.topicPrefix ++ ":") := plainPrefix_append.mpr ⟨hp, by decide⟩
  have hmatch : KeyMatch (b.topicPrefix ++ ":" ++ pattern) (b.publish topic payload).channel
      ↔ KeyMatch pattern topic ∨ LoneStars pattern topic := by
    rw [show (b.publish topic payload).channel = _ from fullTopic_eq hb topic,
      keyMatch_plain_append hplain separated_ne_empty]
    constructor
    · rintro ⟨t, ht, h⟩
      obtain rfl : topic = t := by
        have := congrArg String.toList ht
        simpa only [String.toList_append, List.append_cancel_left_eq, String.toList_inj] using this
      exact h
    · exact fun h => ⟨topic, rfl, h⟩
  rw [receive_eq hb, onMessage_publish hb]
  by_cases h : KeyMatch pattern topic ∨ LoneStars pattern topic
  · rw [if_pos (hmatch.mpr h), if_pos h]
  · rw [if_neg (fun hm => h (hmatch.mp hm)), if_neg h]

/-- Under a plain prefix nothing is yielded but from channels with it. -/
theorem startsWith_of_plain (hp : PlainPrefix b.topicPrefix) {pattern : String}
    {m : ChannelMessage} (hm : (b.subscribe pattern).receive m ≠ none) :
    StartsWith (b.topicPrefix ++ ":") m.channel := by
  have hplain : PlainPrefix (b.topicPrefix ++ ":") := plainPrefix_append.mpr ⟨hp, by decide⟩
  rw [receive_eq hb] at hm
  have hmatch : KeyMatch (b.topicPrefix ++ ":" ++ pattern) m.channel := by
    by_contra hno
    exact hm (if_neg hno)
  obtain ⟨t, ht, -⟩ := (keyMatch_plain_append hplain separated_ne_empty).mp hmatch
  exact startsWith_iff.mpr ⟨t, ht⟩

/-- **A plain prefix is taken literally**, but for the empty topic and a
pattern of stars. -/
theorem literal_iff_of_plain (hp : PlainPrefix b.topicPrefix) (pattern topic : String)
    (payload : List UInt8) :
    b.Literal pattern topic payload ↔ ¬ LoneStars pattern topic := by
  constructor
  · rintro ⟨hyields, -⟩ hlone
    have hno : ¬ KeyMatch pattern topic := by
      rw [hlone.1, keyMatch_empty]
      exact hlone.2.1
    rw [receive_publish_of_plain hb hp, if_pos (Or.inr hlone), if_neg hno] at hyields
    cases hyields
  · intro hlone
    refine ⟨?_, fun m hm => startsWith_of_plain hb hp hm⟩
    rw [receive_publish_of_plain hb hp]
    by_cases h : KeyMatch pattern topic
    · rw [if_pos (Or.inl h), if_pos h]
    · rw [if_neg (fun hor => hor.elim h hlone), if_neg h]

/-- **The stream of the bus's messages**, under a plain prefix: those whose
topics match, as they were published and in their order. -/
theorem stream_publish (hp : PlainPrefix b.topicPrefix) {pattern : String} {ms : List Message}
    (hms : ∀ m ∈ ms, ¬ LoneStars pattern m.topic) :
    (b.subscribe pattern).stream (ms.map (fun m => b.publish m.topic m.payload))
      = ms.filter (fun m => decide (KeyMatch pattern m.topic)) := by
  induction ms with
  | nil => rfl
  | cons m ms ih =>
    have hrest := ih (fun m' hm' => hms m' (List.mem_cons_of_mem m hm'))
    have hyields := ((literal_iff_of_plain hb hp pattern m.topic m.payload).mpr
      (hms m List.mem_cons_self)).yields
    unfold TopicSubscription.stream at hrest ⊢
    by_cases h : KeyMatch pattern m.topic
    · rw [if_pos h] at hyields
      rw [List.map_cons, List.filterMap_cons_some hyields, hrest,
        List.filter_cons, if_pos (decide_eq_true h)]
    · rw [if_neg h] at hyields
      rw [List.map_cons, List.filterMap_cons_none hyields, hrest,
        List.filter_cons, if_neg (by simpa using h)]

/-- **A prefix that is not plain is not taken literally** by a subscription
to everything: it misses the topic `x`, or yields a message of another
channel. -/
theorem not_literal_of_not_plain (hp : ¬ PlainPrefix b.topicPrefix) (payload : List UInt8) :
    ¬ b.Literal "*" "x" payload := by
  rintro ⟨hyields, hown⟩
  have hstray := exists_stray (show utf8 ":" = [0x3A] from by decide) (by decide) (by decide) hp "x"
  rcases hstray with hmiss | ⟨k, hk, hno⟩
  · have hx : KeyMatch "*" "x" := by decide +kernel
    have hchannel : (b.publish "x" payload).channel = b.topicPrefix ++ ":" ++ "x" :=
      fullTopic_eq hb "x"
    rw [receive_eq hb, hchannel, if_neg hmiss, if_pos hx] at hyields
    cases hyields
  · refine hno (hown ⟨k, payload⟩ ?_)
    rw [receive_eq hb, if_pos hk]
    exact Option.some_ne_none _

end Prefixed

/-- **The bus takes its prefix literally exactly when the prefix is plain**,
whatever is subscribed to and published – apart from the empty topic with a
pattern of stars, which is yielded though stars do not match it. -/
theorem topic_bus_literal_iff (b : RedisTopicBus) (hb : b.topicPrefix ≠ "") :
    ((∀ pattern topic payload, ¬ LoneStars pattern topic → b.Literal pattern topic payload)
        ↔ PlainPrefix b.topicPrefix)
      ∧ (PlainPrefix b.topicPrefix → ∀ pattern topic payload,
        (b.Literal pattern topic payload ↔ ¬ LoneStars pattern topic)) := by
  refine ⟨⟨fun h => ?_, fun hp pattern topic payload hlone => ?_⟩, literal_iff_of_plain hb⟩
  · by_contra hp
    exact not_literal_of_not_plain hb hp [] (h "*" "x" [] (by decide))
  · exact (literal_iff_of_plain hb hp pattern topic payload).mpr hlone

/-- Orders of a bus with a plain prefix. -/
theorem topic_bus_literal_orders :
    (⟨"mcpg"⟩ : RedisTopicBus).Literal "orders.*" "orders.new" [1] :=
  ((topic_bus_literal_iff ⟨"mcpg"⟩ (by decide)).2 (by decide) _ _ _).mpr (by decide)

/-- **A prefix with brackets** is accepted, and so is one that its class
lets through. The bus of the first does not yield its own message to a
subscription to everything, and yields the other's, with a topic that is the
other's channel. -/
theorem bracket_prefix_mixes :
    (∃ text cfg, RedisBackendConfig.parse text = .ok cfg ∧ cfg.keyPrefix = "mcpg[dev]")
      ∧ (∃ text cfg, RedisBackendConfig.parse text = .ok cfg ∧ cfg.keyPrefix = "mcpgd")
      ∧ KeyMatch "*" "x"
      ∧ ((⟨"mcpg[dev]"⟩ : RedisTopicBus).subscribe "*").receive
          ((⟨"mcpg[dev]"⟩ : RedisTopicBus).publish "x" [1]) = none
      ∧ ((⟨"mcpg[dev]"⟩ : RedisTopicBus).subscribe "*").receive
          ((⟨"mcpgd"⟩ : RedisTopicBus).publish "x" [1]) = some ⟨"mcpgd:x", [1]⟩
      ∧ ¬ (⟨"mcpg[dev]"⟩ : RedisTopicBus).Literal "*" "x" [1] := by
  have hx : KeyMatch "*" "x" := by decide +kernel
  have hmiss : ((⟨"mcpg[dev]"⟩ : RedisTopicBus).subscribe "*").receive
      ((⟨"mcpg[dev]"⟩ : RedisTopicBus).publish "x" [1]) = none := by decide +kernel
  refine ⟨exists_parse_keyPrefix_iff.mpr (by decide), exists_parse_keyPrefix_iff.mpr (by decide),
    hx, hmiss, by decide +kernel, fun h => ?_⟩
  have hyields := h.yields
  rw [hmiss, if_pos hx] at hyields
  cases hyields

end RedisTopicBus
