import ClusterRedis.LeaseKept

/-!
# Waiting for a lease

A blocking acquisition attempts, and when the lease is held it sleeps and
attempts again: for 200 ms, then for 400, and then for 800 each time. It does
not ask the server more often than that (`attempts_apart`), and asks it often
enough: when the lease becomes free and nobody else takes it, the call has its
answer a second or so later (`answered_when_free`).

An attempt takes its way to the server and back, and meanwhile others may do
anything there. What it meets is kept, so that the steps of a call come to an
end as the attempts do that they were (`acquireAsync`).
-/

open Script

/-- **A call for a lease**: what it is given. -/
structure AcquireCall where
  drv : Driver
  calendar : Calendar
  p : String
  id : LeaseId
  holder : String
  name : String
  ttl : Duration

/-- Where the call stands. -/
inductive WaitStage where
  /-- Its script is on the way to the server, -/
  | asking
  /-- or has run there, on the server as it was, and the reply is on its way. -/
  | ran (s : Redis)
  | sleeping (wakeAt : ℕ)
  /-- With a result, which is none when it panics. -/
  | returned (result : Option (Except ClusterError LeaseState))

/-- **A call that waits**, and the server it asks. -/
structure LeaseWait where
  redis : Redis
  stage : WaitStage
  /-- When it came to where it stands. -/
  since : ℕ
  /-- What it sleeps for next. -/
  delay : ℕ
  /-- When it asked. -/
  polls : List ℕ
  /-- What its attempts met. -/
  attempts : List Attempt

/-- A step: time passes; others do what they like on the server; a script
runs; a reply comes, with the node's clock; a request fails, or its reply is
lost; a sleep is over. -/
inductive WaitEvent where
  | tick (d : ℕ)
  | others (db : String → Option Obj)
  | run
  | reply (clock : ℕ)
  | fail (text : String) (clock : ℕ)
  | wake

namespace AcquireCall

variable (C : AcquireCall)

/-- The terms it asks for. -/
def terms : LeaseTerms := LeaseTerms.ofTtl C.p C.id C.holder C.ttl

/-- How attempts end. -/
def results (as : List Attempt) : Option (Option (Except ClusterError LeaseState)) :=
  acquireAsync C.drv C.calendar C.p C.id C.holder C.name C.ttl as

/-- **An attempt is over**: the call returns, or sleeps. -/
def finish (w : LeaseWait) (a : Attempt) : LeaseWait :=
  match C.results [a] with
  | none => { w with
      stage := .sleeping (w.redis.now + w.delay)
      since := w.redis.now
      delay := min (w.delay * 2) 800
      attempts := w.attempts ++ [a] }
  | some r => { w with
      stage := .returned r
      since := w.redis.now
      attempts := w.attempts ++ [a] }

/-- An attempt begins. A lease without a name is not asked for. -/
def attempt (w : LeaseWait) : LeaseWait :=
  if isBlank C.name then C.finish w ⟨w.redis, none, 0⟩
  else { w with stage := .asking, since := w.redis.now, polls := w.polls ++ [w.redis.now] }

/-- The call begins. -/
def start (s : Redis) : LeaseWait := C.attempt ⟨s, .asking, s.now, 200, [], []⟩

/-- The script runs. -/
def run (w : LeaseWait) : LeaseWait :=
  match w.stage with
  | .asking => { w with
      redis := (C.terms.acquire w.redis).2
      stage := .ran w.redis
      since := w.redis.now }
  | _ => w

/-- The reply comes. -/
def reply (w : LeaseWait) (clock : ℕ) : LeaseWait :=
  match w.stage with
  | .ran s => C.finish w ⟨s, none, clock⟩
  | _ => w

/-- The request fails, before it reaches the server or after. -/
def fail (w : LeaseWait) (text : String) (clock : ℕ) : LeaseWait :=
  match w.stage with
  | .asking => C.finish w ⟨w.redis, some (false, text), clock⟩
  | .ran s => C.finish w ⟨s, some (true, text), clock⟩
  | _ => w

/-- The sleep is over, if it is. -/
def wake (w : LeaseWait) : LeaseWait :=
  match w.stage with
  | .sleeping t => if t ≤ w.redis.now then C.attempt w else w
  | _ => w

/-- **`acquire_async`, step by step.** -/
def system : System LeaseWait WaitEvent Unit where
  step w e := ((), match e with
    | .tick d => { w with redis := w.redis.tick d }
    | .others db => { w with redis := { w.redis with db := db } }
    | .run => C.run w
    | .reply clock => C.reply w clock
    | .fail text clock => C.fail w text clock
    | .wake => C.wake w)

/-! ## What a step can do -/

/-- **What a step can do to the call.** -/
inductive Steps (w : LeaseWait) : LeaseWait → Prop
  | stay (s : Redis) (h : w.redis.now ≤ s.now) : Steps w { w with redis := s }
  | run (hs : w.stage = .asking) : Steps w { w with
      redis := (C.terms.acquire w.redis).2, stage := .ran w.redis, since := w.redis.now }
  | sleep (a : Attempt) (hs : w.stage = .asking ∨ ∃ s, w.stage = .ran s)
      (hr : C.results [a] = none) : Steps w { w with
      stage := .sleeping (w.redis.now + w.delay), since := w.redis.now
      delay := min (w.delay * 2) 800, attempts := w.attempts ++ [a] }
  | returns (a : Attempt) (r : Option (Except ClusterError LeaseState))
      (hs : ∀ r, w.stage ≠ .returned r) (hr : C.results [a] = some r) : Steps w { w with
      stage := .returned r, since := w.redis.now, attempts := w.attempts ++ [a] }
  | ask (t : ℕ) (hs : w.stage = .sleeping t) (ht : t ≤ w.redis.now) : Steps w { w with
      stage := .asking, since := w.redis.now, polls := w.polls ++ [w.redis.now] }

variable {C} {w : LeaseWait}

theorem steps_refl (w : LeaseWait) : C.Steps w w := .stay w.redis (le_refl _)

/-- An attempt that is over. -/
theorem finish_steps (hs : w.stage = .asking ∨ ∃ s, w.stage = .ran s) (a : Attempt) :
    C.Steps w (C.finish w a) := by
  unfold finish
  split
  · next hr => exact .sleep a hs hr
  · next r hr =>
    refine .returns a r (fun r' hr' => ?_) hr
    rcases hs with hs | ⟨s, hs⟩ <;> exact nomatch hs.symm.trans hr'

/-- A lease without a name is refused at once. -/
theorem results_of_blank (hb : isBlank C.name = true) (a : Attempt) :
    C.results [a] = some (some (.error (.invalidReference "lease name must not be empty"))) := by
  rw [results, acquireAsync, tryAcquireAsync, if_pos hb]

theorem steps (w : LeaseWait) (e : WaitEvent) : C.Steps w (C.system.step w e).2 := by
  cases e with
  | tick d => exact .stay _ (Nat.le_add_right _ _)
  | others db => exact .stay _ (le_refl _)
  | run =>
    show C.Steps w (C.run w)
    unfold run
    split
    · next hs => exact .run hs
    · exact steps_refl w
  | reply clock =>
    show C.Steps w (C.reply w clock)
    unfold reply
    split
    · next s hs => exact finish_steps (Or.inr ⟨s, hs⟩) _
    · exact steps_refl w
  | fail text clock =>
    show C.Steps w (C.fail w text clock)
    unfold fail
    split
    · next hs => exact finish_steps (Or.inl hs) _
    · next s hs => exact finish_steps (Or.inr ⟨s, hs⟩) _
    · exact steps_refl w
  | wake =>
    show C.Steps w (C.wake w)
    unfold wake
    split
    · next t hs =>
      split
      · next ht =>
        unfold attempt
        split
        · next hb =>
          rw [finish, results_of_blank hb]
          exact .returns _ _ (fun r hr => nomatch hs.symm.trans hr) (results_of_blank hb _)
        · exact .ask t hs ht
      · exact steps_refl w
    · exact steps_refl w

/-- A script takes no time on the server. -/
theorem acquire_now (L : LeaseTerms) (s : Redis) : (L.acquire s).2.now = s.now := by
  rcases acquireLua_cases (L.id.leaseKey_ne_fenceKey L.p) L.holder L.ttl s with
    ⟨hs, -⟩ | ⟨-, n, -, hok⟩ | ⟨-, e, -, hbad⟩
  · exact congrArg Redis.now hs
  · exact congrArg (fun r => r.2.now) hok
  · exact congrArg (fun r => r.2.now) hbad

/-! ## How often it asks -/

/-- **How long the call sleeps next**, and until when it sleeps: longer after
each attempt, up to 800 ms. -/
def Patient (w : LeaseWait) : Prop :=
  match w.stage with
  | .sleeping t => (∀ a ∈ w.polls, a + 200 ≤ t) ∧ (∀ a ∈ w.polls.drop 2, a + 800 ≤ t)
    ∧ 400 ≤ w.delay ∧ (2 ≤ w.polls.length → 800 ≤ w.delay)
  | _ => 200 ≤ w.delay ∧ (2 ≤ w.polls.length → 400 ≤ w.delay)
    ∧ (3 ≤ w.polls.length → 800 ≤ w.delay)

/-- **It does not ask often**: its attempts are apart, and from the third on
far apart. -/
structure Apart (w : LeaseWait) : Prop where
  apart : w.polls.Pairwise (fun a b => a + 200 ≤ b)
  far : (w.polls.drop 2).Pairwise (fun a b => a + 800 ≤ b)
  asked : ∀ a ∈ w.polls, a ≤ w.redis.now
  patient : (∃ r, w.stage = .returned r) ∨ Patient w

/-- A request that is not the third or a later one. -/
theorem drop_concat_of_length_lt {l : List ℕ} (h : l.length < 2) (a : ℕ) :
    (l ++ [a]).drop 2 = [] :=
  List.drop_eq_nil_of_le (by simp; omega)

theorem Apart.steps (h : Apart w) {w' : LeaseWait} (hw : C.Steps w w') : Apart w' := by
  obtain ⟨hapart, hfar, hasked, hpatient⟩ := h
  cases hw with
  | stay s hs => exact ⟨hapart, hfar, fun a ha => (hasked a ha).trans hs, hpatient⟩
  | run hs =>
    rw [Patient, hs] at hpatient
    refine ⟨hapart, hfar, fun a ha => (hasked a ha).trans ?_, Or.inr ?_⟩
    · exact (acquire_now _ _).ge
    · exact hpatient.resolve_left (fun ⟨r, hr⟩ => nomatch hr)
  | sleep a hs hr =>
    obtain ⟨hslow, htwo, hthree⟩ : 200 ≤ w.delay ∧ (2 ≤ w.polls.length → 400 ≤ w.delay)
        ∧ (3 ≤ w.polls.length → 800 ≤ w.delay) := by
      rw [Patient] at hpatient
      rcases hs with hs | ⟨s, hs⟩ <;> rw [hs] at hpatient <;>
        exact hpatient.resolve_left (fun ⟨r, hr⟩ => nomatch hr)
    refine ⟨hapart, hfar, hasked, Or.inr ⟨fun b hb => ?_, fun b hb => ?_, ?_, fun hlen => ?_⟩⟩
    · exact Nat.add_le_add (hasked b hb) hslow
    · replace hb : b ∈ w.polls.drop 2 := hb
      have hlen : 3 ≤ w.polls.length := by
        have hpos : 0 < (w.polls.drop 2).length := List.length_pos_of_mem hb
        rw [List.length_drop] at hpos
        omega
      exact Nat.add_le_add (hasked b (List.mem_of_mem_drop hb)) (hthree hlen)
    · show 400 ≤ min (w.delay * 2) 800
      omega
    · have := htwo hlen
      show 800 ≤ min (w.delay * 2) 800
      omega
  | returns a r hs hr => exact ⟨hapart, hfar, hasked, Or.inl ⟨r, rfl⟩⟩
  | ask t hs ht =>
    rw [Patient, hs] at hpatient
    obtain ⟨hnear, hlate, hslow, htwo⟩ := hpatient.resolve_left (fun ⟨r, hr⟩ => nomatch hr)
    refine ⟨?_, ?_, fun a ha => ?_, Or.inr ⟨?_, fun _ => hslow, fun hlen => htwo ?_⟩⟩
    · refine List.pairwise_append.mpr ⟨hapart, List.pairwise_singleton _ _, fun a ha b hb => ?_⟩
      rw [List.mem_singleton.mp hb]
      exact (hnear a ha).trans ht
    · by_cases hlen : 2 ≤ w.polls.length
      · rw [List.drop_append_of_le_length hlen]
        refine List.pairwise_append.mpr ⟨hfar, List.pairwise_singleton _ _, fun a ha b hb => ?_⟩
        rw [List.mem_singleton.mp hb]
        exact (hlate a ha).trans ht
      · rw [drop_concat_of_length_lt (Nat.lt_of_not_le hlen)]
        exact List.Pairwise.nil
    · rcases List.mem_append.mp ha with ha | ha
      · exact hasked a ha
      · exact (List.mem_singleton.mp ha).le
    · exact (by decide : 200 ≤ 400).trans hslow
    · rw [List.length_append, List.length_singleton] at hlen
      exact Nat.le_of_succ_le_succ hlen

/-- What a call has returned. -/
def result : WaitStage → Option (Option (Except ClusterError LeaseState))
  | .returned r => some r
  | _ => none

/-- One more attempt, when those before it found a holder. -/
theorem results_concat {as : List Attempt} (h : C.results as = none) (a : Attempt) :
    C.results (as ++ [a]) = C.results [a] := by
  induction as with
  | nil => rfl
  | cons b as ih =>
    unfold results at h ih ⊢
    rw [acquireAsync] at h
    rw [List.cons_append, acquireAsync]
    split at h
    · exact ih h
    all_goals cases h

/-- **A call returns what its attempts come to.** -/
def Accounts (C : AcquireCall) (w : LeaseWait) : Prop := C.results w.attempts = result w.stage

theorem Accounts.steps (h : C.Accounts w) {w' : LeaseWait} (hw : C.Steps w w') :
    C.Accounts w' := by
  cases hw with
  | stay s _ => exact h
  | run hs => exact h.trans (by rw [hs]; rfl)
  | sleep a hs hr =>
    refine (results_concat (h.trans ?_) a).trans hr
    rcases hs with hs | ⟨s, hs⟩ <;> exact congrArg result hs
  | returns a r hs hr =>
    refine (results_concat (h.trans ?_) a).trans hr
    generalize w.stage = st at hs
    cases st with
    | returned r' => exact absurd rfl (hs r')
    | _ => rfl
  | ask t hs _ => exact h.trans (by rw [hs]; rfl)

/-- How a call begins. -/
theorem start_eq (C : AcquireCall) (s : Redis) :
    isBlank C.name = true ∧ (∃ r, (C.start s).stage = .returned r) ∧ Apart (C.start s)
        ∧ C.Accounts (C.start s)
      ∨ isBlank C.name = false ∧ C.start s = ⟨s, .asking, s.now, 200, [s.now], []⟩ := by
  by_cases hb : isBlank C.name = true
  · refine Or.inl ⟨hb, ?_⟩
    rw [start, attempt, if_pos hb, finish, results_of_blank hb]
    exact ⟨⟨_, rfl⟩, ⟨.nil, .nil, (fun _ ha => absurd ha List.not_mem_nil), Or.inl ⟨_, rfl⟩⟩,
      results_of_blank hb _⟩
  · refine Or.inr ⟨Bool.eq_false_iff.mpr hb, ?_⟩
    rw [start, attempt, if_neg hb]
    rfl

theorem start_keeps (C : AcquireCall) (s : Redis) : Apart (C.start s) ∧ C.Accounts (C.start s) := by
  rcases start_eq C s with ⟨-, -, h⟩ | ⟨-, h⟩
  · exact h
  · rw [h]
    refine ⟨⟨List.pairwise_singleton _ _, .nil, fun a ha => (List.mem_singleton.mp ha).le,
      Or.inr ⟨le_refl _, fun hlen => ?_, fun hlen => ?_⟩⟩, rfl⟩
    · exact absurd hlen (by simp)
    · exact absurd hlen (by simp)

/-- **A blocking acquisition is its attempts, and they are apart.** In every
run of a call, whatever others do on the server and whatever becomes of its
requests: it returns what its attempts come to, one after the other; and it
asks no sooner than 200 ms after it asked before, and from its third request
on no sooner than 800 ms, so that in any `800 n` ms it asks at most `n + 2`
times. -/
theorem attempts_apart (C : AcquireCall) (s : Redis) (es : List WaitEvent) :
    C.results (C.system.final (C.start s) es).attempts
        = result (C.system.final (C.start s) es).stage
      ∧ (C.system.final (C.start s) es).polls.Pairwise (fun a b => a + 200 ≤ b)
      ∧ ((C.system.final (C.start s) es).polls.drop 2).Pairwise (fun a b => a + 800 ≤ b)
      ∧ ∀ t n, ((C.system.final (C.start s) es).polls.filter
        (fun a => t ≤ a ∧ a < t + 800 * n)).length ≤ n + 2 := by
  obtain ⟨hapart, haccounts⟩ : Apart (C.system.final (C.start s) es)
      ∧ C.Accounts (C.system.final (C.start s) es) :=
    C.system.inv_final (G := fun _ _ => True) (I := fun w => Apart w ∧ C.Accounts w)
      (fun w e h _ => ⟨h.1.steps (steps w e), h.2.steps (steps w e)⟩) (start_keeps C s)
      (System.along_of_mem _ (fun _ _ => trivial))
  refine ⟨haccounts, hapart.apart, hapart.far, fun t n => ?_⟩
  have hfar := hapart.far
  generalize (C.system.final (C.start s) es).polls = polls at hfar
  have hwindow : ((polls.drop 2).filter (fun a => t ≤ a ∧ a < t + 800 * n)).length ≤ n := by
    refine length_le_of_spaced (g := 800) (t := t) (hfar.filter _) (fun a ha => ?_)
    simpa using (List.mem_filter.mp ha).2
  calc
    (polls.filter (fun a => t ≤ a ∧ a < t + 800 * n)).length
      = ((polls.take 2).filter (fun a => t ≤ a ∧ a < t + 800 * n)).length
        + ((polls.drop 2).filter (fun a => t ≤ a ∧ a < t + 800 * n)).length := by
      rw [← List.length_append, ← List.filter_append, List.take_append_drop]
    _ ≤ 2 + n :=
      Nat.add_le_add ((List.length_filter_le _ _).trans (List.length_take_le _ _)) hwindow
    _ = n + 2 := Nat.add_comm _ _

/-! ## How soon it is answered -/

/-- **How long the call stays where it stands**, at most; its work is to
ask. -/
def waitPace (T : Latency) : Pace WaitStage where
  stay
    | .asking => T.request
    | .ran _ => T.reply
    | .sleeping _ => 800 + T.late
    | .returned _ => 0
  lag
    | .asking => T.reply + (800 + T.late)
    | .ran _ => 0
    | .sleeping _ => T.reply
    | .returned _ => 0

/-- **The call is prompt, and the server answers it.** -/
def Prompt (T : Latency) (w : LeaseWait) : WaitEvent → Prop
  | .tick d => match w.stage with
    | .asking => w.redis.now + d ≤ w.since + T.request
    | .ran _ => w.redis.now + d ≤ w.since + T.reply
    | .sleeping t => w.redis.now + d ≤ t + T.late
    | .returned _ => True
  | .fail _ _ => False
  | _ => True

/-- Others leave the lease alone. -/
def Elsewhere (C : AcquireCall) (w : LeaseWait) : WaitEvent → Prop
  | .others db => db C.terms.lease = w.redis.db C.terms.lease
  | _ => True

/-- **A call that waits**, and when it asked last. -/
structure Going (T : Latency) (last : ℕ) (w : LeaseWait) : Prop where
  keeps : (waitPace T).Keeps ⟨w.redis.now, w.stage, w.since, last⟩
  delay : w.delay ≤ 800
  sleep : ∀ t, w.stage = .sleeping t → t ≤ w.since + 800
  ran : ∀ s, w.stage = .ran s → w.since = s.now
  waits : ∀ r, w.stage ≠ .returned r

/-- **What becomes of a call that waits**: it waits on; it asks; or it
returns. -/
inductive Proceeds (C : AcquireCall) (T : Latency) (last : ℕ) (w : LeaseWait) (e : WaitEvent) :
    LeaseWait → Prop
  | on {w' : LeaseWait} (h : Going T last w') (hran : ∀ s, w'.stage = .ran s → w.stage = .ran s)
      (hheld : ∀ s, w.stage = .ran s →
        w'.stage = .ran s ∨ ∃ clock, C.results [⟨s, none, clock⟩] = none)
      (he : w.stage ≠ .asking ∨ e ≠ .run) : Proceeds C T last w e w'
  | asks (hs : w.stage = .asking) (he : e = .run) : Proceeds C T last w e { w with
      redis := (C.terms.acquire w.redis).2, stage := .ran w.redis, since := w.redis.now }
  | returns (s : Redis) (clock : ℕ) (r : Option (Except ClusterError LeaseState))
      (hs : w.stage = .ran s) (hr : C.results [⟨s, none, clock⟩] = some r) {w' : LeaseWait}
      (hw : w'.stage = .returned r) : Proceeds C T last w e w'

/-- A sleep takes as long as the call sleeps next. -/
theorem Going.tick {T : Latency} {last d : ℕ} (h : Going T last w)
    (hd : Prompt T w (.tick d)) : Going T last { w with redis := w.redis.tick d } := by
  refine ⟨h.keeps.follows (.wait d ?_), h.delay, h.sleep, h.ran, h.waits⟩
  show w.redis.now + d ≤ w.since + (waitPace T).stay w.stage
  have hsleep := h.sleep
  have hwaits := h.waits
  revert hd hsleep hwaits
  show (match w.stage with
    | .asking => w.redis.now + d ≤ w.since + T.request
    | .ran _ => w.redis.now + d ≤ w.since + T.reply
    | .sleeping t => w.redis.now + d ≤ t + T.late
    | .returned _ => True) → _
  cases w.stage with
  | asking => exact fun hd _ _ => hd
  | ran s => exact fun hd _ _ => hd
  | sleeping t =>
    intro hd hsleep _
    have ht := hsleep t rfl
    show w.redis.now + d ≤ w.since + (800 + T.late)
    omega
  | returned r => exact fun _ _ hwaits => absurd rfl (hwaits r)

theorem Going.step {T : Latency} {last : ℕ} (h : Going T last w) (hb : isBlank C.name = false)
    {e : WaitEvent} (he : Prompt T w e) : C.Proceeds T last w e (C.system.step w e).2 := by
  have hstay : w.stage ≠ .asking ∨ e ≠ .run → C.Proceeds T last w e w :=
    fun he => .on h (fun _ hs => hs) (fun _ hs => Or.inl hs) he
  cases e with
  | tick d =>
    exact .on (h.tick he) (fun _ hs => hs) (fun _ hs => Or.inl hs) (Or.inr (fun hc => nomatch hc))
  | others db =>
    exact .on ⟨h.keeps, h.delay, h.sleep, h.ran, h.waits⟩ (fun _ hs => hs)
      (fun _ hs => Or.inl hs)
      (Or.inr (fun hc => nomatch hc))
  | run =>
    show C.Proceeds T last w .run (C.run w)
    unfold run
    split
    · next hs => exact .asks hs rfl
    · next hs => exact hstay (Or.inl hs)
  | reply clock =>
    show C.Proceeds T last w (.reply clock) (C.reply w clock)
    unfold reply
    split
    · next s hs =>
      unfold finish
      split
      · next hr =>
        have hkeeps : (waitPace T).Keeps
            ⟨w.redis.now, .sleeping (w.redis.now + w.delay), w.redis.now, last⟩ := by
          refine h.keeps.follows (.goOn (WaitStage.sleeping _) ?_)
          show (waitPace T).reach w.stage ≤ T.reply
          rw [hs]
          exact (Nat.zero_add _).le
        refine .on ⟨hkeeps, min_le_right _ _, fun t ht => ?_, (fun _ hc => nomatch hc),
          fun _ hc => nomatch hc⟩ (fun _ hc => nomatch hc) (fun s' hs' => ?_)
          (Or.inr (fun hc => nomatch hc))
        · rw [← WaitStage.sleeping.inj ht]
          exact Nat.add_le_add_left h.delay _
        · rw [← WaitStage.ran.inj (hs.symm.trans hs')]
          exact Or.inr ⟨clock, hr⟩
      · next r hr => exact .returns s clock r hs hr rfl
    · exact hstay (Or.inr (fun hc => nomatch hc))
  | fail text clock => exact he.elim
  | wake =>
    show C.Proceeds T last w .wake (C.wake w)
    unfold wake
    split
    · next t hs =>
      split
      · have hkeeps : (waitPace T).Keeps ⟨w.redis.now, .asking, w.redis.now, last⟩ := by
          refine h.keeps.follows (.goOn WaitStage.asking ?_)
          show (waitPace T).reach w.stage ≤ _
          rw [hs]
          exact le_refl _
        rw [attempt, if_neg (by rw [hb]; exact Bool.false_ne_true)]
        exact .on ⟨hkeeps, h.delay, (fun _ hc => nomatch hc), (fun _ hc => nomatch hc),
          fun _ hc => nomatch hc⟩ (fun _ hc => nomatch hc) (fun _ hc => nomatch hs.symm.trans hc)
          (Or.inr (fun hc => nomatch hc))
      · exact hstay (Or.inr (fun hc => nomatch hc))
    · exact hstay (Or.inr (fun hc => nomatch hc))

/-- A call that has asked. -/
theorem Going.asks {T : Latency} {last : ℕ} (h : Going T last w) : Going T w.redis.now { w with
    redis := (C.terms.acquire w.redis).2, stage := .ran w.redis, since := w.redis.now } where
  keeps := by
    show (waitPace T).Keeps ⟨(C.terms.acquire w.redis).2.now, _, _, _⟩
    rw [acquire_now]
    exact h.keeps.follows (.work _)
  delay := h.delay
  sleep _ hs := nomatch hs
  ran _ hs := congrArg Redis.now (WaitStage.ran.inj hs)
  waits _ hs := nomatch hs

/-- What has returned has. -/
theorem returned_step {r : Option (Except ClusterError LeaseState)} (hs : w.stage = .returned r)
    (e : WaitEvent) : (C.system.step w e).2.stage = .returned r := by
  cases e with
  | tick d => exact hs
  | others db => exact hs
  | run =>
    show (C.run w).stage = _
    rw [run, hs]
    exact hs
  | reply clock =>
    show (C.reply w clock).stage = _
    rw [reply, hs]
    exact hs
  | fail text clock =>
    show (C.fail w text clock).stage = _
    rw [fail, hs]
    exact hs
  | wake =>
    show (C.wake w).stage = _
    rw [wake, hs]
    exact hs

/-- **A call waits, or has returned.** -/
def Called (T : Latency) (w : LeaseWait) : Prop :=
  (∃ r, w.stage = .returned r) ∨ ∃ last, Going T last w

theorem called_step {T : Latency} (hb : isBlank C.name = false) (w : LeaseWait) (e : WaitEvent)
    (h : Called T w) (he : Prompt T w e) : Called T (C.system.step w e).2 := by
  rcases h with ⟨r, hr⟩ | ⟨last, h⟩
  · exact Or.inl ⟨r, returned_step hr e⟩
  · have hw := h.step (C := C) hb he
    generalize (C.system.step w e).2 = w' at hw ⊢
    cases hw with
    | on h _ _ => exact Or.inr ⟨last, h⟩
    | asks hs _ => exact Or.inr ⟨_, h.asks⟩
    | returns s clock r hs hr hw => exact Or.inl ⟨r, hw⟩

/-! ### When the lease is free -/

/-- Nothing makes a free lease anything else but the call itself. -/
theorem free_step {e : WaitEvent} (hfree : w.redis.lookup C.terms.lease = none)
    (he : C.Elsewhere w e) (hno : w.stage ≠ .asking ∨ e ≠ .run) :
    (C.system.step w e).2.redis.lookup C.terms.lease = none := by
  have hfinish : ∀ a, (C.finish w a).redis = w.redis := by
    intro a
    unfold finish
    split <;> rfl
  cases e with
  | tick d =>
    show (w.redis.tick d).lookup _ = none
    rw [Redis.lookup_tick, hfree]
    rfl
  | others db =>
    show (db C.terms.lease).filter _ = none
    rw [he]
    exact hfree
  | run =>
    show (C.run w).redis.lookup _ = none
    unfold run
    split
    · next hs => exact (hno.elim (fun h => h hs) (fun h => h rfl)).elim
    · exact hfree
  | reply clock =>
    show (C.reply w clock).redis.lookup _ = none
    unfold reply
    split
    · rw [hfinish]
      exact hfree
    · exact hfree
  | fail text clock =>
    show (C.fail w text clock).redis.lookup _ = none
    unfold fail
    split
    · rw [hfinish]
      exact hfree
    · rw [hfinish]
      exact hfree
    · exact hfree
  | wake =>
    show (C.wake w).redis.lookup _ = none
    unfold wake
    split
    · split
      · unfold attempt
        split
        · rw [hfinish]
          exact hfree
        · exact hfree
      · exact hfree
    · exact hfree

/-- **An attempt that finds a holder** is not the last. -/
theorem results_of_held (hb : isBlank C.name = false) {s : Redis} {b : List UInt8} {x : Option ℕ}
    (hs : s.lookup C.terms.lease = some ⟨.str b, x⟩) (clock : ℕ) :
    C.results [⟨s, none, clock⟩] = none := by
  have hrun : C.terms.acquire s = (.ok none, s) := by
    rw [LeaseTerms.acquire, acquireLua, bind_ok (Redis.get_str hs)]
    rfl
  have hresult : (tryAcquireAsync C.drv C.calendar C.p C.id C.holder C.name C.ttl
      ⟨s, none, clock⟩).result = some (.ok none) := by
    rw [tryAcquireAsync, if_neg (by rw [hb]; exact Bool.false_ne_true)]
    show (C.terms.replied C.drv C.calendar C.name clock (C.terms.acquire s).1) = _
    rw [hrun]
    rfl
  rw [results, acquireAsync, hresult]
  rfl

/-- The server as an attempt meets it that is the last: the lease is free, or
its key is no lease's. -/
def Met (C : AcquireCall) (s : Redis) : Prop :=
  s.lookup C.terms.lease = none ∨ ∃ z e, s.lookup C.terms.lease = some ⟨.zset z, e⟩

/-- A script that finds no holder does not say that there is one. -/
theorem acquire_of_met {s : Redis} (hs : C.Met s) : (C.terms.acquire s).1 ≠ .ok none := by
  have hne : C.terms.lease ≠ C.terms.id.fenceKey C.terms.p := C.terms.id.leaseKey_ne_fenceKey _
  unfold LeaseTerms.acquire
  rcases hs with hs | ⟨z, e, hs⟩
  · by_cases ht : ExpireOk s.now C.terms.ttl
    · cases hc : s.count (C.terms.id.fenceKey C.terms.p) (some 1) with
      | ok n =>
        rw [acquireLua_free hne hs ht hc]
        rintro ⟨⟩
      | error e =>
        rw [acquireLua_stuck hne hs ht hc]
        rintro ⟨⟩
    · rw [acquireLua_refused hs ht]
      rintro ⟨⟩
  · rw [acquireLua, bind_error (Redis.get_zset hs)]
    rintro ⟨⟩

/-- **An attempt that finds no holder** is the last, however it ends. -/
theorem results_of_met {s : Redis} (hs : C.Met s) (clock : ℕ) :
    C.results [⟨s, none, clock⟩] ≠ none := by
  have hrun := acquire_of_met hs
  have hresult : (tryAcquireAsync C.drv C.calendar C.p C.id C.holder C.name C.ttl
      ⟨s, none, clock⟩).result ≠ some (.ok none) := by
    unfold tryAcquireAsync
    split
    · rintro ⟨⟩
    · show C.terms.replied C.drv C.calendar C.name clock (C.terms.acquire s).1 ≠ _
      generalize (C.terms.acquire s).1 = r at hrun
      rcases r with e | - | fence
      · rintro ⟨⟩
      · exact absurd rfl hrun
      · rw [LeaseTerms.replied]
        cases C.calendar.rfc3339After clock C.terms.ttl <;> rintro ⟨⟩
  rw [results, acquireAsync]
  split
  · next h => exact absurd h hresult
  all_goals rintro ⟨⟩

/-- **How long after it asked the call asks again**, at most. -/
def gap (T : Latency) : ℕ := T.reply + (800 + T.late) + T.request

/-- **What becomes of a call once the lease is free**, from a time on: it waits
and the lease is free; it has found it free; or it has returned what that
came to. -/
inductive Awaits (C : AcquireCall) (T : Latency) (t₀ : ℕ) (w : LeaseWait) : Prop
  | waits (last : ℕ) (h : Going T last w) (hlast : last ≤ t₀)
      (hfree : w.redis.lookup C.terms.lease = none)
      (hheld : ∀ s, w.stage = .ran s → s.lookup C.terms.lease ≠ none)
  | ran (s : Redis) (last : ℕ) (h : Going T last w) (hs : w.stage = .ran s)
      (hsoon : s.now ≤ t₀ + gap T) (hmet : C.Met s)
  | answered (s : Redis) (clock : ℕ) (r : Option (Except ClusterError LeaseState))
      (hsoon : s.now ≤ t₀ + gap T) (hmet : C.Met s) (hr : C.results [⟨s, none, clock⟩] = some r)
      (hw : w.stage = .returned r)

/-- A call that waits asked not long ago. -/
theorem Going.gap {T : Latency} {last : ℕ} (h : Going T last w) :
    w.redis.now ≤ last + AcquireCall.gap T := by
  have hlast := h.keeps.last
  refine hlast.trans (Nat.add_le_add_left ?_ _)
  show (waitPace T).reach w.stage ≤ _
  unfold AcquireCall.gap Pace.reach waitPace
  cases w.stage <;> dsimp only <;> omega

/-- A call whose script has run asked when it did. -/
theorem Going.ran_le {T : Latency} {last : ℕ} (h : Going T last w) {s : Redis}
    (hs : w.stage = .ran s) : s.now ≤ last ∧ w.redis.now ≤ s.now + T.reply := by
  have hentered : w.since ≤ last + (waitPace T).lag w.stage := h.keeps.entered
  have hstayed : w.redis.now ≤ w.since + (waitPace T).stay w.stage := h.keeps.stayed
  rw [hs, h.ran s hs] at hentered hstayed
  exact ⟨hentered, hstayed⟩

theorem awaits_step {T : Latency} {t₀ : ℕ} (hb : isBlank C.name = false) (w : LeaseWait)
    (e : WaitEvent) (h : C.Awaits T t₀ w) (he : Prompt T w e ∧ C.Elsewhere w e) :
    C.Awaits T t₀ (C.system.step w e).2 := by
  cases h with
  | waits last h hlast hfree hheld =>
    have hw := h.step (C := C) hb he.1
    have hstill := free_step hfree he.2
    generalize (C.system.step w e).2 = w' at hw hstill ⊢
    cases hw with
    | on h' hran _ hno => exact .waits last h' hlast (hstill hno) (fun s hs => hheld s (hran s hs))
    | asks hs _ =>
      exact .ran w.redis _ h.asks rfl (h.gap.trans (Nat.add_le_add_right hlast _)) (Or.inl hfree)
    | returns s clock r hs hr hw =>
      refine .answered s clock r ?_ (Or.inr ?_) hr hw
      · exact ((h.ran_le hs).1.trans hlast).trans (Nat.le_add_right _ _)
      · obtain ⟨⟨v, x⟩, ho⟩ := Option.ne_none_iff_exists'.mp (hheld s hs)
        cases v with
        | str b => exact nomatch (results_of_held hb ho clock).symm.trans hr
        | zset z => exact ⟨z, x, ho⟩
  | ran s last h hs hsoon hmet =>
    have hw := h.step (C := C) hb he.1
    generalize (C.system.step w e).2 = w' at hw ⊢
    cases hw with
    | on h' _ hheld _ =>
      refine .ran s last h' ((hheld s hs).resolve_right ?_) hsoon hmet
      rintro ⟨clock, hr⟩
      exact results_of_met hmet clock hr
    | asks hs' _ => exact nomatch hs.symm.trans hs'
    | returns s' clock r hs' hr hw =>
      obtain rfl := WaitStage.ran.inj (hs.symm.trans hs')
      exact .answered s clock r hsoon hmet hr hw
  | answered s clock r hsoon hmet hr hw =>
    exact .answered s clock r hsoon hmet hr (returned_step hw e)

/-- **A call is answered soon after the lease is free.** Take any run in which
the call is prompt and the server answers it, and a state of it in which the
call waits and the lease is free. If from there on nobody else takes the
lease, then a second after – as long as the call sleeps at most, and what its
requests take – it has returned; and what it returned is what an attempt came
to that found the lease free, or its key no lease's. -/
theorem answered_when_free (C : AcquireCall) (T : Latency) (s : Redis) (es fs : List WaitEvent)
    (hprompt : C.system.Along (Prompt T) (C.start s) (es ++ fs))
    (hwaits : result (C.system.final (C.start s) es).stage = none)
    (hfree : (C.system.final (C.start s) es).redis.lookup C.terms.lease = none)
    (helse : C.system.Along C.Elsewhere (C.system.final (C.start s) es) fs)
    (hlate : (C.system.final (C.start s) es).redis.now + gap T + T.reply
      < (C.system.final (C.start s) (es ++ fs)).redis.now) :
    ∃ s' clock r, s'.now ≤ (C.system.final (C.start s) es).redis.now + gap T ∧ C.Met s'
      ∧ C.results [⟨s', none, clock⟩] = some r
      ∧ (C.system.final (C.start s) (es ++ fs)).stage = .returned r := by
  obtain ⟨hes, hfs⟩ := (C.system.along_append _ _ _).mp hprompt
  have hnow : ∀ r, (C.system.final (C.start s) es).stage ≠ .returned r :=
    fun r hr => nomatch hwaits.symm.trans (congrArg result hr)
  -- a lease without a name has been refused at once
  obtain ⟨hb, hstart⟩ : isBlank C.name = false ∧ Called T (C.start s) := by
    rcases start_eq C s with ⟨-, ⟨r, hr⟩, -⟩ | ⟨hb, hstart⟩
    · have hsame : (C.system.final (C.start s) es).stage = .returned r :=
        C.system.inv_final (G := fun _ _ => True) (I := fun w => w.stage = .returned r)
          (fun w e h _ => returned_step h e) hr (System.along_of_mem _ (fun _ _ => trivial))
      exact absurd hsame (hnow r)
    · refine ⟨hb, ?_⟩
      rw [hstart]
      exact Or.inr ⟨s.now, ⟨⟨Nat.le_add_right _ _, Nat.le_add_right _ _, le_refl _⟩,
        (by decide : 200 ≤ 800),
        (fun _ hs => nomatch hs), (fun _ hs => nomatch hs), fun _ hs => nomatch hs⟩⟩
  obtain ⟨last, hgoing⟩ := (C.system.inv_final (called_step hb) hstart hes).resolve_left
    (fun ⟨r, hr⟩ => hnow r hr)
  have hawaits : C.Awaits T (C.system.final (C.start s) es).redis.now
      (C.system.final (C.start s) es) := by
    by_cases hmet : ∃ s', (C.system.final (C.start s) es).stage = .ran s'
        ∧ s'.lookup C.terms.lease = none
    · obtain ⟨s', hs', hnone⟩ := hmet
      exact .ran s' last hgoing hs' (((hgoing.ran_le hs').1.trans hgoing.keeps.past).trans
        (Nat.le_add_right _ _)) (Or.inl hnone)
    · exact .waits last hgoing hgoing.keeps.past hfree (fun s' hs' hnone => hmet ⟨s', hs', hnone⟩)
  have hend := C.system.inv_final (awaits_step hb) hawaits (hfs.and helse)
  rw [System.final_append] at hlate ⊢
  cases hend with
  | waits last h hlast _ _ =>
    have hgap := h.gap
    omega
  | ran s' last h hs hsoon _ =>
    have hran := (h.ran_le hs).2
    omega
  | answered s' clock r hsoon hmet hr hw => exact ⟨s', clock, r, hsoon, hmet, hr, hw⟩

/-- A call of another node for a lock that is held for ten milliseconds. -/
def waiting : AcquireCall :=
  ⟨Driver.plain, LeaseTerms.chrono, "p", ⟨.locks, "x"⟩, "b", "x",
    Duration.ofMillis 30000 (by decide)⟩

/-- It finds the lock held, sleeps for 200 ms, and has it. -/
theorem answered_when_free_sample :
    ∃ s' clock r, s'.now ≤ 100 + gap ⟨0, 0, 0⟩ ∧ waiting.Met s'
      ∧ waiting.results [⟨s', none, clock⟩] = some r
      ∧ (waiting.system.final (waiting.start (LeaseTerms.sample.acquire (Redis.empty 0)).2)
        ([.run, .reply 0, .tick 100] ++ [.tick 100, .wake, .run, .reply 200, .tick 1000])).stage
        = .returned r := by
  refine waiting.answered_when_free ⟨0, 0, 0⟩ (LeaseTerms.sample.acquire (Redis.empty 0)).2
    [.run, .reply 0, .tick 100] [.tick 100, .wake, .run, .reply 200, .tick 1000] ?_ ?_ ?_ ?_ ?_
  · refine ⟨trivial, trivial, ?_, ?_, trivial, trivial, trivial, trivial, trivial⟩
    · exact (by decide : 0 + 100 ≤ 200 + 0)
    · exact (by decide : 100 + 100 ≤ 200 + 0)
  · rfl
  · rfl
  · exact ⟨trivial, trivial, trivial, trivial, trivial, trivial⟩
  · exact (by decide : 100 + 800 + 0 < 1200)

end AcquireCall
