import Mathlib.Algebra.Order.BigOperators.Group.Finset
import Mathlib.Data.Fintype.Defs
import ClusterRedis.Client
import ClusterRedis.OnceCell
import ClusterRedis.Turns

/-!
# The shared connection

A backend has one connection to the server, made by the first call that needs
it, and one pair of a state store and a bus over it, made behind it. Calls
come at the same time, from the host and from the backend's own tasks; a call
may be given up at any moment, and the server may not answer.

Two cells hold what is shared. Whatever the calls do, all that succeed get
the same connection, and whoever has got it finds the store there
(`connects_once`). A call that waits for another does not wait for ever, and
does not fail for it: if the other fails or is given up it makes its own
attempt (`calls_answered`).
-/

/-- **What is built over the connection**: the store and the bus, of one
connection and one prefix. Connections are numbered in the order they were
made in. -/
structure RedisPrimitives where
  conn : ℕ
  keyPrefix : String
  deriving DecidableEq

/-- What a call wants. -/
inductive Wanted where
  /-- `get_or_init_conn`. -/
  | connection
  /-- `require_kv` and `require_redis_kv`. -/
  | store
  deriving DecidableEq

/-- What a call gets. -/
inductive Obtained where
  | connection (conn : ℕ)
  | store (primitives : RedisPrimitives)
  deriving DecidableEq

/-- The connection it is. -/
def Obtained.conn : Obtained → ℕ
  | connection c => c
  | store P => P.conn

/-- **Where a call stands.** -/
inductive ConnectStage where
  | idle
  /-- It asks for the connection, -/
  | conn (x : Wanted)
  /-- or makes it; -/
  | connecting (x : Wanted)
  /-- has it, and asks for what is built over it, -/
  | primitives (x : Wanted) (conn : ℕ)
  /-- or builds it; -/
  | building (x : Wanted) (conn : ℕ)
  /-- and `get_or_init_conn` has returned. -/
  | connected (x : Wanted) (conn : ℕ)
  deriving DecidableEq

/-- **The cells of a backend, and the calls `ι` on it.** -/
structure ConnectWorld (ι : Type) where
  /-- `conn_cell`. -/
  connCell : OnceCell ι ℕ
  /-- `primitives`. -/
  primitives : OnceCell ι RedisPrimitives
  stage : ι → ConnectStage
  /-- How many connections have been made. -/
  made : ℕ
  /-- What the calls have returned. -/
  returned : List (ι × Except ClusterError Obtained)

/-- A step: a call begins, goes on – a connection is made, or fails with a
text – or is given up. -/
inductive ConnectEvent (ι : Type) where
  | call (i : ι) (x : Wanted)
  | step (i : ι) (failure : Option String)
  | giveUp (i : ι)

/-- Why there is no connection. -/
def connectError (text : String) : ClusterError :=
  .backendUnavailable ("connection manager init: " ++ text)

/-- Why there is no store, when there is a connection. -/
def storeError : ClusterError := .backendUnavailable "redis cluster: key_value_store unavailable"

namespace ConnectWorld

variable {ι : Type}

/-- Nobody has called. -/
def start (ι : Type) : ConnectWorld ι := ⟨.empty, .empty, fun _ => .idle, 0, []⟩

/-- `key_value_store` and `pub_sub`. -/
def accessor (w : ConnectWorld ι) : Option RedisPrimitives := w.primitives.value

variable [DecidableEq ι]

/-- The call goes on with a stage. -/
def goto (w : ConnectWorld ι) (i : ι) (st : ConnectStage) : ConnectWorld ι :=
  { w with stage := Function.update w.stage i st }

/-- The call returns. -/
def answer (w : ConnectWorld ι) (i : ι) (r : Except ClusterError Obtained) : ConnectWorld ι :=
  { w with stage := Function.update w.stage i .idle, returned := w.returned ++ [(i, r)] }

/-- **`get_or_init_conn`**, and what is wanted of it, step by step. -/
def callStep (p : String) (w : ConnectWorld ι) (i : ι) (failure : Option String) :
    ConnectWorld ι :=
  match w.stage i with
  | .idle => w
  | .conn x => match w.connCell with
    | .full c => w.goto i (.primitives x c)
    | .empty => { w with connCell := w.connCell.claim i }.goto i (.connecting x)
    | .making _ => w
  | .connecting x => match failure with
    | none =>
      { w with connCell := w.connCell.complete i w.made, made := w.made + 1 }.goto i
        (.primitives x w.made)
    | some text =>
      { w with connCell := w.connCell.abandon i }.answer i (.error (connectError text))
  | .primitives x c => match w.primitives with
    | .full _ => w.goto i (.connected x c)
    | .empty => { w with primitives := w.primitives.claim i }.goto i (.building x c)
    | .making _ => w
  | .building x c =>
    { w with primitives := w.primitives.complete i ⟨c, p⟩ }.goto i (.connected x c)
  | .connected .connection c => w.answer i (.ok (.connection c))
  | .connected .store _ => match w.accessor with
    | some P => w.answer i (.ok (.store P))
    | none => w.answer i (.error storeError)

/-- The call is given up. -/
def giveUp (w : ConnectWorld ι) (i : ι) : ConnectWorld ι :=
  { w with
    connCell := w.connCell.abandon i
    primitives := w.primitives.abandon i }.goto i .idle

/-- **The calls on a backend.** -/
def system (ι : Type) [DecidableEq ι] (p : String) :
    System (ConnectWorld ι) (ConnectEvent ι) Unit where
  step w
    | .call i x => ((), if w.stage i = .idle then w.goto i (.conn x) else w)
    | .step i failure => ((), callStep p w i failure)
    | .giveUp i => ((), w.giveUp i)

/-! ## What the calls agree on -/

/-- It makes the connection. -/
def Connects (st : ConnectStage) : Prop := ∃ x, st = .connecting x

/-- It builds what is over the connection. -/
def Builds (st : ConnectStage) : Prop := ∃ x c, st = .building x c

/-- It has the connection. -/
def Has (st : ConnectStage) (c : ℕ) : Prop :=
  ∃ x, st = .primitives x c ∨ st = .building x c ∨ st = .connected x c

/-- **What a call may return**: the connection of the cell, with what is built
over it there too, or an error of an attempt. -/
def Answers (p : String) (w : ConnectWorld ι) : Except ClusterError Obtained → Prop
  | .ok o => w.connCell = .full o.conn ∧ w.primitives = .full ⟨o.conn, p⟩
    ∧ ∀ P, o = .store P → P = ⟨o.conn, p⟩
  | .error e => ∃ text, e = connectError text

omit [DecidableEq ι] in
/-- What was answered is right as long as the cells stay. -/
theorem Answers.mono {p : String} {w w' : ConnectWorld ι} {r : Except ClusterError Obtained}
    (h : Answers p w r) (hc : w.connCell.Stays w'.connCell)
    (hp : w.primitives.Stays w'.primitives) : Answers p w' r := by
  cases r with
  | error e => exact h
  | ok o => exact ⟨hc _ h.1, hp _ h.2.1, h.2.2⟩

/-- **What every run keeps.** -/
structure Sound (p : String) (w : ConnectWorld ι) : Prop where
  connecting : w.connCell.Tracks (fun i => Connects (w.stage i))
  building : w.primitives.Tracks (fun i => Builds (w.stage i))
  has : ∀ i c, Has (w.stage i) c → w.connCell = .full c
  built : ∀ P, w.primitives = .full P → w.connCell = .full P.conn ∧ P.keyPrefix = p
  connected : ∀ i x c, w.stage i = .connected x c → ∃ P, w.primitives = .full P
  once : ∀ c, w.connCell = .full c → w.made = 1
  none : (∀ c, w.connCell ≠ .full c) → w.made = 0
  returned : ∀ r ∈ w.returned, Answers p w r.2

variable {p : String} {w : ConnectWorld ι}

omit [DecidableEq ι] in
theorem sound_start : Sound p (start ι) where
  connecting i := by
    refine iff_of_false ?_ (fun h => nomatch h)
    rintro ⟨_, h⟩
    cases h
  building i := by
    refine iff_of_false ?_ (fun h => nomatch h)
    rintro ⟨_, _, h⟩
    cases h
  has i c h := by
    obtain ⟨_, h | h | h⟩ := h <;> exact nomatch h
  built P h := nomatch h
  connected i x c h := nomatch h
  once c h := nomatch h
  none _ := rfl
  returned r h := absurd h List.not_mem_nil

/-- **A call moves**, and the cells with it. -/
theorem Sound.move (h : Sound p w) {w' : ConnectWorld ι} {i : ι} {st : ConnectStage}
    (hstage : w'.stage = Function.update w.stage i st)
    (hconnecting : w'.connCell.Tracks (fun j => Connects (Function.update w.stage i st j)))
    (hbuilding : w'.primitives.Tracks (fun j => Builds (Function.update w.stage i st j)))
    (hc : w.connCell.Stays w'.connCell) (hp : w.primitives.Stays w'.primitives)
    (hbuilt : ∀ P, w'.primitives = .full P → w'.connCell = .full P.conn ∧ P.keyPrefix = p)
    (honce : ∀ c, w'.connCell = .full c → w'.made = 1)
    (hnone : (∀ c, w'.connCell ≠ .full c) → w'.made = 0)
    (hhas : ∀ c, Has st c → w'.connCell = .full c)
    (hconnected : ∀ x c, st = .connected x c → ∃ P, w'.primitives = .full P)
    (hreturned : ∀ r ∈ w'.returned, r ∈ w.returned ∨ Answers p w' r.2) : Sound p w' where
  connecting := hstage ▸ hconnecting
  building := hstage ▸ hbuilding
  has j c hj := by
    rw [hstage] at hj
    by_cases hji : j = i
    · rw [hji, Function.update_self] at hj
      exact hhas c hj
    · rw [Function.update_of_ne hji] at hj
      exact hc c (h.has j c hj)
  built := hbuilt
  connected j x c hj := by
    rw [hstage] at hj
    by_cases hji : j = i
    · rw [hji, Function.update_self] at hj
      exact hconnected x c hj
    · rw [Function.update_of_ne hji] at hj
      obtain ⟨P, hP⟩ := h.connected j x c hj
      exact ⟨P, hp P hP⟩
  once := honce
  none := hnone
  returned r hr := (hreturned r hr).elim (fun hr => (h.returned r hr).mono hc hp) id

/-- A call moves that makes nothing, and the cells are as they were. -/
theorem Sound.moveOn (h : Sound p w) {i : ι} {st : ConnectStage}
    (hold : ¬ Connects (w.stage i) ∧ ¬ Builds (w.stage i)) (hnew : ¬ Connects st ∧ ¬ Builds st)
    (hhas : ∀ c, Has st c → w.connCell = .full c)
    (hconnected : ∀ x c, st = .connected x c → ∃ P, w.primitives = .full P)
    (returned : List (ι × Except ClusterError Obtained))
    (hreturned : ∀ r ∈ returned, r ∈ w.returned ∨ Answers p w r.2) :
    Sound p { w with stage := Function.update w.stage i st, returned := returned } :=
  h.move rfl (h.connecting.move hold.1 hnew.1) (h.building.move hold.2 hnew.2) (.refl _) (.refl _)
    h.built h.once h.none hhas hconnected hreturned

/-- What a call is not making at a stage. -/
theorem not_makes {st : ConnectStage} (h : ∀ x c, st ≠ .connecting x ∧ st ≠ .building x c) :
    ¬ Connects st ∧ ¬ Builds st :=
  ⟨fun ⟨x, hx⟩ => (h x 0).1 hx, fun ⟨x, c, hx⟩ => (h x c).2 hx⟩

omit [DecidableEq ι] in
/-- **When `get_or_init_conn` has returned a connection**, it is the cell's,
and what is built over it is there. -/
theorem Sound.of_connected (h : Sound p w) {i : ι} {x : Wanted} {c : ℕ}
    (hst : w.stage i = .connected x c) :
    w.connCell = .full c ∧ w.primitives = .full ⟨c, p⟩ := by
  have hc : w.connCell = .full c := h.has i c ⟨x, Or.inr (Or.inr hst)⟩
  obtain ⟨P, hP⟩ := h.connected i x c hst
  obtain ⟨hconn, hprefix⟩ := h.built P hP
  have hsame : P = ⟨c, p⟩ := by
    obtain ⟨conn, keyPrefix⟩ := P
    obtain rfl : keyPrefix = p := hprefix
    rw [OnceCell.full.inj (hc.symm.trans hconn)]
  exact ⟨hc, hsame ▸ hP⟩

/-- **Every step of a call keeps it.** -/
theorem sound_callStep (h : Sound p w) (i : ι) (failure : Option String) :
    Sound p (callStep p w i failure) := by
  have hsame : ∀ r ∈ w.returned, r ∈ w.returned ∨ Answers p w r.2 := fun r hr => Or.inl hr
  unfold callStep
  split
  · exact h
  · next x hst =>
    have hold := @not_makes (w.stage i) (fun _ _ => by simp [hst])
    split
    · next c hc =>
      refine h.moveOn hold (not_makes (by simp)) ?_ (by simp) _ hsame
      rintro d ⟨_, hd | hd | hd⟩
      · cases hd
        exact hc
      · cases hd
      · cases hd
    · next hc =>
      refine h.move rfl (h.connecting.move_claim hc ⟨x, rfl⟩)
        (h.building.move hold.2 (by simp [Builds])) (OnceCell.stays_claim _ _) (.refl _) ?_ ?_ ?_
        ?_ (by simp) (fun r hr => Or.inl hr)
      · exact fun P hP => absurd (hc.symm.trans (h.built P hP).1) (by simp)
      · exact fun c hc' => absurd hc' (by simp [goto, hc, OnceCell.claim])
      · exact fun _ => h.none (fun c hc' => absurd (hc.symm.trans hc') (by simp))
      · rintro d ⟨_, hd | hd | hd⟩ <;> cases hd
    · exact h
  · next x hst =>
    have hnow : Connects (w.stage i) := ⟨x, hst⟩
    have hb : ¬ Builds (w.stage i) := by simp [Builds, hst]
    have hempty : ∀ c, w.connCell ≠ .full c := fun c hc => h.connecting.not_of_full hc i hnow
    have hfresh : w.made = 0 := h.none hempty
    split
    · obtain ⟨hfull, -⟩ := h.connecting.complete hnow w.made
      refine h.move rfl (h.connecting.move_complete hnow (by simp [Connects]) w.made)
        (h.building.move hb (by simp [Builds])) (OnceCell.stays_complete _ _ _) (.refl _) ?_ ?_ ?_
        ?_ (by simp) (fun r hr => Or.inl hr)
      · exact fun P hP => absurd (h.built P hP).1 (hempty _)
      · exact fun _ _ => congrArg (· + 1) hfresh
      · exact fun hno => absurd hfull (hno w.made)
      · rintro d ⟨_, hd | hd | hd⟩
        · cases hd
          exact hfull
        · cases hd
        · cases hd
    · next text =>
      have habandon : ∀ c, w.connCell.abandon i ≠ .full c :=
        fun c hc => hempty c (OnceCell.abandon_eq_full_iff.mp hc)
      refine h.move rfl (h.connecting.move_abandon (by simp [Connects]))
        (h.building.move hb (by simp [Builds])) (OnceCell.stays_abandon _ _) (.refl _) ?_ ?_ ?_
        ?_ (by simp) ?_
      · exact fun P hP => absurd (h.built P hP).1 (hempty _)
      · exact fun c hc => absurd hc (habandon c)
      · exact fun _ => hfresh
      · rintro d ⟨_, hd | hd | hd⟩ <;> cases hd
      · intro r hr
        rcases List.mem_append.mp hr with hr | hr
        · exact Or.inl hr
        · rw [List.mem_singleton.mp hr]
          exact Or.inr ⟨text, rfl⟩
  · next x c hst =>
    have hold := @not_makes (w.stage i) (fun _ _ => by simp [hst])
    have hc : w.connCell = .full c := h.has i c ⟨x, Or.inl hst⟩
    split
    · next P hP =>
      refine h.moveOn hold (not_makes (by simp)) ?_ (fun _ _ _ => ⟨P, hP⟩) _ hsame
      rintro d ⟨_, hd | hd | hd⟩
      · cases hd
      · cases hd
      · cases hd
        exact hc
    · next hP =>
      refine h.move rfl (h.connecting.move hold.1 (by simp [Connects]))
        (h.building.move_claim hP ⟨x, c, rfl⟩) (.refl _) (OnceCell.stays_claim _ _) ?_ h.once
        h.none ?_ (by simp) (fun r hr => Or.inl hr)
      · exact fun P hP' => absurd hP' (by simp [goto, hP, OnceCell.claim])
      · rintro d ⟨_, hd | hd | hd⟩
        · cases hd
        · cases hd
          exact hc
        · cases hd
    · exact h
  · next x c hst =>
    have hnow : Builds (w.stage i) := ⟨x, c, hst⟩
    have hc : w.connCell = .full c := h.has i c ⟨x, Or.inr (Or.inl hst)⟩
    obtain ⟨hfull, -⟩ := h.building.complete hnow ⟨c, p⟩
    refine h.move rfl (h.connecting.move (by simp [Connects, hst]) (by simp [Connects]))
      (h.building.move_complete hnow (by simp [Builds]) ⟨c, p⟩) (.refl _)
      (OnceCell.stays_complete _ _ _) ?_ h.once h.none ?_ (fun _ _ _ => ⟨_, hfull⟩)
      (fun r hr => Or.inl hr)
    · intro P hP
      obtain rfl := OnceCell.full.inj (hfull.symm.trans hP)
      exact ⟨hc, rfl⟩
    · rintro d ⟨_, hd | hd | hd⟩
      · cases hd
      · cases hd
      · cases hd
        exact hc
  · next c hst =>
    obtain ⟨hc, hP⟩ := h.of_connected hst
    refine h.moveOn (not_makes (fun _ _ => by simp [hst])) (not_makes (by simp)) ?_ (by simp) _
      (fun r hr => ?_)
    · rintro d ⟨_, hd | hd | hd⟩ <;> cases hd
    · rcases List.mem_append.mp hr with hr | hr
      · exact Or.inl hr
      · rw [List.mem_singleton.mp hr]
        exact Or.inr ⟨hc, hP, by simp⟩
  · next c hst =>
    obtain ⟨hc, hP⟩ := h.of_connected hst
    rw [accessor, hP]
    refine h.moveOn (not_makes (fun _ _ => by simp [hst])) (not_makes (by simp)) ?_ (by simp) _
      (fun r hr => ?_)
    · rintro d ⟨_, hd | hd | hd⟩ <;> cases hd
    · rcases List.mem_append.mp hr with hr | hr
      · exact Or.inl hr
      · rw [List.mem_singleton.mp hr]
        exact Or.inr ⟨hc, hP, fun P hP => (Obtained.store.inj hP).symm⟩

theorem sound_giveUp (h : Sound p w) (i : ι) : Sound p (w.giveUp i) := by
  refine h.move rfl (h.connecting.move_abandon (by simp [Connects]))
    (h.building.move_abandon (by simp [Builds])) (OnceCell.stays_abandon _ _)
    (OnceCell.stays_abandon _ _) ?_ ?_ ?_ ?_ (by simp) (fun r hr => Or.inl hr)
  · intro P hP
    obtain ⟨hc, hprefix⟩ := h.built P (OnceCell.abandon_eq_full_iff.mp hP)
    exact ⟨OnceCell.stays_abandon _ _ _ hc, hprefix⟩
  · exact fun c hc => h.once c (OnceCell.abandon_eq_full_iff.mp hc)
  · exact fun hno => h.none (fun c hc => hno c (OnceCell.stays_abandon _ _ _ hc))
  · rintro d ⟨_, hd | hd | hd⟩ <;> cases hd

/-- **Every step keeps it, and leaves what is full.** -/
theorem sound_step (h : Sound p w) (e : ConnectEvent ι) :
    Sound p ((system ι p).step w e).2 := by
  cases e with
  | call i x =>
    show Sound p (if w.stage i = .idle then w.goto i (.conn x) else w)
    split
    · next hst =>
      refine h.moveOn (not_makes (fun _ _ => by simp [hst])) (not_makes (by simp)) ?_ (by simp) _
        (fun r hr => Or.inl hr)
      rintro d ⟨_, hd | hd | hd⟩ <;> cases hd
    · exact h
  | step i failure => exact sound_callStep h i failure
  | giveUp i => exact sound_giveUp h i

theorem stays_callStep (p : String) (w : ConnectWorld ι) (i : ι) (failure : Option String) :
    w.connCell.Stays (callStep p w i failure).connCell
      ∧ w.primitives.Stays (callStep p w i failure).primitives := by
  unfold callStep
  split
  · exact ⟨.refl _, .refl _⟩
  · split
    · exact ⟨.refl _, .refl _⟩
    · exact ⟨OnceCell.stays_claim _ _, .refl _⟩
    · exact ⟨.refl _, .refl _⟩
  · split
    · exact ⟨OnceCell.stays_complete _ _ _, .refl _⟩
    · exact ⟨OnceCell.stays_abandon _ _, .refl _⟩
  · split
    · exact ⟨.refl _, .refl _⟩
    · exact ⟨.refl _, OnceCell.stays_claim _ _⟩
    · exact ⟨.refl _, .refl _⟩
  · exact ⟨.refl _, OnceCell.stays_complete _ _ _⟩
  · exact ⟨.refl _, .refl _⟩
  · split <;> exact ⟨.refl _, .refl _⟩

theorem stays_step (p : String) (w : ConnectWorld ι) (e : ConnectEvent ι) :
    w.connCell.Stays ((system ι p).step w e).2.connCell
      ∧ w.primitives.Stays ((system ι p).step w e).2.primitives := by
  cases e with
  | call i x =>
    show _ ∧ OnceCell.Stays _ (if w.stage i = .idle then w.goto i (.conn x) else w).primitives
    refine ⟨?_, ?_⟩
    · show OnceCell.Stays _ (if w.stage i = .idle then w.goto i (.conn x) else w).connCell
      split <;> exact .refl _
    · split <;> exact .refl _
  | step i failure => exact stays_callStep p w i failure
  | giveUp i => exact ⟨OnceCell.stays_abandon _ _, OnceCell.stays_abandon _ _⟩

theorem stays_final (p : String) (w : ConnectWorld ι) (fs : List (ConnectEvent ι)) :
    w.connCell.Stays ((system ι p).final w fs).connCell
      ∧ w.primitives.Stays ((system ι p).final w fs).primitives := by
  induction fs generalizing w with
  | nil => exact ⟨.refl _, .refl _⟩
  | cons e fs ih =>
    obtain ⟨hc, hp⟩ := stays_step p w e
    obtain ⟨hc', hp'⟩ := ih ((system ι p).step w e).2
    exact ⟨hc.trans hc', hp.trans hp'⟩

theorem sound_final (p : String) (es : List (ConnectEvent ι)) :
    Sound p ((system ι p).final (start ι) es) :=
  (system ι p).inv_final (G := fun _ _ => True) (I := Sound p) (fun _ e h _ => sound_step h e)
    sound_start
    (System.along_of_mem _ (fun _ _ => trivial))

theorem storeError_ne (text : String) : storeError ≠ connectError text := by
  intro h
  have hchars := congrArg String.toList (ClusterError.backendUnavailable.inj h)
  simp at hchars

/-! ## No call waits for ever -/

/-- How many steps are left to a call. -/
def stepsLeft : ConnectStage → ℕ
  | .idle => 0
  | .connected _ _ => 1
  | .building _ _ => 2
  | .primitives _ _ => 3
  | .connecting _ => 4
  | .conn _ => 5

/-- **What a step of a call does**: it waits for another, it moves on, or it
returns. -/
inductive Goes (w : ConnectWorld ι) (i : ι) (failure : Option String) : ConnectWorld ι → Prop
  | idle (hst : w.stage i = .idle) : Goes w i failure w
  | wait {j : ι} (hi : ¬ Connects (w.stage i) ∧ ¬ Builds (w.stage i))
      (hj : Connects (w.stage j) ∨ Builds (w.stage j)) : Goes w i failure w
  | move {w' : ConnectWorld ι} {st : ConnectStage} (hold : w.stage i ≠ .idle) (hnew : st ≠ .idle)
      (hstage : w'.stage = Function.update w.stage i st)
      (hless : stepsLeft st < stepsLeft (w.stage i)) (hret : w'.returned = w.returned) :
      Goes w i failure w'
  | answer {w' : ConnectWorld ι} {r : Except ClusterError Obtained} (hold : w.stage i ≠ .idle)
      (hstage : w'.stage = Function.update w.stage i .idle)
      (hret : w'.returned = w.returned ++ [(i, r)])
      (herr : ∀ e, r = .error e → ∃ text, failure = some text ∧ e = connectError text) :
      Goes w i failure w'

theorem Sound.goes (h : Sound p w) (i : ι) (failure : Option String) :
    Goes w i failure (callStep p w i failure) := by
  unfold callStep
  split
  · next hst => exact .idle hst
  · next x hst =>
    split
    · exact .move (by simp [hst]) (by simp) rfl (by simp [hst, stepsLeft]) rfl
    · exact .move (by simp [hst]) (by simp) rfl (by simp [hst, stepsLeft]) rfl
    · next j hj =>
      exact .wait (not_makes (by simp [hst])) (Or.inl ((h.connecting j).mpr hj))
  · next x hst =>
    split
    · exact .move (by simp [hst]) (by simp) rfl (by simp [hst, stepsLeft]) rfl
    · next text =>
      exact .answer (by simp [hst]) rfl rfl (fun e he => ⟨text, rfl, (Except.error.inj he).symm⟩)
  · next x c hst =>
    split
    · exact .move (by simp [hst]) (by simp) rfl (by simp [hst, stepsLeft]) rfl
    · exact .move (by simp [hst]) (by simp) rfl (by simp [hst, stepsLeft]) rfl
    · next j hj =>
      exact .wait (not_makes (by simp [hst])) (Or.inr ((h.building j).mpr hj))
  · next x c hst => exact .move (by simp [hst]) (by simp) rfl (by simp [hst, stepsLeft]) rfl
  · next c hst => exact .answer (by simp [hst]) rfl rfl (fun e he => nomatch he)
  · next c hst =>
    rw [accessor, (h.of_connected hst).2]
    exact .answer (by simp [hst]) rfl rfl (fun e he => nomatch he)

/-- **Who fails**: whatever is returned in a run, an error is of an attempt of
the call itself. -/
theorem Sound.failures (h : Sound p w) {es : List (ConnectEvent ι)}
    {r : ι × Except ClusterError Obtained} (hr : r ∈ ((system ι p).final w es).returned) :
    r ∈ w.returned
      ∨ ∀ e, r.2 = .error e → ∃ text, .step r.1 (some text) ∈ es ∧ e = connectError text := by
  induction es generalizing w with
  | nil => exact Or.inl hr
  | cons e es ih =>
    rcases ih (sound_step h e) hr with hold | hnew
    · have hself : r ∈ w.returned ∨ ∀ err, r.2 = .error err →
          ∃ text, e = .step r.1 (some text) ∧ err = connectError text := by
        cases e with
        | call i x =>
          replace hold : r ∈ (if w.stage i = .idle then w.goto i (.conn x) else w).returned := hold
          split at hold <;> exact Or.inl hold
        | giveUp i => exact Or.inl hold
        | step i failure =>
          have hgoes := h.goes i failure
          replace hold : r ∈ (callStep p w i failure).returned := hold
          generalize callStep p w i failure = w' at hgoes hold
          cases hgoes with
          | idle _ => exact Or.inl hold
          | wait _ _ => exact Or.inl hold
          | move _ _ _ _ hret => exact Or.inl (hret ▸ hold)
          | answer _ _ hret herr =>
            rw [hret] at hold
            refine (List.mem_append.mp hold).imp_right (fun hlast err he => ?_)
            rw [List.mem_singleton.mp hlast] at he ⊢
            obtain ⟨text, rfl, ht⟩ := herr err he
            exact ⟨text, rfl, ht⟩
      refine hself.imp_right (fun herr err he => ?_)
      obtain ⟨text, rfl, ht⟩ := herr err he
      exact ⟨text, List.mem_cons_self, ht⟩
    · refine Or.inr (fun err he => ?_)
      obtain ⟨text, hmem, ht⟩ := hnew err he
      exact ⟨text, List.mem_cons_of_mem _ hmem, ht⟩

/-- **Everybody gets the same connection.** In every run of calls, however
many at once, whichever are given up and however often the server does not
answer: at most one connection is ever made; whoever got one got the one that
the cell holds, and the store and the bus over it are there; a call fails only
for an attempt of its own to connect that failed, and none that got the
connection misses the store; and what the cells hold, and the accessors
return, stays. -/
theorem connects_once (p : String) (es : List (ConnectEvent ι)) :
    ((system ι p).final (start ι) es).made ≤ 1
      ∧ (∀ r ∈ ((system ι p).final (start ι) es).returned,
        (∀ o, r.2 = .ok o → ((system ι p).final (start ι) es).connCell = .full o.conn
          ∧ ((system ι p).final (start ι) es).accessor = some ⟨o.conn, p⟩
          ∧ ∀ P, o = .store P → P = ⟨o.conn, p⟩)
        ∧ (∀ e, r.2 = .error e → ∃ text, .step r.1 (some text) ∈ es ∧ e = connectError text)
        ∧ r.2 ≠ .error storeError)
      ∧ ∀ fs, (∀ c, ((system ι p).final (start ι) es).connCell = .full c →
          ((system ι p).final (start ι) (es ++ fs)).connCell = .full c)
        ∧ ∀ P, ((system ι p).final (start ι) es).accessor = some P →
          ((system ι p).final (start ι) (es ++ fs)).accessor = some P := by
  have hsound := sound_final p es
  refine ⟨?_, fun r hr => ⟨fun o ho => ?_, fun e he => ?_, fun he => ?_⟩, fun fs => ?_⟩
  · by_cases hfull : ∃ c, ((system ι p).final (start ι) es).connCell = .full c
    · obtain ⟨c, hc⟩ := hfull
      exact le_of_eq (hsound.once c hc)
    · rw [hsound.none (fun c hc => hfull ⟨c, hc⟩)]
      exact Nat.zero_le 1
  · have hans := hsound.returned r hr
    rw [ho] at hans
    exact ⟨hans.1, OnceCell.value_eq_some_iff.mpr hans.2.1, hans.2.2⟩
  · exact (sound_start.failures hr).resolve_left List.not_mem_nil e he
  · have hans := hsound.returned r hr
    rw [he] at hans
    obtain ⟨text, ht⟩ := hans
    exact storeError_ne text ht
  · obtain ⟨hc, hp⟩ := stays_final p ((system ι p).final (start ι) es) fs
    rw [System.final_append]
    exact ⟨hc, fun P hP =>
      OnceCell.value_eq_some_iff.mpr (hp P (OnceCell.value_eq_some_iff.mp hP))⟩

/-- A step of a call. -/
def IsStep (e : ConnectEvent ι) : Prop := ∃ i failure, e = .step i failure

/-- **A turn**: every call goes on at least once, in any order; the server
answers or not. -/
def Stepped (es : List (ConnectEvent ι)) : Prop :=
  (∀ e ∈ es, IsStep e) ∧ ∀ i, ∃ failure, .step i failure ∈ es

theorem stepsLeft_pos {st : ConnectStage} (h : st ≠ .idle) : 0 < stepsLeft st := by
  cases st with
  | idle => exact absurd rfl h
  | _ => exact Nat.succ_pos _

/-- **When no call can go on, none is under way.** -/
theorem Sound.idle_of_stuck (h : Sound p w) (hstuck : ∀ i, ∃ failure, callStep p w i failure = w)
    (i : ι) : w.stage i = .idle := by
  by_contra hi
  -- whoever makes something can go on
  have hmaker : ∀ j, ¬ (Connects (w.stage j) ∨ Builds (w.stage j)) := by
    intro j hj
    obtain ⟨failure, hsame⟩ := hstuck j
    have hgoes := h.goes j failure
    rw [hsame] at hgoes
    cases hgoes with
    | idle hst => simp [Connects, Builds, hst] at hj
    | wait hi => exact hj.elim hi.1 hi.2
    | move _ _ hstage hless _ =>
      rw [hstage, Function.update_self] at hless
      exact lt_irrefl _ hless
    | answer _ _ hret _ => simp at hret
  obtain ⟨failure, hsame⟩ := hstuck i
  have hgoes := h.goes i failure
  rw [hsame] at hgoes
  cases hgoes with
  | idle hst => exact hi hst
  | wait _ hj => exact hmaker _ hj
  | move _ _ hstage hless _ =>
    rw [hstage, Function.update_self] at hless
    exact lt_irrefl _ hless
  | answer _ _ hret _ => simp at hret

/-- **What the calls that return in a stretch of a run are told**: each call
once, and an error only by its own attempt. -/
structure Served (w w' : ConnectWorld ι) (es : List (ConnectEvent ι))
    (l : List (ι × Except ClusterError Obtained)) : Prop where
  idle : ∀ i, w.stage i = .idle → w'.stage i = .idle
  returned : w'.returned = w.returned ++ l
  nodup : (l.map Prod.fst).Nodup
  mem : ∀ i, i ∈ l.map Prod.fst ↔ w.stage i ≠ .idle ∧ w'.stage i = .idle
  errors : ∀ r ∈ l, ∀ e, r.2 = .error e →
    ∃ text, .step r.1 (some text) ∈ es ∧ e = connectError text

section Served

variable {w' w'' : ConnectWorld ι} {es : List (ConnectEvent ι)}
  {l : List (ι × Except ClusterError Obtained)}

omit [DecidableEq ι] in
/-- A step before it in which no call returns. -/
theorem Served.quiet (h : Served w' w'' es l) (hst : ∀ k, w'.stage k = .idle ↔ w.stage k = .idle)
    (hsame : w'.returned = w.returned) (e : ConnectEvent ι) : Served w w'' (e :: es) l where
  idle k hk := h.idle k ((hst k).mpr hk)
  returned := h.returned.trans (congrArg (· ++ l) hsame)
  nodup := h.nodup
  mem k := (h.mem k).trans (and_congr_left' (not_congr (hst k)))
  errors r hr e he := by
    obtain ⟨text, ht, hte⟩ := h.errors r hr e he
    exact ⟨text, List.mem_cons_of_mem _ ht, hte⟩

/-- A step before it in which a call returns. -/
theorem Served.answer (h : Served w' w'' es l) {i : ι} {failure : Option String}
    {r : Except ClusterError Obtained} (hold : w.stage i ≠ .idle)
    (hstage : w'.stage = Function.update w.stage i .idle)
    (hret : w'.returned = w.returned ++ [(i, r)])
    (herr : ∀ e, r = .error e → ∃ text, failure = some text ∧ e = connectError text) :
    Served w w'' (.step i failure :: es) ((i, r) :: l) := by
  have hnow : w'.stage i = .idle := by rw [hstage, Function.update_self]
  refine ⟨fun k hk => h.idle k ?_, ?_, ?_, fun k => ?_, ?_⟩
  · rw [hstage]
    by_cases hki : k = i
    · rw [hki, Function.update_self]
    · rw [Function.update_of_ne hki]
      exact hk
  · rw [h.returned, hret, List.append_assoc]
    rfl
  · exact List.nodup_cons.mpr ⟨fun hi => ((h.mem i).mp hi).1 hnow, h.nodup⟩
  · rw [List.map_cons, List.mem_cons, h.mem k, hstage]
    by_cases hki : k = i
    · rw [hki]
      exact iff_of_true (Or.inl rfl) ⟨hold, h.idle i hnow⟩
    · rw [Function.update_of_ne hki]
      exact or_iff_right hki
  · intro x hx e hxe
    rcases List.mem_cons.mp hx with rfl | hx
    · obtain ⟨text, rfl, ht⟩ := herr e hxe
      exact ⟨text, List.mem_cons_self, ht⟩
    · obtain ⟨text, ht, hte⟩ := h.errors x hx e hxe
      exact ⟨text, List.mem_cons_of_mem _ ht, hte⟩

end Served

theorem Sound.served (h : Sound p w) {es : List (ConnectEvent ι)} (hes : ∀ e ∈ es, IsStep e) :
    ∃ l, Served w ((system ι p).final w es) es l := by
  induction es generalizing w with
  | nil =>
    refine ⟨[], fun _ => id, (List.append_nil _).symm, List.nodup_nil, fun i => ?_, by simp⟩
    exact iff_of_false List.not_mem_nil (fun hi => hi.1 hi.2)
  | cons e es ih =>
    obtain ⟨i, failure, rfl⟩ := hes e List.mem_cons_self
    obtain ⟨l, hl⟩ := ih (sound_callStep h i failure)
      (fun e' he' => hes e' (List.mem_cons_of_mem _ he'))
    have hgoes := h.goes i failure
    show ∃ l, Served w ((system ι p).final (callStep p w i failure) es) _ l
    generalize callStep p w i failure = w' at hgoes hl
    cases hgoes with
    | idle _ => exact ⟨l, hl.quiet (fun _ => Iff.rfl) rfl _⟩
    | wait _ _ => exact ⟨l, hl.quiet (fun _ => Iff.rfl) rfl _⟩
    | @move _ st hold hnew hstage _ hsame =>
      refine ⟨l, hl.quiet (fun k => ?_) hsame _⟩
      rw [hstage]
      by_cases hk : k = i
      · rw [hk, Function.update_self]
        exact iff_of_false hnew hold
      · rw [Function.update_of_ne hk]
    | answer hold hstage hret herr => exact ⟨_, hl.answer hold hstage hret herr⟩

section Answered

variable [Fintype ι]

/-- How much is left to do for the calls together. -/
def work (w : ConnectWorld ι) : ℕ := ∑ i, stepsLeft (w.stage i)

theorem work_lt {w' : ConnectWorld ι} {i : ι} {st : ConnectStage}
    (hstage : w'.stage = Function.update w.stage i st)
    (hless : stepsLeft st < stepsLeft (w.stage i)) : work w' < work w := by
  refine Finset.sum_lt_sum (fun j _ => ?_) ⟨i, Finset.mem_univ i, ?_⟩
  · rw [hstage]
    by_cases hj : j = i
    · rw [hj, Function.update_self]
      exact hless.le
    · rw [Function.update_of_ne hj]
  · rw [hstage, Function.update_self]
    exact hless

/-- **Every call is answered.** In every run of calls, however many are under
way: if each goes on, in any order, and whether the server answers or not,
then after enough turns none is under way; each that was has returned once,
and those that failed were refused at an attempt of their own. -/
theorem calls_answered (p : String) (es : List (ConnectEvent ι)) :
    ∃ n, ∀ turns : List (List (ConnectEvent ι)), (∀ t ∈ turns, Stepped t) → n ≤ turns.length →
      (∀ i, ((system ι p).final (start ι) (es ++ turns.flatten)).stage i = .idle)
        ∧ ∃ l, ((system ι p).final (start ι) (es ++ turns.flatten)).returned
            = ((system ι p).final (start ι) es).returned ++ l
          ∧ (l.map Prod.fst).Nodup
          ∧ (∀ i, i ∈ l.map Prod.fst ↔ ((system ι p).final (start ι) es).stage i ≠ .idle)
          ∧ ∀ r ∈ l, ∀ e, r.2 = .error e →
            ∃ text, .step r.1 (some text) ∈ turns.flatten ∧ e = connectError text := by
  have hsound := sound_final p es
  refine ⟨work ((system ι p).final (start ι) es) + 1, fun turns hturns hn => ?_⟩
  rw [System.final_append]
  generalize (system ι p).final (start ι) es = w at hsound hn
  have hstep : ∀ v e, Sound p v → IsStep e → Sound p ((system ι p).step v e).2
      ∧ (((system ι p).step v e).2 = v ∨ work ((system ι p).step v e).2 < work v) := by
    rintro v _ hv ⟨i, failure, rfl⟩
    refine ⟨sound_callStep hv i failure, ?_⟩
    have hgoes := hv.goes i failure
    show callStep p v i failure = v ∨ work (callStep p v i failure) < work v
    generalize callStep p v i failure = v' at hgoes
    cases hgoes with
    | idle _ => exact Or.inl rfl
    | wait _ _ => exact Or.inl rfl
    | move _ _ hstage hless _ => exact Or.inr (work_lt hstage hless)
    | answer hold hstage _ _ => exact Or.inr (work_lt hstage (stepsLeft_pos hold))
  have hidle : ∀ i, ((system ι p).final w turns.flatten).stage i = .idle := by
    refine (system ι p).done_of_turns (I := Sound p) (D := fun v => ∀ i, v.stage i = .idle)
      (T := Stepped) work (fun v t hv ht => ?_) hsound hturns hn
    obtain ⟨hv', hmoves⟩ := (system ι p).stuck_or_less work hstep hv ht.1
    refine ⟨hv', ?_⟩
    rcases hmoves with ⟨hstuck, hsame⟩ | hless
    · rw [hsame]
      refine Or.inl (hv.idle_of_stuck (fun i => ?_))
      obtain ⟨failure, hmem⟩ := ht.2 i
      exact ⟨failure, hstuck _ hmem⟩
    · refine Or.inr ⟨fun hall => ?_, hless⟩
      have hzero : work v = 0 := Finset.sum_eq_zero (fun i _ => by rw [hall i]; rfl)
      rw [hzero] at hless
      exact Nat.not_lt_zero _ hless
  have hsteps : ∀ e ∈ turns.flatten, IsStep e := by
    intro e he
    obtain ⟨t, ht, he⟩ := List.mem_flatten.mp he
    exact (hturns t ht).1 e he
  obtain ⟨l, hl⟩ := hsound.served hsteps
  refine ⟨hidle, l, hl.returned, hl.nodup, fun i => ?_, hl.errors⟩
  rw [hl.mem i]
  exact and_iff_left (hidle i)

end Answered

end ConnectWorld
