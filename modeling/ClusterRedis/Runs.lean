import Mathlib.Data.List.Basic
import Mathlib.Order.Defs.PartialOrder

/-!
# Systems that answer events, and their runs

A system is a step function: an event taken in a state gives an answer and
a next state. A run is a list of events; whatever is not determined by the
state – which client acts next, what a server chose to reply, how far the
clock moved – sits in the events, so a statement over all lists of events
is a statement over all interleavings.

Five rules carry the developments built on this. An *invariant* holding
at the start and kept by every guarded step holds at the end of every
guarded run (`System.inv_final`). A *dispenser*, whose outputs each take a
level further, puts them out in order (`System.outputs_increase`). A
*simulation* relates two systems that answer the same events, and gives them
corresponding answers over every run (`System.sim_final`); a *refinement*
relates a run to what is told of it in the events of another system
(`System.told_final`). An *independence* relates a run to the run with some of
its events removed (`System.trace_filter`). What a statement speaks of and no
state holds is a *history* beside the system, which leaves its runs what they
were (`System.recording_final`).
-/

universe u v w

/-- **A system that answers events.** -/
structure System (σ : Type u) (ε : Type v) (ρ : Type w) where
  /-- The answer to an event taken in a state, and the state after it. -/
  step : σ → ε → ρ × σ

namespace System

variable {σ τ : Type u} {ε : Type v} {ρ ρ' : Type w}

/-- The state at the end of a run. -/
def final (M : System σ ε ρ) : σ → List ε → σ
  | s, [] => s
  | s, e :: es => M.final (M.step s e).2 es

/-- **The trace of a run**: each event with the answer it was given. -/
def trace (M : System σ ε ρ) : σ → List ε → List (ε × ρ)
  | _, [] => []
  | s, e :: es => (e, (M.step s e).1) :: M.trace (M.step s e).2 es

/-- The answers of a run, in order. -/
def answers (M : System σ ε ρ) (s : σ) (es : List ε) : List ρ :=
  (M.trace s es).map Prod.snd

/-- **Every step of the run meets a guard**, in the state the step is
taken in. -/
def Along (M : System σ ε ρ) (G : σ → ε → Prop) : σ → List ε → Prop
  | _, [] => True
  | s, e :: es => G s e ∧ M.Along G (M.step s e).2 es

instance (M : System σ ε ρ) (G : σ → ε → Prop)
    [∀ s e, Decidable (G s e)] : ∀ s es, Decidable (M.Along G s es)
  | _, [] => isTrue trivial
  | s, e :: es =>
    have := instDecidableAlong M G (M.step s e).2 es
    inferInstanceAs (Decidable (G s e ∧ M.Along G (M.step s e).2 es))

/-- A run cut in two ends where its second part, started where the first
ended, ends. -/
theorem final_append (M : System σ ε ρ) (s : σ) (es fs : List ε) :
    M.final s (es ++ fs) = M.final (M.final s es) fs := by
  induction es generalizing s with
  | nil => rfl
  | cons e es ih => exact ih (M.step s e).2

/-- The answers of a run with one more step. -/
theorem answers_concat (M : System σ ε ρ) (s : σ) (es : List ε) (e : ε) :
    M.answers s (es ++ [e]) = M.answers s es ++ [(M.step (M.final s es) e).1] := by
  induction es generalizing s with
  | nil => rfl
  | cons e' es ih => exact congrArg ((M.step s e').1 :: ·) (ih (M.step s e').2)

/-- A guard held along a run cut in two holds along both parts. -/
theorem along_append (M : System σ ε ρ) {G : σ → ε → Prop} (s : σ)
    (es fs : List ε) :
    M.Along G s (es ++ fs) ↔ M.Along G s es ∧ M.Along G (M.final s es) fs := by
  induction es generalizing s with
  | nil => exact ⟨fun h => ⟨trivial, h⟩, fun h => h.2⟩
  | cons e es ih =>
    show G s e ∧ M.Along G (M.step s e).2 (es ++ fs) ↔ _
    rw [ih, ← and_assoc]
    rfl

/-- A guard held along a run with one more step. -/
theorem along_concat (M : System σ ε ρ) {G : σ → ε → Prop} (s : σ) (es : List ε) (e : ε) :
    M.Along G s (es ++ [e]) ↔ M.Along G s es ∧ G (M.final s es) e := by
  rw [along_append]
  exact and_congr_right (fun _ => and_iff_left trivial)

/-- A run that meets a guard meets every weaker one. -/
theorem Along.mono {M : System σ ε ρ} {G H : σ → ε → Prop}
    (h : ∀ s e, G s e → H s e) {s : σ} {es : List ε} (hG : M.Along G s es) :
    M.Along H s es := by
  induction es generalizing s with
  | nil => trivial
  | cons e es ih => exact ⟨h s e hG.1, ih hG.2⟩

/-- A run that meets two guards. -/
theorem Along.and {M : System σ ε ρ} {G H : σ → ε → Prop} {s : σ} {es : List ε}
    (hG : M.Along G s es) (hH : M.Along H s es) : M.Along (fun s e => G s e ∧ H s e) s es := by
  induction es generalizing s with
  | nil => trivial
  | cons e es ih => exact ⟨⟨hG.1, hH.1⟩, ih hG.2 hH.2⟩

/-- A guard on events alone. -/
theorem along_of_mem (M : System σ ε ρ) {P : ε → Prop} {s : σ} {es : List ε}
    (h : ∀ e ∈ es, P e) : M.Along (fun _ e => P e) s es := by
  induction es generalizing s with
  | nil => trivial
  | cons e es ih =>
    exact ⟨h e List.mem_cons_self, ih (fun e' he' => h e' (List.mem_cons_of_mem e he'))⟩

/-- **The invariant rule.** What holds at the start and is kept by every
guarded step holds at the end of every guarded run. -/
theorem inv_final (M : System σ ε ρ) {G : σ → ε → Prop} {I : σ → Prop}
    (hstep : ∀ s e, I s → G s e → I (M.step s e).2) {s : σ} {es : List ε}
    (h : I s) (hG : M.Along G s es) : I (M.final s es) := by
  induction es generalizing s with
  | nil => exact h
  | cons e es ih => exact ih (hstep s e h hG.1) hG.2

/-- **The guarantee rule.** What an invariant and a guard give at every step
holds along every run that meets the guard. -/
theorem Along.of_inv {M : System σ ε ρ} {G H : σ → ε → Prop} {I : σ → Prop}
    (hstep : ∀ s e, I s → G s e → I (M.step s e).2) (hH : ∀ s e, I s → G s e → H s e)
    {s : σ} {es : List ε} (h : I s) (hG : M.Along G s es) : M.Along H s es := by
  induction es generalizing s with
  | nil => trivial
  | cons e es ih => exact ⟨hH s e h hG.1, ih (hstep s e h hG.1) hG.2⟩

/-- What a guard says of events and their answers is what the trace shows. -/
theorem along_iff_trace (M : System σ ε ρ) {P : ε × ρ → Prop} {s : σ} {es : List ε} :
    M.Along (fun s e => P (e, (M.step s e).1)) s es ↔ ∀ x ∈ M.trace s es, P x := by
  induction es generalizing s with
  | nil => exact ⟨fun _ _ hx => absurd hx List.not_mem_nil, fun _ => trivial⟩
  | cons e es ih =>
    show P (e, (M.step s e).1) ∧ M.Along _ (M.step s e).2 es ↔ _
    rw [ih]
    exact List.forall_mem_cons.symm

/-- The outputs of a run: what some of its events and answers stand for. -/
def outputs {β : Type*} (M : System σ ε ρ) (out : ε × ρ → Option β) (s : σ) (es : List ε) :
    List β :=
  (M.trace s es).filterMap out

theorem outputs_cons {β : Type*} (M : System σ ε ρ) (out : ε × ρ → Option β) (s : σ) (e : ε)
    (es : List ε) :
    M.outputs out s (e :: es)
      = (out (e, (M.step s e).1)).toList ++ M.outputs out (M.step s e).2 es := by
  show List.filterMap out ((e, (M.step s e).1) :: _) = _
  rw [List.filterMap_cons]
  cases out (e, (M.step s e).1) <;> rfl

/-- **A level that outputs take up**: without an output it stays, and an
output is past it and is the level from then on. -/
def Advances {β : Type*} [LT β] (l l' : β) : Option β → Prop
  | none => l' = l
  | some n => l < n ∧ l' = n

/-- **The dispenser rule.** When every guarded step advances a level, the
outputs of a guarded run increase, from the level at its start, and the
level at its end is the last of them. -/
theorem outputs_increase {β : Type*} [Preorder β] (M : System σ ε ρ) {G : σ → ε → Prop}
    {I : σ → Prop} (out : ε × ρ → Option β) (level : σ → β)
    (hstep : ∀ s e, I s → G s e → I (M.step s e).2
      ∧ Advances (level s) (level (M.step s e).2) (out (e, (M.step s e).1)))
    {s : σ} {es : List ε} (h : I s) (hG : M.Along G s es) :
    (M.outputs out s es).Pairwise (· < ·) ∧ (∀ n ∈ M.outputs out s es, level s < n)
      ∧ level (M.final s es) = (M.outputs out s es).getLast?.getD (level s) := by
  induction es generalizing s with
  | nil => exact ⟨List.Pairwise.nil, fun _ hn => absurd hn List.not_mem_nil, rfl⟩
  | cons e es ih =>
    obtain ⟨hI, hadv⟩ := hstep s e h hG.1
    obtain ⟨hinc, hpast, hlast⟩ := ih hI hG.2
    have hcons := M.outputs_cons out s e es
    cases ho : out (e, (M.step s e).1) with
    | none =>
      rw [ho] at hadv hcons
      replace hadv : level (M.step s e).2 = level s := hadv
      rw [hadv] at hpast hlast
      rw [hcons]
      exact ⟨hinc, hpast, hlast⟩
    | some n =>
      rw [ho] at hadv hcons
      obtain ⟨hlt, hn⟩ := (hadv : level s < n ∧ level (M.step s e).2 = n)
      rw [hn] at hpast hlast
      rw [hcons]
      refine ⟨List.pairwise_cons.mpr ⟨hpast, hinc⟩, ?_, ?_⟩
      · rintro m (_ | ⟨_, hm⟩)
        · exact hlt
        · exact lt_trans hlt (hpast m hm)
      · show level (M.final (M.step s e).2 es) = (n :: M.outputs out _ es).getLast?.getD _
        rw [hlast, List.getLast?_cons, Option.getD_some]

/-- **The simulation rule.** Two systems whose related states give every
guarded event answers that correspond, and stay related, give corresponding
answers over every guarded run. -/
theorem sim_final (M : System σ ε ρ) (N : System τ ε ρ') {G : σ → ε → Prop}
    {R : σ → τ → Prop} {A : ρ → ρ' → Prop}
    (hstep : ∀ s t e, R s t → G s e →
      A (M.step s e).1 (N.step t e).1 ∧ R (M.step s e).2 (N.step t e).2)
    {s : σ} {t : τ} {es : List ε} (h : R s t) (hG : M.Along G s es) :
    List.Forall₂ A (M.answers s es) (N.answers t es) ∧ R (M.final s es) (N.final t es) := by
  induction es generalizing s t with
  | nil => exact ⟨List.Forall₂.nil, h⟩
  | cons e es ih =>
    obtain ⟨hA, hR⟩ := hstep s t e h hG.1
    obtain ⟨ihA, ihR⟩ := ih hR hG.2
    exact ⟨List.Forall₂.cons hA ihA, ihR⟩

/-- **A history kept beside a system**: it is rewritten at every step, from
the state that the step is taken in, and no step depends on it. -/
def recording {γ : Type*} (M : System σ ε ρ) (record : σ → ε → γ → γ) : System (σ × γ) ε ρ where
  step x e := ((M.step x.1 e).1, (M.step x.1 e).2, record x.1 e x.2)

/-- The system is what it was. -/
theorem recording_final {γ : Type*} (M : System σ ε ρ) (record : σ → ε → γ → γ) (x : σ × γ)
    (es : List ε) : ((M.recording record).final x es).1 = M.final x.1 es := by
  induction es generalizing x with
  | nil => rfl
  | cons e es ih => exact ih _

/-- What a run meets it meets with the history kept. -/
theorem recording_along {γ : Type*} (M : System σ ε ρ) (record : σ → ε → γ → γ)
    {G : σ → ε → Prop} (x : σ × γ) (es : List ε) :
    (M.recording record).Along (fun x e => G x.1 e) x es ↔ M.Along G x.1 es := by
  induction es generalizing x with
  | nil => exact Iff.rfl
  | cons e es ih => exact and_congr_right (fun _ => ih _)

/-- A trace cut in two. -/
theorem trace_append (M : System σ ε ρ) (s : σ) (es fs : List ε) :
    M.trace s (es ++ fs) = M.trace s es ++ M.trace (M.final s es) fs := by
  induction es generalizing s with
  | nil => rfl
  | cons e es ih => exact congrArg ((e, (M.step s e).1) :: ·) (ih (M.step s e).2)

theorem outputs_append {β : Type*} (M : System σ ε ρ) (out : ε × ρ → Option β) (s : σ)
    (es fs : List ε) :
    M.outputs out s (es ++ fs) = M.outputs out s es ++ M.outputs out (M.final s es) fs := by
  rw [outputs, trace_append, List.filterMap_append]
  rfl

/-- **A run told in other events**: each of its events becomes some of them,
which depend on the state that the event is taken in. -/
def told {ε' : Type*} (M : System σ ε ρ) (tell : σ → ε → List ε') : σ → List ε → List ε'
  | _, [] => []
  | s, e :: es => tell s e ++ M.told tell (M.step s e).2 es

/-- **The refinement rule.** When every guarded step, told in the events of
another system, leaves related states related and puts out the same, a guarded
run and what is told of it end in related states and put out the same. -/
theorem told_final {ε' : Type*} {β : Type*} (M : System σ ε ρ) (N : System τ ε' ρ')
    {G : σ → ε → Prop} {R : σ → τ → Prop} (tell : σ → ε → List ε')
    (out : ε × ρ → Option β) (out' : ε' × ρ' → Option β)
    (hstep : ∀ s t e, R s t → G s e → R (M.step s e).2 (N.final t (tell s e))
      ∧ N.outputs out' t (tell s e) = (out (e, (M.step s e).1)).toList)
    {s : σ} {t : τ} {es : List ε} (h : R s t) (hG : M.Along G s es) :
    R (M.final s es) (N.final t (M.told tell s es))
      ∧ N.outputs out' t (M.told tell s es) = M.outputs out s es := by
  induction es generalizing s t with
  | nil => exact ⟨h, rfl⟩
  | cons e es ih =>
    obtain ⟨hR, hout⟩ := hstep s t e h hG.1
    obtain ⟨ihR, ihout⟩ := ih hR hG.2
    have htold : M.told tell s (e :: es) = tell s e ++ M.told tell (M.step s e).2 es := rfl
    rw [htold, final_append, outputs_append, hout, ihout, outputs_cons]
    exact ⟨ihR, rfl⟩

/-- The answers of a run cut in two. -/
theorem answers_append (M : System σ ε ρ) (s : σ) (es fs : List ε) :
    M.answers s (es ++ fs) = M.answers s es ++ M.answers (M.final s es) fs := by
  rw [answers, trace_append, List.map_append]
  rfl

/-- **The rule for outputs.** What an invariant and a guard give of a step's
output holds of every output of a guarded run. -/
theorem outputs_of_inv {β : Type*} (M : System σ ε ρ) {G : σ → ε → Prop} {I : σ → Prop}
    {P : β → Prop} (out : ε × ρ → Option β) (hstep : ∀ s e, I s → G s e → I (M.step s e).2)
    (hout : ∀ s e b, I s → G s e → out (e, (M.step s e).1) = some b → P b)
    {s : σ} {es : List ε} (h : I s) (hG : M.Along G s es) : ∀ b ∈ M.outputs out s es, P b := by
  have hall := M.along_iff_trace (P := fun x => ∀ b, out x = some b → P b).mp
    (Along.of_inv hstep (fun s e hI hG b => hout s e b hI hG) h hG)
  intro b hb
  obtain ⟨x, hx, hxb⟩ := List.mem_filterMap.mp hb
  exact hall x hx b hxb

/-- **The independence rule.** When related states answer the kept events
alike, and an event that is not kept moves the left state only within the
relation, the run and the run with the other events removed give the kept
events the same answers. Which events a run may have is the predicate
`P`. -/
theorem trace_filter (M : System σ ε ρ) {R : σ → σ → Prop} {P : ε → Prop}
    (keep : ε → Bool)
    (hkeep : ∀ s t e, P e → R s t → keep e = true →
      (M.step s e).1 = (M.step t e).1 ∧ R (M.step s e).2 (M.step t e).2)
    (hdrop : ∀ s t e, P e → R s t → keep e = false → R (M.step s e).2 t)
    {s t : σ} {es : List ε} (h : R s t) (hP : ∀ e ∈ es, P e) :
    (M.trace s es).filter (fun x => keep x.1)
        = M.trace t (es.filter keep)
      ∧ R (M.final s es) (M.final t (es.filter keep)) := by
  induction es generalizing s t with
  | nil => exact ⟨rfl, h⟩
  | cons e es ih =>
    have hPe := hP e List.mem_cons_self
    have hPes := fun e' he' => hP e' (List.mem_cons_of_mem e he')
    show ((e, (M.step s e).1) :: M.trace (M.step s e).2 es).filter
        (fun x => keep x.1) = _ ∧ R (M.final (M.step s e).2 es) _
    cases hk : keep e with
    | true =>
      obtain ⟨heq, hR⟩ := hkeep s t e hPe h hk
      obtain ⟨iht, ihR⟩ := ih hR hPes
      simp only [List.filter_cons, hk, if_true, iht]
      refine ⟨?_, ihR⟩
      show _ = (e, (M.step t e).1) :: _
      rw [heq]
    | false =>
      obtain ⟨iht, ihR⟩ := ih (hdrop s t e hPe h hk) hPes
      simp only [List.filter_cons, hk, Bool.false_eq_true, if_false]
      exact ⟨iht, ihR⟩

end System
