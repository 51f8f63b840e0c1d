import Mathlib.Data.List.Basic
import Mathlib.Algebra.Order.Group.Nat

/-!
# Work that is done again and again

A task goes from stage to stage, does its work on the way, and comes round to
do it once more. When nothing is known but how long it stays at each stage at
most, the question is how long ago the work was done last.

What answers it is an allowance for each stage: how long ago the work may have
been done when the task comes there (`Pace`). A stage passes its allowance on,
with the time it takes, and the work starts it afresh (`Pace.Follows`). So at
no time is the work longer ago than the stage allows (`Pace.Keeps.last`).
-/

universe u

/-- **A task at a stage**: the time, when it came there, and when its work was
last done. -/
structure Clocked (τ : Type u) where
  now : ℕ
  stage : τ
  since : ℕ
  last : ℕ

/-- **How long each stage takes at most**, and how long ago the work may have
been done when the task comes there. -/
structure Pace (τ : Type u) where
  stay : τ → ℕ
  lag : τ → ℕ

namespace Pace

variable {τ : Type u} (P : Pace τ)

/-- How long ago the work may have been done at a stage. -/
def reach (st : τ) : ℕ := P.lag st + P.stay st

/-- **What may happen**: time passes that the stage has left; the task goes on
to a stage that allows for what the last one did; it goes on with its work
done; or somebody else does the work. -/
inductive Follows (c : Clocked τ) : Clocked τ → Prop
  | wait (d : ℕ) (h : c.now + d ≤ c.since + P.stay c.stage) :
      Follows c { c with now := c.now + d }
  | goOn (st : τ) (h : P.reach c.stage ≤ P.lag st) :
      Follows c { c with stage := st, since := c.now }
  | work (st : τ) : Follows c { c with stage := st, since := c.now, last := c.now }
  | early : Follows c { c with last := c.now }

/-- **The task keeps its pace.** -/
structure Keeps (c : Clocked τ) : Prop where
  entered : c.since ≤ c.last + P.lag c.stage
  stayed : c.now ≤ c.since + P.stay c.stage
  past : c.last ≤ c.now

variable {P} {c c' : Clocked τ}

/-- **The work was done not long ago.** -/
theorem Keeps.last (h : P.Keeps c) : c.now ≤ c.last + P.reach c.stage := by
  have hentered := h.entered
  have hstayed := h.stayed
  unfold reach
  omega

/-- **Whatever happens, the pace is kept.** -/
theorem Keeps.follows (h : P.Keeps c) (hc : P.Follows c c') : P.Keeps c' := by
  have hentered := h.entered
  have hstayed := h.stayed
  have hpast := h.past
  cases hc with
  | wait d hd => exact ⟨hentered, hd, hpast.trans (Nat.le_add_right _ _)⟩
  | goOn st hst =>
    refine ⟨?_, Nat.le_add_right _ _, hpast⟩
    show c.now ≤ c.last + P.lag st
    exact h.last.trans (Nat.add_le_add_left hst _)
  | work st => exact ⟨Nat.le_add_right _ _, Nat.le_add_right _ _, le_refl _⟩
  | early => exact ⟨hentered.trans (Nat.add_le_add_right hpast _), hstayed, le_refl _⟩

end Pace

/-- **What is spaced is few**: numbers that are so far apart, in a window of
`n` times as much, are at most `n`. -/
theorem length_le_of_spaced {g : ℕ} {l : List ℕ} (h : l.Pairwise (fun a b => a + g ≤ b)) {t n : ℕ}
    (hl : ∀ a ∈ l, t ≤ a ∧ a < t + g * n) : l.length ≤ n := by
  induction l generalizing t n with
  | nil => exact Nat.zero_le n
  | cons a l ih =>
    obtain ⟨hrest, hl'⟩ := List.pairwise_cons.mp h
    obtain ⟨hlow, hhigh⟩ := hl a List.mem_cons_self
    obtain ⟨m, rfl⟩ : ∃ m, n = m + 1 := by
      refine Nat.exists_eq_succ_of_ne_zero (fun hz => ?_)
      rw [hz, Nat.mul_zero] at hhigh
      omega
    refine Nat.succ_le_succ (ih hl' (t := t + g) (fun b hb => ⟨?_, ?_⟩))
    · exact (Nat.add_le_add_right hlow g).trans (hrest b hb)
    · have hb := (hl b (List.mem_cons_of_mem a hb)).2
      rw [Nat.mul_succ] at hb
      omega
