import Mathlib.Logic.Function.Basic

/-!
# Cells that are written once

Several callers ask a cell for its value. The first finds it empty and makes
the value; those who come meanwhile wait. If it succeeds the cell is full and
stays so, and if it fails or is given up the cell is empty again, for the
next.

There are three such states and no others: a full cell that is being written,
or one that two callers write, cannot be expressed. What is left to keep is
that the cell and the callers agree on who is writing (`Tracks`).
-/

universe u v

/-- **A cell that is written once.** -/
inductive OnceCell (ι : Type u) (α : Type v) where
  | empty
  /-- A caller is making the value. -/
  | making (i : ι)
  | full (a : α)

namespace OnceCell

variable {ι : Type u} {α : Type v}

/-- The value, if there is one. -/
def value : OnceCell ι α → Option α
  | full a => some a
  | _ => none

/-- A caller that finds the cell empty is to make the value. -/
def claim (c : OnceCell ι α) (i : ι) : OnceCell ι α :=
  match c with
  | empty => making i
  | c => c

section Writers

variable [DecidableEq ι]

/-- Who is making the value has made it. -/
def complete (c : OnceCell ι α) (i : ι) (a : α) : OnceCell ι α :=
  match c with
  | making j => if j = i then full a else making j
  | c => c

/-- Who is making the value gives up. -/
def abandon (c : OnceCell ι α) (i : ι) : OnceCell ι α :=
  match c with
  | making j => if j = i then empty else making j
  | c => c

end Writers

/-- **The callers that are making the value** are the one that the cell says
is. -/
def Tracks (c : OnceCell ι α) (W : ι → Prop) : Prop := ∀ i, W i ↔ c = making i

/-- **What is full stays so**, with the value it has. -/
def Stays (c c' : OnceCell ι α) : Prop := ∀ a, c = full a → c' = full a

theorem Stays.refl (c : OnceCell ι α) : Stays c c := fun _ => id

theorem Stays.trans {c c' c'' : OnceCell ι α} (h : Stays c c') (h' : Stays c' c'') :
    Stays c c'' := fun a ha => h' a (h a ha)

variable {c : OnceCell ι α} {W : ι → Prop}

theorem value_eq_some_iff {a : α} : c.value = some a ↔ c = full a := by
  cases c <;> simp [value]

theorem Tracks.congr (h : Tracks c W) {W' : ι → Prop} (hW : ∀ i, W' i ↔ W i) : Tracks c W' :=
  fun i => (hW i).trans (h i)

/-- **One caller at a time.** -/
theorem Tracks.unique (h : Tracks c W) {i j : ι} (hi : W i) (hj : W j) : i = j :=
  OnceCell.making.inj (((h i).mp hi).symm.trans ((h j).mp hj))

/-- A full cell nobody is writing. -/
theorem Tracks.not_of_full (h : Tracks c W) {a : α} (hc : c = full a) (i : ι) : ¬ W i := by
  intro hi
  exact nomatch hc.symm.trans ((h i).mp hi)

theorem Tracks.claim (hc : c = empty) (i : ι) : Tracks (c.claim i) (fun j => j = i) := by
  intro j
  rw [hc, OnceCell.claim, OnceCell.making.injEq]
  exact eq_comm

theorem stays_claim (c : OnceCell ι α) (i : ι) : Stays c (c.claim i) := by
  rintro a rfl
  rfl

variable [DecidableEq ι]

/-- **Who was making the value has made it**, and nobody is any more. -/
theorem Tracks.complete (h : Tracks c W) {i : ι} (hi : W i) (a : α) :
    c.complete i a = full a ∧ Tracks (c.complete i a) (fun _ => False) := by
  have hfull : c.complete i a = full a := by
    rw [(h i).mp hi, OnceCell.complete, if_pos rfl]
  refine ⟨hfull, fun j => iff_of_false id (fun hj => ?_)⟩
  exact nomatch hfull.symm.trans hj

theorem stays_complete (c : OnceCell ι α) (i : ι) (a : α) : Stays c (c.complete i a) := by
  rintro b rfl
  rfl

/-- Whoever gives up, the others stay. -/
theorem Tracks.abandon (h : Tracks c W) (i : ι) :
    Tracks (c.abandon i) (fun j => W j ∧ j ≠ i) := by
  intro j
  cases c with
  | empty => exact iff_of_false (fun hj => nomatch (h j).mp hj.1) (fun hj => nomatch hj)
  | full a => exact iff_of_false (fun hj => nomatch (h j).mp hj.1) (fun hj => nomatch hj)
  | making k =>
    show W j ∧ j ≠ i ↔ _
    rw [h j, OnceCell.abandon, OnceCell.making.injEq]
    by_cases hk : k = i
    · rw [if_pos hk, hk]
      exact iff_of_false (fun hj => hj.2 hj.1.symm) (fun hj => nomatch hj)
    · rw [if_neg hk, OnceCell.making.injEq]
      exact and_iff_left_of_imp (fun hj hji => hk (hj.trans hji))

theorem stays_abandon (c : OnceCell ι α) (i : ι) : Stays c (c.abandon i) := by
  rintro a rfl
  rfl

/-- Whoever gives up, the value is there if it was. -/
theorem abandon_eq_full_iff {i : ι} {a : α} : c.abandon i = full a ↔ c = full a := by
  cases c with
  | empty => rfl
  | full b => rfl
  | making j =>
    refine iff_of_false (fun h => ?_) (fun h => nomatch h)
    rw [abandon] at h
    split at h <;> exact nomatch h

/-! ## Callers at their stages -/

section Stages

variable {S : Type*} {stage : ι → S} {Q : S → Prop} {i : ι} {st : S}

/-- A caller that is not making the value moves, and is not then. -/
theorem Tracks.move (h : Tracks c (fun j => Q (stage j))) (hi : ¬ Q (stage i)) (hst : ¬ Q st) :
    Tracks c (fun j => Q (Function.update stage i st j)) := by
  refine h.congr (fun j => ?_)
  by_cases hj : j = i
  · rw [hj, Function.update_self]
    exact iff_of_false hst hi
  · rw [Function.update_of_ne hj]

/-- A caller that finds the cell empty moves to where the value is made. -/
theorem Tracks.move_claim (h : Tracks c (fun j => Q (stage j))) (hc : c = empty) (hst : Q st) :
    Tracks (c.claim i) (fun j => Q (Function.update stage i st j)) := by
  refine (Tracks.claim hc i).congr (fun j => ?_)
  by_cases hj : j = i
  · rw [hj, Function.update_self]
    exact iff_of_true hst rfl
  · rw [Function.update_of_ne hj]
    refine iff_of_false (fun hq => ?_) hj
    exact nomatch hc.symm.trans ((h j).mp hq)

/-- A caller that has made the value moves on. -/
theorem Tracks.move_complete (h : Tracks c (fun j => Q (stage j))) (hi : Q (stage i))
    (hst : ¬ Q st) (a : α) :
    Tracks (c.complete i a) (fun j => Q (Function.update stage i st j)) := by
  refine (h.complete hi a).2.congr (fun j => ?_)
  by_cases hj : j = i
  · rw [hj, Function.update_self]
    exact iff_of_false hst id
  · rw [Function.update_of_ne hj]
    exact iff_of_false (fun hq => hj (h.unique hq hi)) id

/-- A caller gives up, whether it was making the value or not. -/
theorem Tracks.move_abandon (h : Tracks c (fun j => Q (stage j))) (hst : ¬ Q st) :
    Tracks (c.abandon i) (fun j => Q (Function.update stage i st j)) := by
  refine (h.abandon i).congr (fun j => ?_)
  by_cases hj : j = i
  · rw [hj, Function.update_self]
    exact iff_of_false hst (fun hq => hq.2 rfl)
  · rw [Function.update_of_ne hj]
    exact (and_iff_left hj).symm

end Stages

end OnceCell
