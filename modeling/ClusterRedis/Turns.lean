import ClusterRedis.Runs

/-!
# Work that is used up

A measure of what is left to do goes down with every step that does
something. Whoever takes steps in no order in particular, but in turns in
which each of them comes, uses it up: a turn in which nothing changed means
that there was nothing to do (`System.stuck_or_less`), and as many turns as
there is work leave none (`System.done_of_turns`).
-/

universe u v w

namespace System

variable {σ : Type u} {ε : Type v} {ρ : Type w}

/-- **Steps that each do nothing or leave less to do**: together they do
nothing, each of them, or leave less. -/
theorem stuck_or_less (M : System σ ε ρ) {I : σ → Prop} {E : ε → Prop} (work : σ → ℕ)
    (hstep : ∀ s e, I s → E e →
      I (M.step s e).2 ∧ ((M.step s e).2 = s ∨ work (M.step s e).2 < work s))
    {s : σ} {es : List ε} (h : I s) (hes : ∀ e ∈ es, E e) :
    I (M.final s es)
      ∧ ((∀ e ∈ es, (M.step s e).2 = s) ∧ M.final s es = s ∨ work (M.final s es) < work s) := by
  induction es generalizing s with
  | nil => exact ⟨h, Or.inl ⟨fun e he => absurd he List.not_mem_nil, rfl⟩⟩
  | cons e es ih =>
    obtain ⟨hI, hmove⟩ := hstep s e h (hes e List.mem_cons_self)
    obtain ⟨hend, hrest⟩ := ih hI (fun e' he' => hes e' (List.mem_cons_of_mem _ he'))
    refine ⟨hend, ?_⟩
    show (_ ∧ M.final (M.step s e).2 es = s) ∨ work (M.final (M.step s e).2 es) < work s
    rcases hmove with hsame | hless
    · rw [hsame] at hrest ⊢
      refine hrest.imp_left (And.imp_left (fun hall e' he' => ?_))
      rcases List.mem_cons.mp he' with rfl | he'
      · exact hsame
      · exact hall e' he'
    · refine Or.inr ?_
      rcases hrest with ⟨-, hstuck⟩ | hmore
      · rw [hstuck]
        exact hless
      · exact Nat.lt_trans hmore hless

/-- **A turn in which the one who has work comes.** No step undoes what is done
or adds to what is left, and a step of a kind that the turn holds leaves less or
gets it done. -/
theorem done_or_less (M : System σ ε ρ) {I D : σ → Prop} {E K : ε → Prop} (work : σ → ℕ)
    (hstep : ∀ s e, I s → E e → I (M.step s e).2
      ∧ (D (M.step s e).2
        ∨ ¬ D s ∧ work (M.step s e).2 ≤ work s ∧ (K e → work (M.step s e).2 < work s)))
    {s : σ} {es : List ε} (h : I s) (hes : ∀ e ∈ es, E e) :
    I (M.final s es)
      ∧ (D (M.final s es)
        ∨ ¬ D s ∧ work (M.final s es) ≤ work s
          ∧ ((∃ e ∈ es, K e) → work (M.final s es) < work s)) := by
  induction es generalizing s with
  | nil =>
    refine ⟨h, (Classical.em (D s)).imp_right (fun hno => ⟨hno, Nat.le_refl _, ?_⟩)⟩
    exact fun ⟨e, he, _⟩ => absurd he List.not_mem_nil
  | cons e es ih =>
    obtain ⟨hI, hmove⟩ := hstep s e h (hes e List.mem_cons_self)
    obtain ⟨hend, hrest⟩ := ih hI (fun e' he' => hes e' (List.mem_cons_of_mem _ he'))
    refine ⟨hend, ?_⟩
    show D (M.final (M.step s e).2 es) ∨ _ ∧ work (M.final (M.step s e).2 es) ≤ work s
      ∧ (_ → work (M.final (M.step s e).2 es) < work s)
    rcases hrest with hdone | ⟨hno, hle, hless⟩
    · exact Or.inl hdone
    · obtain ⟨hd, hle', hless'⟩ := hmove.resolve_left hno
      refine Or.inr ⟨hd, Nat.le_trans hle hle', ?_⟩
      rintro ⟨e', he', hk⟩
      rcases List.mem_cons.mp he' with rfl | he'
      · exact Nat.lt_of_le_of_lt hle (hless' hk)
      · exact Nat.lt_of_lt_of_le (hless ⟨e', he', hk⟩) hle'

/-- **Enough turns get it done**, when a turn gets it done or leaves less to
do, and what is done stays so. -/
theorem done_of_turns (M : System σ ε ρ) {I D : σ → Prop} {T : List ε → Prop} (work : σ → ℕ)
    (hturn : ∀ s es, I s → T es →
      I (M.final s es) ∧ (D (M.final s es) ∨ ¬ D s ∧ work (M.final s es) < work s))
    {s : σ} {turns : List (List ε)} (h : I s) (ht : ∀ es ∈ turns, T es)
    (hn : work s < turns.length) : D (M.final s turns.flatten) := by
  have hstay : ∀ (turns : List (List ε)) (s : σ), I s → D s → (∀ es ∈ turns, T es) →
      D (M.final s turns.flatten) := by
    intro turns
    induction turns with
    | nil => exact fun _ _ hd _ => hd
    | cons es turns ih =>
      intro s hI hd ht
      obtain ⟨hI', hdone⟩ := hturn s es hI (ht es List.mem_cons_self)
      rw [List.flatten_cons, final_append]
      exact ih _ hI' (hdone.resolve_right (fun hno => hno.1 hd))
        (fun fs hfs => ht fs (List.mem_cons_of_mem _ hfs))
  induction turns generalizing s with
  | nil => exact absurd hn (Nat.not_lt_zero _)
  | cons es turns ih =>
    have hts := fun fs hfs => ht fs (List.mem_cons_of_mem es hfs)
    obtain ⟨hI, hmove⟩ := hturn s es h (ht es List.mem_cons_self)
    rw [List.flatten_cons, final_append]
    rcases hmove with hdone | ⟨-, hless⟩
    · exact hstay turns _ hI hdone hts
    · exact ih hI hts (Nat.lt_of_lt_of_le hless (Nat.le_of_lt_succ hn))

/-- **Enough turns of such steps get it done**, each with a step among them that
has to leave less. -/
theorem done_of_steps (M : System σ ε ρ) {I D : σ → Prop} {E K : ε → Prop} (work : σ → ℕ)
    (hstep : ∀ s e, I s → E e → I (M.step s e).2
      ∧ (D (M.step s e).2
        ∨ ¬ D s ∧ work (M.step s e).2 ≤ work s ∧ (K e → work (M.step s e).2 < work s)))
    {s : σ} {turns : List (List ε)} (h : I s)
    (ht : ∀ es ∈ turns, (∀ e ∈ es, E e) ∧ ∃ e ∈ es, K e) (hn : work s < turns.length) :
    I (M.final s turns.flatten) ∧ D (M.final s turns.flatten) := by
  constructor
  · refine M.inv_final (fun s e hI he => (hstep s e hI he).1) h (M.along_of_mem (fun e he => ?_))
    obtain ⟨es, hes, he⟩ := List.mem_flatten.mp he
    exact (ht es hes).1 e he
  · refine M.done_of_turns (T := fun es => (∀ e ∈ es, E e) ∧ ∃ e ∈ es, K e) work ?_ h ht hn
    intro s es hI hes
    obtain ⟨hend, hmove⟩ := M.done_or_less work hstep hI hes.1
    exact ⟨hend, hmove.imp_right (fun hless => ⟨hless.1, hless.2.2 hes.2⟩)⟩

end System
