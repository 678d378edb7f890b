import Mathlib.Logic.Relation
import Mathlib.Tactic.Common

/-!
# Labelled machines and their runs

A machine is a labelled step relation; a run is a finite sequence of its steps.  The two rules a
development needs are here once: an invariant that every step preserves holds at the end of every
run (`Machine.Run.invariant`), and the machine restricted to steps meeting a guard
(`Machine.guard`) has the runs "all of whose steps meet the guard".
-/

/-- A labelled step relation on states `σ` with labels `ι`. -/
structure Machine (σ ι : Type*) where
  step : σ → ι → σ → Prop

namespace Machine

variable {σ ι : Type*} {M : Machine σ ι}

/-- `M.Run s ls s'`: the labels `ls`, performed in order from `s`, lead to `s'`. -/
inductive Run (M : Machine σ ι) (s : σ) : List ι → σ → Prop
  | nil : Run M s [] s
  | snoc {ls : List ι} {s₁ : σ} {l : ι} {s₂ : σ} :
      Run M s ls s₁ → M.step s₁ l s₂ → Run M s (ls ++ [l]) s₂

variable {s s' : σ}

lemma Run.single {l : ι} (h : M.step s l s') : M.Run s [l] s' :=
  show M.Run s ([] ++ [l]) s' from .snoc .nil h

variable {ls : List ι}

lemma Run.append {s₀ s₁ s₂ : σ} {ls' : List ι} (h : M.Run s₀ ls s₁) (h' : M.Run s₁ ls' s₂) :
    M.Run s₀ (ls ++ ls') s₂ := by
  induction h' with
  | nil => rwa [List.append_nil]
  | snoc _ hstep ih =>
    rw [← List.append_assoc]
    exact ih.snoc hstep

/-- **The invariant rule.** -/
theorem Run.invariant {I : σ → Prop} (h : M.Run s ls s') (h₀ : I s)
    (hstep : ∀ s₁ l s₂, I s₁ → M.step s₁ l s₂ → I s₂) : I s' := by
  induction h with
  | nil => exact h₀
  | snoc _ hl ih => exact hstep _ _ _ ih hl

/-- A run, performed step by step. -/
theorem Run.of_foldlM {f : σ → ι → Option σ} (hf : ∀ s l s', f s l = some s' → M.step s l s')
    (h : ls.foldlM f s = some s') : M.Run s ls s' := by
  induction ls generalizing s with
  | nil =>
    cases h
    exact .nil
  | cons l ls ih =>
    obtain ⟨s₁, hs₁, hrest⟩ := Option.bind_eq_some_iff.mp h
    exact (Run.single (hf s l s₁ hs₁)).append (ih hrest)

variable {f : σ → ι → σ}

lemma Run.of_foldl (hf : ∀ s l, M.step s l (f s l)) (s : σ) (ls : List ι) :
    M.Run s ls (ls.foldl f s) := by
  induction ls generalizing s with
  | nil => exact .nil
  | cons l ls ih => exact (Run.single (hf s l)).append (ih (f s l))

/-- Where a state has one next state, a run ends where its labels lead. -/
theorem Run.eq_foldl (hf : ∀ s l s', M.step s l s' → s' = f s l)
    (h : M.Run s ls s') :
    s' = ls.foldl f s := by
  induction h with
  | nil => rfl
  | snoc _ hstep ih => rw [List.foldl_append, ← ih, List.foldl_cons, List.foldl_nil, hf _ _ _ hstep]

/-- The machine that takes only the steps whose state and label meet `G`. -/
def guard (M : Machine σ ι) (G : σ → ι → Prop) : Machine σ ι where
  step s l s' := M.step s l s' ∧ G s l

variable {G : σ → ι → Prop}

lemma Run.of_guard (h : (M.guard G).Run s ls s') : M.Run s ls s' := by
  induction h with
  | nil => exact .nil
  | snoc _ hl ih => exact ih.snoc hl.1

/-- A run whose labels meet the guard in every state. -/
theorem Run.guard_of_forall (h : M.Run s ls s') (hG : ∀ l ∈ ls, ∀ s₁, G s₁ l) :
    (M.guard G).Run s ls s' := by
  induction h with
  | nil => exact .nil
  | snoc _ hl ih =>
    refine (ih fun l hl' => hG l (List.mem_append_left _ hl')).snoc ⟨hl, ?_⟩
    exact hG _ (List.mem_append_right _ (List.mem_singleton_self _)) _

lemma Run.guard_mono {G' : σ → ι → Prop} (hG : ∀ s l, G s l → G' s l)
    (h : (M.guard G).Run s ls s') : (M.guard G').Run s ls s' := by
  induction h with
  | nil => exact .nil
  | snoc _ hl ih => exact ih.snoc ⟨hl.1, hG _ _ hl.2⟩

/-- The machine that takes only the steps with `Q`. -/
def restrict (M : Machine σ ι) (Q : σ → ι → σ → Prop) : Machine σ ι where
  step s l s' := M.step s l s' ∧ Q s l s'

/-- Where a guard decides, step by step, whether the step has `Q`, the guarded runs are the runs
of steps with `Q`. -/
theorem guard_run_iff_restrict_run {Q : σ → ι → σ → Prop} (I : σ → Prop) (hI : I s)
    (hstepI : ∀ s₁ l s₂, I s₁ → M.step s₁ l s₂ → Q s₁ l s₂ → I s₂)
    (hiff : ∀ s₁ l s₂, I s₁ → M.step s₁ l s₂ → (G s₁ l ↔ Q s₁ l s₂)) :
    (M.guard G).Run s ls s' ↔ (M.restrict Q).Run s ls s' := by
  constructor
  · intro h
    suffices hall : (M.restrict Q).Run s ls s' ∧ I s' from hall.1
    induction h with
    | nil => exact ⟨.nil, hI⟩
    | snoc _ hl ih =>
      have hnext := (hiff _ _ _ ih.2 hl.1).mp hl.2
      exact ⟨ih.1.snoc ⟨hl.1, hnext⟩, hstepI _ _ _ ih.2 hl.1 hnext⟩
  · intro h
    suffices hall : (M.guard G).Run s ls s' ∧ I s' from hall.1
    induction h with
    | nil => exact ⟨.nil, hI⟩
    | snoc _ hl ih =>
      have hmeets := (hiff _ _ _ ih.2 hl.1).mpr hl.2
      exact ⟨ih.1.snoc ⟨hl.1, hmeets⟩, hstepI _ _ _ ih.2 hl.1 hl.2⟩

/-- The machine that stays in states with `P`. -/
def staying (M : Machine σ ι) (P : σ → Prop) : Machine σ ι where
  step s l s' := M.step s l s' ∧ P s'

/-- Where a guard decides, step by step, whether the next state has `P`, the guarded runs are the
runs that stay in `P`. -/
theorem guard_run_iff_staying_run {P : σ → Prop} (I : σ → Prop) (hI : I s) (hP : P s)
    (hstepI : ∀ s₁ l s₂, I s₁ → M.step s₁ l s₂ → I s₂)
    (hiff : ∀ s₁ l s₂, I s₁ → P s₁ → M.step s₁ l s₂ → (G s₁ l ↔ P s₂)) :
    (M.guard G).Run s ls s' ↔ (M.staying P).Run s ls s' := by
  refine guard_run_iff_restrict_run (Q := fun _ _ s₂ => P s₂) (fun s₁ => I s₁ ∧ P s₁) ⟨hI, hP⟩ ?_ ?_
  · intro s₁ l s₂ h hl hnext
    exact ⟨hstepI s₁ l s₂ h.1 hl, hnext⟩
  · intro s₁ l s₂ h hl
    exact hiff s₁ l s₂ h.1 h.2 hl

end Machine
