import Amide.Framework.Effects
import Amide.Framework.Machine

/-!
# Programs that run beside each other

Threads run their programs on a shared state, one effect at a time and in whatever order, while
an environment changes the state as well.  A thread whose effects are not answered any more has
stopped where it stands.

What a thread may count on is stated in the manner of rely and guarantee.  `Contracts` says for
each thread which changes the others make between two of its effects (`rely`), which changes it
makes itself (`guarantee`), and which invariant all of them keep.  `Program.Keeps` is what is to be
shown of one program; if it holds of the program of every thread, the invariant holds in every
state the threads can reach, and every effect keeps the guarantee of its thread
(`ThreadSystem.Honors.of_run`).
-/

variable {τ σ E ε α β : Type} {A : E → Type}

/-- The changes the threads may make, and rely on. -/
structure Contracts (τ σ : Type) where
  invariant : σ → Prop
  rely : τ → σ → σ → Prop
  guarantee : τ → σ → σ → Prop
  rely_refl : ∀ t s, rely t s s
  rely_trans : ∀ t s₁ s₂ s₃, rely t s₁ s₂ → rely t s₂ s₃ → rely t s₁ s₃
  rely_of_guarantee : ∀ t t' s s', t ≠ t' → guarantee t s s' → rely t' s s'

variable {e : E} {r : Except ε α}

namespace Program

/-- Whatever the others do in between, every effect keeps the invariant and the guarantee, and
every end has `Q` as long as the thread relies on it. -/
def Keeps (C : Contracts τ σ) (H : σ → (e : E) → Except ε (A e) → σ → Prop) (t : τ)
    (Q : Except ε α → σ → Prop) : Program E A ε α → σ → Prop
  | pure a, s => ∀ s', C.rely t s s' → Q (.ok a) s'
  | throw error, s => ∀ s', C.rely t s s' → Q (.error error) s'
  | perform e k, s => ∀ s₁, C.rely t s s₁ → C.invariant s₁ → ∀ r s₂, H s₁ e r s₂ →
      C.invariant s₂ ∧ C.guarantee t s₁ s₂ ∧ (k r).Keeps C H t Q s₂
  | choose n k, s => ∀ i : Fin n, (k i).Keeps C H t Q s
  | spent, _ => True

variable {C : Contracts τ σ} {H : σ → (e : E) → Except ε (A e) → σ → Prop} {t : τ}
  {Q Q' : Except ε α → σ → Prop} {p : Program E A ε α} {s s' : σ}

lemma Keeps.rely (h : p.Keeps C H t Q s) (hrely : C.rely t s s') : p.Keeps C H t Q s' := by
  induction p generalizing s s' with
  | pure a | throw error | perform e k ih => exact fun s₁ h₁ => h s₁ (C.rely_trans t _ _ _ hrely h₁)
  | choose n k ih => exact fun i => ih i (h i) hrely
  | spent => trivial

lemma Keeps.mono (h : p.Keeps C H t Q s) (hQ : ∀ r s', Q r s' → Q' r s') :
    p.Keeps C H t Q' s := by
  induction p generalizing s with
  | pure a | throw error => exact fun s₁ h₁ => hQ _ _ (h s₁ h₁)
  | perform e k ih =>
    intro s₁ h₁ hI r s₂ hanswer
    obtain ⟨hI', hguar, hrest⟩ := h s₁ h₁ hI r s₂ hanswer
    exact ⟨hI', hguar, ih r hrest⟩
  | choose n k ih => exact fun i => ih i (h i)
  | spent => trivial

lemma keeps_pure {a : α} (h : ∀ s', C.rely t s s' → Q (.ok a) s') :
    (Pure.pure a : Program E A ε α).Keeps C H t Q s := h

lemma keeps_throw {error : ε} (h : ∀ s', C.rely t s s' → Q (.error error) s') :
    (MonadExcept.throw error : Program E A ε α).Keeps C H t Q s := h

variable {f : β → Program E A ε α} {R : Except ε β → σ → Prop}

lemma Keeps.bind {p : Program E A ε β} (h : p.Keeps C H t R s)
    (hok : ∀ b s', R (.ok b) s' → (f b).Keeps C H t Q s')
    (herror : ∀ error s', R (.error error) s' → Q (.error error) s') :
    (p >>= f).Keeps C H t Q s := by
  show (p.bind f).Keeps C H t Q s
  induction p generalizing s with
  | pure b => exact hok b s (h s (C.rely_refl t s))
  | throw error => exact fun s₁ h₁ => herror error s₁ (h s₁ h₁)
  | perform e k ih =>
    intro s₁ h₁ hI r s₂ hanswer
    obtain ⟨hI', hguar, hrest⟩ := h s₁ h₁ hI r s₂ hanswer
    exact ⟨hI', hguar, ih r hrest⟩
  | choose n k ih => exact fun i => ih i (h i)
  | spent => trivial

lemma Keeps.attempt {Q : Except ε (Except ε α) → σ → Prop}
    (h : p.Keeps C H t (fun r s' => Q (.ok r) s') s) : p.attempt.Keeps C H t Q s := by
  induction p generalizing s with
  | pure a => exact h
  | throw error => exact h
  | perform e k ih =>
    intro s₁ h₁ hI r s₂ hanswer
    obtain ⟨hI', hguar, hrest⟩ := h s₁ h₁ hI r s₂ hanswer
    exact ⟨hI', hguar, ih r hrest⟩
  | choose n k ih => exact fun i => ih i (h i)
  | spent => trivial

/-- The rule for one effect; what it leaves must outlast what the others do. -/
theorem keeps_effect {Q : Except ε (A e) → σ → Prop}
    (h : ∀ s₁, C.rely t s s₁ → C.invariant s₁ → ∀ r s₂, H s₁ e r s₂ →
      C.invariant s₂ ∧ C.guarantee t s₁ s₂ ∧ ∀ s₃, C.rely t s₂ s₃ → Q r s₃) :
    (effect e : Program E A ε (A e)).Keeps C H t Q s := by
  intro s₁ h₁ hI r s₂ hanswer
  obtain ⟨hI', hguar, hrest⟩ := h s₁ h₁ hI r s₂ hanswer
  cases r with
  | ok a | error error => exact ⟨hI', hguar, hrest⟩

/-- What a program that keeps its contract comes to when nobody else does anything. -/
theorem Keeps.of_ends (h : p.Keeps C H t Q s) (hends : Ends H p s r s') (hI : C.invariant s) :
    Q r s' := by
  induction hends with
  | pure | throw => exact h _ (C.rely_refl t _)
  | perform hanswer _ ih =>
    obtain ⟨hI', -, hrest⟩ := h _ (C.rely_refl t _) hI _ _ hanswer
    exact ih hrest hI'
  | choose i _ ih => exact ih (h i) hI

/-! ### Assertions

A thread may die between two of its effects, and then nothing is asked of it any more; so what is
asserted along a program is asserted only as long as the thread is alive. -/

section Triples

/-- Only a thread that is alive gets answers, and nobody comes back to life. -/
structure Mortal (C : Contracts τ σ) (H : σ → (e : E) → Except ε (A e) → σ → Prop) (t : τ)
    (alive : σ → Prop) : Prop where
  of_answer : ∀ s e r s', H s e r s' → alive s
  of_rely : ∀ s s', C.rely t s s' → alive s' → alive s

/-- The others do not touch it. -/
def Stable (C : Contracts τ σ) (t : τ) (alive P : σ → Prop) : Prop :=
  ∀ s s', P s → C.rely t s s' → alive s' → P s'

def Triple (C : Contracts τ σ) (H : σ → (e : E) → Except ε (A e) → σ → Prop) (t : τ)
    (alive P : σ → Prop) (p : Program E A ε α) (Q : Except ε α → σ → Prop) : Prop :=
  ∀ s, (alive s → P s) → p.Keeps C H t (fun r s' => alive s' → Q r s') s

variable {alive P P' : σ → Prop}

lemma Stable.and (h : Stable C t alive P) (h' : Stable C t alive P') :
    Stable C t alive fun s => P s ∧ P' s :=
  fun s s' hs hrely halive => ⟨h s s' hs.1 hrely halive, h' s s' hs.2 hrely halive⟩

lemma Stable.or (h : Stable C t alive P) (h' : Stable C t alive P') :
    Stable C t alive fun s => P s ∨ P' s :=
  fun s s' hs hrely halive =>
    hs.imp (fun hs => h s s' hs hrely halive) fun hs => h' s s' hs hrely halive

lemma stable_const (C : Contracts τ σ) (t : τ) (alive : σ → Prop) (φ : Prop) :
    Stable C t alive fun _ => φ :=
  fun _ _ h _ _ => h

lemma Stable.imp {φ : Prop} (h : Stable C t alive P) : Stable C t alive fun s => φ → P s :=
  fun s s' hs hrely halive hφ => h s s' (hs hφ) hrely halive

lemma Stable.exists {ι : Type} {P : ι → σ → Prop} (h : ∀ i, Stable C t alive (P i)) :
    Stable C t alive fun s => ∃ i, P i s := by
  rintro s s' ⟨i, hi⟩ hrely halive
  exact ⟨i, h i s s' hi hrely halive⟩

lemma Triple.mono (h : Triple C H t alive P p Q) (hP : ∀ s, P' s → P s)
    (hQ : ∀ r s, Q r s → Q' r s) : Triple C H t alive P' p Q' :=
  fun s hs => (h s fun halive => hP s (hs halive)).mono fun r s' hr halive =>
    hQ r s' (hr halive)

section
variable (hmortal : Mortal C H t alive) (hP : Stable C t alive P)
include hmortal hP

lemma triple_pure {a : α} (h : ∀ s, P s → Q (.ok a) s) : Triple C H t alive P (Pure.pure a) Q :=
  fun s hs => keeps_pure fun s' hrely halive =>
    h s' (hP s s' (hs (hmortal.of_rely s s' hrely halive)) hrely halive)

lemma triple_throw {error : ε} (h : ∀ s, P s → Q (.error error) s) :
    Triple C H t alive P (MonadExcept.throw error) Q :=
  fun s hs => keeps_throw fun s' hrely halive =>
    h s' (hP s s' (hs (hmortal.of_rely s s' hrely halive)) hrely halive)

/-- The rule for one effect. -/
theorem triple_effect {Q : Except ε (A e) → σ → Prop} (hQ : ∀ r, Stable C t alive (Q r))
    (h : ∀ s r s', P s → C.invariant s → H s e r s' →
      C.invariant s' ∧ C.guarantee t s s' ∧ Q r s') :
    Triple C H t alive P (effect e) Q := by
  intro s hs
  refine keeps_effect fun s₁ hrely hI r s₂ hanswer => ?_
  have halive := hmortal.of_answer _ _ _ _ hanswer
  have hP₁ := hP s s₁ (hs (hmortal.of_rely s s₁ hrely halive)) hrely halive
  obtain ⟨hI', hguar, hQ₂⟩ := h s₁ r s₂ hP₁ hI hanswer
  exact ⟨hI', hguar, fun s₃ hrely' halive' => hQ r s₂ s₃ hQ₂ hrely' halive'⟩

end

lemma Triple.bind {p : Program E A ε β} (h : Triple C H t alive P p R)
    (hok : ∀ b, Triple C H t alive (R (.ok b)) (f b) Q)
    (herror : ∀ error s, R (.error error) s → Q (.error error) s) :
    Triple C H t alive P (p >>= f) Q :=
  fun s hs => (h s hs).bind (fun b s' hb => hok b s' hb)
    fun error s' herr halive => herror error s' (herr halive)

section
variable (hmortal : Mortal C H t alive)
include hmortal

/-- Nothing is asked of a thread that is dead. -/
theorem Mortal.keeps_of_not_alive (hs : ¬alive s) :
    p.Keeps C H t (fun r s' => alive s' → Q r s') s := by
  induction p generalizing s with
  | pure a | throw error =>
    exact fun s₁ hrely halive => absurd (hmortal.of_rely _ _ hrely halive) hs
  | perform e k ih =>
    intro s₁ hrely hI r s₂ hanswer
    exact absurd (hmortal.of_rely _ _ hrely (hmortal.of_answer _ _ _ _ hanswer)) hs
  | choose n k ih => exact fun i => ih i hs
  | spent => trivial

lemma triple_of_and {φ : Prop} (h : φ → Triple C H t alive P p Q) :
    Triple C H t alive (fun s => φ ∧ P s) p Q := by
  intro s hs
  by_cases hφ : φ
  · exact h hφ s fun halive => (hs halive).2
  · exact hmortal.keeps_of_not_alive fun halive => hφ (hs halive).1

lemma triple_of_exists {ι : Type} {P : ι → σ → Prop} (h : ∀ i, Triple C H t alive (P i) p Q) :
    Triple C H t alive (fun s => ∃ i, P i s) p Q := by
  intro s hs
  by_cases halive : alive s
  · obtain ⟨i, hi⟩ := hs halive
    exact h i s fun _ => hi
  · exact hmortal.keeps_of_not_alive halive

lemma triple_of_or (h : Triple C H t alive P p Q) (h' : Triple C H t alive P' p Q) :
    Triple C H t alive (fun s => P s ∨ P' s) p Q := by
  intro s hs
  by_cases halive : alive s
  · rcases hs halive with hP | hP
    · exact h s fun _ => hP
    · exact h' s fun _ => hP
  · exact hmortal.keeps_of_not_alive halive

/-- A program that returns what is known beforehand, and then another. -/
theorem Triple.seq {p : Program E A ε β} {b : β} {R : σ → Prop}
    (h : Triple C H t alive P p fun r s => r = .ok b ∧ R s) (hf : Triple C H t alive R (f b) Q) :
    Triple C H t alive P (p >>= f) Q := by
  refine h.bind (fun b' => triple_of_and hmortal fun hb => ?_) fun error s herror =>
    nomatch herror.1
  cases hb
  exact hf

/-- A program that does not throw, and then another. -/
theorem Triple.bind_ok {p : Program E A ε β} {R : β → σ → Prop}
    (h : Triple C H t alive P p fun r s => ∃ b, r = .ok b ∧ R b s)
    (hf : ∀ b, Triple C H t alive (R b) (f b) Q) : Triple C H t alive P (p >>= f) Q := by
  refine h.bind (fun b => triple_of_exists hmortal fun b' => triple_of_and hmortal ?_)
    fun error s herror => nomatch herror.choose_spec.1
  rintro ⟨⟩
  exact hf b

end

/-- What comes after a program whose errors are caught. -/
theorem Triple.attempt_bind {p : Program E A ε β} {f : Except ε β → Program E A ε α}
    (h : Triple C H t alive P p R) (hf : ∀ r, Triple C H t alive (R r) (f r) Q) :
    Triple C H t alive P (p.attempt >>= f) Q := by
  intro s hs
  have hattempt : p.attempt.Keeps C H t (fun r s' => match r with
      | .ok r => alive s' → R r s'
      | .error _ => False) s := Keeps.attempt (h s hs)
  exact hattempt.bind (fun r s' hr => hf r s' hr) fun _ _ => False.elim

/-- `R` of what is returned, and `S` where an error is thrown. -/
def Ending (R : α → σ → Prop) (S : σ → Prop) : Except ε α → σ → Prop
  | .ok a => R a
  | .error _ => S

variable {R : α → σ → Prop} {S : σ → Prop} {R' : α → σ → Prop} {S' : σ → Prop}

lemma Ending.mono (h : Ending R S r s)
    (hR : ∀ a, R a s → R' a s) (hS : S s → S' s) : Ending R' S' r s := by
  cases r with
  | ok a => exact hR a h
  | error error => exact hS h

lemma Triple.weaken (h : Triple C H t alive P p (Ending R S))
    (hR : ∀ {a s}, R a s → R' a s) (hS : ∀ {s}, S s → S' s) :
    Triple C H t alive P p (Ending R' S') :=
  h.mono (fun _ => id) fun _ _ hs => hs.mono (fun _ => hR) hS

lemma stable_ending (hR : ∀ a, Stable C t alive (R a)) (hS : Stable C t alive S)
    (r : Except ε α) : Stable C t alive (Ending R S r) := by
  cases r with
  | ok a => exact hR a
  | error error => exact hS

/-- A program, and then another that fails the same way. -/
theorem Triple.andThen {p : Program E A ε β} {R' : β → σ → Prop}
    (h : Triple C H t alive P p (Ending R' S))
    (hf : ∀ b, Triple C H t alive (R' b) (f b) (Ending R S)) :
    Triple C H t alive P (p >>= f) (Ending R S) :=
  h.bind hf fun _ _ => id

end Triples

/-! ## Programs that come to an end -/

/-- The program that has come to an end already. -/
def ended : Except ε α → Program E A ε α
  | .ok a => pure a
  | .error error => throw error

/-- The program makes no choices, and does not run out of fuel. -/
def Straight : Program E A ε α → Prop
  | pure _ => True
  | throw _ => True
  | perform _ k => ∀ r, (k r).Straight
  | choose _ _ => False
  | spent => False

lemma straight_pure (a : α) : (Pure.pure a : Program E A ε α).Straight := trivial

lemma straight_throw (error : ε) : (MonadExcept.throw error : Program E A ε α).Straight := trivial

lemma straight_effect (e : E) : (effect e : Program E A ε (A e)).Straight := by
  rintro (error | a)
  · exact trivial
  · exact trivial

lemma Straight.bind {p : Program E A ε β} (h : p.Straight) (hf : ∀ b, (f b).Straight) :
    (p >>= f).Straight := by
  show (p.bind f).Straight
  induction p with
  | pure b => exact hf b
  | throw error => exact trivial
  | perform e k ih => exact fun r => ih r (h r)
  | choose n k => exact h
  | spent => exact h

lemma Straight.attempt (h : p.Straight) : p.attempt.Straight := by
  induction p with
  | pure a | throw error => exact trivial
  | perform e k ih => exact fun r => ih r (h r)
  | choose n k => exact h
  | spent => exact h

lemma Ends.effect {a : A e} (h : H s e (.ok a) s') :
    Ends H (effect e : Program E A ε (A e)) s (.ok a) s' :=
  .perform h .pure

lemma Ends.bind {p : Program E A ε β} {b : β} {s₁ : σ} (h : Ends H p s (.ok b) s₁)
    (hrest : Ends H (f b) s₁ r s') : Ends H (p >>= f) s r s' := by
  show Ends H (p.bind f) s r s'
  generalize hres : Except.ok b = result at h
  induction h with
  | pure =>
    cases hres
    exact hrest
  | throw => cases hres
  | perform hanswer _ ih => exact .perform hanswer (ih hrest hres)
  | choose i _ ih => exact .choose i (ih hrest hres)

lemma Ends.attempt (h : Ends H p s r s') : Ends H p.attempt s (.ok r) s' := by
  induction h with
  | pure => exact .pure
  | throw => exact .pure
  | perform hanswer _ ih => exact .perform hanswer ih
  | choose i _ ih => exact .choose i ih

/-- As long as every effect has an answer, the program comes to an end. -/
theorem Straight.exists_ends {L : σ → Prop} (h : p.Straight)
    (hanswers : ∀ s e, L s → ∃ r s', H s e r s' ∧ L s') (hs : L s) :
    ∃ r s', Ends H p s r s' ∧ L s' := by
  induction p generalizing s with
  | pure a => exact ⟨_, _, .pure, hs⟩
  | throw error => exact ⟨_, _, .throw, hs⟩
  | perform e k ih =>
    obtain ⟨r, s₁, hanswer, hL⟩ := hanswers s e hs
    obtain ⟨r', s', hrest, hL'⟩ := ih r (h r) hL
    exact ⟨r', s', .perform hanswer hrest, hL'⟩
  | choose n k => exact h.elim
  | spent => exact h.elim

end Program

/-! ## Threads -/

structure ThreadSystem (τ σ E : Type) (A : E → Type) (ε α : Type) where
  program : τ → Program E A ε α
  /-- The thread may begin. -/
  admits : τ → σ → Prop
  handler : τ → σ → (e : E) → Except ε (A e) → σ → Prop
  environment : σ → σ → Prop

/-- The shared state, and what each thread that has begun has still to do. -/
structure Threads (τ σ E : Type) (A : E → Type) (ε α : Type) where
  shared : σ
  running : τ → Option (Program E A ε α) := fun _ => none

/-- The thread goes on with `p`, in a shared state of its own making. -/
def Threads.advance [DecidableEq τ] (s : Threads τ σ E A ε α) (shared : σ) (t : τ)
    (p : Program E A ε α) : Threads τ σ E A ε α :=
  ⟨shared, Function.update s.running t (some p)⟩

@[simp] lemma Threads.running_advance_self [DecidableEq τ] (s : Threads τ σ E A ε α)
    (shared : σ) (t : τ) (p : Program E A ε α) : (s.advance shared t p).running t = some p :=
  Function.update_self ..

variable {t : τ}

lemma Threads.running_advance_of_ne [DecidableEq τ] (s : Threads τ σ E A ε α) (shared : σ)
    {t' : τ} (p : Program E A ε α) (h : t' ≠ t) :
    (s.advance shared t p).running t' = s.running t' :=
  Function.update_of_ne h ..

inductive ThreadLabel (τ : Type) where
  | call (t : τ)
  | perform (t : τ)
  | environment

namespace ThreadSystem

variable (S : ThreadSystem τ σ E A ε α)

/-- The programs, and the environment, keep their contracts. -/
structure Honors (C : Contracts τ σ) (Q : τ → Except ε α → σ → Prop) : Prop where
  program : ∀ t s, C.invariant s → S.admits t s → (S.program t).Keeps C (S.handler t) t (Q t) s
  environment : ∀ s s', C.invariant s → S.environment s s' → C.invariant s' ∧ ∀ t, C.rely t s s'

/-- The invariant holds, and what is left of each thread keeps its contract. -/
structure Sound (C : Contracts τ σ) (Q : τ → Except ε α → σ → Prop)
    (s : Threads τ σ E A ε α) : Prop where
  invariant : C.invariant s.shared
  keeps : ∀ t p, s.running t = some p → p.Keeps C (S.handler t) t (Q t) s.shared

variable {S} {C : Contracts τ σ} {Q : τ → Except ε α → σ → Prop} {s s' : Threads τ σ E A ε α}
variable {shared : σ}

/-- Every effect keeps the guarantee of its thread. -/
theorem Sound.guarantee (hs : S.Sound C Q s) {k : Except ε (A e) → Program E A ε α}
    (hrunning : s.running t = some (.perform e k)) {r : Except ε (A e)}
    (hanswer : S.handler t s.shared e r shared) : C.guarantee t s.shared shared :=
  (hs.keeps t _ hrunning _ (C.rely_refl t _) hs.invariant _ _ hanswer).2.1

variable [DecidableEq τ] (S)

def step (s : Threads τ σ E A ε α) : ThreadLabel τ → Threads τ σ E A ε α → Prop
  | .call t, s' => s.running t = none ∧ S.admits t s.shared ∧
      s' = s.advance s.shared t (S.program t)
  | .perform t, s' =>
      (∃ e k r shared, s.running t = some (.perform e k) ∧ S.handler t s.shared e r shared ∧
        s' = s.advance shared t (k r)) ∨
      ∃ n k, ∃ i : Fin n, s.running t = some (.choose n k) ∧ s' = s.advance s.shared t (k i)
  | .environment, s' => ∃ shared, S.environment s.shared shared ∧ s' = { s with shared }

def machine : Machine (Threads τ σ E A ε α) (ThreadLabel τ) where
  step := S.step

variable {S} {p : Program E A ε α}

lemma Sound.advance (hs : S.Sound C Q s) (hI : C.invariant shared)
    (hp : p.Keeps C (S.handler t) t (Q t) shared) (hrely : ∀ t' ≠ t, C.rely t' s.shared shared) :
    S.Sound C Q (s.advance shared t p) := by
  refine ⟨hI, fun t' p' hp' => ?_⟩
  rcases eq_or_ne t' t with rfl | hne
  · rw [s.running_advance_self] at hp'
    cases hp'
    exact hp
  · rw [s.running_advance_of_ne _ _ hne] at hp'
    exact (hs.keeps t' p' hp').rely (hrely t' hne)

/-- **Step lemma.** -/
theorem Honors.step (h : S.Honors C Q) (hs : S.Sound C Q s) {label : ThreadLabel τ}
    (hstep : S.step s label s') : S.Sound C Q s' := by
  cases label with
  | call t =>
    obtain ⟨-, hadmits, rfl⟩ := hstep
    exact hs.advance hs.invariant (h.program _ _ hs.invariant hadmits)
      fun t' _ => C.rely_refl t' _
  | perform t =>
    rcases hstep with ⟨e, k, r, shared, hrunning, hanswer, rfl⟩ | ⟨n, k, i, hrunning, rfl⟩
    · obtain ⟨hI, hguar, hrest⟩ := hs.keeps t _ hrunning _ (C.rely_refl t _) hs.invariant _ _
        hanswer
      exact hs.advance hI hrest fun t' hne => C.rely_of_guarantee t t' _ _ hne.symm hguar
    · exact hs.advance hs.invariant (hs.keeps _ _ hrunning i) fun t' _ => C.rely_refl t' _
  | environment =>
    obtain ⟨shared, henv, rfl⟩ := hstep
    obtain ⟨hI, hrely⟩ := h.environment _ _ hs.invariant henv
    exact ⟨hI, fun t p hp => (hs.keeps t p hp).rely (hrely t)⟩

variable {labels : List (ThreadLabel τ)}

/-- **Threads that keep their contracts keep the invariant, in every order of their effects.** -/
theorem Honors.of_run (h : S.Honors C Q) (hI : C.invariant shared)
    (hrun : S.machine.Run { shared } labels s) : S.Sound C Q s :=
  hrun.invariant ⟨hI, fun _ _ => nofun⟩ fun _ _ _ hs hstep => h.step hs hstep

/-- What a thread does by itself adds up to steps it guarantees. -/
theorem Honors.guarantees_of_run (h : S.Honors C Q) (hs : S.Sound C Q s)
    (hrun : S.machine.Run s labels s')
    (hlabels : ∀ label ∈ labels, label = .perform t) :
    Relation.ReflTransGen (C.guarantee t) s.shared s'.shared := by
  suffices hall : S.Sound C Q s' ∧ Relation.ReflTransGen (C.guarantee t) s.shared s'.shared from
    hall.2
  induction hrun with
  | nil => exact ⟨hs, .refl⟩
  | @snoc labels s₁ label s₂ _ hstep ih =>
    obtain ⟨hs₁, hchanges⟩ := ih fun l hl => hlabels l (List.mem_append_left _ hl)
    have hlabel := hlabels label (List.mem_append_right _ List.mem_cons_self)
    subst hlabel
    have hstep : S.step s₁ (.perform t) s₂ := hstep
    refine ⟨h.step hs₁ hstep, ?_⟩
    rcases hstep with ⟨e, k, r, shared, hrunning, hanswer, rfl⟩ | ⟨n, k, i, -, rfl⟩
    · exact hchanges.tail (hs₁.guarantee hrunning hanswer)
    · exact hchanges

/-- A thread can be run to an end of its program while the others stand still. -/
theorem exists_run_of_ends {shared' : σ}
    (hends : Program.Ends (S.handler t) p shared r shared') (hshared : s.shared = shared)
    (hrunning : s.running t = some p) :
    ∃ labels s', S.machine.Run s labels s' ∧ s'.shared = shared' ∧
      (∀ label ∈ labels, label = .perform t) ∧
      s'.running t = some (.ended r) ∧ ∀ t', t' ≠ t → s'.running t' = s.running t' := by
  induction hends generalizing s with
  | pure | throw => exact ⟨[], s, .nil, hshared, nofun, hrunning, fun _ _ => rfl⟩
  | @perform e k _ s₁ _ r _ hanswer _ ih =>
    subst hshared
    have hstep : S.step s (.perform t) (s.advance s₁ t (k r)) :=
      .inl ⟨e, k, r, s₁, hrunning, hanswer, rfl⟩
    obtain ⟨labels, s', hrun, hend, hlabels, hres, hothers⟩ :=
      @ih (s.advance s₁ t (k r)) rfl (s.running_advance_self ..)
    exact ⟨[.perform t] ++ labels, s', (Machine.Run.single hstep).append hrun, hend,
      by simpa using hlabels, hres,
      fun t' hne => (hothers t' hne).trans (s.running_advance_of_ne _ _ hne)⟩
  | @choose n k _ _ _ i _ ih =>
    subst hshared
    have hstep : S.step s (.perform t) (s.advance s.shared t (k i)) := .inr ⟨n, k, i, hrunning, rfl⟩
    obtain ⟨labels, s', hrun, hend, hlabels, hres, hothers⟩ :=
      @ih (s.advance s.shared t (k i)) rfl (s.running_advance_self ..)
    exact ⟨[.perform t] ++ labels, s', (Machine.Run.single hstep).append hrun, hend,
      by simpa using hlabels, hres,
      fun t' hne => (hothers t' hne).trans (s.running_advance_of_ne _ _ hne)⟩

end ThreadSystem
