import Mathlib.Tactic.Common

/-!
# Programs with effects

A `Program E A ε α` performs effects out of `E`, each of them answered with an element of its type
`A e` or with an error out of `ε`, and returns an element of `α` or throws an error.  It may leave
a choice to its scheduler, and it may have run out of fuel (`Program.spent`), which is no end.

What an effect can do is a relation `H` on states.  `Program.Ends H p s r s'` says that `p`, from
the state `s`, can come to an end with the result `r` in `s'`.  There are two ways to prove
something of all the ends of a program: `Program.wp`, the weakest precondition, which is taken
apart along the program, and `Program.Always`, for an invariant that every effect keeps, which
also holds of programs that run at the same time (`Program.always_all`).
-/

universe u

inductive Program (E : Type) (A : E → Type) (ε α : Type) : Type
  | pure (a : α)
  | throw (error : ε)
  | perform (e : E) (k : Except ε (A e) → Program E A ε α)
  | choose (n : ℕ) (k : Fin n → Program E A ε α)
  | spent

namespace Program

variable {E : Type} {A : E → Type} {ε α β σ : Type}

def bind : Program E A ε α → (α → Program E A ε β) → Program E A ε β
  | pure a, f => f a
  | throw error, _ => throw error
  | perform e k, f => perform e fun r => (k r).bind f
  | choose n k, f => choose n fun i => (k i).bind f
  | spent, _ => spent

def tryCatch : Program E A ε α → (ε → Program E A ε α) → Program E A ε α
  | pure a, _ => pure a
  | throw error, handle => handle error
  | perform e k, handle => perform e fun r => (k r).tryCatch handle
  | choose n k, handle => choose n fun i => (k i).tryCatch handle
  | spent, _ => spent

instance : Monad (Program E A ε) where
  pure := pure
  bind := bind

instance : MonadExceptOf ε (Program E A ε) where
  throw := throw
  tryCatch := tryCatch

/-- The effect itself, as a program. -/
def effect (e : E) : Program E A ε (A e) :=
  perform e fun
    | .ok a => pure a
    | .error error => throw error

/-- The result of a program, errors included. -/
def attempt : Program E A ε α → Program E A ε (Except ε α)
  | pure a => pure (.ok a)
  | throw error => pure (.error error)
  | perform e k => perform e fun r => (k r).attempt
  | choose n k => choose n fun i => (k i).attempt
  | spent => spent

/-- The value of a program that has ended with one. -/
def value? : Program E A ε α → Option α
  | pure a => some a
  | _ => none

/-- One step of a program: an effect, or a choice. -/
def advance (p : Program E A ε α) (next : Program E A ε α → Program E A ε β) : Program E A ε β :=
  match p with
  | pure a => next (pure a)
  | throw error => throw error
  | perform e k => perform e fun r => next (k r)
  | choose n k => choose n fun i => next (k i)
  | spent => spent

/-- Programs that run at the same time, effect by effect in whatever order, until all have returned
or one has thrown an error. -/
def all : ℕ → List (Program E A ε α) → Program E A ε (List α)
  | 0, _ => spent
  | fuel + 1, ps =>
    match ps.mapM value? with
    | some as => pure as
    | none => choose ps.length fun i => (ps.get i).advance fun p => all fuel (ps.set i p)

/-! ## Ends -/

variable {H : σ → (e : E) → Except ε (A e) → σ → Prop}

inductive Ends (H : σ → (e : E) → Except ε (A e) → σ → Prop) :
    Program E A ε α → σ → Except ε α → σ → Prop
  | pure {a : α} {s : σ} : Ends H (.pure a) s (.ok a) s
  | throw {error : ε} {s : σ} : Ends H (.throw error) s (.error error) s
  | perform {e : E} {k : Except ε (A e) → Program E A ε α} {s s₁ s' : σ} {r : Except ε (A e)}
      {result : Except ε α} (hanswer : H s e r s₁) (hrest : Ends H (k r) s₁ result s') :
      Ends H (.perform e k) s result s'
  | choose {n : ℕ} {k : Fin n → Program E A ε α} {s s' : σ} {result : Except ε α} (i : Fin n)
      (hrest : Ends H (k i) s result s') : Ends H (.choose n k) s result s'

/-! ## Weakest preconditions -/

/-- All the ends of the program from `s` have `Q`. -/
def wp (H : σ → (e : E) → Except ε (A e) → σ → Prop) (Q : Except ε α → σ → Prop) :
    Program E A ε α → σ → Prop
  | pure a, s => Q (.ok a) s
  | throw error, s => Q (.error error) s
  | perform e k, s => ∀ r s', H s e r s' → (k r).wp H Q s'
  | choose n k, s => ∀ i : Fin n, (k i).wp H Q s
  | spent, _ => True

variable {s' : σ} {p : Program E A ε α} {r : Except ε α}

lemma Ends.of_wp {Q : Except ε α → σ → Prop} {s : σ}
    (h : Ends H p s r s') (hwp : p.wp H Q s) : Q r s' := by
  induction h with
  | pure => exact hwp
  | throw => exact hwp
  | perform hanswer _ ih => exact ih (hwp _ _ hanswer)
  | choose i _ ih => exact ih (hwp i)

variable {Q Q' : Except ε α → σ → Prop} {p : Program E A ε α} {s : σ}

lemma wp_mono (h : p.wp H Q s) (hQ : ∀ r s', Q r s' → Q' r s') : p.wp H Q' s := by
  induction p generalizing s with
  | pure a | throw error => exact hQ _ _ h
  | perform e k ih => exact fun r s' hanswer => ih r (h r s' hanswer)
  | choose n k ih => exact fun i => ih i (h i)
  | spent => trivial

@[simp] lemma wp_pure (a : α) : (Pure.pure a : Program E A ε α).wp H Q s ↔ Q (.ok a) s :=
  Iff.rfl

@[simp] lemma wp_bind (p : Program E A ε β) (f : β → Program E A ε α) : (p >>= f).wp H Q s ↔
      p.wp H (fun r s' => match r with
        | .ok b => (f b).wp H Q s'
        | .error error => Q (.error error) s') s := by
  show (p.bind f).wp H Q s ↔ _
  induction p generalizing s with
  | pure b | throw error | spent => exact Iff.rfl
  | perform e k ih => exact forall₂_congr fun r s' => imp_congr_right fun _ => ih r
  | choose n k ih => exact forall_congr' fun i => ih i

@[simp] lemma wp_tryCatch (handle : ε → Program E A ε α) :
    (MonadExcept.tryCatch p handle).wp H Q s ↔ p.wp H (fun r s' => match r with
        | .ok a => Q (.ok a) s'
        | .error error => (handle error).wp H Q s') s := by
  show (p.tryCatch handle).wp H Q s ↔ _
  induction p generalizing s with
  | pure a | throw error | spent => exact Iff.rfl
  | perform e k ih => exact forall₂_congr fun r s' => imp_congr_right fun _ => ih r
  | choose n k ih => exact forall_congr' fun i => ih i

variable {e : E}

@[simp] lemma wp_effect {Q : Except ε (A e) → σ → Prop} :
    (effect e : Program E A ε (A e)).wp H Q s ↔ ∀ r s', H s e r s' → Q r s' := by
  refine forall₂_congr fun r s' => imp_congr_right fun _ => ?_
  cases r <;> exact Iff.rfl

@[simp] lemma wp_attempt {Q : Except ε (Except ε α) → σ → Prop} :
    p.attempt.wp H Q s ↔ p.wp H (fun r s' => Q (.ok r) s') s := by
  induction p generalizing s with
  | pure a | spent | throw error => exact Iff.rfl
  | perform e k ih => exact forall₂_congr fun r s' => imp_congr_right fun _ => ih r
  | choose n k ih => exact forall_congr' fun i => ih i

/-! ### Of the values alone -/

/-- All the values the program can return from `s` have `Q`, in the states it returns them in. -/
def Returns (H : σ → (e : E) → Except ε (A e) → σ → Prop) (Q : α → σ → Prop)
    (p : Program E A ε α) (s : σ) : Prop :=
  p.wp H (fun r s' => ∀ a, r = .ok a → Q a s') s

variable {R R' : α → σ → Prop}
variable {a : α}

lemma returns_pure (h : R a s) : (Pure.pure a : Program E A ε α).Returns H R s := by
  rintro _ ⟨⟩
  exact h

variable {f : β → Program E A ε α} {S : β → σ → Prop}

lemma Returns.bind {p : Program E A ε β} (h : p.Returns H S s)
    (hf : ∀ b s', S b s' → (f b).Returns H R s') : (p >>= f).Returns H R s := by
  rw [Returns, wp_bind]
  apply wp_mono h
  rintro (error | b) s' hS
  · exact fun _ => nofun
  · exact hf b s' (hS b rfl)

lemma Ends.of_returns (h : Ends H p s (.ok a) s') (hp : p.Returns H R s) : R a s' :=
  h.of_wp hp a rfl

/-! ### Of the values and of the errors -/

/-- All the values the program can return from `s` have `Q`, and all the errors that it can throw
have `F`. -/
def Ensures (H : σ → (e : E) → Except ε (A e) → σ → Prop) (Q : α → σ → Prop) (F : ε → σ → Prop)
    (p : Program E A ε α) (s : σ) : Prop :=
  p.wp H (fun r s' => match r with
    | .ok a => Q a s'
    | .error error => F error s') s

variable {F F' : ε → σ → Prop}

lemma Ensures.mono (h : p.Ensures H R F s) (hR : ∀ a s', R a s' → R' a s')
    (hF : ∀ error s', F error s' → F' error s') : p.Ensures H R' F' s := by
  refine wp_mono h ?_
  rintro (error | a) s' hs'
  · exact hF error s' hs'
  · exact hR a s' hs'

lemma ensures_pure (h : R a s) : (Pure.pure a : Program E A ε α).Ensures H R F s := h

lemma Ensures.bind {p : Program E A ε β} (h : p.Ensures H S F s)
    (hf : ∀ b s', S b s' → (f b).Ensures H R F s') : (p >>= f).Ensures H R F s := by
  rw [Ensures, wp_bind]
  refine wp_mono h ?_
  rintro (error | b) s' hs'
  · exact hs'
  · exact hf b s' hs'

variable {handle : ε → Program E A ε α}

lemma Ensures.tryCatch (h : p.Ensures H R F s)
    (hhandle : ∀ error s', F error s' → (handle error).Ensures H R F' s') :
    (MonadExcept.tryCatch p handle).Ensures H R F' s := by
  rw [Ensures, wp_tryCatch]
  refine wp_mono h ?_
  rintro (error | a) s' hs'
  · exact hhandle error s' hs'
  · exact hs'

lemma Ends.of_ensures (h : Ends H p s (.ok a) s') (hp : p.Ensures H R F s) : R a s' :=
  h.of_wp hp

lemma Ends.of_ensures_error {error : ε} (h : Ends H p s (.error error) s')
    (hp : p.Ensures H R F s) : F error s' :=
  h.of_wp hp

/-! ## Invariants -/

/-- Every effect of the program keeps `I`, and every end has `P`. -/
def Always (H : σ → (e : E) → Except ε (A e) → σ → Prop) (I : σ → Prop) (P : Except ε α → Prop) :
    Program E A ε α → Prop
  | pure a => P (.ok a)
  | throw error => P (.error error)
  | perform e k => ∀ s r s', I s → H s e r s' → I s' ∧ (k r).Always H I P
  | choose n k => ∀ i : Fin n, (k i).Always H I P
  | spent => True

variable {I : σ → Prop} {P : Except ε α → Prop}

lemma Always.wp (h : p.Always H I P) (hI : I s) : p.wp H (fun r s' => P r ∧ I s') s := by
  induction p generalizing s with
  | pure a | throw error => exact ⟨h, hI⟩
  | perform e k ih =>
    intro r s' hanswer
    obtain ⟨hI', hrest⟩ := h s r s' hI hanswer
    exact ih r hrest hI'
  | choose n k ih => exact fun i => ih i (h i) hI
  | spent => trivial

lemma wp.and {R : Except ε α → σ → Prop} (h : p.wp H R s) (hp : p.wp H Q s) :
    p.wp H (fun r s' => R r s' ∧ Q r s') s := by
  induction p generalizing s with
  | pure a | throw error => exact ⟨h, hp⟩
  | perform e k ih => exact fun r s' hanswer => ih r (h r s' hanswer) (hp r s' hanswer)
  | choose n k ih => exact fun i => ih i (h i) (hp i)
  | spent => trivial

variable {P' : Except ε α → Prop}

lemma Always.imp {H' : σ → (e : E) → Except ε (A e) → σ → Prop}
    (h : p.Always H I P) (hH : ∀ s e r s', H' s e r s' → H s e r s') (hP : ∀ r, P r → P' r) :
    p.Always H' I P' := by
  induction p with
  | pure a => exact hP _ h
  | throw error => exact hP _ h
  | perform e k ih =>
    intro s r s' hI hanswer
    obtain ⟨hI', hrest⟩ := h s r s' hI (hH s e r s' hanswer)
    exact ⟨hI', ih r hrest⟩
  | choose n k ih => exact fun i => ih i (h i)
  | spent => trivial

lemma Always.mono (h : p.Always H I P) (hP : ∀ r, P r → P' r) :
    p.Always H I P' :=
  h.imp (fun _ _ _ _ => id) hP

lemma Always.bind {p : Program E A ε β} {R : Except ε β → Prop} (h : p.Always H I R)
    (hok : ∀ b, R (.ok b) → (f b).Always H I P)
    (herror : ∀ error, R (.error error) → P (.error error)) : (p >>= f).Always H I P := by
  show (p.bind f).Always H I P
  induction p with
  | pure b => exact hok b h
  | throw error => exact herror error h
  | perform e k ih =>
    intro s r s' hI hanswer
    obtain ⟨hI', hrest⟩ := h s r s' hI hanswer
    exact ⟨hI', ih r hrest⟩
  | choose n k ih => exact fun i => ih i (h i)
  | spent => trivial

lemma Always.tryCatch {R : Except ε α → Prop} (h : p.Always H I R)
    (hok : ∀ a, R (.ok a) → P (.ok a))
    (herror : ∀ error, R (.error error) → (handle error).Always H I P) :
    (MonadExcept.tryCatch p handle).Always H I P := by
  show (p.tryCatch handle).Always H I P
  induction p with
  | pure a => exact hok a h
  | throw error => exact herror error h
  | perform e k ih =>
    intro s r s' hI hanswer
    obtain ⟨hI', hrest⟩ := h s r s' hI hanswer
    exact ⟨hI', ih r hrest⟩
  | choose n k ih => exact fun i => ih i (h i)
  | spent => trivial

lemma Always.attempt {R : Except ε (Except ε α) → Prop} (h : p.Always H I P)
    (hR : ∀ r, P r → R (.ok r)) : p.attempt.Always H I R := by
  induction p with
  | pure a => exact hR _ h
  | throw error => exact hR _ h
  | perform e k ih =>
    intro s r s' hI hanswer
    obtain ⟨hI', hrest⟩ := h s r s' hI hanswer
    exact ⟨hI', ih r hrest⟩
  | choose n k ih => exact fun i => ih i (h i)
  | spent => trivial

lemma Always.effect {R : Except ε (A e) → Prop} (h : ∀ s r s', I s → H s e r s' → I s' ∧ R r) :
    (effect e : Program E A ε (A e)).Always H I R := by
  intro s r s' hI hanswer
  obtain ⟨hI', hR⟩ := h s r s' hI hanswer
  cases r <;> exact ⟨hI', hR⟩

/-- The programs, one by one, have the postconditions. -/
def AllAlways (H : σ → (e : E) → Except ε (A e) → σ → Prop) (I : σ → Prop) :
    List (Program E A ε α) → List (α → Prop) → Prop :=
  List.Forall₂ fun p R => p.Always H I fun r => ∀ a, r = .ok a → R a

variable {ps : List (Program E A ε α)} {Rs : List (α → Prop)}

lemma AllAlways.values {as : List α} (h : AllAlways H I ps Rs) (has : ps.mapM value? = some as) :
    List.Forall₂ (fun a (R : α → Prop) => R a) as Rs := by
  induction h generalizing as with
  | nil =>
    cases has
    exact .nil
  | @cons p R ps Rs hp _ ih =>
    rw [List.mapM_cons] at has
    obtain ⟨a, ha, hrest⟩ := Option.bind_eq_some_iff.mp has
    obtain ⟨as', has', hcons⟩ := Option.bind_eq_some_iff.mp hrest
    cases hcons
    refine .cons ?_ (ih has')
    cases p <;> cases ha
    exact hp a rfl

/-- One of the programs is replaced by what keeps its postcondition. -/
theorem AllAlways.set (h : AllAlways H I ps Rs) {i : ℕ} (hi : i < ps.length)
    (hp : ∀ R : α → Prop, ps[i].Always H I (fun r => ∀ a, r = .ok a → R a) →
      p.Always H I fun r => ∀ a, r = .ok a → R a) :
    AllAlways H I (ps.set i p) Rs := by
  induction h generalizing i with
  | nil => cases hi
  | @cons p' R ps Rs hp' hrest ih =>
    cases i with
    | zero => exact .cons (hp R hp') hrest
    | succ i => exact .cons hp' (ih (Nat.lt_of_succ_lt_succ hi) hp)

lemma AllAlways.get (h : AllAlways H I ps Rs) {i : ℕ} (hi : i < ps.length) :
    ∃ R : α → Prop, ps[i].Always H I fun r => ∀ a, r = .ok a → R a := by
  induction h generalizing i with
  | nil => cases hi
  | @cons p' R ps Rs hp' hrest ih =>
    cases i with
    | zero => exact ⟨R, hp'⟩
    | succ i => exact ih (Nat.lt_of_succ_lt_succ hi)

/-- What runs at the same time keeps an invariant that each of the programs keeps, and the values
are those of the programs, in their order. -/
theorem always_all (fuel : ℕ) (h : AllAlways H I ps Rs) :
    (all fuel ps).Always H I fun r => ∀ as, r = .ok as →
      List.Forall₂ (fun a (R : α → Prop) => R a) as Rs := by
  induction fuel generalizing ps with
  | zero => trivial
  | succ fuel ih =>
    rw [all]
    cases has : ps.mapM value? with
    | some as =>
      rintro as' ⟨⟩
      exact h.values has
    | none =>
      intro i
      obtain ⟨R, hR⟩ := h.get i.isLt
      have hnext : ∀ p : Program E A ε α,
          (∀ R : α → Prop, ps[i].Always H I (fun r => ∀ a, r = .ok a → R a) →
            p.Always H I fun r => ∀ a, r = .ok a → R a) →
          (all fuel (ps.set i p)).Always H I fun r => ∀ as, r = .ok as →
            List.Forall₂ (fun a (R : α → Prop) => R a) as Rs :=
        fun p hp => ih (h.set i.isLt hp)
      show ((ps[i]).advance fun p => all fuel (ps.set i p)).Always H I _
      generalize ps[i] = p at hR hnext
      cases p with
      | pure a => exact hnext _ fun _ => id
      | throw error => exact fun _ => nofun
      | perform e k =>
        intro s r s' hI hanswer
        exact ⟨(hR s r s' hI hanswer).1, hnext _ fun R' hR' => (hR' s r s' hI hanswer).2⟩
      | choose n k => exact fun j => hnext _ fun R' hR' => hR' j
      | spent => trivial

/-- Programs that throw no error throw none at the same time either. -/
theorem always_all_ok (fuel : ℕ) (h : ∀ p ∈ ps, p.Always H I fun r => ∃ a, r = .ok a) :
    (all fuel ps).Always H I fun r => ∃ as, r = .ok as := by
  induction fuel generalizing ps with
  | zero => trivial
  | succ fuel ih =>
    rw [all]
    cases ps.mapM value? with
    | some as => exact ⟨as, rfl⟩
    | none =>
      intro i
      have hnext : ∀ p : Program E A ε α, p.Always H I (fun r => ∃ a, r = .ok a) →
          (all fuel (ps.set i p)).Always H I fun r => ∃ as, r = .ok as := by
        intro p hp
        refine ih fun p' hp' => ?_
        rcases List.mem_or_eq_of_mem_set hp' with hmem | rfl
        · exact h p' hmem
        · exact hp
      have hi := h ps[i] (List.getElem_mem i.isLt)
      show ((ps[i]).advance fun p => all fuel (ps.set i p)).Always H I _
      generalize ps[i] = p at hi
      cases p with
      | pure a => exact hnext _ hi
      | throw error =>
        obtain ⟨a, ha⟩ := hi
        cases ha
      | perform e k =>
        intro s r s' hI hanswer
        obtain ⟨hI', hrest⟩ := hi s r s' hI hanswer
        exact ⟨hI', hnext _ hrest⟩
      | choose n k => exact fun j => hnext _ (hi j)
      | spent => trivial

/-! ## The effects of a program -/

/-- The program performs effects with `S` only, and its values have `R`. -/
def Only (S : E → Prop) (R : α → Prop) : Program E A ε α → Prop
  | pure a => R a
  | throw _ => True
  | perform e k => S e ∧ ∀ r, (k r).Only S R
  | choose n k => ∀ i : Fin n, (k i).Only S R
  | spent => True

section Only

variable {S : E → Prop} {R R' : α → Prop} {p : Program E A ε α}

/-- What the effects keep, the program keeps. -/
theorem Only.always (h : p.Only S R) (hS : ∀ s e r s', S e → I s → H s e r s' → I s') :
    p.Always H I fun _ => True := by
  induction p with
  | pure a => trivial
  | throw error => trivial
  | perform e k ih =>
    intro s r s' hI hanswer
    exact ⟨hS s e r s' h.1 hI hanswer, ih r (h.2 r)⟩
  | choose n k ih => exact fun i => ih i (h i)
  | spent => trivial

lemma only_pure (h : R a) : (Pure.pure a : Program E A ε α).Only S R := h

lemma only_effect (h : S e) : (effect e : Program E A ε (A e)).Only S fun _ => True :=
  ⟨h, fun r => by cases r <;> trivial⟩

lemma Only.bind {T : β → Prop} {p : Program E A ε β} (h : p.Only S T)
    (hf : ∀ b, T b → (f b).Only S R) : (p >>= f).Only S R := by
  show (p.bind f).Only S R
  induction p with
  | pure b => exact hf b h
  | throw error => trivial
  | perform e k ih => exact ⟨h.1, fun r => ih r (h.2 r)⟩
  | choose n k ih => exact fun i => ih i (h i)
  | spent => trivial

lemma Only.tryCatch (h : p.Only S R) (hhandle : ∀ error, (handle error).Only S R) :
    (MonadExcept.tryCatch p handle).Only S R := by
  show (p.tryCatch handle).Only S R
  induction p with
  | pure a => exact h
  | throw error => exact hhandle error
  | perform e k ih => exact ⟨h.1, fun r => ih r (h.2 r)⟩
  | choose n k ih => exact fun i => ih i (h i)
  | spent => trivial

lemma Only.attempt (h : p.Only S R) : p.attempt.Only S fun _ => True := by
  induction p with
  | pure a => trivial
  | throw error => trivial
  | perform e k ih => exact ⟨h.1, fun r => ih r (h.2 r)⟩
  | choose n k ih => exact fun i => ih i (h i)
  | spent => trivial

lemma Only.ite {c : Prop} [Decidable c] {q : Program E A ε α} (hp : p.Only S R)
    (hq : q.Only S R) : (if c then p else q).Only S R := by
  split_ifs
  · exact hp
  · exact hq

/-- What runs at the same time performs the effects of the programs. -/
theorem only_all (fuel : ℕ) (h : ∀ p ∈ ps, p.Only S R) : (all fuel ps).Only S fun _ => True := by
  induction fuel generalizing ps with
  | zero => trivial
  | succ fuel ih =>
    rw [all]
    cases ps.mapM value? with
    | some as => trivial
    | none =>
      intro i
      have hnext : ∀ p : Program E A ε α, p.Only S R →
          (all fuel (ps.set i p)).Only S fun _ => True := by
        intro p hp
        refine ih fun p' hp' => ?_
        rcases List.mem_or_eq_of_mem_set hp' with hmem | rfl
        · exact h p' hmem
        · exact hp
      have hi := h ps[i] (List.getElem_mem i.isLt)
      show ((ps[i]).advance fun p => all fuel (ps.set i p)).Only S _
      generalize ps[i] = p at hi
      cases p with
      | pure a => exact hnext _ hi
      | throw error => trivial
      | perform e k => exact ⟨hi.1, fun r => hnext _ (hi.2 r)⟩
      | choose n k => exact fun j => hnext _ (hi j)
      | spent => trivial

end Only

/-! ## Playing a program -/

/-- The end of a program whose effects are answered by a function of the state; `env` keeps a state
of its own, and the scheduler takes the first of its choices. -/
def play {τ : Type} (env : σ → τ → (e : E) → Except ε (A e) × σ × τ) :
    Program E A ε α → σ → τ → Option (Except ε α × σ)
  | pure a, s, _ => some (.ok a, s)
  | throw error, s, _ => some (.error error, s)
  | perform e k, s, t =>
    (k (env s t e).1).play env (env s t e).2.1 (env s t e).2.2
  | choose 0 _, _, _ => none
  | choose (_ + 1) k, s, t => (k 0).play env s t
  | spent, _, _ => none

lemma Ends.of_play {τ : Type} {env : σ → τ → (e : E) → Except ε (A e) × σ × τ}
    (henv : ∀ s t e, H s e (env s t e).1 (env s t e).2.1) {s : σ} {t : τ}
    (h : p.play env s t = some (r, s')) : Ends H p s r s' := by
  induction p generalizing s t with
  | pure a =>
    cases h
    exact .pure
  | throw error =>
    cases h
    exact .throw
  | perform e k ih => exact .perform (henv s t e) (ih _ h)
  | choose n k ih =>
    cases n with
    | zero => cases h
    | succ n => exact .choose 0 (ih 0 h)
  | spent => cases h

end Program
