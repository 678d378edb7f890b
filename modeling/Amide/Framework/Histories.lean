import Mathlib.Data.List.Basic

/-!
# Histories

What holds at each element of a list and what came before it (`AtEach`), for induction on lists
that grow at the end.
-/

/-- `P` holds of every element of the history and the part before it. -/
def AtEach {α : Type*} (P : List α → α → Prop) (history : List α) : Prop :=
  ∀ before a after, history = before ++ a :: after → P before a

/-- An element of an extended history is the last or was there before. -/
lemma append_singleton_eq {α : Type*} {l before after : List α} {a b : α}
    (h : l ++ [b] = before ++ a :: after) :
    (after = [] ∧ a = b ∧ l = before) ∨
      ∃ after', after = after' ++ [b] ∧ l = before ++ a :: after' := by
  rcases List.eq_nil_or_concat' after with rfl | ⟨after', c, rfl⟩
  · obtain ⟨hinit, hlast⟩ := List.append_inj' h rfl
    exact .inl ⟨rfl, (List.singleton_inj.mp hlast).symm, hinit⟩
  · rw [← List.cons_append, ← List.append_assoc] at h
    obtain ⟨hinit, hlast⟩ := List.append_inj' h rfl
    rw [← List.singleton_inj.mp hlast]
    exact .inr ⟨after', rfl, hinit⟩

namespace AtEach

variable {α : Type*} {P Q : List α → α → Prop} {history : List α} {a : α}

lemma nil : AtEach P [] := by
  intro before a after h
  cases before <;> cases h

lemma cons_iff {P : List α → α → Prop} {l : List α} :
    AtEach P (a :: l) ↔ P [] a ∧ AtEach (fun before => P (a :: before)) l := by
  constructor
  · intro h
    refine ⟨h [] a l rfl, ?_⟩
    rintro before b after rfl
    exact h (a :: before) b after rfl
  · rintro ⟨ha, hl⟩ before b after heq
    cases before with
    | nil =>
      cases heq
      exact ha
    | cons c before =>
      cases heq
      exact hl before b after rfl

instance decidable {P : List α → α → Prop} [∀ before a, Decidable (P before a)] :
    ∀ l, Decidable (AtEach P l)
  | [] => isTrue nil
  | a :: l =>
    have : Decidable (AtEach (fun before => P (a :: before)) l) := decidable l
    decidable_of_iff _ cons_iff.symm

lemma concat_iff : AtEach P (history ++ [a]) ↔ AtEach P history ∧ P history a := by
  constructor
  · intro h
    refine ⟨?_, h history a [] rfl⟩
    rintro before b after rfl
    exact h before b (after ++ [a]) (by simp)
  · rintro ⟨h, ha⟩ before b after heq
    rcases append_singleton_eq heq with ⟨-, rfl, rfl⟩ | ⟨after', -, hhistory⟩
    · exact ha
    · exact h before b after' hhistory

/-- What holds at each element of a history held so in every earlier part. -/
lemma of_append {after : List α} (h : AtEach P (history ++ after)) : AtEach P history := by
  rintro before b rest rfl
  exact h before b (rest ++ after) (by simp)

end AtEach
