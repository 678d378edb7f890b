import Amide.Properties.Daemon.OwnershipContracts

/-!
# Rules for the calls of supervisors

Triples over `ownerContracts` for what every call does: take a new name, remove a directory that
has left the registry, and act under the guard.  An assertion that such things leave alone is
`Framed`.
-/

set_option linter.unusedSectionVars false

namespace Amide.SupervisorOwnership

open Program (Stable Triple Mortal Ending stable_const stable_ending triple_effect triple_pure
  triple_throw triple_of_and)
open OwnerOp (perform)

variable {π : Type} [DecidableEq π] {α β : Type}

def OwnerCall.Live (call : OwnerCall π) (w : OwnerWorld π) : Prop := ¬w.crashed call.process

section Triples

variable {self : π → ProcessIdentity} {call : OwnerCall π}

abbrev OwnerStable (self : π → ProcessIdentity) (call : OwnerCall π) :
    (OwnerWorld π → Prop) → Prop :=
  Stable (ownerContracts self) call call.Live

abbrev OwnerTriple (self : π → ProcessIdentity) (call : OwnerCall π) (P : OwnerWorld π → Prop)
    (p : OwnerProgram α) (Q : Except OwnerError α → OwnerWorld π → Prop) : Prop :=
  Triple (ownerContracts self) (ownershipHandler self call) call call.Live P p Q

lemma mortal_owner : Mortal (ownerContracts self) (ownershipHandler self call) call call.Live where
  of_answer _ _ _ _ h := h.1
  of_rely _ _ hrely halive hcrashed := halive (hrely.crashed _ hcrashed)

variable {P S : OwnerWorld π → Prop}

section
variable {op : OwnerOp} {R : op.Answer → OwnerWorld π → Prop} (hP : OwnerStable self call P)
  (hR : ∀ a, OwnerStable self call (R a)) (hS : OwnerStable self call S)
  (hfail : op.infallible = false → ∀ w, P w → S w)
include hP hR hS hfail

/-- The rule for one effect, which may also fail. -/
lemma perform_triple
    (h : ∀ w r w', P w → OwnerInvariant self w → w.answers self call op r w' →
      OwnerInvariant self w' ∧ OwnerGuarantee call w w' ∧ Ending R S r w') :
    OwnerTriple self call P (perform op) (Ending R S) := by
  refine triple_effect mortal_owner hP (stable_ending hR hS) fun w r w' hw hI hanswer => ?_
  rcases hanswer.2 with hanswer | ⟨hfallible, rfl, rfl⟩
  · exact h w r w' hw hI hanswer
  · exact ⟨hI, .refl call _, hfail hfallible _ hw⟩

/-- An effect that changes nothing. -/
lemma quiet_triple
    (h : ∀ w r w', P w → OwnerInvariant self w → w.answers self call op r w' →
      w' = w ∧ Ending R S r w) :
    OwnerTriple self call P (perform op) (Ending R S) := by
  refine perform_triple hP hR hS hfail fun w r w' hw hI hanswer => ?_
  obtain ⟨rfl, hr⟩ := h w r w' hw hI hanswer
  exact ⟨hI, .refl call _, hr⟩

end

/-! ### Assertions that are left alone -/

/-- The assertion does not look at what a call may do anywhere: take a new name, or change a
directory that has left the registry. -/
structure Framed (identity : π → ProcessIdentity) (call : OwnerCall π)
    (P : OwnerWorld π → Prop) : Prop where
  stable : OwnerStable identity call P
  issue : ∀ w uuid, w.issued uuid = none → P w → P (w.issue uuid call)
  setRenamed : ∀ w directory suffix uuid files, P w →
    P (w.setDir (.renamed directory suffix uuid) files)
  remember : ∀ w path, P w → P (w.remember call path)

lemma framed_const (φ : Prop) : Framed self call fun _ => φ where
  stable _ _ h _ _ := h
  issue _ _ _ := id
  setRenamed _ _ _ _ _ := id
  remember _ _ := id

lemma Framed.and {P' : OwnerWorld π → Prop} (h : Framed self call P)
    (h' : Framed self call P') : Framed self call fun w => P w ∧ P' w where
  stable := h.stable.and h'.stable
  issue w uuid hnone hw := ⟨h.issue w uuid hnone hw.1, h'.issue w uuid hnone hw.2⟩
  setRenamed w directory suffix uuid files hw :=
    ⟨h.setRenamed w directory suffix uuid files hw.1,
      h'.setRenamed w directory suffix uuid files hw.2⟩
  remember w path hw := ⟨h.remember w path hw.1, h'.remember w path hw.2⟩

lemma Framed.exists {ι : Type} {P : ι → OwnerWorld π → Prop}
    (h : ∀ i, Framed self call (P i)) : Framed self call fun w => ∃ i, P i w where
  stable := .exists fun i => (h i).stable
  issue w uuid hnone hw := hw.imp fun i => (h i).issue w uuid hnone
  setRenamed w directory suffix uuid files hw :=
    hw.imp fun i => (h i).setRenamed w directory suffix uuid files
  remember w path hw := hw.imp fun i => (h i).remember w path

lemma framed_guard : Framed self call fun w => w.guard = some call where
  stable _ _ hw hrely halive := (hrely.guarded halive hw).1
  issue _ _ _ := id
  setRenamed _ _ _ _ _ := id
  remember _ _ := id

lemma framed_ownership (p : π) (ownership : DaemonSupervisorOwnership) :
    Framed self call fun w => w.ownerships p ownership ≠ none where
  stable _ _ hw hrely _ := hrely.ownership p ownership hw
  issue _ _ _ := id
  setRenamed _ _ _ _ _ := id
  remember _ _ := id

/-- An effect that always answers, and changes nothing. -/
lemma idle_triple {op : OwnerOp} (hP : Framed self call P) (hS : OwnerStable self call S)
    (hPS : ∀ w, P w → S w) (hop : ∀ (w : OwnerWorld π) r w', w.answers self call op r w' →
      (∃ a, r = .ok a) ∧ w' = w) :
    OwnerTriple self call P (perform op) (Ending (fun _ => P) S) := by
  refine quiet_triple hP.stable (fun _ => hP.stable) hS (fun _ => hPS) fun w r w' hw _ hanswer => ?_
  obtain ⟨⟨a, rfl⟩, rfl⟩ := hop w r w' hanswer
  exact ⟨rfl, hw⟩

lemma randomUUID_triple (hP : Framed self call P) (hS : OwnerStable self call S) :
    OwnerTriple self call P (perform .randomUUID) (Ending (fun _ => P) S) := by
  refine perform_triple hP.stable (fun _ => hP.stable) hS nofun ?_
  rintro w r w' hw hI ⟨uuid, rfl, hnone, rfl⟩
  exact ⟨hI.issue hnone, .issue hnone, hP.issue w uuid hnone hw⟩

lemma remember_triple (hP : Framed self call P) (hS : OwnerStable self call S)
    (directory : OwnerPath) (suffix : Suffix) (uuid : String) :
    OwnerTriple self call P (perform (.remember (.renamed directory suffix uuid)))
      (Ending (fun _ => P) S) := by
  refine perform_triple hP.stable (fun _ => hP.stable) hS nofun ?_
  rintro w r w' hw hI ⟨rfl, rfl⟩
  exact ⟨hI.remember ⟨_, _, _, rfl⟩, .remember, hP.remember w _ hw⟩

/-- `rmSync` of a directory that is nobody else's business. -/
lemma rmSync_triple {path : OwnerPath} (hP : OwnerStable self call P)
    (hprivate : ∀ w, P w → Private call path w)
    (hset : ∀ w files, P w → P (w.setDir path files)) :
    OwnerTriple self call P (rmSync path) (Ending (fun _ => P) P) := by
  have hstep : ∀ op : OwnerOp, (∀ (w : OwnerWorld π) r w', w.answers self call op r w' →
      (∃ a, r = .ok a) ∧ ∃ files, w' = w.setDir path files) →
      OwnerTriple self call P (perform op) (Ending (fun _ => P) P) := by
    intro op hop
    refine perform_triple hP (fun _ => hP) hP (fun _ _ => id) fun w r w' hw hI hanswer => ?_
    obtain ⟨⟨a, rfl⟩, files, rfl⟩ := hop w r w' hanswer
    exact ⟨hI.setPrivate (hprivate w hw), .setPrivate (hprivate w hw), hset w files hw⟩
  refine (hstep (.unlinkOwner path) ?_).andThen fun _ => (hstep (.unlinkScope path) ?_).andThen
    fun _ => (hstep (.unlinkTemps path) ?_).andThen fun _ => hstep (.rmdir path) ?_
  · rintro w r w' ⟨rfl, rfl⟩
    exact ⟨⟨_, rfl⟩, _, rfl⟩
  · rintro w r w' ⟨rfl, rfl⟩
    exact ⟨⟨_, rfl⟩, _, rfl⟩
  · rintro w r w' ⟨rfl, rfl⟩
    exact ⟨⟨_, rfl⟩, _, rfl⟩
  · rintro w r w' ⟨-, rfl, rfl⟩
    exact ⟨⟨_, rfl⟩, _, rfl⟩

lemma rmSync_renamed_triple (hP : Framed self call P) (directory : OwnerPath) (suffix : Suffix)
    (uuid : String) :
    OwnerTriple self call P (rmSync (.renamed directory suffix uuid)) (Ending (fun _ => P) P) :=
  rmSync_triple hP.stable (fun _ _ => trivial) fun w => hP.setRenamed w directory suffix uuid

lemma removeAll_triple (hP : Framed self call P) {directories : List OwnerPath}
    (h : ∀ path ∈ directories, ∃ directory suffix uuid, path = .renamed directory suffix uuid) :
    OwnerTriple self call P (removeAll directories) (Ending (fun _ => P) P) := by
  induction directories with
  | nil => exact triple_pure mortal_owner hP.stable fun _ => id
  | cons path rest ih =>
    obtain ⟨directory, suffix, uuid, rfl⟩ := h path List.mem_cons_self
    exact (rmSync_renamed_triple hP directory suffix uuid).andThen fun _ =>
      ih fun path' hmem => h path' (List.mem_cons_of_mem _ hmem)

/-- The `finally` clause. -/
lemma remembered_triple (hP : Framed self call P) {f : List OwnerPath → OwnerProgram α}
    {Q : Except OwnerError α → OwnerWorld π → Prop}
    (hf : ∀ directories,
      (∀ path ∈ directories, ∃ directory suffix uuid, path = .renamed directory suffix uuid) →
      OwnerTriple self call P (f directories) Q) :
    OwnerTriple self call P (perform .remembered >>= f) Q := by
  refine Triple.bind (R := Ending (fun directories w => (∀ path ∈ directories,
    ∃ directory suffix uuid, path = .renamed directory suffix uuid) ∧ P w) fun _ => False)
    (quiet_triple hP.stable (fun _ => (stable_const _ _ _ _).and hP.stable)
      (stable_const _ _ _ _) nofun ?_)
    (fun directories => triple_of_and mortal_owner (hf directories)) fun _ _ => False.elim
  rintro w r w' hw hI ⟨rfl, rfl⟩
  exact ⟨rfl, hI.renamed call, hw⟩

/-! ### The guard -/

/-- The assertion does not look at the guard. -/
def Unguarded (P : OwnerWorld π → Prop) : Prop :=
  ∀ w holder, P w → P (w.setGuard holder)

variable {R : α → OwnerWorld π → Prop}

lemma conclude_triple (hR : ∀ a, OwnerStable self call (R a))
    (hS : OwnerStable self call S) (result : Except OwnerError α) :
    OwnerTriple self call (Ending R S result) (conclude result) (Ending R S) := by
  cases result with
  | ok a => exact triple_pure mortal_owner (hR a) fun _ => id
  | error error => exact triple_throw mortal_owner hS fun _ => id

lemma guard_triple {action : OwnerProgram α}
    (hP : OwnerStable self call P) (hR : ∀ a, OwnerStable self call (R a))
    (hS : OwnerStable self call S) (hguardP : Unguarded P) (hguardR : ∀ a, Unguarded (R a))
    (hguardS : Unguarded S) (hPS : ∀ w, P w → S w) (hRS : ∀ a w, R a w → S w)
    (h : OwnerTriple self call (fun w => w.guard = some call ∧ P w) action
      (Ending (fun a w => w.guard = some call ∧ R a w) fun w => w.guard = some call ∧ S w)) :
    OwnerTriple self call P (withDaemonSupervisorRegistryGuard action) (Ending R S) := by
  have hin : OwnerStable self call fun w => w.guard = some call := framed_guard.stable
  have hlock : OwnerTriple self call P (perform .lock)
      (Ending (fun _ w => w.guard = some call ∧ P w) S) := by
    refine perform_triple hP (fun _ => hin.and hP) hS (fun _ => hPS) ?_
    rintro w r w' hw hI ⟨hfree, rfl, rfl⟩
    exact ⟨hI.setGuard _, .lock hfree, rfl, hguardP w _ hw⟩
  have hheld : ∀ {P' : OwnerWorld π → Prop}, OwnerStable self call P' → (∀ w, P' w → S w) →
      OwnerTriple self call (fun w => w.guard = some call ∧ P' w)
        (perform .assertGuardHeld)
        (Ending (fun _ w => w.guard = some call ∧ P' w) fun w => w.guard = some call ∧ S w) := by
    intro P' hP' hPS'
    refine quiet_triple (hin.and hP') (fun _ => hin.and hP') (hin.and hS)
      (fun _ w hw => ⟨hw.1, hPS' w hw.2⟩) ?_
    rintro w r w' hw - ⟨rfl, rfl⟩
    exact ⟨rfl, hw⟩
  have hunlock : ∀ {P' : OwnerWorld π → Prop}, OwnerStable self call P' → Unguarded P' →
      (∀ w, P' w → S w) → OwnerTriple self call (fun w => w.guard = some call ∧ P' w)
        (perform .unlock) (Ending (fun _ => P') S) := by
    intro P' hP' hguardP' hPS'
    refine perform_triple (hin.and hP') (fun _ => hP') hS (fun _ w hw => hPS' w hw.2) ?_
    rintro w r w' ⟨hguard, hw⟩ hI ⟨rfl | rfl, rfl | rfl⟩
    · exact ⟨hI, .refl call _, hw⟩
    · exact ⟨hI, .refl call _, hPS' _ hw⟩
    · exact ⟨hI.setGuard _, .unlock hguard, hguardP' w _ hw⟩
    · exact ⟨hI.setGuard _, .unlock hguard, hPS' _ (hguardP' w _ hw)⟩
  refine hlock.andThen fun _ => Triple.attempt_bind
    ((hheld hP hPS).andThen fun _ => h.andThen fun a => (hheld (hR a) (hRS a)).andThen fun _ =>
      triple_pure mortal_owner (hin.and (hR a)) fun _ => id) fun result => ?_
  have hunlocked : OwnerTriple self call
      (Ending (fun a w => w.guard = some call ∧ R a w) (fun w => w.guard = some call ∧ S w) result)
      (perform .unlock) (Ending (fun _ => Ending R S result) S) := by
    cases result with
    | ok a => exact hunlock (hR a) (hguardR a) (hRS a)
    | error error => exact hunlock hS hguardS fun _ => id
  exact hunlocked.andThen fun _ => conclude_triple hR hS result

end Triples

end Amide.SupervisorOwnership
