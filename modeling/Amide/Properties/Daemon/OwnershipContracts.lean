import Amide.Construction.Daemon.SupervisorOwnership

/-!
# What the calls of supervisors rely on

The registry says who owns what: as long as a supervisor owns something, its directory has its
record, and records of live processes do not conflict (`OwnerInvariant`).  A call may count on the
whole registry while it has the guard, on its own candidate, and on a record it has put there
before there is an ownership to release it (`OwnerRely`).

All changes of directories are instances of `OwnerInvariant.setDir` and `OwnerGuarantee.setDir`.
-/

namespace Amide.SupervisorOwnership

open Function

variable {π : Type}

/-- It is the other record, but for the phase and the time of the last update. -/
def DaemonSupervisorOwnerRecord.Continues (r r₀ : DaemonSupervisorOwnerRecord) : Prop :=
  { r with phase := r₀.phase, updatedAt := r₀.updatedAt } = r₀

variable {r' : DaemonSupervisorOwnerRecord}

namespace DaemonSupervisorOwnerRecord

variable {r r₀ : DaemonSupervisorOwnerRecord}

lemma Continues.refl (r : DaemonSupervisorOwnerRecord) : r.Continues r := rfl

lemma Continues.trans (h : r'.Continues r)
    (h' : r.Continues r₀) : r'.Continues r₀ := by
  have hsame := congrArg (fun x : DaemonSupervisorOwnerRecord =>
    { x with phase := r₀.phase, updatedAt := r₀.updatedAt }) h
  exact hsame.trans h'

lemma Continues.token (h : r.Continues r₀) : r.token = r₀.token :=
  congrArg (·.token) h

lemma Continues.scope (h : r.Continues r₀) : r.scope = r₀.scope :=
  congrArg (·.scope) h

end DaemonSupervisorOwnerRecord

lemma ownerConflicts_comm (left right : DaemonSupervisorOwnerScope) :
    ownerConflicts left right = ownerConflicts right left := by
  simp only [ownerConflicts, eq_comm]

namespace OwnerWorld

variable (w : OwnerWorld π) {path path' : OwnerPath} (files : Option OwnerFiles)

lemma dirs_setDir_self : (w.setDir path files).dirs path = files :=
  update_self ..

lemma dirs_setDir_of_ne (h : path' ≠ path) : (w.setDir path files).dirs path' = w.dirs path' :=
  update_of_ne h ..

lemma ownerAt_setDir_self : (w.setDir path files).ownerAt path = files.bind (·.owner.value?) := by
  rw [ownerAt, dirs_setDir_self]

lemma ownerAt_setDir_of_ne (h : path' ≠ path) :
    (w.setDir path files).ownerAt path' = w.ownerAt path' := by
  rw [ownerAt, ownerAt, dirs_setDir_of_ne _ _ h]

/-- The process that wrote the record has crashed. -/
def Dead (r : DaemonSupervisorOwnerRecord) : Prop :=
  ∃ writer, w.issued r.token = some writer ∧ w.crashed writer.process

/-- A live process has the record in the registry. -/
def Lives (generation : String) (r : DaemonSupervisorOwnerRecord) : Prop :=
  w.ownerAt (.owner generation) = some r ∧
    ∃ writer, w.issued r.token = some writer ∧ ¬w.crashed writer.process

/-- The record bears the name of a process, if a live one. -/
def Signed (self : π → ProcessIdentity) (r : DaemonSupervisorOwnerRecord) : Prop :=
  ∃ writer, w.issued r.token = some writer ∧
    (¬w.crashed writer.process → r.toProcessIdentity = self writer.process)

end OwnerWorld

variable {ownership : DaemonSupervisorOwnership} {p : π}

lemma OwnerWorld.Owns.ne_none {w : OwnerWorld π}
    (h : w.Owns p ownership) : w.ownerships p ownership ≠ none := by
  rw [h.2]
  exact nofun

/-! ## The contracts -/

/-- What is true of the registry and the ownerships at all times. -/
structure OwnerInvariant (identity : π → ProcessIdentity) (w : OwnerWorld π) : Prop where
  signed : ∀ generation r, w.ownerAt (.owner generation) = some r → w.Signed identity r
  apart : ∀ generation generation' r r', generation ≠ generation' → w.Lives generation r →
    w.Lives generation' r' → ownerConflicts r.scope r'.scope = false
  registered : ∀ p ownership, w.Owns p ownership →
    ∃ r, w.ownerAt ownership.ownerDirectory = some r ∧ r.Continues ownership.record
  issued : ∀ p ownership, w.ownerships p ownership ≠ none →
    ∃ call, w.issued ownership.record.token = some call ∧ call.process = p
  directory_eq : ∀ p ownership, w.ownerships p ownership ≠ none →
    ownership.ownerDirectory = .owner ownership.record.generation
  unique : ∀ p q ownership ownership', w.ownerships p ownership ≠ none →
    w.ownerships q ownership' ≠ none → ownership.record.token = ownership'.record.token →
      ownership = ownership'
  renamed : ∀ call, ∀ path ∈ w.remembered call,
    ∃ directory suffix uuid, path = .renamed directory suffix uuid

/-- There is no ownership with the token yet. -/
def OwnerWorld.Unused (w : OwnerWorld π) (token : String) : Prop :=
  ∀ p ownership, ownership.record.token = token → w.ownerships p ownership = none

/-- What nobody else changes for a call. -/
structure OwnerRely (call : OwnerCall π) (w w' : OwnerWorld π) : Prop where
  crashed : ∀ p, w.crashed p → w'.crashed p
  issued : ∀ token call', w.issued token = some call' → w'.issued token = some call'
  guarded : ¬w'.crashed call.process → w.guard = some call →
    w'.guard = some call ∧ ∀ generation, w'.dirs (.owner generation) = w.dirs (.owner generation)
  candidate : ∀ token, w.issued token = some call → ∀ pid,
    w'.dirs (.candidate pid token) = w.dirs (.candidate pid token)
  placed : ¬w'.crashed call.process → ∀ generation r, w.ownerAt (.owner generation) = some r →
    w.issued r.token = some call → w.Unused r.token → w'.ownerAt (.owner generation) = some r
  unused : ∀ token, w.issued token = some call → w.Unused token → w'.Unused token
  ownership : ∀ p ownership, w.ownerships p ownership ≠ none → w'.ownerships p ownership ≠ none

/-- What a call lets the others rely on. -/
def OwnerGuarantee (call : OwnerCall π) (w w' : OwnerWorld π) : Prop :=
  ∀ call', call ≠ call' → OwnerRely call' w w'

lemma OwnerRely.refl (call : OwnerCall π) (w : OwnerWorld π) : OwnerRely call w w where
  crashed _ := id
  issued _ _ := id
  guarded _ h := ⟨h, fun _ => rfl⟩
  candidate _ _ _ := rfl
  placed _ _ _ h _ _ := h
  unused _ _ := id
  ownership _ _ := id

variable {w₁ w₂ w₃ : OwnerWorld π} {call : OwnerCall π}

lemma OwnerRely.trans (h : OwnerRely call w₁ w₂)
    (h' : OwnerRely call w₂ w₃) : OwnerRely call w₁ w₃ where
  crashed p hp := h'.crashed p (h.crashed p hp)
  issued token call' ht := h'.issued token call' (h.issued token call' ht)
  guarded halive hguard := by
    obtain ⟨hguard₂, hdirs⟩ := h.guarded (fun hp => halive (h'.crashed _ hp)) hguard
    obtain ⟨hguard₃, hdirs'⟩ := h'.guarded halive hguard₂
    exact ⟨hguard₃, fun generation => (hdirs' generation).trans (hdirs generation)⟩
  candidate token ht pid :=
    (h'.candidate token (h.issued _ _ ht) pid).trans (h.candidate token ht pid)
  placed halive generation r hr hissued hunused := by
    have hr₂ := h.placed (fun hp => halive (h'.crashed _ hp)) generation r hr hissued hunused
    exact h'.placed halive generation r hr₂ (h.issued _ _ hissued) (h.unused _ hissued hunused)
  unused token ht hunused := h'.unused token (h.issued _ _ ht) (h.unused token ht hunused)
  ownership p ownership ho := h'.ownership p ownership (h.ownership p ownership ho)

lemma OwnerGuarantee.refl (call : OwnerCall π) (w : OwnerWorld π) : OwnerGuarantee call w w :=
  fun call' _ => .refl call' w

lemma OwnerGuarantee.trans
    (h : OwnerGuarantee call w₁ w₂) (h' : OwnerGuarantee call w₂ w₃) :
    OwnerGuarantee call w₁ w₃ :=
  fun call' hne => (h call' hne).trans (h' call' hne)

def ownerContracts (self : π → ProcessIdentity) : Contracts (OwnerCall π) (OwnerWorld π) where
  invariant := OwnerInvariant self
  rely := OwnerRely
  guarantee := OwnerGuarantee
  rely_refl := OwnerRely.refl
  rely_trans _ _ _ _ := OwnerRely.trans
  rely_of_guarantee _ call' _ _ hne h := h call' hne

/-! ## Directories -/

section Directories

variable {self : π → ProcessIdentity} {call : OwnerCall π} {w : OwnerWorld π} {path : OwnerPath}
  {files : Option OwnerFiles} {generation : String} {r : DaemonSupervisorOwnerRecord}

/-- A call changes the registry under the guard only, and no record somebody alive is about to
make an ownership of. -/
lemma OwnerGuarantee.setDir (hguard : ∀ generation, path = .owner generation → w.guard = some call)
    (hcand : ∀ pid token, path = .candidate pid token → w.issued token = some call)
    (hplaced : ∀ generation r, path = .owner generation → w.ownerAt path = some r →
      files.bind (·.owner.value?) ≠ some r → w.Dead r ∨ ¬w.Unused r.token) :
    OwnerGuarantee call w (w.setDir path files) := by
  intro call' hne
  refine ⟨fun _ => id, fun _ _ => id, fun _ hguard' => ⟨hguard', fun generation => ?_⟩,
    fun token hissued pid => ?_, fun halive generation r hr hissued hunused => ?_, fun _ _ => id,
    fun _ _ => id⟩
  · refine w.dirs_setDir_of_ne files ?_
    rintro rfl
    exact hne (Option.some.inj ((hguard generation rfl).symm.trans hguard'))
  · refine w.dirs_setDir_of_ne files ?_
    rintro rfl
    exact hne (Option.some.inj ((hcand pid token rfl).symm.trans hissued))
  · by_cases hpath : path = .owner generation
    · subst hpath
      rw [w.ownerAt_setDir_self]
      by_contra hchange
      rcases hplaced generation r rfl hr hchange with ⟨writer, hwriter, hcrashed⟩ | hused
      · obtain rfl := Option.mem_unique hwriter hissued
        exact halive hcrashed
      · exact hused hunused
    · rw [w.ownerAt_setDir_of_ne _ (Ne.symm hpath)]
      exact hr

lemma OwnerInvariant.setDir (h : OwnerInvariant self w)
    (hsigned : ∀ generation r, path = .owner generation →
      files.bind (·.owner.value?) = some r → w.Signed self r)
    (hapart : ∀ generation r, path = .owner generation → files.bind (·.owner.value?) = some r →
      ¬w.Dead r → ∀ generation' r', generation' ≠ generation → w.Lives generation' r' →
        ownerConflicts r.scope r'.scope = false)
    (hreg : ∀ p ownership, w.Owns p ownership → path = ownership.ownerDirectory →
      ∃ r, files.bind (·.owner.value?) = some r ∧ r.Continues ownership.record) :
    OwnerInvariant self (w.setDir path files) := by
  -- a live record is either an old one or the new one
  have hlives : ∀ generation r, (w.setDir path files).Lives generation r →
      (path ≠ .owner generation ∧ w.Lives generation r) ∨
        (path = .owner generation ∧ files.bind (·.owner.value?) = some r ∧ ¬w.Dead r) := by
    rintro generation r ⟨hr, writer, hwriter, halive⟩
    by_cases hpath : path = .owner generation
    · subst hpath
      rw [w.ownerAt_setDir_self] at hr
      refine .inr ⟨rfl, hr, ?_⟩
      rintro ⟨writer', hwriter', hcrashed⟩
      obtain rfl := Option.mem_unique hwriter hwriter'
      exact halive hcrashed
    · rw [w.ownerAt_setDir_of_ne _ (Ne.symm hpath)] at hr
      exact .inl ⟨hpath, hr, writer, hwriter, halive⟩
  refine ⟨fun generation r hr => ?_, fun generation generation' r r' hne hr hr' => ?_,
    fun p ownership howns => ?_, h.issued, h.directory_eq, h.unique, h.renamed⟩
  · by_cases hpath : path = .owner generation
    · subst hpath
      rw [w.ownerAt_setDir_self] at hr
      exact hsigned generation r rfl hr
    · rw [w.ownerAt_setDir_of_ne _ (Ne.symm hpath)] at hr
      exact h.signed generation r hr
  · rcases hlives generation r hr with ⟨-, hold⟩ | ⟨rfl, hnew, halive⟩
    · rcases hlives generation' r' hr' with ⟨-, hold'⟩ | ⟨rfl, hnew', halive'⟩
      · exact h.apart generation generation' r r' hne hold hold'
      · rw [ownerConflicts_comm]
        exact hapart generation' r' rfl hnew' halive' generation r hne hold
    · rcases hlives generation' r' hr' with ⟨-, hold'⟩ | ⟨hpath, -⟩
      · exact hapart generation r rfl hnew halive generation' r' hne.symm hold'
      · exact absurd (OwnerPath.owner.inj hpath) hne
  · by_cases hpath : path = ownership.ownerDirectory
    · subst hpath
      rw [w.ownerAt_setDir_self]
      exact hreg p ownership howns rfl
    · rw [w.ownerAt_setDir_of_ne _ (Ne.symm hpath)]
      exact h.registered p ownership howns

/-- A directory that is nobody else's business. -/
def Private (call : OwnerCall π) (path : OwnerPath) (w : OwnerWorld π) : Prop :=
  match path with
  | .owner _ => False
  | .candidate _ token => w.issued token = some call
  | .renamed .. => True

lemma OwnerGuarantee.setPrivate (h : Private call path w) :
    OwnerGuarantee call w (w.setDir path files) := by
  cases path with
  | owner generation => exact h.elim
  | candidate pid token =>
    refine .setDir (fun _ => nofun) ?_ fun _ _ => nofun
    rintro _ _ ⟨⟩
    exact h
  | renamed directory suffix uuid =>
    exact .setDir (fun _ => nofun) (fun _ _ => nofun) fun _ _ => nofun

lemma OwnerInvariant.setPrivate (hI : OwnerInvariant self w) (h : Private call path w) :
    OwnerInvariant self (w.setDir path files) := by
  have hpath : ∀ generation, path ≠ .owner generation := by
    rintro generation rfl
    exact h
  refine hI.setDir (fun generation _ heq => absurd heq (hpath generation))
    (fun generation _ heq => absurd heq (hpath generation)) fun p ownership howns heq => ?_
  rw [hI.directory_eq p ownership howns.ne_none] at heq
  exact absurd heq (hpath _)

/-- A directory leaves the registry which is no live process's, or whose ownership has been given
up. -/
lemma OwnerGuarantee.clear (hguard : w.guard = some call)
    (hfree : ∀ r, w.ownerAt (.owner generation) = some r → w.Dead r ∨ ¬w.Unused r.token) :
    OwnerGuarantee call w (w.setDir (.owner generation) none) := by
  refine .setDir (fun _ _ => hguard) (fun _ _ => nofun) ?_
  rintro _ r ⟨⟩ hr -
  exact hfree r hr

lemma OwnerInvariant.clear (h : OwnerInvariant self w)
    (hfree : ∀ p ownership, w.Owns p ownership → ownership.ownerDirectory ≠ .owner generation) :
    OwnerInvariant self (w.setDir (.owner generation) none) :=
  h.setDir (fun _ _ _ => nofun) (fun _ _ _ => nofun) fun p ownership howns heq =>
    absurd heq.symm (hfree p ownership howns)

/-- No live process owns the directory of a dead one. -/
lemma OwnerInvariant.not_owns_of_dead (h : OwnerInvariant self w)
    (hdead : ∀ r, w.ownerAt (.owner generation) = some r → w.Dead r)
    (howns : w.Owns p ownership) :
    ownership.ownerDirectory ≠ .owner generation := by
  intro hdir
  obtain ⟨r, hr, hcont⟩ := h.registered p ownership howns
  obtain ⟨writer, hwriter, hcrashed⟩ := hdead r (hdir ▸ hr)
  obtain ⟨writer', hwriter', rfl⟩ := h.issued p ownership howns.ne_none
  rw [hcont.token] at hwriter
  obtain rfl := Option.mem_unique hwriter hwriter'
  exact howns.1 hcrashed

/-- Nobody has a record in a vacant directory. -/
lemma OwnerWorld.Vacant.ownerAt (h : w.Vacant path) : w.ownerAt path = none := by
  cases hfiles : w.dirs path with
  | none => simp [OwnerWorld.ownerAt, hfiles]
  | some files => simp [OwnerWorld.ownerAt, hfiles, (h files hfiles).1, JsonFile.value?]

/-- A record enters the registry in a vacant directory, where no live one conflicts. -/
lemma OwnerGuarantee.place (hguard : w.guard = some call) (hvacant : w.Vacant (.owner generation)) :
    OwnerGuarantee call w (w.setDir (.owner generation) files) := by
  refine .setDir (fun _ _ => hguard) (fun _ _ => nofun) ?_
  rintro _ r ⟨⟩ hr
  simp [hvacant.ownerAt] at hr

lemma OwnerInvariant.place (h : OwnerInvariant self w) (hvacant : w.Vacant (.owner generation))
    (hfiles : files.bind (·.owner.value?) = some r) (hsigned : w.Signed self r)
    (hapart : ∀ generation' r', w.Lives generation' r' → ownerConflicts r.scope r'.scope = false) :
    OwnerInvariant self (w.setDir (.owner generation) files) := by
  refine h.setDir ?_ ?_ fun p ownership howns heq => ?_
  · rintro _ r' ⟨⟩ hr'
    obtain rfl := Option.mem_unique hfiles hr'
    exact hsigned
  · rintro _ r' ⟨⟩ hr' - generation' r'' - hlives
    obtain rfl := Option.mem_unique hfiles hr'
    exact hapart generation' r'' hlives
  · obtain ⟨r', hr', -⟩ := h.registered p ownership howns
    rw [← heq, hvacant.ownerAt] at hr'
    cases hr'

/-- A record is written again. -/
lemma OwnerGuarantee.amend (hguard : w.guard = some call)
    (hr : w.ownerAt (.owner generation) = some r) (hused : ¬w.Unused r.token) :
    OwnerGuarantee call w (w.setDir (.owner generation) files) := by
  refine .setDir (fun _ _ => hguard) (fun _ _ => nofun) ?_
  rintro _ r' ⟨⟩ hr' -
  obtain rfl := Option.mem_unique hr hr'
  exact .inr hused

lemma OwnerInvariant.amend (h : OwnerInvariant self w)
    (hr : w.ownerAt (.owner generation) = some r)
    (hfiles : files.bind (·.owner.value?) = some r') (hcont : r'.Continues r) :
    OwnerInvariant self (w.setDir (.owner generation) files) := by
  have htoken := hcont.token
  have hident : r'.toProcessIdentity = r.toProcessIdentity :=
    congrArg (·.toProcessIdentity) hcont
  refine h.setDir ?_ ?_ fun p ownership howns heq => ?_
  · rintro _ r'' ⟨⟩ hr''
    obtain rfl := Option.mem_unique hfiles hr''
    obtain ⟨writer, hwriter, hsigned⟩ := h.signed generation r hr
    exact ⟨writer, htoken ▸ hwriter, fun halive => hident.trans (hsigned halive)⟩
  · rintro _ r'' ⟨⟩ hr'' hdead generation' r''' hne hlives
    obtain rfl := Option.mem_unique hfiles hr''
    obtain ⟨writer, hwriter, -⟩ := h.signed generation r hr
    rw [hcont.scope]
    exact h.apart generation generation' r r''' hne.symm
      ⟨hr, writer, hwriter, fun hcrashed => hdead ⟨writer, htoken ▸ hwriter, hcrashed⟩⟩ hlives
  · obtain ⟨r'', hr'', hcont'⟩ := h.registered p ownership howns
    rw [← heq] at hr''
    obtain rfl := Option.mem_unique hr hr''
    exact ⟨r', hfiles, hcont.trans hcont'⟩

end Directories

/-! ## Tokens, the guard and ownerships -/

section Memory

variable {self : π → ProcessIdentity} {call : OwnerCall π} {w : OwnerWorld π} {token : String}

lemma OwnerWorld.issued_of_issued (hnone : w.issued token = none) {token' : String}
    {call' : OwnerCall π} (h : w.issued token' = some call') :
    (w.issue token call).issued token' = some call' := by
  refine (update_of_ne ?_ ..).trans h
  rintro rfl
  exact absurd (h.symm.trans hnone) (by simp)

lemma OwnerWorld.issued_issue_self (w : OwnerWorld π) (token : String) (call : OwnerCall π) :
    (w.issue token call).issued token = some call :=
  update_self ..

lemma OwnerGuarantee.issue (hnone : w.issued token = none) :
    OwnerGuarantee call w (w.issue token call) := by
  intro call' hne
  exact ⟨fun _ => id, fun _ _ => w.issued_of_issued hnone, fun _ h => ⟨h, fun _ => rfl⟩,
    fun _ _ _ => rfl, fun _ _ _ h _ _ => h, fun _ _ => id, fun _ _ => id⟩

/-- No record in the registry has a token that nobody has been given. -/
lemma OwnerInvariant.issue (h : OwnerInvariant self w) (hnone : w.issued token = none) :
    OwnerInvariant self (w.issue token call) := by
  have hlives : ∀ generation r, (w.issue token call).Lives generation r → w.Lives generation r := by
    rintro generation r ⟨hr, writer, hwriter, halive⟩
    obtain ⟨writer', hwriter', -⟩ := h.signed generation r hr
    obtain rfl := Option.some.inj ((w.issued_of_issued hnone hwriter').symm.trans hwriter)
    exact ⟨hr, writer', hwriter', halive⟩
  refine ⟨fun generation r hr => ?_, fun generation generation' r r' hne hr hr' => ?_,
    h.registered, fun p ownership hown => ?_, h.directory_eq, h.unique, h.renamed⟩
  · obtain ⟨writer, hwriter, hsigned⟩ := h.signed generation r hr
    exact ⟨writer, w.issued_of_issued hnone hwriter, hsigned⟩
  · exact h.apart generation generation' r r' hne (hlives generation r hr)
      (hlives generation' r' hr')
  · obtain ⟨call', hcall, hp⟩ := h.issued p ownership hown
    exact ⟨call', w.issued_of_issued hnone hcall, hp⟩

lemma OwnerGuarantee.lock
    (hfree : ∀ holder, w.guard = some holder → w.crashed holder.process) :
    OwnerGuarantee call w (w.setGuard (some call)) :=
  fun call' _ => ⟨fun _ => id, fun _ _ => id,
    fun halive hguard => absurd (hfree call' hguard) halive, fun _ _ _ => rfl,
    fun _ _ _ h _ _ => h, fun _ _ => id, fun _ _ => id⟩

lemma OwnerGuarantee.unlock (hguard : w.guard = some call) :
    OwnerGuarantee call w (w.setGuard none) :=
  fun _ hne => ⟨fun _ => id, fun _ _ => id,
    fun _ hguard' => absurd (Option.mem_unique hguard hguard') hne, fun _ _ _ => rfl,
    fun _ _ _ h _ _ => h, fun _ _ => id, fun _ _ => id⟩

lemma OwnerInvariant.setGuard (h : OwnerInvariant self w) (holder : Option (OwnerCall π)) :
    OwnerInvariant self (w.setGuard holder) :=
  ⟨h.signed, h.apart, h.registered, h.issued, h.directory_eq, h.unique, h.renamed⟩

/-- **A crash** leaves the registry as it is. -/
lemma OwnerInvariant.crash (h : OwnerInvariant self w) {w' : OwnerWorld π}
    (hcrash : w.Crashes w') : OwnerInvariant self w' ∧ ∀ call, OwnerRely call w w' := by
  obtain ⟨p, rfl⟩ := hcrash
  have hlives : ∀ generation r,
      OwnerWorld.Lives { w with crashed := fun q => q = p ∨ w.crashed q } generation r →
        w.Lives generation r := by
    rintro generation r ⟨hr, writer, hwriter, halive⟩
    exact ⟨hr, writer, hwriter, fun hcrashed => halive (.inr hcrashed)⟩
  refine ⟨⟨fun generation r hr => ?_, fun generation generation' r r' hne hr hr' => ?_,
    fun q ownership howns => ?_, h.issued, h.directory_eq, h.unique, h.renamed⟩, fun call =>
    ⟨fun _ => .inr, fun _ _ => id, fun _ hguard => ⟨hguard, fun _ => rfl⟩, fun _ _ _ => rfl,
      fun _ _ _ hr _ _ => hr, fun _ _ => id, fun _ _ => id⟩⟩
  · obtain ⟨writer, hwriter, hsigned⟩ := h.signed generation r hr
    exact ⟨writer, hwriter, fun halive => hsigned fun hcrashed => halive (.inr hcrashed)⟩
  · exact h.apart generation generation' r r' hne (hlives generation r hr)
      (hlives generation' r' hr')
  · exact h.registered q ownership ⟨fun hcrashed => howns.1 (.inr hcrashed), howns.2⟩

variable [DecidableEq π] {ownership : DaemonSupervisorOwnership} {path : OwnerPath}

lemma OwnerGuarantee.remember : OwnerGuarantee call w (w.remember call path) :=
  fun _ _ => ⟨fun _ => id, fun _ _ => id, fun _ h => ⟨h, fun _ => rfl⟩, fun _ _ _ => rfl,
    fun _ _ _ h _ _ => h, fun _ _ => id, fun _ _ => id⟩

lemma OwnerInvariant.remember (h : OwnerInvariant self w)
    (hpath : ∃ directory suffix uuid, path = .renamed directory suffix uuid) :
    OwnerInvariant self (w.remember call path) := by
  refine ⟨h.signed, h.apart, h.registered, h.issued, h.directory_eq, h.unique,
    fun call' path' hmem => ?_⟩
  rcases eq_or_ne call' call with rfl | hne
  · have hself : (w.remember call' path).remembered call' = w.remembered call' ++ [path] :=
      update_self ..
    rw [hself] at hmem
    rcases List.mem_append.mp hmem with hold | hnew
    · exact h.renamed call' path' hold
    · rw [List.mem_singleton.mp hnew]
      exact hpath
  · have hother : (w.remember call path).remembered call' = w.remembered call' :=
      update_of_ne hne ..
    exact h.renamed call' path' (hother ▸ hmem)

lemma OwnerWorld.ownerships_setOwnership (w : OwnerWorld π) (p p' : π)
    (ownership ownership' : DaemonSupervisorOwnership) (standing : Standing) :
    (w.setOwnership p ownership standing).ownerships p' ownership' =
      if p' = p ∧ ownership' = ownership then some standing else w.ownerships p' ownership' := by
  show Function.update w.ownerships p
    (Function.update (w.ownerships p) ownership (some standing)) p' ownership' = _
  rw [update_apply]
  by_cases hp : p' = p
  · subst hp
    rw [if_pos rfl, update_apply]
    simp
  · simp [hp]

variable {standing : Standing}

/-- An ownership is made, or comes further. -/
lemma OwnerGuarantee.setOwnership
    (h : w.ownerships call.process ownership ≠ none ∨ w.issued ownership.record.token = some call) :
    OwnerGuarantee call w (w.setOwnership call.process ownership standing) := by
  intro call' hne
  refine ⟨fun _ => id, fun _ _ => id, fun _ h => ⟨h, fun _ => rfl⟩, fun _ _ _ => rfl,
    fun _ _ _ h _ _ => h, fun token hissued hunused p ownership' htoken => ?_,
    fun p ownership' hold => ?_⟩
  · rw [w.ownerships_setOwnership, if_neg]
    · exact hunused p ownership' htoken
    · rintro ⟨rfl, rfl⟩
      rcases h with hsome | hissued'
      · exact hsome (hunused _ _ htoken)
      · rw [htoken] at hissued'
        exact hne (Option.mem_unique hissued' hissued)
  · rw [w.ownerships_setOwnership]
    split
    · simp
    · exact hold

/-- An ownership that exists comes further. -/
lemma OwnerInvariant.setStanding (h : OwnerInvariant self w)
    (hsome : w.ownerships p ownership ≠ none) (hstanding : standing ≠ .owned) :
    OwnerInvariant self (w.setOwnership p ownership standing) := by
  have hsame : ∀ p' ownership', (w.setOwnership p ownership standing).ownerships p' ownership' ≠
      none → w.ownerships p' ownership' ≠ none := by
    intro p' ownership' hne
    rw [w.ownerships_setOwnership] at hne
    split at hne
    · rename_i heq
      rw [heq.1, heq.2]
      exact hsome
    · exact hne
  refine ⟨h.signed, h.apart, fun p' ownership' howns => ?_,
    fun p' ownership' hne => h.issued p' ownership' (hsame _ _ hne),
    fun p' ownership' hne => h.directory_eq p' ownership' (hsame _ _ hne),
    fun p₁ p₂ ownership₁ ownership₂ h₁ h₂ =>
      h.unique p₁ p₂ ownership₁ ownership₂ (hsame _ _ h₁) (hsame _ _ h₂), h.renamed⟩
  obtain ⟨halive, howned⟩ := howns
  rw [w.ownerships_setOwnership] at howned
  split at howned
  · exact absurd (Option.some.inj howned) hstanding
  · exact h.registered p' ownership' ⟨halive, howned⟩

/-- An ownership is made of a record that is in the registry. -/
lemma OwnerInvariant.newOwnership (h : OwnerInvariant self w)
    (hissued : w.issued ownership.record.token = some call)
    (hunused : w.Unused ownership.record.token)
    (hdir : ownership.ownerDirectory = .owner ownership.record.generation)
    (hrec : w.ownerAt ownership.ownerDirectory = some ownership.record) :
    OwnerInvariant self (w.setOwnership call.process ownership .owned) := by
  have hcases : ∀ p ownership', (w.setOwnership call.process ownership .owned).ownerships p
      ownership' ≠ none → (p = call.process ∧ ownership' = ownership) ∨
        w.ownerships p ownership' ≠ none := by
    intro p ownership' hne
    rw [w.ownerships_setOwnership] at hne
    split at hne
    · exact .inl ‹_›
    · exact .inr hne
  refine ⟨h.signed, h.apart, fun p ownership' howns => ?_,
    fun p ownership' hne => ?_, fun p ownership' hne => ?_,
    fun p q ownership₁ ownership₂ h₁ h₂ htoken => ?_, h.renamed⟩
  · obtain ⟨halive, howned⟩ := howns
    rw [w.ownerships_setOwnership] at howned
    split at howned
    · rename_i heq
      obtain ⟨rfl, rfl⟩ := heq
      exact ⟨_, hrec, .refl _⟩
    · exact h.registered p ownership' ⟨halive, howned⟩
  · rcases hcases p ownership' hne with ⟨rfl, rfl⟩ | hold
    · exact ⟨call, hissued, rfl⟩
    · exact h.issued p ownership' hold
  · rcases hcases p ownership' hne with ⟨-, rfl⟩ | hold
    · exact hdir
    · exact h.directory_eq p ownership' hold
  · rcases hcases p ownership₁ h₁ with ⟨-, rfl⟩ | hold₁
    · rcases hcases q ownership₂ h₂ with ⟨-, rfl⟩ | hold₂
      · rfl
      · exact absurd (hunused q ownership₂ htoken.symm) hold₂
    · rcases hcases q ownership₂ h₂ with ⟨-, rfl⟩ | hold₂
      · exact absurd (hunused p ownership₁ htoken) hold₁
      · exact h.unique p q ownership₁ ownership₂ hold₁ hold₂ htoken

end Memory

end Amide.SupervisorOwnership
