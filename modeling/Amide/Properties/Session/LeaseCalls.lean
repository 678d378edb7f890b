import Amide.Properties.Session.LeaseContracts

/-!
# The calls on session leases keep their contracts

What `acquireSessionLease` and `SessionLease.release` do between two effects of others, as triples
over `leaseContracts`.  Under the guard, and from a directory without a live owner, an acquisition
ends with a lease at its second attempt at the latest (`acquire_triple`): the first clears the
directory, and nobody else can fill it.
-/

set_option linter.unusedSectionVars false

namespace Amide

open LeaseWorld

open Program (Stable Triple Mortal stable_const triple_effect triple_pure triple_throw
  triple_of_and triple_of_exists triple_of_or)
open LeaseOp (perform)

variable {π : Type} [DecidableEq π] {α : Type}

section Triples

variable {leaseDirectory : String → String} {call : LeaseCall π}

/-- Only live processes get answers. -/
def leaseHandler (call : LeaseCall π) (w : LeaseWorld π) (op : LeaseOp)
    (r : Except LeaseError op.Answer) (w' : LeaseWorld π) : Prop :=
  ¬w.crashed call.process ∧ w.answers call op r w'

def LeaseCall.Live (call : LeaseCall π) (w : LeaseWorld π) : Prop := ¬w.crashed call.process

abbrev LeaseStable (leaseDirectory : String → String) (call : LeaseCall π) :
    (LeaseWorld π → Prop) → Prop :=
  Stable (leaseContracts leaseDirectory) call call.Live

abbrev LeaseTriple (leaseDirectory : String → String) (call : LeaseCall π)
    (P : LeaseWorld π → Prop) (p : LeaseProgram α)
    (Q : Except LeaseError α → LeaseWorld π → Prop) : Prop :=
  Triple (leaseContracts leaseDirectory) (leaseHandler call) call call.Live P p Q

lemma mortal_lease : Mortal (leaseContracts leaseDirectory) (leaseHandler call) call call.Live where
  of_answer _ _ _ _ h := h.1
  of_rely _ _ hrely halive hcrashed := halive (hrely.crashed _ hcrashed)

variable {P : LeaseWorld π → Prop}

/-- An effect that changes nothing. -/
lemma quiet_triple {op : LeaseOp} {Q : Except LeaseError op.Answer → LeaseWorld π → Prop}
    (hP : LeaseStable leaseDirectory call P) (hQ : ∀ r, LeaseStable leaseDirectory call (Q r))
    (h : ∀ w r w', P w → LeaseInvariant leaseDirectory w → w.answers call op r w' →
      w' = w ∧ Q r w) : LeaseTriple leaseDirectory call P (perform op) Q := by
  refine triple_effect mortal_lease hP hQ fun w r w' hw hI hanswer => ?_
  obtain ⟨rfl, hq⟩ := h w r w' hw hI hanswer.2
  exact ⟨hI, .refl call _, hq⟩

/-! ### Directories of the call's own -/

/-- A directory under a name with a token of the call. -/
structure Own (call : LeaseCall π) (path : LeasePath) (content : Option LeaseContent)
    (w : LeaseWorld π) : Prop where
  name : ∃ directory pid token, w.issued token = some call ∧
    (path = .candidate directory pid token ∨ path = .stale directory pid token)
  dir : w.dirs path = content

lemma stable_own (path : LeasePath) (content : Option LeaseContent) :
    LeaseStable leaseDirectory call (Own call path content) := by
  rintro w w' ⟨⟨directory, pid, token, hissued, hpath⟩, hdir⟩ hrely -
  refine ⟨⟨directory, pid, token, hrely.issued _ _ hissued, hpath⟩, ?_⟩
  obtain ⟨hcand, hstale⟩ := hrely.own token hissued directory pid
  rcases hpath with rfl | rfl
  · exact hcand.trans hdir
  · exact hstale.trans hdir

/-- An assertion that does not look at a directory. -/
def Ignores (path : LeasePath) (P : LeaseWorld π → Prop) : Prop :=
  ∀ w content, P w → P (w.setDir path content)

variable {path : LeasePath}

lemma own_triple {content : Option LeaseContent} (op : LeaseOp) (answer : op.Answer)
    (content' : Option LeaseContent) (hP : LeaseStable leaseDirectory call P)
    (hignores : Ignores path P)
    (h : ∀ (w : LeaseWorld π) r w', w.dirs path = content → w.answers call op r w' →
      r = .ok answer ∧ w' = w.setDir path content') :
    LeaseTriple leaseDirectory call (fun w => P w ∧ Own call path content w) (perform op)
      fun r w => r = .ok answer ∧ P w ∧ Own call path content' w := by
  refine triple_effect mortal_lease (hP.and (stable_own _ _))
    (fun r => (stable_const _ _ _ _).and (hP.and (stable_own _ _))) ?_
  rintro w r w' ⟨hw, ⟨directory, pid, token, hissued, hpath⟩, hdir⟩ hI ⟨-, hanswer⟩
  obtain ⟨rfl, rfl⟩ := h w r w' hdir hanswer
  exact ⟨hI.setOwn hissued hpath _, .setOwn hissued hpath _, rfl, hignores w _ hw,
    ⟨directory, pid, token, hissued, hpath⟩, w.dirs_setDir_self ..⟩

/-- `rmSync` of such a directory. -/
lemma rmSync_triple {content : LeaseContent} (hP : LeaseStable leaseDirectory call P)
    (hignores : Ignores path P) :
    LeaseTriple leaseDirectory call (fun w => P w ∧ Own call path (some content) w) (rmSync path)
      fun r w => r = .ok () ∧ P w ∧ Own call path none w := by
  refine (own_triple (.unlinkOwner path) () (some .empty) hP hignores ?_).seq mortal_lease ?_
  · rintro w r w' hdir ⟨rfl, rfl⟩
    simp [hdir]
  · refine own_triple (.rmdir path) () none hP hignores ?_
    rintro w r w' hdir (⟨-, rfl, rfl⟩ | ⟨hnot, -⟩)
    · exact ⟨rfl, rfl⟩
    · exact absurd (.inr hdir) hnot

variable {owner : SessionLeaseOwner}

lemma writeFileSync_triple (hP : LeaseStable leaseDirectory call P) (hignores : Ignores path P) :
    LeaseTriple leaseDirectory call (fun w => P w ∧ Own call path (some .empty) w)
      (writeFileSync path owner)
      fun r w => r = .ok () ∧ P w ∧ Own call path (some (.owned owner)) w := by
  refine (own_triple (.createOwner path) () (some .unwritten) hP hignores ?_).seq mortal_lease ?_
  · rintro w r w' hdir (⟨-, rfl, rfl⟩ | ⟨hnone, -⟩)
    · exact ⟨rfl, rfl⟩
    · simp [hdir] at hnone
  · refine own_triple (.writeOwner path owner) () _ hP hignores ?_
    rintro w r w' hdir ⟨rfl, rfl⟩
    simp [hdir]

/-! ### Under the guard -/

/-- Whoever the directory belongs to has crashed. -/
def Dead (directory : String) (w : LeaseWorld π) : Prop :=
  ∀ owner, w.dirs (.lease directory) = some (.owned owner) →
    ∃ writer, w.issued owner.token = some writer ∧ w.crashed writer.process

/-- The call has the guard, and knows that the tokens `old` have been given away; it may also know
that the directory is free, or that its owner is dead. -/
structure Inside (call : LeaseCall π) (directory : String) (old : String → Prop) (free dead : Prop)
    (w : LeaseWorld π) : Prop where
  guard : w.guards directory = some call
  free : free → w.Vacant (.lease directory)
  dead : dead → Dead directory w
  old : ∀ token, old token → w.issued token ≠ none

variable {directory : String} {old : String → Prop} {free dead : Prop}
variable {w : LeaseWorld π}

lemma LeaseRely.still_issued {w' : LeaseWorld π} (hrely : LeaseRely call w w')
    (h : ∀ token, old token → w.issued token ≠ none) :
    ∀ token, old token → w'.issued token ≠ none := by
  intro token hold
  obtain ⟨call', hcall⟩ := Option.ne_none_iff_exists'.mp (h token hold)
  simp [hrely.issued _ _ hcall]

lemma stable_inside : LeaseStable leaseDirectory call (Inside call directory old free dead) := by
  rintro w w' ⟨hguard, hfree, hdead, hold⟩ hrely halive
  obtain ⟨hguard', hdir⟩ := hrely.guarded halive directory hguard
  refine ⟨hguard', fun h => ?_, fun h owner howned => ?_, hrely.still_issued hold⟩
  · rw [Vacant, hdir]
    exact hfree h
  · obtain ⟨writer, hwriter, hcrashed⟩ := hdead h owner (hdir ▸ howned)
    exact ⟨writer, hrely.issued _ _ hwriter, hrely.crashed _ hcrashed⟩

lemma Inside.setDir (h : Inside call directory old free dead w) (hpath : path ≠ .lease directory)
    (content : Option LeaseContent) :
    Inside call directory old free dead (w.setDir path content) := by
  have hdir := w.dirs_setDir_of_ne content hpath.symm
  refine ⟨h.guard, fun hf => ?_, fun hd owner howned => ?_, h.old⟩
  · rw [Vacant, hdir]
    exact h.free hf
  · exact h.dead hd owner (hdir ▸ howned)

variable {token : String}

lemma Inside.issue (h : Inside call directory old free dead w) (hnone : w.issued token = none) :
    Inside call directory old free dead (w.issue token call) := by
  refine ⟨h.guard, h.free, fun hd owner howned => ?_, fun token' hold => ?_⟩
  · obtain ⟨writer, hwriter, hcrashed⟩ := h.dead hd owner howned
    exact ⟨writer, w.issued_of_issued hnone hwriter, hcrashed⟩
  · obtain ⟨call', hcall⟩ := Option.ne_none_iff_exists'.mp (h.old token' hold)
    simp [w.issued_of_issued hnone hcall]

/-- The token has just been given to the call. -/
structure Fresh (call : LeaseCall π) (old : String → Prop) (token : String)
    (w : LeaseWorld π) : Prop where
  issued : w.issued token = some call
  unused : ∀ p lease, lease.token = token → w.leases p lease = none
  new : ¬old token

lemma stable_fresh (token : String) : LeaseStable leaseDirectory call (Fresh call old token) := by
  rintro w w' ⟨hissued, hunused, hnew⟩ hrely -
  refine ⟨hrely.issued _ _ hissued, fun p lease hlease => ?_, hnew⟩
  exact hrely.fresh p lease (hlease ▸ hissued) (hunused p lease hlease)

/-- A draft of a lease. -/
abbrev Drafting (call : LeaseCall π) (directory : String) (old : String → Prop) (free dead : Prop)
    (token : String) (w : LeaseWorld π) : Prop :=
  Inside call directory old free dead w ∧ Fresh call old token w

lemma stable_drafting (token : String) :
    LeaseStable leaseDirectory call (Drafting call directory old free dead token) :=
  stable_inside.and (stable_fresh token)

lemma ignores_drafting (hpath : path ≠ .lease directory) (token : String) :
    Ignores path (Drafting call directory old free dead token) :=
  fun _ content h => ⟨h.1.setDir hpath content, h.2.issued, h.2.unused, h.2.new⟩

/-- A new token, and the names that go with it. -/
lemma randomUUID_triple : LeaseTriple leaseDirectory call (Inside call directory old free dead)
      (perform .randomUUID) fun r w => ∃ token, r = .ok token ∧
        Drafting call directory old free dead token w ∧ ∀ directory' pid,
          Own call (.candidate directory' pid token) none w ∧
            Own call (.stale directory' pid token) none w := by
  refine triple_effect mortal_lease stable_inside (fun r => .exists fun token => ?_) ?_
  · refine (stable_const _ _ _ _).and ((stable_drafting token).and ?_)
    intro w w' h hrely halive directory' pid
    exact ⟨stable_own _ _ w w' (h directory' pid).1 hrely halive,
      stable_own _ _ w w' (h directory' pid).2 hrely halive⟩
  · rintro w r w' hw hI ⟨-, token, rfl, hnone, rfl⟩
    have hissued : (w.issue token call).issued token = some call := by simp [w.issued_issue]
    refine ⟨hI.issue hnone, .issue hnone, token, rfl, ⟨hw.issue hnone, hissued, ?_, ?_⟩, ?_⟩
    · rintro p lease rfl
      by_contra hlease
      obtain ⟨call', hcall, -⟩ := hI.lease_issued p lease hlease
      exact absurd (hcall.symm.trans hnone) (by simp)
    · exact fun hold => hw.old token hold hnone
    · intro directory' pid
      obtain ⟨hcand, hstale⟩ := hI.unissued token hnone directory' pid
      exact ⟨⟨⟨directory', pid, token, hissued, .inl rfl⟩, hcand⟩,
        ⟨⟨directory', pid, token, hissued, .inr rfl⟩, hstale⟩⟩

/-! ### Putting a lease in place -/

/-- The lease directory has the call's owner, and there is no lease object yet. -/
structure Placed (call : LeaseCall π) (directory : String) (old : String → Prop) (token : String)
    (w : LeaseWorld π) : Prop where
  guard : w.guards directory = some call
  fresh : Fresh call old token w
  owned : ∃ owner, w.dirs (.lease directory) = some (.owned owner) ∧ owner.token = token

lemma stable_placed (token : String) :
    LeaseStable leaseDirectory call (Placed call directory old token) := by
  rintro w w' ⟨hguard, hfresh, howned⟩ hrely halive
  obtain ⟨hguard', hdir⟩ := hrely.guarded halive directory hguard
  exact ⟨hguard', stable_fresh token w w' hfresh hrely halive, hdir ▸ howned⟩

lemma renameCandidate_triple (hreq : ∀ lease, call.request ≠ .release lease) {pid : ℕ}
    (htoken : owner.token = token) :
    LeaseTriple leaseDirectory call
      (fun w => Drafting call directory old free dead token w ∧
        Own call (.candidate directory pid token) (some (.owned owner)) w)
      (perform (.rename (.candidate directory pid token) (.lease directory)))
      fun r w => (r = .ok () ∧ Placed call directory old token w) ∨
        ((r = .error .eexist ∨ r = .error .enotempty) ∧ ¬free ∧
          Drafting call directory old free dead token w ∧
          Own call (.candidate directory pid token) (some (.owned owner)) w) := by
  refine triple_effect mortal_lease ((stable_drafting token).and (stable_own _ _))
    (fun r => .or ((stable_const _ _ _ _).and (stable_placed token))
      ((stable_const _ _ _ _).and ((stable_const _ _ _ _).and
        ((stable_drafting token).and (stable_own _ _))))) ?_
  rintro w r w' ⟨⟨hin, hfresh⟩, hown⟩ hI ⟨-, hanswer⟩
  rcases hanswer with ⟨hnone, -⟩ | ⟨-, hnot, hr, rfl⟩ | ⟨content, hcont, hvacant, rfl, rfl⟩
  · rw [hown.dir] at hnone
    cases hnone
  · exact ⟨hI, .refl call _, .inr ⟨hr, fun hfree => hnot (hin.free hfree), ⟨hin, hfresh⟩, hown⟩⟩
  · obtain rfl : content = .owned owner := Option.mem_unique hcont hown.dir
    have hI' : LeaseInvariant leaseDirectory (w.setDir (.candidate directory pid token) none) :=
      hI.setOwn hfresh.issued (.inl rfl) none
    have hissued : (w.setDir (.candidate directory pid token) none).issued owner.token =
        some call := htoken ▸ hfresh.issued
    have hvacant' : (w.setDir (.candidate directory pid token) none).Vacant (.lease directory) := by
      exact hvacant
    refine ⟨hI'.place hvacant' hissued,
      (LeaseGuarantee.rename hin.guard hfresh.issued hreq (.inl rfl) none _).1,
      .inl ⟨rfl, hin.guard, ⟨hfresh.issued, hfresh.unused, hfresh.new⟩, owner, ?_, htoken⟩⟩
    exact dirs_setDir_self ..

/-- What an acquisition comes to: it still has the guard and, where `φ`, a lease with a token that
is new. -/
structure Acquired (call : LeaseCall π) (directory canonicalPath : String) (old : String → Prop)
    (φ : Prop) (r : Except LeaseError SessionLease) (w : LeaseWorld π) : Prop where
  guard : w.guards directory = some call
  lease : φ → ∃ token, r = .ok ⟨canonicalPath, directory, token⟩ ∧ ¬old token ∧
    w.leases call.process ⟨canonicalPath, directory, token⟩ ≠ none

lemma stable_acquired (canonicalPath : String) (φ : Prop) (r : Except LeaseError SessionLease) :
    LeaseStable leaseDirectory call (Acquired call directory canonicalPath old φ r) := by
  rintro w w' ⟨hguard, hlease⟩ hrely halive
  refine ⟨(hrely.guarded halive directory hguard).1, fun hφ => ?_⟩
  obtain ⟨token, hr, hnew, hobject⟩ := hlease hφ
  exact ⟨token, hr, hnew, hrely.lease _ _ hobject⟩

variable {canonicalPath : String} {φ : Prop}

/-- `new SessionLease(...)`. -/
lemma newSessionLease_triple (hdir : directory = leaseDirectory canonicalPath) :
    LeaseTriple leaseDirectory call (Placed call directory old token)
      (do
        perform (.newSessionLease ⟨canonicalPath, directory, token⟩)
        pure ⟨canonicalPath, directory, token⟩)
      (Acquired call directory canonicalPath old φ) := by
  refine Triple.seq (b := ())
    mortal_lease ?_ (triple_pure mortal_lease (stable_acquired _ _ _) fun _ => id)
  refine triple_effect mortal_lease (stable_placed token)
    (fun r => (stable_const _ _ _ _).and (stable_acquired _ _ _)) ?_
  rintro w r w' ⟨hguard, hfresh, owner, howned, htoken⟩ hI ⟨-, rfl, rfl⟩
  refine ⟨hI.newSessionLease howned htoken hfresh.issued hfresh.unused hdir,
    .newSessionLease hfresh.issued fun p => hfresh.unused p _ rfl, rfl, hguard, fun _ => ?_⟩
  exact ⟨token, rfl, hfresh.new, by simp [w.leases_setLease]⟩

/-! ### Clearing a directory -/

lemma stable_ownerAt (owner? : Option SessionLeaseOwner) : LeaseStable leaseDirectory call fun w =>
      Inside call directory old free dead w ∧ w.ownerAt (.lease directory) = owner? := by
  rintro w w' ⟨hin, howner⟩ hrely halive
  have hdir := (hrely.guarded halive directory hin.guard).2
  refine ⟨stable_inside w w' hin hrely halive, ?_⟩
  rw [LeaseWorld.ownerAt, hdir]
  exact howner

lemma LeaseWorld.ownerAt_eq_some_iff :
    w.ownerAt path = some owner ↔ w.dirs path = some (.owned owner) := by
  rw [ownerAt]
  split
  · rename_i owner' howned
    simp [howned]
  · rename_i hnot
    simp only [reduceCtorEq, false_iff]
    exact hnot owner

/-- Whether there is a live owner is known under the guard. -/
lemma ownerAlive_triple (owner? : Option SessionLeaseOwner) : LeaseTriple leaseDirectory call
      (fun w => Inside call directory old free dead w ∧ w.ownerAt (.lease directory) = owner?)
      (ownerAlive owner?)
      fun r w => ∃ alive, r = .ok alive ∧ (alive = true → ¬dead) ∧
        Inside call directory old free (dead ∨ alive = false) w := by
  have hstable : ∀ r : Except LeaseError Bool, LeaseStable leaseDirectory call fun w =>
      ∃ alive, r = .ok alive ∧ (alive = true → ¬dead) ∧
        Inside call directory old free (dead ∨ alive = false) w :=
    fun r => .exists fun alive => (stable_const _ _ _ _).and
      ((stable_const _ _ _ _).and stable_inside)
  cases owner? with
  | none =>
    refine triple_pure mortal_lease (stable_ownerAt none) ?_
    rintro w ⟨hin, hnone⟩
    refine ⟨false, rfl, nofun, hin.guard, hin.free, fun _ owner howned => ?_, hin.old⟩
    rw [ownerAt_eq_some_iff.mpr howned] at hnone
    cases hnone
  | some owner =>
    refine quiet_triple (stable_ownerAt _) hstable ?_
    rintro w r w' ⟨hin, howner⟩ hI ⟨⟨alive, rfl, haccurate⟩, rfl⟩
    have howned := ownerAt_eq_some_iff.mp howner
    refine ⟨rfl, alive, rfl, fun halive hdead => ?_, hin.guard, hin.free, ?_, hin.old⟩
    · obtain ⟨writer, hwriter, hcrashed⟩ := hin.dead hdead owner howned
      exact (haccurate writer hwriter).mp halive hcrashed
    · rintro (hdead | hfalse) owner' howned'
      · exact hin.dead hdead owner' howned'
      · obtain rfl : owner = owner' := by
          rw [howned] at howned'
          cases howned'
          rfl
        obtain ⟨writer, hwriter⟩ := hI.owner_issued directory owner howned
        refine ⟨writer, hwriter, by_contra fun halive => ?_⟩
        simp [(haccurate writer hwriter).mpr halive] at hfalse

variable {lease : SessionLease}

/-- Nobody who is alive holds a lease in a directory whose owner is dead. -/
lemma Dead.not_holds (h : Dead directory w) (hI : LeaseInvariant leaseDirectory w) {p : π}
    (hholds : w.Holds p lease) : lease.directory ≠ directory := by
  rintro rfl
  obtain ⟨owner, howned, htoken⟩ := hI.held p lease hholds
  obtain ⟨writer, hwriter, hcrashed⟩ := h owner howned
  obtain ⟨call', hcall, rfl⟩ := hI.lease_issued p lease (by simp [hholds.2])
  rw [htoken, hcall, Option.some.injEq] at hwriter
  exact hholds.1 (hwriter ▸ hcrashed)

/-- A lease whose owner is dead is renamed away. -/
lemma renameStale_triple (hreq : ∀ lease, call.request ≠ .release lease) {uuid : String}
    {pid : ℕ} :
    LeaseTriple leaseDirectory call
      (fun w => Drafting call directory old free True uuid w ∧
        Own call (.stale directory pid uuid) none w)
      (perform (.rename (.lease directory) (.stale directory pid uuid)))
      fun r w => (r = .error .enoent ∧ Inside call directory old True True w) ∨
        (r = .ok () ∧ ∃ content, Inside call directory old True True w ∧
          Own call (.stale directory pid uuid) (some content) w) := by
  refine triple_effect mortal_lease ((stable_drafting uuid).and (stable_own _ _))
    (fun r => .or ((stable_const _ _ _ _).and stable_inside) ((stable_const _ _ _ _).and
      (.exists fun content => stable_inside.and (stable_own _ _)))) ?_
  rintro w r w' ⟨⟨hin, hfresh⟩, hown⟩ hI ⟨-, hanswer⟩
  rcases hanswer with ⟨hnone, rfl, rfl⟩ | ⟨-, hnot, -⟩ | ⟨content, hcont, -, rfl, rfl⟩
  · exact ⟨hI, .refl call _, .inl ⟨rfl, hin.guard, fun _ => .inl hnone, hin.dead, hin.old⟩⟩
  · exact absurd (.inl hown.dir) hnot
  · have hI' : LeaseInvariant leaseDirectory (w.setDir (.lease directory) none) :=
      hI.clear (fun p lease hholds => (hin.dead trivial).not_holds hI hholds) nofun
    have hissued : (w.setDir (.lease directory) none).issued uuid = some call := hfresh.issued
    have hdir : ((w.setDir (.lease directory) none).setDir (.stale directory pid uuid)
        (some content)).dirs (.lease directory) = none := by
      rw [dirs_setDir_of_ne _ _ (by simp), dirs_setDir_self]
    refine ⟨hI'.setOwn hissued (.inr rfl) _,
      (LeaseGuarantee.rename hin.guard hfresh.issued hreq (.inr rfl) _ none).2,
      .inr ⟨rfl, content, ⟨hin.guard, fun _ => .inl hdir, ?_, hin.old⟩,
        ⟨directory, pid, uuid, hfresh.issued, .inr rfl⟩, dirs_setDir_self ..⟩⟩
    intro _ owner howned
    rw [hdir] at howned
    cases howned

lemma reclaimStaleLease_triple (hreq : ∀ lease, call.request ≠ .release lease) (pid : ℕ) :
    LeaseTriple leaseDirectory call (Inside call directory old free True)
      (reclaimStaleLease pid directory)
      fun r w => r = .ok true ∧ Inside call directory old True True w := by
  have hstable : LeaseStable leaseDirectory call (Inside call directory old True True) :=
    stable_inside
  refine randomUUID_triple.bind_ok mortal_lease fun uuid => ?_
  refine Triple.attempt_bind ((renameStale_triple hreq).mono
    (fun w hw => ⟨hw.1, (hw.2 directory pid).2⟩) fun _ _ => id) fun result => ?_
  refine triple_of_or mortal_lease (triple_of_and mortal_lease ?_)
    (triple_of_and mortal_lease ?_)
  · rintro rfl
    exact triple_pure mortal_lease hstable fun w hw => ⟨rfl, hw⟩
  · rintro rfl
    refine triple_of_exists mortal_lease fun content => ?_
    refine (rmSync_triple hstable fun w content hw => hw.setDir (by simp) content).seq mortal_lease
      ?_
    exact triple_pure mortal_lease (hstable.and (stable_own _ _)) fun w hw => ⟨rfl, hw.1⟩

/-! ### Acquiring -/

/-- What is thrown does not matter where no lease was promised. -/
lemma throw_triple (hφ : ¬φ) (error : LeaseError) :
    LeaseTriple leaseDirectory call (Inside call directory old free dead) (throw error)
      (Acquired call directory canonicalPath old φ) :=
  triple_throw mortal_lease stable_inside fun _ hw => ⟨hw.guard, fun h => absurd h hφ⟩

lemma readLeaseOwner_triple : LeaseTriple leaseDirectory call (Inside call directory old free dead)
      (perform (.readLeaseOwner (.lease directory)))
      fun r w => ∃ owner?, r = .ok owner? ∧ Inside call directory old free dead w ∧
        w.ownerAt (.lease directory) = owner? :=
  quiet_triple stable_inside
    (fun _ => .exists fun owner? => (stable_const _ _ _ _).and (stable_ownerAt owner?))
    fun _ _ _ hw _ hanswer => ⟨hanswer.2, _, hanswer.1, hw, rfl⟩

/-- What comes of an owner that was read. -/
lemma ifAlive_triple {owner? : Option SessionLeaseOwner} {p q : LeaseProgram SessionLease}
    (hp : ¬dead → LeaseTriple leaseDirectory call (Inside call directory old free dead) p
      (Acquired call directory canonicalPath old φ))
    (hq : LeaseTriple leaseDirectory call (Inside call directory old free True) q
      (Acquired call directory canonicalPath old φ)) :
    LeaseTriple leaseDirectory call
      (fun w => Inside call directory old free dead w ∧ w.ownerAt (.lease directory) = owner?)
      (do if ← ownerAlive owner? then p else q) (Acquired call directory canonicalPath old φ) := by
  refine (ownerAlive_triple owner?).bind_ok mortal_lease fun alive => ?_
  refine triple_of_and mortal_lease fun hdead => ?_
  cases alive with
  | true =>
    refine (hp (hdead rfl)).mono (fun w hw => ?_) fun _ _ => id
    exact ⟨hw.guard, hw.free, fun h => absurd h (hdead rfl), hw.old⟩
  | false =>
    refine hq.mono (fun w hw => ?_) fun _ _ => id
    exact ⟨hw.guard, hw.free, fun _ => hw.dead (.inr rfl), hw.old⟩

lemma refuse_triple (hφ : ¬φ) :
    LeaseTriple leaseDirectory call (Inside call directory old free dead)
      (LeaseProcess.refuse directory canonicalPath)
      (Acquired call directory canonicalPath old φ) := by
  have hexists : LeaseTriple leaseDirectory call (Inside call directory old free dead)
      (perform (.existsSync (.lease directory)))
      fun r w => ∃ present, r = .ok present ∧ Inside call directory old free dead w ∧
        (present = false → w.ownerAt (.lease directory) = none) := by
    refine quiet_triple stable_inside (fun r => .exists fun present => ?_) ?_
    · refine (stable_const _ _ _ _).and ?_
      rintro w w' ⟨hin, hnone⟩ hrely halive
      refine ⟨stable_inside w w' hin hrely halive, fun habsent => ?_⟩
      exact (stable_ownerAt none w w' ⟨hin, hnone habsent⟩ hrely halive).2
    · rintro w r w' hin - ⟨rfl, rfl⟩
      refine ⟨rfl, _, rfl, hin, fun habsent => ?_⟩
      rw [Option.isSome_eq_false_iff, Option.isNone_iff_eq_none] at habsent
      rw [LeaseWorld.ownerAt, habsent]
  refine Triple.bind_ok (R := fun owner? w => Inside call directory old free dead w ∧
    w.ownerAt (.lease directory) = owner?) mortal_lease ?_ fun owner? =>
      ifAlive_triple (fun _ => throw_triple hφ _) (throw_triple hφ _)
  refine hexists.bind_ok mortal_lease fun present => ?_
  cases present with
  | true => exact readLeaseOwner_triple.mono (fun _ hw => hw.1) fun _ _ => id
  | false =>
    refine (triple_pure mortal_lease (stable_ownerAt none) fun w hw => ?_).mono
      (fun w hw => ⟨hw.1, hw.2 rfl⟩) fun _ _ => id
    exact ⟨none, rfl, hw⟩

/-- **An acquisition under the guard** ends with a lease if the directory is free, or its owner is
dead and there are two attempts. -/
lemma acquire_triple (hreq : ∀ lease, call.request ≠ .release lease)
    (hdir : directory = leaseDirectory canonicalPath) (process : LeaseProcess) (attempts : ℕ)
    (free dead : Prop) :
    LeaseTriple leaseDirectory call (Inside call directory old free dead)
      (process.acquire directory canonicalPath attempts)
      (Acquired call directory canonicalPath old (free ∧ 1 ≤ attempts ∨ dead ∧ 2 ≤ attempts)) := by
  induction attempts generalizing free dead with
  | zero => exact refuse_triple (by simp)
  | succ attempts ih =>
    have hcand : ∀ token, Ignores (.candidate directory process.pid token)
        (Drafting call directory old free dead token) :=
      fun token => ignores_drafting (by simp) token
    refine randomUUID_triple.bind_ok mortal_lease fun token => ?_
    -- the clock is read, and the candidate is written
    refine Triple.bind_ok (R := fun _ w => Drafting call directory old free dead token w ∧
      Own call (.candidate directory process.pid token) none w) mortal_lease ?_ fun createdAt => ?_
    · refine (quiet_triple ((stable_drafting token).and (stable_own _ _))
        (fun r => .exists fun now => (stable_const _ _ _ _).and
          ((stable_drafting token).and (stable_own _ _))) ?_).mono
        (fun w hw => ⟨hw.1, (hw.2 directory process.pid).1⟩) fun _ _ => id
      rintro w r w' hw - ⟨⟨now, rfl⟩, rfl⟩
      exact ⟨rfl, now, rfl, hw⟩
    refine (own_triple (.mkdir (.candidate directory process.pid token)) () (some .empty)
      (stable_drafting token) (hcand token) ?_).seq mortal_lease ?_
    · rintro w r w' hnone (⟨-, rfl, rfl⟩ | ⟨hsome, -⟩)
      · exact ⟨rfl, rfl⟩
      · exact absurd hnone hsome
    refine (writeFileSync_triple (stable_drafting token) (hcand token)).seq mortal_lease ?_
    refine Triple.attempt_bind (renameCandidate_triple hreq rfl) fun result => ?_
    refine triple_of_or mortal_lease (triple_of_and mortal_lease ?_)
      (triple_of_and mortal_lease fun hres => triple_of_and mortal_lease fun hfree => ?_)
    · rintro rfl
      exact newSessionLease_triple hdir
    · -- the directory was not free: its owner is looked at, and removed if it is dead
      have hrest : LeaseTriple leaseDirectory call
          (fun w => Drafting call directory old free dead token w ∧
            Own call (.candidate directory process.pid token) none w)
          (do
            let existingOwner ← perform (.readLeaseOwner (.lease directory))
            if ← ownerAlive existingOwner then
              throw (.sessionAlreadyActive canonicalPath (existingOwner.bind (·.activeSessionId)))
            else do
              let _ ← reclaimStaleLease process.pid directory
              process.acquire directory canonicalPath attempts)
          (Acquired call directory canonicalPath old
            (free ∧ 1 ≤ attempts + 1 ∨ dead ∧ 2 ≤ attempts + 1)) := by
        refine (readLeaseOwner_triple.mono (fun _ hw => hw.1.1) fun _ _ => id).bind_ok mortal_lease
          fun owner? => ifAlive_triple (fun hdead => ?_) ?_
        · exact throw_triple (by simp [hfree, hdead]) _
        · refine (reclaimStaleLease_triple hreq process.pid).seq mortal_lease ?_
          refine (ih True True).mono (fun _ => id) fun r w hw => ⟨hw.guard, fun h => hw.lease ?_⟩
          simp only [hfree, false_and, false_or] at h
          exact .inl ⟨trivial, Nat.le_of_succ_le_succ h.2⟩
      rcases result with error | ⟨⟩
      · refine (rmSync_triple (stable_drafting token) (hcand token)).seq mortal_lease ?_
        rw [if_pos (by simpa using hres)]
        exact hrest
      · simp at hres

/-! ### The guard -/

/-- What the attempts at the lock come to. -/
lemma lockGuard_triple (hP : LeaseStable leaseDirectory call P)
    (hignores : ∀ w, P w → P (w.setGuard directory (some call))) (attempts : ℕ) :
    LeaseTriple leaseDirectory call P (lockGuard directory attempts) fun r w =>
      P w ∧ (r = .ok () → w.guards directory = some call) := by
  have hguard : LeaseStable leaseDirectory call fun w => w.guards directory = some call :=
    fun w w' h hrely halive => (hrely.guarded halive directory h).1
  have hthrow : ∀ error : LeaseError, LeaseTriple leaseDirectory call P
      (throw error : LeaseProgram Unit) fun r w =>
        P w ∧ (r = .ok () → w.guards directory = some call) :=
    fun error => triple_throw mortal_lease hP fun w hw => ⟨hw, nofun⟩
  induction attempts with
  | zero => exact hthrow _
  | succ attempts ih =>
    refine Triple.attempt_bind (R := fun r w => P w ∧ (r = .ok () →
      w.guards directory = some call)) ?_ fun result => ?_
    · refine triple_effect mortal_lease hP (fun r => hP.and hguard.imp) ?_
      rintro w r w' hw hI ⟨-, ⟨hfree, rfl, rfl⟩ | ⟨-, rfl, rfl⟩⟩
      · exact ⟨hI.setGuard _, .lock hfree, hignores w hw, fun _ => Function.update_self ..⟩
      · exact ⟨hI, .refl call _, hw, nofun⟩
    · rcases result with error | ⟨⟩
      · cases error with
        | elocked => exact ih.mono (fun w hw => hw.1) fun _ _ => id
        | _ => exact (hthrow _).mono (fun w hw => hw.1) fun _ _ => id
      · exact triple_pure mortal_lease (hP.and hguard.imp) fun w hw => ⟨hw.1, fun _ => hw.2 rfl⟩

/-- The guard is given back whatever the action came to. -/
lemma underGuard_triple {action : LeaseProgram α} {R : Except LeaseError α → LeaseWorld π → Prop}
    (hR : ∀ r, LeaseStable leaseDirectory call (R r))
    (hignores : ∀ r w, R r w → R r (w.setGuard directory none))
    (h : LeaseTriple leaseDirectory call P action fun r w =>
      w.guards directory = some call ∧ R r w) :
    LeaseTriple leaseDirectory call P (underGuard directory action) R := by
  have hguard : LeaseStable leaseDirectory call fun w => w.guards directory = some call :=
    fun w w' h hrely halive => (hrely.guarded halive directory h).1
  refine Triple.attempt_bind h fun result => ?_
  refine Triple.seq (b := ()) (R := R result) mortal_lease ?_ ?_
  · refine triple_effect mortal_lease (hguard.and (hR result))
      (fun r => (stable_const _ _ _ _).and (hR result)) ?_
    rintro w r w' ⟨hw, hres⟩ hI ⟨-, rfl, rfl⟩
    exact ⟨hI.setGuard _, .unlock hw, rfl, hignores _ _ hres⟩
  · rcases result with error | a
    · exact triple_throw mortal_lease (hR _) fun _ => id
    · exact triple_pure mortal_lease (hR _) fun _ => id

/-! ### The two calls -/

/-- What the caller has of an acquisition: where `φ`, a lease with a new token. -/
def Obtained (call : LeaseCall π) (directory canonicalPath : String) (old : String → Prop)
    (φ : Prop) (r : Except LeaseError SessionLease) (w : LeaseWorld π) : Prop :=
  φ → ∃ token, r = .ok ⟨canonicalPath, directory, token⟩ ∧ ¬old token ∧
    w.leases call.process ⟨canonicalPath, directory, token⟩ ≠ none

/-- **An acquisition from its entry into the guard on.** -/
lemma underGuard_acquire_triple (hreq : ∀ lease, call.request ≠ .release lease)
    (hdir : directory = leaseDirectory canonicalPath) (process : LeaseProcess)
    (old : String → Prop) (dead : Prop) :
    LeaseTriple leaseDirectory call (Inside call directory old False dead)
      (underGuard directory (process.acquire directory canonicalPath 3))
      (Obtained call directory canonicalPath old dead) := by
  refine underGuard_triple (fun r w w' h hrely _ hdead => ?_) (fun _ _ h hdead => h hdead)
    ((acquire_triple hreq hdir process 3 False dead).mono (fun _ => id)
      fun r w hw => ⟨hw.guard, fun hdead => hw.lease (.inr ⟨hdead, by decide⟩)⟩)
  obtain ⟨token, hr, hnew, hlease⟩ := h hdead
  exact ⟨token, hr, hnew, hrely.lease _ _ hlease⟩

lemma acquireSessionLease_triple (hreq : ∀ lease, call.request ≠ .release lease)
    (process : LeaseProcess) (sessionPath : Option String) :
    LeaseTriple leaseDirectory call (fun _ => True)
      (process.acquireSessionLease leaseDirectory sessionPath) fun _ _ => True := by
  have htrue : LeaseStable leaseDirectory call fun _ => True := stable_const _ _ _ _
  cases sessionPath with
  | none => exact triple_pure mortal_lease htrue fun _ => id
  | some sessionPath =>
    rw [LeaseProcess.acquireSessionLease]
    split_ifs
    · exact triple_pure mortal_lease htrue fun _ => id
    · refine Triple.bind (R := fun _ _ => True) (quiet_triple htrue (fun _ => htrue) ?_)
        (fun canonicalPath => ?_) fun _ _ => id
      · rintro w r w' - - ⟨-, rfl⟩
        exact ⟨rfl, trivial⟩
      · refine Triple.bind (R := fun _ _ => True) ?_ (fun lease => ?_) fun _ _ => id
        · refine (lockGuard_triple htrue (fun _ => id) 100).bind (fun _ => ?_) fun _ _ _ => trivial
          refine (underGuard_acquire_triple hreq rfl process (fun _ => False) False).mono
            (fun w hw => ?_) fun _ _ _ => trivial
          exact ⟨hw.2 rfl, False.elim, False.elim, fun _ => False.elim⟩
        · exact triple_pure mortal_lease htrue fun _ => id

/-- The lease has been marked as released by the call's process. -/
def MarkedReleased (call : LeaseCall π) (lease : SessionLease) (w : LeaseWorld π) : Prop :=
  w.leases call.process lease = some true

lemma stable_markedReleased (lease : SessionLease) :
    LeaseStable leaseDirectory call (MarkedReleased call lease) :=
  fun _ _ h hrely _ => hrely.released _ _ h

/-- Under the guard a directory stays as it is. -/
lemma stable_guarded_dir (content : Option LeaseContent) : LeaseStable leaseDirectory call fun w =>
      w.guards directory = some call ∧ w.dirs (.lease directory) = content := by
  rintro w w' ⟨hguard, hdir⟩ hrely halive
  obtain ⟨hguard', hdir'⟩ := hrely.guarded halive directory hguard
  exact ⟨hguard', hdir'.trans hdir⟩

/-- A directory with the token of a released lease is held by nobody. -/
lemma not_holds_of_released (hI : LeaseInvariant leaseDirectory w)
    (hrel : MarkedReleased call lease w)
    (howned : w.dirs (.lease lease.directory) = some (.owned owner))
    (htoken : owner.token = lease.token) {p : π} {lease' : SessionLease}
    (hholds : w.Holds p lease') : lease'.directory ≠ lease.directory := by
  intro hdir
  obtain ⟨owner', howned', htoken'⟩ := hI.held p lease' hholds
  rw [hdir, howned, Option.some.injEq, LeaseContent.owned.injEq] at howned'
  have htokens : lease'.token = lease.token := by rw [← htoken', ← howned', htoken]
  have hrel' : w.leases call.process lease ≠ none := by
    rw [MarkedReleased] at hrel
    simp [hrel]
  have hlease' : w.leases p lease' ≠ none := by simp [hholds.2]
  obtain ⟨writer, hwriter, rfl⟩ := hI.lease_issued p lease' hlease'
  obtain ⟨writer', hwriter', hprocess⟩ := hI.lease_issued _ lease hrel'
  rw [htokens, hwriter', Option.some.injEq] at hwriter
  rw [← hwriter, hprocess] at hlease' hholds
  obtain rfl := hI.lease_unique _ lease' lease hlease' hrel' htokens
  exact absurd (hholds.2.symm.trans hrel) (by simp)

/-- What a release does under the guard. -/
lemma removeOwn_triple (hreq : call.request = .release lease) : LeaseTriple leaseDirectory call
      (fun w => MarkedReleased call lease w ∧ w.guards lease.directory = some call)
      (do
        let owner ← perform (.readLeaseOwner (.lease lease.directory))
        if owner.map (·.token) = some lease.token then rmSync (.lease lease.directory)
        else pure ())
      fun _ w => w.guards lease.directory = some call := by
  have hguard : LeaseStable leaseDirectory call fun w => w.guards lease.directory = some call :=
    fun w w' h hrely halive => (hrely.guarded halive _ h).1
  have hmarked : LeaseStable leaseDirectory call (MarkedReleased call lease) :=
    stable_markedReleased lease
  refine Triple.bind_ok (R := fun owner? w => MarkedReleased call lease w ∧
    w.guards lease.directory = some call ∧ ∀ owner, owner? = some owner →
      w.dirs (.lease lease.directory) = some (.owned owner)) mortal_lease ?_ fun owner? => ?_
  · have hstable : ∀ owner? : Option SessionLeaseOwner, LeaseStable leaseDirectory call fun w =>
        MarkedReleased call lease w ∧ w.guards lease.directory = some call ∧
          ∀ owner, owner? = some owner → w.dirs (.lease lease.directory) = some (.owned owner) := by
      rintro owner? w w' ⟨hrel, hguarded, howned⟩ hrely halive
      obtain ⟨hguarded', hdir⟩ := hrely.guarded halive _ hguarded
      exact ⟨hmarked w w' hrel hrely halive, hguarded', fun owner ho =>
        hdir.trans (howned owner ho)⟩
    refine quiet_triple (hmarked.and hguard) (fun r => .exists fun owner? =>
      (stable_const _ _ _ _).and (hstable owner?)) ?_
    rintro w r w' ⟨hrel, hguarded⟩ - ⟨rfl, rfl⟩
    exact ⟨rfl, _, rfl, hrel, hguarded, fun owner => ownerAt_eq_some_iff.mp⟩
  · split_ifs with hsame
    · obtain ⟨owner, rfl, htoken⟩ := Option.map_eq_some_iff.mp hsame
      -- the owner goes first, and then the directory
      refine Triple.seq (b := ()) (R := fun w => w.guards lease.directory = some call ∧
        w.dirs (.lease lease.directory) = some .empty) mortal_lease ?_ ?_
      · refine (triple_effect mortal_lease (hmarked.and (stable_guarded_dir
          (some (.owned owner)))) (fun r => (stable_const _ _ _ _).and
            (stable_guarded_dir _)) ?_).mono (fun w hw => ⟨hw.1, hw.2.1, hw.2.2 owner rfl⟩)
          fun _ _ => id
        rintro w r w' ⟨hrel, hguarded, howned⟩ hI ⟨-, rfl, rfl⟩
        rw [howned, Option.isSome_some, if_pos rfl]
        exact ⟨hI.clear (fun p lease' hholds =>
            not_holds_of_released hI hrel howned htoken hholds) nofun,
          .remove hreq hguarded (.inl ⟨owner, howned, htoken⟩) _,
          rfl, hguarded, dirs_setDir_self ..⟩
      · refine triple_effect mortal_lease (stable_guarded_dir _) (fun _ => hguard) ?_
        rintro w r w' ⟨hguarded, hempty⟩ hI ⟨-, ⟨-, rfl, rfl⟩ | ⟨hnot, -⟩⟩
        · refine ⟨hI.clear (fun p lease' hholds hdirectory => ?_) nofun,
            .remove hreq hguarded (.inr hempty) _, hguarded⟩
          obtain ⟨owner', howned', -⟩ := hI.held p lease' hholds
          rw [hdirectory, hempty] at howned'
          cases howned'
        · exact absurd (.inr hempty) hnot
    · exact (triple_pure mortal_lease hguard fun _ => id).mono (fun w hw => hw.2.1) fun _ _ => id

lemma release_triple (hreq : call.request = .release lease) :
    LeaseTriple leaseDirectory call (fun w => w.leases call.process lease ≠ none)
      lease.release fun _ _ => True := by
  have htrue : LeaseStable leaseDirectory call fun _ => True := stable_const _ _ _ _
  have hmarked : LeaseStable leaseDirectory call (MarkedReleased call lease) :=
    stable_markedReleased lease
  refine Triple.bind (R := fun _ => MarkedReleased call lease)
    (triple_effect mortal_lease (fun w w' h hrely _ => hrely.lease _ _ h) (fun _ => hmarked) ?_)
    (fun released => ?_) fun _ _ _ => trivial
  · rintro w r w' hlease hI ⟨-, rfl, rfl⟩
    obtain ⟨call', hcall, -⟩ := hI.lease_issued _ _ hlease
    refine ⟨hI.markReleased hlease, .markReleased hreq ⟨call', hcall, hlease⟩, ?_⟩
    simp [MarkedReleased, w.leases_setLease]
  · split_ifs
    · exact triple_pure mortal_lease hmarked fun _ _ => trivial
    · refine Triple.attempt_bind (R := fun _ _ => True) ?_ fun _ =>
        triple_pure mortal_lease htrue fun _ => id
      refine (lockGuard_triple hmarked (fun _ => id) 100).bind (fun _ => ?_) fun _ _ _ => trivial
      refine underGuard_triple (fun _ => htrue) (fun _ _ => id) ?_
      exact (removeOwn_triple hreq).mono (fun w hw => ⟨hw.1, hw.2 rfl⟩)
        fun _ _ hw => ⟨hw, trivial⟩

end Triples

end Amide
