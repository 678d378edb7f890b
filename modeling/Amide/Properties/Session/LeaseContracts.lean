import Amide.Construction.Session.SessionLease

/-!
# What the calls on session leases rely on

The files say who holds a lease: as long as a live process holds one, its directory has an owner
with its token (`LeaseInvariant`), and a token is given to one call only.  A call may count on the
directories it has the guard of, and on its own candidates (`LeaseRely`); in turn it changes a
lease directory only under the guard (`LeaseGuarantee`).

There is a lemma for each kind of effect that touches any of this.
-/

namespace Amide

open Function

variable {π : Type}

namespace LeaseWorld

variable (w : LeaseWorld π) (path path' : LeasePath) (content : Option LeaseContent)

@[simp] lemma dirs_setDir_self : (w.setDir path content).dirs path = content :=
  update_self ..

variable {path path'} in
lemma dirs_setDir_of_ne (h : path' ≠ path) : (w.setDir path content).dirs path' = w.dirs path' :=
  update_of_ne h ..

end LeaseWorld

/-- What is true of the files and the lease objects at all times. -/
structure LeaseInvariant (leaseDirectory : String → String) (w : LeaseWorld π) : Prop where
  owner_issued : ∀ directory owner, w.dirs (.lease directory) = some (.owned owner) →
    ∃ call, w.issued owner.token = some call
  held : ∀ p lease, w.Holds p lease →
    ∃ owner, w.dirs (.lease lease.directory) = some (.owned owner) ∧ owner.token = lease.token
  lease_issued : ∀ p lease, w.leases p lease ≠ none →
    ∃ call, w.issued lease.token = some call ∧ call.process = p
  directory_eq : ∀ p lease, w.leases p lease ≠ none →
    lease.directory = leaseDirectory lease.sessionPath
  lease_unique : ∀ p lease lease', w.leases p lease ≠ none → w.leases p lease' ≠ none →
    lease.token = lease'.token → lease = lease'
  unissued : ∀ token, w.issued token = none → ∀ directory pid,
    w.dirs (.candidate directory pid token) = none ∧ w.dirs (.stale directory pid token) = none
  finite_issued : {token | w.issued token ≠ none}.Finite

/-- What nobody else changes for a call. -/
structure LeaseRely (call : LeaseCall π) (w w' : LeaseWorld π) : Prop where
  crashed : ∀ p, w.crashed p → w'.crashed p
  issued : ∀ token call', w.issued token = some call' → w'.issued token = some call'
  guarded : ¬w'.crashed call.process → ∀ directory, w.guards directory = some call →
    w'.guards directory = some call ∧ w'.dirs (.lease directory) = w.dirs (.lease directory)
  own : ∀ token, w.issued token = some call → ∀ directory pid,
    w'.dirs (.candidate directory pid token) = w.dirs (.candidate directory pid token) ∧
      w'.dirs (.stale directory pid token) = w.dirs (.stale directory pid token)
  fresh : ∀ p lease, w.issued lease.token = some call → w.leases p lease = none →
    w'.leases p lease = none
  lease : ∀ p lease, w.leases p lease ≠ none → w'.leases p lease ≠ none
  released : ∀ p lease, w.leases p lease = some true → w'.leases p lease = some true

/-- A release changes its own directory only, under the guard, and only while the directory has
its token or no owner at all. -/
def RemovesOwn (call : LeaseCall π) (w w' : LeaseWorld π) : Prop :=
  ∀ lease, call.request = .release lease → ∀ directory,
    w'.dirs (.lease directory) ≠ w.dirs (.lease directory) →
      directory = lease.directory ∧ w.guards directory = some call ∧
        ((∃ owner, w.dirs (.lease directory) = some (.owned owner) ∧
          owner.token = lease.token) ∨ w.dirs (.lease directory) = some .empty)

/-- What a call lets the others rely on. -/
structure LeaseGuarantee (call : LeaseCall π) (w w' : LeaseWorld π) : Prop where
  others : ∀ call', call ≠ call' → LeaseRely call' w w'
  removes : RemovesOwn call w w'
  acquires : ∀ sessionPath, call.request = .acquire sessionPath → ∀ p lease,
    w'.leases p lease = some true → w.leases p lease = some true

lemma LeaseRely.refl (call : LeaseCall π) (w : LeaseWorld π) : LeaseRely call w w where
  crashed _ := id
  issued _ _ := id
  guarded _ _ h := ⟨h, rfl⟩
  own _ _ _ _ := ⟨rfl, rfl⟩
  fresh _ _ _ := id
  lease _ _ := id
  released _ _ := id

lemma LeaseRely.trans {call : LeaseCall π} {w₁ w₂ w₃ : LeaseWorld π} (h : LeaseRely call w₁ w₂)
    (h' : LeaseRely call w₂ w₃) : LeaseRely call w₁ w₃ where
  crashed p hp := h'.crashed p (h.crashed p hp)
  issued token call' ht := h'.issued token call' (h.issued token call' ht)
  guarded halive directory hguard := by
    obtain ⟨hguard₂, hdir⟩ := h.guarded (fun hp => halive (h'.crashed _ hp)) directory hguard
    obtain ⟨hguard₃, hdir'⟩ := h'.guarded halive directory hguard₂
    exact ⟨hguard₃, hdir'.trans hdir⟩
  own token ht directory pid := by
    obtain ⟨hcand, hstale⟩ := h.own token ht directory pid
    obtain ⟨hcand', hstale'⟩ := h'.own token (h.issued _ _ ht) directory pid
    exact ⟨hcand'.trans hcand, hstale'.trans hstale⟩
  fresh p lease ht hnone := h'.fresh p lease (h.issued _ _ ht) (h.fresh p lease ht hnone)
  lease p lease hsome := h'.lease p lease (h.lease p lease hsome)
  released p lease hr := h'.released p lease (h.released p lease hr)

def leaseContracts (leaseDirectory : String → String) : Contracts (LeaseCall π) (LeaseWorld π) where
  invariant := LeaseInvariant leaseDirectory
  rely := LeaseRely
  guarantee := LeaseGuarantee
  rely_refl := LeaseRely.refl
  rely_trans _ _ _ _ := LeaseRely.trans
  rely_of_guarantee _ call' _ _ hne h := h.others call' hne

/-! ## Effects on directories -/

section Effects

variable {leaseDirectory : String → String} {call : LeaseCall π} {w : LeaseWorld π}
  {directory token : String} {pid : ℕ}

/-- An effect that changes nothing. -/
lemma LeaseGuarantee.refl (call : LeaseCall π) (w : LeaseWorld π) : LeaseGuarantee call w w where
  others call' _ := .refl call' w
  removes _ _ _ hchange := absurd rfl hchange
  acquires _ _ _ _ := id

/-- An effect on directories only: lease directories under the guard, and the call's own. -/
lemma LeaseGuarantee.of_dirs {dirs : LeasePath → Option LeaseContent}
    (hlease : ∀ directory, dirs (.lease directory) ≠ w.dirs (.lease directory) →
      w.guards directory = some call)
    (hown : ∀ token, w.issued token ≠ some call → ∀ directory pid,
      dirs (.candidate directory pid token) = w.dirs (.candidate directory pid token) ∧
        dirs (.stale directory pid token) = w.dirs (.stale directory pid token))
    (hremoves : RemovesOwn call w { w with dirs }) :
    LeaseGuarantee call w { w with dirs } where
  others call' hne :=
    { crashed _ := id
      issued _ _ := id
      guarded _ directory hguard := by
        refine ⟨hguard, ?_⟩
        by_contra hchange
        rw [hlease directory hchange, Option.some.injEq] at hguard
        exact hne hguard
      own token ht := hown token fun h => hne (Option.mem_unique h ht)
      fresh _ _ _ := id
      lease _ _ := id
      released _ _ := id }
  removes := hremoves
  acquires _ _ _ _ := id

variable {path : LeasePath}

lemma dirs_lease_setDir
    (hpath : path = .candidate directory pid token ∨ path = .stale directory pid token)
    (content : Option LeaseContent) (lease : String) :
    (w.setDir path content).dirs (.lease lease) = w.dirs (.lease lease) := by
  refine w.dirs_setDir_of_ne content ?_
  rcases hpath with rfl | rfl <;> simp

/-- An effect on directories of the call's own. -/
lemma LeaseGuarantee.setOwn (hissued : w.issued token = some call)
    (hpath : path = .candidate directory pid token ∨ path = .stale directory pid token)
    (content : Option LeaseContent) : LeaseGuarantee call w (w.setDir path content) := by
  have hlease := dirs_lease_setDir (w := w) hpath content
  refine .of_dirs (fun d hchange => absurd (hlease d) hchange) ?_
    fun _ _ d hchange => absurd (hlease d) hchange
  intro token' hother directory' pid'
  have hne : token' ≠ token := by
    rintro rfl
    exact hother hissued
  rcases hpath with rfl | rfl <;> simp [hne]

/-- The invariant does not look at the directories of an issued token. -/
lemma LeaseInvariant.setOwn (h : LeaseInvariant leaseDirectory w)
    (hissued : w.issued token = some call)
    (hpath : path = .candidate directory pid token ∨ path = .stale directory pid token)
    (content : Option LeaseContent) : LeaseInvariant leaseDirectory (w.setDir path content) := by
  have hlease := dirs_lease_setDir (w := w) hpath content
  refine ⟨?_, ?_, h.lease_issued, h.directory_eq, h.lease_unique, ?_, h.finite_issued⟩
  · intro d owner howned
    exact h.owner_issued d owner (hlease d ▸ howned)
  · intro p lease hholds
    rw [hlease]
    exact h.held p lease hholds
  · intro token' hnone directory' pid'
    have hne : token' ≠ token := by
      rintro rfl
      exact absurd (hnone.symm.trans hissued) (by simp)
    have hold := h.unissued token' hnone directory' pid'
    rcases hpath with rfl | rfl
    · rwa [w.dirs_setDir_of_ne _ (by simp [hne]), w.dirs_setDir_of_ne _ (by simp)]
    · rwa [w.dirs_setDir_of_ne _ (by simp), w.dirs_setDir_of_ne _ (by simp [hne])]

/-- A rename between the lease directory and a name of the call's own. -/
lemma LeaseGuarantee.rename (hguard : w.guards directory = some call)
    (hissued : w.issued token = some call) (hreq : ∀ lease, call.request ≠ .release lease)
    (hpath : path = .candidate directory pid token ∨ path = .stale directory pid token)
    (content content' : Option LeaseContent) :
    LeaseGuarantee call w ((w.setDir path content).setDir (.lease directory) content') ∧
      LeaseGuarantee call w ((w.setDir (.lease directory) content').setDir path content) := by
  have hne : LeasePath.lease directory ≠ path := by
    rcases hpath with rfl | rfl <;> simp
  have hcomm : (w.setDir (.lease directory) content').setDir path content =
      (w.setDir path content).setDir (.lease directory) content' := by
    exact congrArg (fun dirs => { w with dirs }) (update_comm hne ..)
  rw [hcomm, and_self]
  refine .of_dirs ?_ ?_ fun lease hrelease => absurd hrelease (hreq lease)
  · intro d hchange
    by_contra hother
    refine hchange ?_
    have hd : d ≠ directory := by
      rintro rfl
      exact hother hguard
    have hpath' : LeasePath.lease d ≠ path := by
      rcases hpath with rfl | rfl <;> simp
    rw [update_of_ne (by simpa using hd)]
    exact update_of_ne hpath' ..
  · intro token' hother directory' pid'
    have htoken : token' ≠ token := by
      rintro rfl
      exact hother hissued
    rcases hpath with rfl | rfl <;> simp [LeaseWorld.setDir, htoken]

variable {owner : SessionLeaseOwner}

/-- A lease comes into being in a directory nobody holds. -/
lemma LeaseInvariant.place (h : LeaseInvariant leaseDirectory w)
    (hvacant : w.Vacant (.lease directory))
    (hissued : w.issued owner.token = some call) :
    LeaseInvariant leaseDirectory (w.setDir (.lease directory) (some (.owned owner))) := by
  refine ⟨?_, ?_, h.lease_issued, h.directory_eq, h.lease_unique, ?_, h.finite_issued⟩
  · intro d owner' howned
    by_cases hd : d = directory
    · subst hd
      rw [LeaseWorld.dirs_setDir_self] at howned
      cases howned
      exact ⟨call, hissued⟩
    · rw [LeaseWorld.dirs_setDir_of_ne _ _ (by simpa using hd)] at howned
      exact h.owner_issued d owner' howned
  · intro p lease hholds
    obtain ⟨owner', howned, htoken⟩ := h.held p lease hholds
    have hd : lease.directory ≠ directory := by
      rintro hd
      rw [hd] at howned
      rcases hvacant with hnone | hempty
      · simp [hnone] at howned
      · simp [hempty] at howned
    rw [LeaseWorld.dirs_setDir_of_ne _ _ (by simpa using hd)]
    exact ⟨owner', howned, htoken⟩
  · intro token' hnone directory' pid'
    exact h.unissued token' hnone directory' pid'

/-- A directory loses its owner, where nobody who is alive holds it. -/
lemma LeaseInvariant.clear (h : LeaseInvariant leaseDirectory w)
    (hfree : ∀ p lease, w.Holds p lease → lease.directory ≠ directory)
    {content : Option LeaseContent} (hcont : ∀ owner, content ≠ some (.owned owner)) :
    LeaseInvariant leaseDirectory (w.setDir (.lease directory) content) := by
  refine ⟨?_, ?_, h.lease_issued, h.directory_eq, h.lease_unique, ?_, h.finite_issued⟩
  · intro d owner howned
    by_cases hd : d = directory
    · subst hd
      rw [LeaseWorld.dirs_setDir_self] at howned
      exact absurd howned (hcont owner)
    · rw [LeaseWorld.dirs_setDir_of_ne _ _ (by simpa using hd)] at howned
      exact h.owner_issued d owner howned
  · intro p lease hholds
    rw [LeaseWorld.dirs_setDir_of_ne _ _ (by simpa using hfree p lease hholds)]
    exact h.held p lease hholds
  · intro token' hnone directory' pid'
    exact h.unissued token' hnone directory' pid'

variable {lease : SessionLease}

/-- A release changes its own directory. -/
lemma LeaseGuarantee.remove (hreq : call.request = .release lease)
    (hguard : w.guards lease.directory = some call)
    (hown : (∃ owner, w.dirs (.lease lease.directory) = some (.owned owner) ∧
      owner.token = lease.token) ∨ w.dirs (.lease lease.directory) = some .empty)
    (content : Option LeaseContent) :
    LeaseGuarantee call w (w.setDir (.lease lease.directory) content) := by
  have hother : ∀ d, d ≠ lease.directory →
      (w.setDir (.lease lease.directory) content).dirs (.lease d) = w.dirs (.lease d) :=
    fun d hd => w.dirs_setDir_of_ne content (by simpa using hd)
  refine .of_dirs ?_ ?_ ?_
  · intro d hchange
    obtain rfl : d = lease.directory := by_contra fun hd => hchange (hother d hd)
    exact hguard
  · intro token' _ directory' pid'
    exact ⟨update_of_ne (by simp) .., update_of_ne (by simp) ..⟩
  · intro lease' hrelease d hchange
    obtain rfl : lease = lease' := by
      rw [hreq] at hrelease
      cases hrelease
      rfl
    obtain rfl : d = lease.directory := by_contra fun hd => hchange (hother d hd)
    exact ⟨rfl, hguard, hown⟩

/-! ## Tokens, guards and lease objects -/

lemma LeaseWorld.issued_issue (w : LeaseWorld π) (token token' : String) (call : LeaseCall π) :
    (w.issue token call).issued token' = if token' = token then some call else w.issued token' :=
  update_apply ..

lemma LeaseWorld.issued_of_issued (hnone : w.issued token = none) {token' : String}
    {call' : LeaseCall π} (h : w.issued token' = some call') :
    (w.issue token call).issued token' = some call' := by
  rw [issued_issue, if_neg, h]
  rintro rfl
  exact absurd (h.symm.trans hnone) (by simp)

lemma LeaseGuarantee.issue (hnone : w.issued token = none) :
    LeaseGuarantee call w (w.issue token call) where
  others _ _ :=
    { crashed _ := id
      issued _ _ := w.issued_of_issued hnone
      guarded _ _ hguard := ⟨hguard, rfl⟩
      own _ _ _ _ := ⟨rfl, rfl⟩
      fresh _ _ _ := id
      lease _ _ := id
      released _ _ := id }
  removes _ _ _ hchange := absurd rfl hchange
  acquires _ _ _ _ := id

lemma LeaseInvariant.issue (h : LeaseInvariant leaseDirectory w) (hnone : w.issued token = none) :
    LeaseInvariant leaseDirectory (w.issue token call) where
  owner_issued d owner howned := by
    obtain ⟨call', hcall⟩ := h.owner_issued d owner howned
    exact ⟨call', w.issued_of_issued hnone hcall⟩
  held := h.held
  lease_issued p lease hlease := by
    obtain ⟨call', hcall, hp⟩ := h.lease_issued p lease hlease
    exact ⟨call', w.issued_of_issued hnone hcall, hp⟩
  directory_eq := h.directory_eq
  lease_unique := h.lease_unique
  unissued token' hnone' := by
    rw [w.issued_issue] at hnone'
    split at hnone'
    · cases hnone'
    · exact h.unissued token' hnone'
  finite_issued := by
    refine (h.finite_issued.insert token).subset fun token' ht => ?_
    rw [Set.mem_ofPred_eq, w.issued_issue] at ht
    split at ht
    · exact .inl ‹_›
    · exact .inr ht

lemma LeaseGuarantee.lock
    (hfree : ∀ holder, w.guards directory = some holder → w.crashed holder.process) :
    LeaseGuarantee call w (w.setGuard directory (some call)) where
  others call' hne :=
    { crashed _ := id
      issued _ _ := id
      guarded halive d hguard := by
        refine ⟨?_, rfl⟩
        rcases eq_or_ne d directory with rfl | hd
        · exact absurd (hfree call' hguard) halive
        · exact (update_of_ne hd ..).trans hguard
      own _ _ _ _ := ⟨rfl, rfl⟩
      fresh _ _ _ := id
      lease _ _ := id
      released _ _ := id }
  removes _ _ _ hchange := absurd rfl hchange
  acquires _ _ _ _ := id

lemma LeaseGuarantee.unlock (hguard : w.guards directory = some call) :
    LeaseGuarantee call w (w.setGuard directory none) where
  others call' hne :=
    { crashed _ := id
      issued _ _ := id
      guarded _ d hguard' := by
        refine ⟨?_, rfl⟩
        rcases eq_or_ne d directory with rfl | hd
        · exact absurd (Option.mem_unique hguard hguard') hne
        · exact (update_of_ne hd ..).trans hguard'
      own _ _ _ _ := ⟨rfl, rfl⟩
      fresh _ _ _ := id
      lease _ _ := id
      released _ _ := id }
  removes _ _ _ hchange := absurd rfl hchange
  acquires _ _ _ _ := id

lemma LeaseInvariant.setGuard (h : LeaseInvariant leaseDirectory w)
    (holder : Option (LeaseCall π)) :
    LeaseInvariant leaseDirectory (w.setGuard directory holder) :=
  ⟨h.owner_issued, h.held, h.lease_issued, h.directory_eq, h.lease_unique, h.unissued,
    h.finite_issued⟩

variable [DecidableEq π]

lemma LeaseWorld.leases_setLease (w : LeaseWorld π) (p p' : π) (lease lease' : SessionLease)
    (released : Bool) : (w.setLease p lease released).leases p' lease' =
      if p' = p ∧ lease' = lease then some released else w.leases p' lease' := by
  show Function.update w.leases p (Function.update (w.leases p) lease (some released)) p' lease' = _
  rw [update_apply]
  by_cases hp : p' = p
  · subst hp
    rw [if_pos rfl, update_apply]
    simp
  · simp [hp]

lemma LeaseGuarantee.newSessionLease (hissued : w.issued lease.token = some call)
    (hnone : ∀ p, w.leases p lease = none) :
    LeaseGuarantee call w (w.setLease call.process lease false) where
  others call' hne :=
    { crashed _ := id
      issued _ _ := id
      guarded _ _ hguard := ⟨hguard, rfl⟩
      own _ _ _ _ := ⟨rfl, rfl⟩
      fresh p lease' hissued' hnone' := by
        rw [w.leases_setLease, if_neg]
        · exact hnone'
        · rintro ⟨-, rfl⟩
          exact hne (Option.mem_unique hissued hissued')
      lease p lease' hlease := by
        rw [w.leases_setLease]
        split
        · simp
        · exact hlease
      released p lease' hrel := by
        rw [w.leases_setLease, if_neg]
        · exact hrel
        · rintro ⟨rfl, rfl⟩
          simp [hnone] at hrel }
  removes _ _ _ hchange := absurd rfl hchange
  acquires _ _ p lease' hrel := by
    rw [w.leases_setLease] at hrel
    split at hrel
    · cases hrel
    · exact hrel

/-- A lease object is made while the directory has its owner. -/
lemma LeaseInvariant.newSessionLease (h : LeaseInvariant leaseDirectory w)
    (howned : w.dirs (.lease lease.directory) = some (.owned owner))
    (htoken : owner.token = lease.token) (hissued : w.issued lease.token = some call)
    (hfresh : ∀ p lease', lease'.token = lease.token → w.leases p lease' = none)
    (hdir : lease.directory = leaseDirectory lease.sessionPath) :
    LeaseInvariant leaseDirectory (w.setLease call.process lease false) where
  owner_issued := h.owner_issued
  held p lease' hholds := by
    obtain ⟨halive, hlease⟩ := hholds
    rw [w.leases_setLease] at hlease
    split at hlease
    · rename_i heq
      rw [heq.2]
      exact ⟨owner, howned, htoken⟩
    · exact h.held p lease' ⟨halive, hlease⟩
  lease_issued p lease' hlease := by
    rw [w.leases_setLease] at hlease
    split at hlease
    · rename_i heq
      rw [heq.2, heq.1]
      exact ⟨call, hissued, rfl⟩
    · exact h.lease_issued p lease' hlease
  directory_eq p lease' hlease := by
    rw [w.leases_setLease] at hlease
    split at hlease
    · rename_i heq
      rw [heq.2]
      exact hdir
    · exact h.directory_eq p lease' hlease
  lease_unique p lease₁ lease₂ h₁ h₂ htokens := by
    rw [w.leases_setLease] at h₁ h₂
    split at h₁
    · rename_i heq₁
      split at h₂
      · rename_i heq₂
        exact heq₁.2.trans heq₂.2.symm
      · rw [heq₁.2] at htokens
        exact absurd (hfresh p lease₂ htokens.symm) h₂
    · split at h₂
      · rename_i heq₂
        rw [heq₂.2] at htokens
        exact absurd (hfresh p lease₁ htokens) h₁
      · exact h.lease_unique p lease₁ lease₂ h₁ h₂ htokens
  unissued := h.unissued
  finite_issued := h.finite_issued

lemma LeaseGuarantee.markReleased (hreq : call.request = .release lease)
    (hissued : ∃ call', w.issued lease.token = some call' ∧ w.leases call.process lease ≠ none) :
    LeaseGuarantee call w (w.setLease call.process lease true) where
  others call' _ :=
    { crashed _ := id
      issued _ _ := id
      guarded _ _ hguard := ⟨hguard, rfl⟩
      own _ _ _ _ := ⟨rfl, rfl⟩
      fresh p lease' _ hnone := by
        rw [w.leases_setLease, if_neg]
        · exact hnone
        · rintro ⟨rfl, rfl⟩
          obtain ⟨-, -, hlease⟩ := hissued
          exact hlease hnone
      lease p lease' hlease := by
        rw [w.leases_setLease]
        split
        · simp
        · exact hlease
      released p lease' hrel := by
        rw [w.leases_setLease]
        split
        · rfl
        · exact hrel }
  removes _ _ _ hchange := absurd rfl hchange
  acquires _ hacquire := by
    rw [hreq] at hacquire
    cases hacquire

lemma LeaseInvariant.markReleased (h : LeaseInvariant leaseDirectory w) {p : π}
    (hlease : w.leases p lease ≠ none) :
    LeaseInvariant leaseDirectory (w.setLease p lease true) := by
  have hsame : ∀ p' lease', (w.setLease p lease true).leases p' lease' ≠ none →
      w.leases p' lease' ≠ none := by
    intro p' lease' hne
    rw [w.leases_setLease] at hne
    split at hne
    · rename_i heq
      rw [heq.1, heq.2]
      exact hlease
    · exact hne
  refine ⟨h.owner_issued, ?_, fun p' lease' hne => h.lease_issued p' lease' (hsame p' lease' hne),
    fun p' lease' hne => h.directory_eq p' lease' (hsame p' lease' hne),
    fun p' lease₁ lease₂ h₁ h₂ => h.lease_unique p' lease₁ lease₂ (hsame _ _ h₁) (hsame _ _ h₂),
    h.unissued, h.finite_issued⟩
  intro p' lease' hholds
  obtain ⟨halive, hheld⟩ := hholds
  rw [w.leases_setLease] at hheld
  split at hheld
  · cases hheld
  · exact h.held p' lease' ⟨halive, hheld⟩

omit [DecidableEq π] in
/-- **A crash** leaves the files as they are. -/
lemma LeaseInvariant.crash (h : LeaseInvariant leaseDirectory w) {w' : LeaseWorld π}
    (hcrash : w.Crashes w') :
    LeaseInvariant leaseDirectory w' ∧ ∀ call, LeaseRely call w w' := by
  obtain ⟨p, rfl⟩ := hcrash
  constructor
  · refine ⟨h.owner_issued, ?_, h.lease_issued, h.directory_eq, h.lease_unique, h.unissued,
      h.finite_issued⟩
    rintro q lease ⟨halive, hlease⟩
    exact h.held q lease ⟨fun hq => halive (.inr hq), hlease⟩
  · exact fun call =>
      { crashed _ := .inr
        issued _ _ := id
        guarded _ _ hguard := ⟨hguard, rfl⟩
        own _ _ _ _ := ⟨rfl, rfl⟩
        fresh _ _ _ := id
        lease _ _ := id
        released _ _ := id }

end Effects

end Amide
