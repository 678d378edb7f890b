import Amide.Properties.Session.LeaseCalls

/-!
# A session is leased to one process at a time

All interleavings of acquisitions and releases, with crashes anywhere, keep the contracts of
`leaseContracts` (`honors_leases`).  So no two live processes hold a lease of one session, a
release removes nothing but its own lease, and a session whose lease belongs to a process that has
crashed can be leased again (`leases_exclusive`).
-/

namespace Amide

open Program (Straight Ends straight_pure straight_throw straight_effect)

variable {π : Type} [DecidableEq π] {leaseDirectory : String → String} {self : π → LeaseProcess}

lemma honors_leases : (leaseSystem leaseDirectory self).Honors (leaseContracts leaseDirectory)
    fun _ _ _ => True where
  environment w w' hI hcrash := hI.crash hcrash
  program call w hI hadmits := by
    have hreq : (leaseSystem leaseDirectory self).program call =
      call.request.program leaseDirectory (self call.process) := rfl
    rw [hreq]
    cases hcall : call.request with
    | acquire sessionPath =>
      exact (acquireSessionLease_triple (by simp [hcall]) (self call.process) sessionPath w
        fun _ => trivial).mono fun _ _ _ => trivial
    | release lease =>
      have hlease : w.leases call.process lease ≠ none := by
        simpa [leaseSystem, hcall] using hadmits
      refine Program.Keeps.bind ((release_triple hcall w fun _ => hlease).mono
        fun _ _ _ => trivial) (fun _ w' _ => ?_) fun _ _ _ => trivial
      exact Program.keeps_pure fun _ _ => trivial

omit [DecidableEq π] in
lemma invariant_start : LeaseInvariant leaseDirectory ({} : LeaseWorld π) where
  owner_issued _ _ h := nomatch h
  held _ _ h := nomatch h.2
  lease_issued _ _ h := absurd rfl h
  directory_eq _ _ h := absurd rfl h
  lease_unique _ _ _ h := absurd rfl h
  unissued _ _ _ _ := ⟨rfl, rfl⟩
  finite_issued := by simp

/-! ## Acquisitions come to an end -/

lemma straight_rmSync (path : LeasePath) : (rmSync path).Straight :=
  (straight_effect _).bind fun _ => straight_effect _

lemma straight_ownerAlive (owner? : Option SessionLeaseOwner) : (ownerAlive owner?).Straight := by
  cases owner? with
  | none => exact straight_pure _
  | some owner => exact straight_effect _

lemma straight_reclaimStaleLease (pid : ℕ) (directory : String) :
    (reclaimStaleLease pid directory).Straight := by
  refine (straight_effect _).bind fun uuid => (straight_effect _).attempt.bind fun result => ?_
  rcases result with error | _
  · cases error <;> exact straight_pure _
  · exact (straight_rmSync _).bind fun _ => straight_pure _

lemma straight_refuse (directory canonicalPath : String) :
    (LeaseProcess.refuse directory canonicalPath).Straight := by
  refine Straight.bind ((straight_effect _).bind fun present => ?_) fun owner? =>
    (straight_ownerAlive owner?).bind fun alive => ?_
  · cases present with
    | true => exact straight_effect _
    | false => exact straight_pure _
  · cases alive <;> exact straight_throw _

lemma straight_acquire (process : LeaseProcess) (directory canonicalPath : String)
    (attempts : ℕ) : (process.acquire directory canonicalPath attempts).Straight := by
  induction attempts with
  | zero => exact straight_refuse _ _
  | succ attempts ih =>
    refine (straight_effect _).bind fun token => (straight_effect _).bind fun createdAt =>
      (straight_effect _).bind fun _ => Straight.bind
        ((straight_effect _).bind fun _ => straight_effect _) fun _ =>
          (straight_effect _).attempt.bind fun result => ?_
    rcases result with error | _
    · refine (straight_rmSync _).bind fun _ => ?_
      split_ifs
      · refine (straight_effect _).bind fun owner? => (straight_ownerAlive _).bind fun alive => ?_
        cases alive with
        | true => exact straight_throw _
        | false => exact (straight_reclaimStaleLease _ _).bind fun _ => ih
      · exact straight_throw _
    · exact (straight_effect _).bind fun _ => straight_pure _

lemma straight_underGuard {α : Type} (directory : String) {action : LeaseProgram α}
    (h : action.Straight) : (underGuard directory action).Straight := by
  refine h.attempt.bind fun result => (straight_effect _).bind fun _ => ?_
  rcases result with error | a
  · exact straight_throw _
  · exact straight_pure _

/-- Every effect of a live process has an answer. -/
lemma exists_answer (call : LeaseCall π) (w : LeaseWorld π) (op : LeaseOp)
    (h : ¬w.crashed call.process ∧ {token | w.issued token ≠ none}.Finite) :
    ∃ r w', leaseHandler call w op r w' ∧
      ¬w'.crashed call.process ∧ {token | w'.issued token ≠ none}.Finite := by
  have hquiet : ∀ r, w.answers call op r w → ∃ r w', leaseHandler call w op r w' ∧
      ¬w'.crashed call.process ∧ {token | w'.issued token ≠ none}.Finite :=
    fun r hanswer => ⟨r, w, ⟨h.1, hanswer⟩, h⟩
  cases op with
  | canonicalSessionPath sessionPath => exact hquiet (.ok sessionPath) ⟨⟨_, rfl⟩, rfl⟩
  | nowIso => exact hquiet (.ok "") ⟨⟨_, rfl⟩, rfl⟩
  | readLeaseOwner path | existsSync path => exact hquiet _ ⟨rfl, rfl⟩
  | randomUUID =>
    obtain ⟨token, htoken⟩ := h.2.exists_notMem
    rw [Set.mem_ofPred_eq, not_not] at htoken
    refine ⟨.ok token, w.issue token call, ⟨h.1, token, rfl, htoken, rfl⟩, h.1,
      (h.2.insert token).subset fun token' ht => ?_⟩
    rw [Set.mem_ofPred_eq, w.issued_issue] at ht
    split at ht
    · exact .inl ‹_›
    · exact .inr ht
  | mkdir path =>
    by_cases hnone : w.dirs path = none
    · exact ⟨.ok (), _, ⟨h.1, .inl ⟨hnone, rfl, rfl⟩⟩, h⟩
    · exact hquiet (.error .eexist) (.inr ⟨hnone, rfl, rfl⟩)
  | createOwner path =>
    by_cases hnone : w.dirs path = none
    · exact hquiet (.error .enoent) (.inr ⟨hnone, rfl, rfl⟩)
    · exact ⟨.ok (), _, ⟨h.1, .inl ⟨hnone, rfl, rfl⟩⟩, h⟩
  | writeOwner path owner | unlinkOwner path =>
    refine ⟨.ok (), _, ⟨h.1, rfl, rfl⟩, ?_⟩
    split_ifs <;> exact h
  | rename source target =>
    cases hsource : w.dirs source with
    | none => exact hquiet (.error .enoent) (.inl ⟨hsource, rfl, rfl⟩)
    | some content =>
      by_cases hvacant : w.Vacant target
      · exact ⟨.ok (), _, ⟨h.1, .inr (.inr ⟨content, hsource, hvacant, rfl, rfl⟩)⟩, h⟩
      · exact hquiet (.error .enotempty)
          (.inr (.inl ⟨by simp [hsource], hvacant, .inr rfl, rfl⟩))
  | rmdir path =>
    by_cases hvacant : w.Vacant path
    · exact ⟨.ok (), _, ⟨h.1, .inl ⟨hvacant, rfl, rfl⟩⟩, h⟩
    · exact hquiet (.error .enotempty) (.inr ⟨hvacant, rfl, rfl⟩)
  | isLeaseOwnerAlive owner =>
    classical
    cases hissued : w.issued owner.token with
    | none => exact hquiet (.ok true) ⟨⟨true, rfl, by simp [hissued]⟩, rfl⟩
    | some writer =>
      exact hquiet (.ok (decide ¬w.crashed writer.process))
        ⟨⟨_, rfl, by simp [hissued]⟩, rfl⟩
  | lockSync directory =>
    by_cases hfree : ∀ holder, w.guards directory = some holder → w.crashed holder.process
    · exact ⟨.ok (), _, ⟨h.1, .inl ⟨hfree, rfl, rfl⟩⟩, h⟩
    · refine hquiet (.error .elocked) (.inr ⟨fun hnone => hfree ?_, rfl, rfl⟩)
      simp [hnone]
  | unlock directory | newSessionLease lease => exact ⟨.ok (), _, ⟨h.1, rfl, rfl⟩, h⟩
  | markReleased lease => exact ⟨_, _, ⟨h.1, rfl, rfl⟩, h⟩

/-! ## Leasing a session again -/

variable {call : LeaseCall π} {w : LeaseWorld π}

/-- The guard can be taken at once where nobody alive has it. -/
lemma lockGuard_ends {directory : String} (halive : ¬w.crashed call.process)
    (hfree : ∀ holder, w.guards directory = some holder → w.crashed holder.process) (n : ℕ) :
    Ends (leaseHandler call) (lockGuard directory (n + 1)) w (.ok ())
      (w.setGuard directory (some call)) := by
  have hlock : Ends (leaseHandler call) (LeaseOp.perform (.lockSync directory)) w (.ok ())
      (w.setGuard directory (some call)) :=
    .effect ⟨halive, .inl ⟨hfree, rfl, rfl⟩⟩
  exact hlock.attempt.bind .pure

/-- An acquisition that nobody disturbs, of a directory whose owner is dead. -/
lemma acquireSessionLease_ends (hI : LeaseInvariant leaseDirectory w)
    {process : LeaseProcess} {sessionPath canonicalPath : String}
    (hreq : ∀ lease, call.request ≠ .release lease) (hpath : sessionPath ≠ "")
    (henabled : process.enabled = true) (halive : ¬w.crashed call.process)
    (hfree : ∀ holder, w.guards (leaseDirectory canonicalPath) = some holder →
      w.crashed holder.process)
    (hdead : Dead (leaseDirectory canonicalPath) w) :
    ∃ lease w', Ends (leaseHandler call)
        (process.acquireSessionLease leaseDirectory (some sessionPath)) w (.ok (some lease)) w' ∧
      lease.sessionPath = canonicalPath ∧ w.issued lease.token = none ∧
      w'.leases call.process lease ≠ none ∧ ¬w'.crashed call.process := by
  have hinside : Inside call (leaseDirectory canonicalPath) (fun token => w.issued token ≠ none)
      False True (w.setGuard (leaseDirectory canonicalPath) (some call)) :=
    ⟨Function.update_self .., False.elim, fun _ => hdead, fun _ => id⟩
  obtain ⟨r, w', hends, halive', -⟩ := Straight.exists_ends
    (straight_underGuard (leaseDirectory canonicalPath)
      (straight_acquire process (leaseDirectory canonicalPath) canonicalPath 3))
    (exists_answer call) (s := w.setGuard (leaseDirectory canonicalPath) (some call))
    ⟨halive, hI.finite_issued⟩
  have hres := (underGuard_acquire_triple hreq rfl process _ True _ fun _ => hinside).of_ends
    hends (hI.setGuard _)
  obtain ⟨token, rfl, hnew, hlease⟩ := hres halive' trivial
  refine ⟨_, w', ?_, rfl, not_not.mp hnew, hlease, halive'⟩
  rw [LeaseProcess.acquireSessionLease, if_neg (by simp [hpath, henabled])]
  have hpathEnds : Ends (leaseHandler call)
      (LeaseOp.perform (.canonicalSessionPath sessionPath)) w (.ok canonicalPath) w :=
    .effect ⟨halive, ⟨_, rfl⟩, rfl⟩
  exact hpathEnds.bind (((lockGuard_ends halive hfree 99).bind hends).bind .pure)

/-- The call that leases a session. -/
def LeaseCall.Acquires (self : π → LeaseProcess) (call : LeaseCall π) : Prop :=
  ∃ sessionPath, call.request = .acquire (some sessionPath) ∧ sessionPath ≠ "" ∧
    (self call.process).enabled = true

/-- In a run of the calls, the state at its end. -/
abbrev LeaseState (π : Type) :=
  Threads (LeaseCall π) (LeaseWorld π) LeaseOp LeaseOp.Answer LeaseError (Option SessionLease)

/-- By itself, the call gets a lease of the session. -/
def CanLease (leaseDirectory : String → String) (self : π → LeaseProcess) (s : LeaseState π)
    (call : LeaseCall π) (canonicalPath : String) : Prop :=
  ∃ labels s' lease, (leaseSystem leaseDirectory self).machine.Run s labels s' ∧
    (∀ label ∈ labels, label = .call call ∨ label = .perform call) ∧
    s'.running call = some (.pure (some lease)) ∧ lease.sessionPath = canonicalPath ∧
    s'.shared.Holds call.process lease

lemma canLease {s : LeaseState π} {canonicalPath : String}
    (hs : (leaseSystem leaseDirectory self).Sound (leaseContracts leaseDirectory)
      (fun _ _ _ => True) s)
    (hcall : call.Acquires self) (hfresh : s.running call = none)
    (halive : ¬s.shared.crashed call.process)
    (hfree : ∀ holder, s.shared.guards (leaseDirectory canonicalPath) = some holder →
      s.shared.crashed holder.process)
    (hdead : Dead (leaseDirectory canonicalPath) s.shared) :
    CanLease leaseDirectory self s call canonicalPath := by
  obtain ⟨sessionPath, hreq, hpath, henabled⟩ := hcall
  have hacquires : ∀ lease, call.request ≠ .release lease := by simp [hreq]
  obtain ⟨lease, w', hends, hcanonical, hnew, hobject, halive'⟩ :=
    acquireSessionLease_ends hs.invariant hacquires hpath henabled halive hfree hdead
  have hprogram : (leaseSystem leaseDirectory self).program call =
      (self call.process).acquireSessionLease leaseDirectory (some sessionPath) := by
    show call.request.program leaseDirectory (self call.process) = _
    rw [hreq]
    rfl
  have hadmits : (leaseSystem leaseDirectory self).admits call s.shared := by
    simp [leaseSystem, hreq]
  have hstart : (leaseSystem leaseDirectory self).step s (.call call)
      (s.advance s.shared call ((leaseSystem leaseDirectory self).program call)) :=
    ⟨hfresh, hadmits, rfl⟩
  rw [← hprogram] at hends
  obtain ⟨labels, s', hrun, rfl, hlabels, hres, -⟩ := ThreadSystem.exists_run_of_ends
    (S := leaseSystem leaseDirectory self) (s := s.advance s.shared call _) hends rfl
    (s.running_advance_self ..)
  refine ⟨[.call call] ++ labels, s', lease, (Machine.Run.single hstart).append hrun, ?_, hres,
    hcanonical, halive', ?_⟩
  · intro label hlabel
    rcases List.mem_append.mp hlabel with hlabel | hlabel
    · exact .inl (List.mem_singleton.mp hlabel)
    · exact .inr (hlabels label hlabel)
  · -- the call releases nothing, and there was no such lease when it began
    have hchanges := honors_leases.guarantees_of_run (honors_leases.step hs hstart) hrun hlabels
    have hnever : ∀ w', Relation.ReflTransGen ((leaseContracts leaseDirectory).guarantee call)
        s.shared w' → w'.leases call.process lease ≠ some true := by
      intro w' h
      induction h with
      | refl =>
        intro hrel
        obtain ⟨writer, hwriter, -⟩ :=
          hs.invariant.lease_issued call.process lease (by simp [hrel])
        exact absurd (hwriter.symm.trans hnew) (by simp)
      | tail _ hstep ih => exact fun hrel => ih (hstep.acquires _ hreq _ _ hrel)
    obtain ⟨released, hrel⟩ := Option.ne_none_iff_exists'.mp hobject
    cases released with
    | false => exact hrel
    | true => exact absurd hrel (hnever _ hchanges)

/-! ## The claim -/

/-- **A session is leased to one live process at a time**: in every state the calls can reach, no
two live processes hold a lease of one session; an effect of a release that changes a lease
directory removes the releaser's own lease, under the guard; and a live process can lease a session
whose lease belongs to nobody alive. -/
theorem leases_exclusive {labels : List (ThreadLabel (LeaseCall π))} {s : LeaseState π}
    (hrun : (leaseSystem leaseDirectory self).machine.Run ⟨{}, fun _ => none⟩ labels s) :
    (∀ p q lease lease', s.shared.Holds p lease → s.shared.Holds q lease' →
      lease.sessionPath = lease'.sessionPath → p = q) ∧
    (∀ call op k r w', s.running call = some (.perform op k) →
      leaseHandler call s.shared op r w' → RemovesOwn call s.shared w') ∧
    ∀ call canonicalPath, call.Acquires self → s.running call = none →
      ¬s.shared.crashed call.process →
      (∀ holder, s.shared.guards (leaseDirectory canonicalPath) = some holder →
        s.shared.crashed holder.process) →
      Dead (leaseDirectory canonicalPath) s.shared →
      CanLease leaseDirectory self s call canonicalPath := by
  have hs := honors_leases.of_run invariant_start hrun
  refine ⟨fun p q lease lease' hp hq hpath => ?_, fun call op k r w' hrunning hanswer => ?_,
    fun call canonicalPath hcall hfresh halive hfree hdead =>
      canLease hs hcall hfresh halive hfree hdead⟩
  · obtain ⟨owner, howned, htoken⟩ := hs.invariant.held p lease hp
    obtain ⟨owner', howned', htoken'⟩ := hs.invariant.held q lease' hq
    have hlease : s.shared.leases p lease ≠ none := by simp [hp.2]
    have hlease' : s.shared.leases q lease' ≠ none := by simp [hq.2]
    have hdirectory : lease.directory = lease'.directory := by
      rw [hs.invariant.directory_eq p lease hlease, hs.invariant.directory_eq q lease' hlease',
        hpath]
    rw [hdirectory, howned', Option.some.injEq, LeaseContent.owned.injEq] at howned
    obtain ⟨writer, hwriter, rfl⟩ := hs.invariant.lease_issued p lease hlease
    obtain ⟨writer', hwriter', rfl⟩ := hs.invariant.lease_issued q lease' hlease'
    rw [← htoken, ← howned, htoken', hwriter', Option.some.injEq] at hwriter
    rw [hwriter]
  · exact (hs.guarantee hrunning hanswer).removes

theorem leases_exclusive_leased : ∃ labels s' lease,
    (leaseSystem id fun _ : Bool => ⟨1, none, some "1", none⟩).machine.Run
      ⟨{}, fun _ => none⟩ labels s' ∧
    s'.shared.Holds false lease ∧
    ∀ q lease', s'.shared.Holds q lease' → lease.sessionPath = lease'.sessionPath → false = q := by
  have hstart : (leaseSystem id fun _ : Bool => ⟨1, none, some "1", none⟩).Sound
      (leaseContracts id) (fun _ _ _ => True) ⟨{}, fun _ => none⟩ :=
    ⟨invariant_start, fun _ _ => nofun⟩
  have hcall : LeaseCall.Acquires (fun _ : Bool => ⟨1, none, some "1", none⟩)
      ⟨0, false, .acquire (some "/s.jsonl")⟩ :=
    ⟨_, rfl, by decide, by decide +kernel⟩
  obtain ⟨labels, s', lease, hrun, -, -, -, hholds⟩ :=
    @canLease Bool _ id _ _ _ "/s.jsonl" hstart hcall rfl id nofun nofun
  exact ⟨labels, s', lease, hrun, hholds,
    fun q lease' => (leases_exclusive hrun).1 false q lease lease' hholds⟩

end Amide
