import Amide.Properties.Daemon.OwnershipCalls

/-!
# Exclusive ownership

Supervisors over one registry keep their contracts, in every order of their effects and with
crashes in between, so that no two live ones own the same socket path or the same descriptor
directory, and the record of a live owner stays in the registry (`ownership_exclusive`).  The
registry they begin with may have anything in it that processes which have crashed have left there
(`Leftover`).
-/

namespace Amide.SupervisorOwnership

open Program (Ends Ending Triple triple_pure)
open OwnerOp (perform)

variable {π : Type} [DecidableEq π] {self : π → ProcessIdentity}

/-- **The calls keep their contracts.** -/
theorem honors_ownership :
    (ownershipSystem self).Honors (ownerContracts self) fun _ _ _ => True where
  program call w hI hadmits := by
    have hkeeps : ∀ {P : OwnerWorld π → Prop}, P w →
        OwnerTriple self call P (call.request.program (self call.process))
          (Ending (fun _ _ => True) fun _ => True) →
        (call.request.program (self call.process)).Keeps (ownerContracts self)
          (ownershipHandler self call) call (fun _ _ => True) w :=
      fun hP h => (h w fun _ => hP).mono fun _ _ _ => trivial
    have htrue : Framed self call fun _ => True := framed_const True
    obtain ⟨n, p, request⟩ := call
    cases request with
    | acquire options =>
      have hreq : ∀ ownership,
          (OwnerCall.mk n p (.acquire options)).request ≠ .release ownership := by
        rintro _ ⟨⟩
      exact hkeeps trivial ((acquire_triple hreq options).andThen fun _ =>
        triple_pure mortal_owner htrue.stable fun _ => id)
    | updatePhase ownership phase =>
      exact hkeeps (hadmits ownership rfl) ((updatePhase_triple phase).andThen fun _ =>
        triple_pure mortal_owner htrue.stable fun _ => id)
    | release ownership =>
      exact hkeeps (hadmits ownership rfl) ((release_triple rfl).andThen fun _ =>
        triple_pure mortal_owner htrue.stable fun _ => id)
  environment _ _ hI hcrash := hI.crash hcrash

/-- What processes that have crashed may have left: anything that is not a record of an owner, and
records they have written. -/
structure Leftover (w : OwnerWorld π) : Prop where
  dead : ∀ generation r, w.ownerAt (.owner generation) = some r → w.Dead r
  ownerships : ∀ p ownership, w.ownerships p ownership = none
  remembered : ∀ call, w.remembered call = []

omit [DecidableEq π] in
lemma Leftover.invariant {w : OwnerWorld π} (h : Leftover w) : OwnerInvariant self w where
  signed generation r hr := by
    obtain ⟨writer, hwriter, hcrashed⟩ := h.dead generation r hr
    exact ⟨writer, hwriter, fun halive => absurd hcrashed halive⟩
  apart generation _ r _ _ hlives _ := by
    obtain ⟨hr, writer, hwriter, halive⟩ := hlives
    obtain ⟨writer', hwriter', hcrashed⟩ := h.dead generation r hr
    obtain rfl := Option.mem_unique hwriter hwriter'
    exact absurd hcrashed halive
  registered p ownership howns := by
    have howned := howns.2
    rw [h.ownerships] at howned
    cases howned
  issued p ownership hsome := absurd (h.ownerships p ownership) hsome
  directory_eq p ownership hsome := absurd (h.ownerships p ownership) hsome
  unique p _ ownership _ hsome _ _ := absurd (h.ownerships p ownership) hsome
  renamed call path hmem := by
    rw [h.remembered] at hmem
    cases hmem

/-- In a run of the calls, the state at its end. -/
abbrev OwnerState (π : Type) :=
  Threads (OwnerCall π) (OwnerWorld π) OwnerOp OwnerOp.Answer OwnerError
    (Option DaemonSupervisorOwnership)

/-- **Ownership is exclusive**: in every state the calls can reach, ownerships that live processes
have acquired and not released share neither the socket path nor the descriptor directory, and the
record of each is in the registry. -/
theorem ownership_exclusive {w : OwnerWorld π} (hstart : Leftover w)
    {labels : List (ThreadLabel (OwnerCall π))} {s : OwnerState π}
    (hrun : (ownershipSystem self).machine.Run ⟨w, fun _ => none⟩ labels s) :
    (∀ p q ownership ownership', s.shared.Owns p ownership → s.shared.Owns q ownership' →
      (p, ownership) ≠ (q, ownership') →
        ownership.record.socketPath ≠ ownership'.record.socketPath ∧
        ownership.record.descriptorDir ≠ ownership'.record.descriptorDir) ∧
    ∀ p ownership, s.shared.Owns p ownership →
      ownership.ownerDirectory = .owner ownership.record.generation ∧
      ∃ r, s.shared.ownerAt ownership.ownerDirectory = some r ∧ r.Continues ownership.record := by
  have hI := (honors_ownership.of_run hstart.invariant hrun).invariant
  have hdirectory : ∀ p ownership, s.shared.Owns p ownership →
      ownership.ownerDirectory = .owner ownership.record.generation :=
    fun p ownership howns => hI.directory_eq p ownership howns.ne_none
  refine ⟨fun p q ownership ownership' howns howns' hne => ?_, fun p ownership howns =>
    ⟨hdirectory p ownership howns, hI.registered p ownership howns⟩⟩
  obtain ⟨r, hr, hcontinues⟩ := hI.registered p ownership howns
  obtain ⟨r', hr', hcontinues'⟩ := hI.registered q ownership' howns'
  obtain ⟨writer, hwriter, rfl⟩ := hI.issued p ownership howns.ne_none
  obtain ⟨writer', hwriter', rfl⟩ := hI.issued q ownership' howns'.ne_none
  rw [hdirectory _ _ howns] at hr
  rw [hdirectory _ _ howns'] at hr'
  have hgenerations : ownership.record.generation ≠ ownership'.record.generation := by
    intro heq
    rw [heq, hr', Option.some.injEq] at hr
    have htoken : ownership.record.token = ownership'.record.token := by
      rw [← hcontinues.token, ← hcontinues'.token, hr]
    have hsame := hI.unique _ _ ownership ownership' howns.ne_none howns'.ne_none htoken
    subst hsame
    obtain rfl := Option.mem_unique hwriter hwriter'
    exact hne rfl
  have hapart := hI.apart _ _ r r' hgenerations
    ⟨hr, writer, hcontinues.token ▸ hwriter, howns.1⟩
    ⟨hr', writer', hcontinues'.token ▸ hwriter', howns'.1⟩
  rw [hcontinues.scope, hcontinues'.scope] at hapart
  rw [ownerConflicts, Bool.or_eq_false_iff, decide_eq_false_iff_not, decide_eq_false_iff_not]
    at hapart
  exact hapart

/-! ## Two supervisors -/

section Acquired

def twoProcesses (p : Bool) : ProcessIdentity := ⟨p.toNat, none⟩

def request (p : Bool) : AcquireDaemonSupervisorOwnershipOptions :=
  ⟨cond p "/socket/2" "/socket/1", cond p "/descriptors/2" "/descriptors/1", "/agent",
    cond p "2" "1", "1"⟩

/-- Each of the two acquires ownership. -/
def acquiring (p : Bool) : OwnerCall Bool := ⟨0, p, .acquire (request p)⟩

/-- The names that `randomUUID` gives to its call. -/
def uuid (p : Bool) : Fin 3 → String
  | 0 => cond p "4" "1"
  | 1 => cond p "5" "2"
  | 2 => cond p "6" "3"

def acquired (p : Bool) : DaemonSupervisorOwnership :=
  ⟨(request p).record (twoProcesses p) (uuid p 0) "now" (request p).socketPath
    (request p).descriptorDir "/agent", .owner (request p).generation⟩

abbrev candidateOf (p : Bool) : OwnerPath := .candidate (twoProcesses p).pid (uuid p 0)

/-- A program of the call of one of them ends so. -/
abbrev Done (p : Bool) {α : Type} (program : OwnerProgram α) :=
  Ends (ownershipHandler twoProcesses (acquiring p)) program

variable {p : Bool} {w₀ w : OwnerWorld Bool} {issued : List String} {files? : Option OwnerFiles}

/-- From `w₀` only the candidate directory and the issued names have changed. -/
structure Preparing (p : Bool) (w₀ w : OwnerWorld Bool) (issued : List String)
    (files? : Option OwnerFiles) : Prop where
  crashed : w.crashed = w₀.crashed
  unissued : ∀ uuid, uuid ∉ issued → w.issued uuid = w₀.issued uuid
  candidate : w.dirs (candidateOf p) = files?
  dirs : ∀ path, path ≠ candidateOf p → w.dirs path = w₀.dirs path
  guard : w.guard = w₀.guard
  remembered : w.remembered = w₀.remembered
  ownerships : w.ownerships = w₀.ownerships

lemma Preparing.alive (h : Preparing p w₀ w issued files?) (halive : ¬w₀.crashed p) :
    ¬w.crashed p := by
  rwa [h.crashed]

lemma Preparing.setCandidate (h : Preparing p w₀ w issued files?) (files : OwnerFiles) :
    Preparing p w₀ (w.setDir (candidateOf p) (some files)) issued (some files) where
  __ := h
  candidate := w.dirs_setDir_self ..
  dirs path hne := (w.dirs_setDir_of_ne _ hne).trans (h.dirs path hne)

lemma Preparing.issue (h : Preparing p w₀ w issued files?) (uuid : String) (call : OwnerCall Bool) :
    Preparing p w₀ (w.issue uuid call) (uuid :: issued) files? where
  __ := h
  unissued uuid' hnew := by
    rw [List.mem_cons, not_or] at hnew
    exact (Function.update_of_ne hnew.1 ..).trans (h.unissued uuid' hnew.2)

lemma writeJsonAtomically_ends {files : OwnerFiles} (h : Preparing p w₀ w issued (some files))
    (halive : ¬w₀.crashed p) (file : OwnerFile) {uuid : String} (hnew : uuid ∉ issued)
    (hunissued : w₀.issued uuid = none) :
    ∃ w', Done p
        (writeJsonAtomically (candidateOf p) file) w (.ok ()) w' ∧
      Preparing p w₀ w' (uuid :: issued)
        (some (((files.setTemp uuid (some file)).setTemp uuid none).put file)) := by
  have h₁ := h.issue uuid (acquiring p)
  have h₂ := h₁.setCandidate (files.setTemp uuid (some file))
  have huuid : Done p (perform .randomUUID) w
      (.ok uuid) (w.issue uuid (acquiring p)) :=
    .effect ⟨h.alive halive, .inl ⟨uuid, rfl, (h.unissued uuid hnew).trans hunissued, rfl⟩⟩
  have hwrite : Done p
      (perform (.writeTemp (candidateOf p) uuid file)) _ (.ok ()) _ :=
    .effect ⟨h₁.alive halive, .inl ⟨files, h₁.candidate, rfl, rfl⟩⟩
  have hrename : Done p
      (perform (.renameTemp (candidateOf p) uuid)) _ (.ok ()) _ :=
    .effect ⟨h₂.alive halive, .inl ⟨_, file, h₂.candidate, Function.update_self .., rfl, rfl⟩⟩
  exact ⟨_, huuid.bind ((hwrite.bind hrename).attempt.bind .pure), h₂.setCandidate _⟩

lemma quiet_ends (op : OwnerOp) (a : op.Answer) (halive : ¬w.crashed p)
    (hanswer : w.answers twoProcesses (acquiring p) op (.ok a) w) :
    Done p (perform op) w (.ok a) w :=
  .effect ⟨halive, .inl hanswer⟩

/-- Records of owners with other paths stay where they are. -/
lemma setAsideStale_ends (halive : ¬w.crashed p) {record : DaemonSupervisorOwnerRecord}
    {paths : List OwnerPath} (hothers : ∀ path ∈ paths, ∃ owner, w.ownerAt path = some owner ∧
      ownerConflicts owner.scope record.scope = false) :
    Done p (setAsideStale record paths) w (.ok ())
      w := by
  induction paths with
  | nil => exact .pure
  | cons path paths ih =>
    obtain ⟨⟨owner, howner, hconflicts⟩, hothers⟩ := List.forall_mem_cons.mp hothers
    have hread : Done p
        (readOwnerRecordForScope path fun scope => ownerConflicts scope record.scope) w
        (.ok (some owner)) w :=
      Ends.bind (quiet_ends _ _ halive ⟨congrArg Except.ok howner.symm, rfl⟩) .pure
    refine hread.bind ?_
    simpa [hconflicts] using ih hothers

/-- What a world has to be like for one of the two to acquire ownership. -/
structure Ready (p : Bool) (w : OwnerWorld Bool) : Prop where
  alive : ¬w.crashed p
  unissued : ∀ i, w.issued (uuid p i) = none
  candidate : w.dirs (candidateOf p) = none
  free : w.dirs (acquired p).ownerDirectory = none
  guard : w.guard = none
  remembered : w.remembered (acquiring p) = []
  others : ∃ paths : List OwnerPath,
    (∀ path, path ∈ paths ↔ ∃ generation, path = .owner generation ∧ w.dirs path ≠ none) ∧
    ∀ path ∈ paths, ∃ owner, w.ownerAt path = some owner ∧
      ownerConflicts owner.scope (acquired p).record.scope = false

lemma acquire_ends (h : Ready p w) : ∃ w', Done p
      (acquireDaemonSupervisorOwnership (twoProcesses p) (request p)) w (.ok (acquired p)) w' ∧
    w'.crashed = w.crashed ∧ w'.guard = none ∧ w'.remembered = w.remembered ∧
    (∀ name, (∀ i, name ≠ uuid p i) → w'.issued name = w.issued name) ∧
    w'.ownerAt (acquired p).ownerDirectory = some (acquired p).record ∧
    (∀ path, path ≠ candidateOf p → path ≠ (acquired p).ownerDirectory →
      w'.dirs path = w.dirs path) ∧
    w'.ownerships = Function.update w.ownerships p
      (Function.update (w.ownerships p) (acquired p) (some .owned)) := by
  have h₀ : Preparing p w w [] none :=
    ⟨rfl, fun _ _ => rfl, h.candidate, fun _ _ => rfl, rfl, rfl, rfl⟩
  have h₁ := h₀.issue (uuid p 0) (acquiring p)
  have h₂ := h₁.setCandidate {}
  obtain ⟨w₃, hscope, h₃⟩ := writeJsonAtomically_ends h₂ h.alive (.scope (acquired p).record.scope)
    (by cases p <;> decide) (h.unissued 1)
  obtain ⟨w₄, howner, h₄⟩ := writeJsonAtomically_ends h₃ h.alive (.owner (acquired p).record)
    (by cases p <;> decide) (h.unissued 2)
  have htoken : Done p (perform .randomUUID) w
      (.ok (uuid p 0)) _ :=
    .effect ⟨h.alive, .inl ⟨uuid p 0, rfl, h.unissued 0, rfl⟩⟩
  have hmkdir : Done p
      (perform (.mkdir (candidateOf p))) _ (.ok ()) _ :=
    .effect ⟨h₁.alive h.alive, .inl ⟨h₁.candidate, rfl, rfl⟩⟩
  have hlock : Done p (perform .lock) w₄ (.ok ())
      (w₄.setGuard (some (acquiring p))) := by
    refine .effect ⟨h₄.alive h.alive, .inl ⟨fun holder hguard => ?_, rfl, rfl⟩⟩
    rw [h₄.guard, h.guard] at hguard
    cases hguard
  have halive : ¬(w₄.setGuard (some (acquiring p))).crashed p := h₄.alive h.alive
  have hregistry (generation : String) : w₄.dirs (.owner generation) = w.dirs (.owner generation) :=
    h₄.dirs _ nofun
  obtain ⟨paths, hlists, hothers⟩ := h.others
  have hlist : Done p (perform .listOwnerDirectories)
      (w₄.setGuard (some (acquiring p))) (.ok paths) (w₄.setGuard (some (acquiring p))) := by
    refine quiet_ends _ _ halive ⟨⟨paths, rfl, fun path => (hlists path).trans ?_⟩, rfl⟩
    refine exists_congr fun generation => and_congr_right ?_
    rintro rfl
    exact not_congr (by rw [← hregistry]; rfl)
  have hstale : Done p (setAsideStale (acquired p).record paths)
      (w₄.setGuard (some (acquiring p))) (.ok ()) (w₄.setGuard (some (acquiring p))) := by
    refine setAsideStale_ends halive fun path hpath => ?_
    obtain ⟨owner, howner, hconflicts⟩ := hothers path hpath
    obtain ⟨generation, rfl, -⟩ := (hlists path).mp hpath
    refine ⟨owner, ?_, hconflicts⟩
    rw [← howner]
    exact congrArg (·.bind (·.owner.value?)) (hregistry generation)
  have hrename : Done p (perform (.rename (candidateOf p) (acquired p).ownerDirectory))
      (w₄.setGuard (some (acquiring p))) (.ok ()) _ :=
    .effect ⟨halive, .inl ⟨_, h₄.candidate, fun files hfiles => (by
      cases hfiles.symm.trans ((hregistry _).trans h.free)), rfl, rfl⟩⟩
  have hclaim : Done p (claimOwnership (acquired p).record (candidateOf p)
      (acquired p).ownerDirectory) (w₄.setGuard (some (acquiring p))) (.ok ()) _ :=
    (quiet_ends .readActiveShutdownAdmission false halive ⟨⟨false, rfl⟩, rfl⟩).bind
      (hlist.bind (hstale.bind hrename))
  have hunlock (w : OwnerWorld Bool) (halive : ¬w.crashed p) :
      Done p (perform .unlock) w (.ok ()) (w.setGuard none) :=
    .effect ⟨halive, .inl ⟨.inr rfl, .inl rfl⟩⟩
  have hguarded : Done p (withDaemonSupervisorRegistryGuard (claimOwnership (acquired p).record
      (candidateOf p) (acquired p).ownerDirectory)) w₄ (.ok ()) _ :=
    hlock.bind (((quiet_ends .assertGuardHeld () halive ⟨rfl, rfl⟩).bind
      (hclaim.bind ((quiet_ends .assertGuardHeld () (by exact halive) ⟨rfl, rfl⟩).bind
        .pure))).attempt.bind ((hunlock _ (by exact halive)).bind .pure))
  have hcaught (w : OwnerWorld Bool) :
      Done p (orRemove (candidateOf p) (.ok ())).attempt w (.ok (.ok ())) w :=
    Ends.attempt .pure
  have hpath (w : OwnerWorld Bool) : Done p (ownerDirectoryPath (request p).generation) w
      (.ok (acquired p).ownerDirectory) w := by
    cases p <;> exact .pure
  have hfinally (w : OwnerWorld Bool) (halive : ¬w.crashed p)
      (hremembered : w.remembered (acquiring p) = []) :
      Done p (perform .remembered) w (.ok []) w :=
    quiet_ends _ _ halive ⟨congrArg Except.ok hremembered.symm, rfl⟩
  have hnew (w : OwnerWorld Bool) (halive : ¬w.crashed p) :
      Done p (perform (.newOwnership (acquired p))) w (.ok ())
        (w.setOwnership p (acquired p) .owned) :=
    .effect ⟨halive, .inl ⟨rfl, rfl⟩⟩
  have hacquire : Done p (acquireDaemonSupervisorOwnership (twoProcesses p) (request p)) w
      (.ok (acquired p)) _ :=
    htoken.bind ((quiet_ends .nowIso "now" (by exact h.alive) ⟨⟨_, rfl⟩, rfl⟩).bind
    ((quiet_ends (.normalizeSocketPath _) (request p).socketPath
      (by exact h.alive) ⟨⟨_, rfl⟩, rfl⟩).bind
    ((quiet_ends (.canonicalizeFilesystemPath _) (request p).descriptorDir
      (by exact h.alive) ⟨⟨_, rfl⟩, rfl⟩).bind
    ((quiet_ends (.canonicalizeFilesystemPath _) "/agent"
      (by exact h.alive) ⟨⟨_, rfl⟩, rfl⟩).bind
    ((hpath _).bind (hmkdir.bind ((hscope.bind (howner.bind hguarded)).attempt.bind
    ((hcaught _).bind ((hfinally _ (by exact halive)
      (by exact (congrFun h₄.remembered _).trans h.remembered)).bind (Ends.bind .pure
    (Ends.bind .pure ((hnew _ (by exact halive)).bind .pure))))))))))))
  refine ⟨_, hacquire, h₄.crashed, rfl, h₄.remembered, fun name hname => ?_,
    OwnerWorld.ownerAt_setDir_self .., fun path hcandidate howner => ?_, ?_⟩
  · refine h₄.unissued name ?_
    simp [hname]
  · exact (Function.update_of_ne howner ..).trans
      ((Function.update_of_ne hcandidate ..).trans (h₄.dirs path hcandidate))
  · rw [← h₄.ownerships]
    rfl

lemma ready_start : Ready false {} where
  alive := id
  unissued _ := rfl
  candidate := rfl
  free := rfl
  guard := rfl
  remembered := rfl
  others := ⟨[], by simp, by simp⟩

/-- Two processes acquire ownership one after the other, of different paths. -/
lemma acquired_ends : ∃ w₁ w₂,
    Done false ((ownershipSystem twoProcesses).program (acquiring false)) {}
      (.ok (some (acquired false))) w₁ ∧
    Done true ((ownershipSystem twoProcesses).program (acquiring true)) w₁
      (.ok (some (acquired true))) w₂ ∧ ∀ p, w₂.Owns p (acquired p) := by
  obtain ⟨w₁, h₁, hcrashed, hguard, hremembered, hissued, hrecord, hdirs, howns⟩ :=
    acquire_ends ready_start
  have hready : Ready true w₁ := by
    refine ⟨by rw [hcrashed]; exact id, fun i => hissued _ (by revert i; decide),
      hdirs _ (by decide) (by decide), hdirs _ (by decide) (by decide), hguard,
      by rw [hremembered], [.owner "1"], fun path => ?_, ?_⟩
    · rw [List.mem_singleton]
      refine ⟨?_, ?_⟩
      · rintro rfl
        refine ⟨"1", rfl, fun hnone => ?_⟩
        rw [OwnerWorld.ownerAt, show (acquired false).ownerDirectory = .owner "1" from rfl, hnone]
          at hrecord
        cases hrecord
      · rintro ⟨generation, rfl, hsome⟩
        by_contra hne
        exact hsome (hdirs _ (by simp) hne)
    · rintro path hpath
      obtain rfl := List.mem_singleton.mp hpath
      exact ⟨(acquired false).record, hrecord, by decide⟩
  obtain ⟨w₂, h₂, hcrashed₂, -, -, -, -, -, howns₂⟩ := acquire_ends hready
  refine ⟨w₁, w₂, h₁.bind .pure, h₂.bind .pure, fun p => ⟨?_, ?_⟩⟩
  · rw [hcrashed₂, hcrashed]
    exact id
  · rw [howns₂, howns]
    cases p
    · rfl
    · rfl

theorem ownership_exclusive_two : ∃ labels s,
    (ownershipSystem twoProcesses).machine.Run ⟨{}, fun _ => none⟩ labels s ∧
    (∀ p, s.shared.Owns p (acquired p)) ∧
    (acquired false).record.socketPath ≠ (acquired true).record.socketPath ∧
    (acquired false).record.descriptorDir ≠ (acquired true).record.descriptorDir ∧
    ∀ p, ∃ r, s.shared.ownerAt (.owner (request p).generation) = some r ∧
      r.Continues (acquired p).record := by
  obtain ⟨w₁, w₂, hends₁, hends₂, howns⟩ := acquired_ends
  -- both calls are made before either of them does anything
  let s₀ : OwnerState Bool := ⟨{}, fun _ => none⟩
  let s₁ := s₀.advance {} (acquiring false)
    ((ownershipSystem twoProcesses).program (acquiring false))
  let s₂ := s₁.advance {} (acquiring true) ((ownershipSystem twoProcesses).program (acquiring true))
  have hcall₁ : (ownershipSystem twoProcesses).machine.step s₀ (.call (acquiring false)) s₁ :=
    ⟨rfl, fun _ => nofun, rfl⟩
  have hcall₂ : (ownershipSystem twoProcesses).machine.step s₁ (.call (acquiring true)) s₂ :=
    ⟨s₀.running_advance_of_ne _ _ (by decide), fun _ => nofun, rfl⟩
  obtain ⟨labels₁, s₃, hrun₁, rfl, -, -, hothers⟩ :=
    ThreadSystem.exists_run_of_ends (S := ownershipSystem twoProcesses) (s := s₂) hends₁ rfl
      ((s₁.running_advance_of_ne _ _ (by decide)).trans (s₀.running_advance_self ..))
  obtain ⟨labels₂, s₄, hrun₂, rfl, -, -, -⟩ :=
    ThreadSystem.exists_run_of_ends (S := ownershipSystem twoProcesses) hends₂ rfl
      ((hothers _ (by decide)).trans (s₁.running_advance_self ..))
  have hwhole : (ownershipSystem twoProcesses).machine.Run s₀ _ s₄ :=
    (((Machine.Run.single hcall₁).append (.single hcall₂)).append hrun₁).append hrun₂
  have hleftover : Leftover ({} : OwnerWorld Bool) :=
    ⟨fun _ _ => nofun, fun _ _ => rfl, fun _ => rfl⟩
  obtain ⟨hapart, hregistered⟩ := ownership_exclusive hleftover hwhole
  obtain ⟨hsocket, hdescriptors⟩ :=
    hapart false true _ _ (howns false) (howns true) (by simp)
  exact ⟨_, s₄, hwhole, howns, hsocket, hdescriptors, fun p => (hregistered p _ (howns p)).2⟩

end Acquired

end Amide.SupervisorOwnership
