import Amide.Properties.Daemon.OwnershipRules

/-!
# The calls of supervisors keep their contracts

What an acquisition, `updatePhase` and `release` do between two effects of others, as triples over
`ownerContracts`.  The invariant of the loop of an acquisition is `Scanning`: whoever is still in
the registry and conflicts is dead, or yet to be looked at.  When the loop is through, the record
may enter the registry (`Entered`), and stays there until it is made an ownership.
-/

set_option linter.unusedSectionVars false

namespace Amide.SupervisorOwnership

open Option

open Program (Stable Triple Mortal Ending stable_const stable_ending triple_effect triple_pure
  triple_throw triple_of_and)
open OwnerOp (perform)

variable {π : Type} [DecidableEq π] {self : π → ProcessIdentity} {call : OwnerCall π}
  {P S : OwnerWorld π → Prop}

/-! ### Writing a file -/

section Writing

variable {path : OwnerPath} {file : OwnerFile}

/-- On the way to writing a file, a directory still has its record, or has the one of the file. -/
def Between (file : OwnerFile) (files files' : OwnerFiles) : Prop :=
  files'.owner = files.owner ∨ ∃ record, file = .owner record ∧ files'.owner = .valid record

/-- The file is in the directory. -/
def Written (file : OwnerFile) (files : OwnerFiles) : Prop :=
  ∀ record, file = .owner record → files.owner = .valid record

/-- The call may write the file to the directory. -/
structure Writable (identity : π → ProcessIdentity) (call : OwnerCall π) (path : OwnerPath)
    (file : OwnerFile) (P : OwnerWorld π → Prop) : Prop where
  framed : Framed identity call P
  stable_dir : ∀ files, OwnerStable identity call fun w => P w ∧ w.dirs path = some files
  write : ∀ w files files', P w → OwnerInvariant identity w → w.dirs path = some files →
    Between file files files' → OwnerInvariant identity (w.setDir path (some files')) ∧
      OwnerGuarantee call w (w.setDir path (some files')) ∧ P (w.setDir path (some files'))

/-- The assertion, and something about the directory. -/
abbrev At (path : OwnerPath) (P : OwnerWorld π → Prop) (Φ : OwnerFiles → Prop)
    (w : OwnerWorld π) : Prop :=
  P w ∧ ∃ files, w.dirs path = some files ∧ Φ files

section
variable (h : Writable self call path file P)
include h

lemma Writable.stable (Φ : OwnerFiles → Prop) :
    OwnerStable self call (At path P Φ) := by
  rintro w w' ⟨hw, files, hfiles, hΦ⟩ hrely halive
  obtain ⟨hw', hfiles'⟩ := h.stable_dir files w w' ⟨hw, hfiles⟩ hrely halive
  exact ⟨hw', files, hfiles', hΦ⟩

lemma Writable.triple {op : OwnerOp} (Φ Φ' : OwnerFiles → Prop)
    (hop : ∀ (w : OwnerWorld π) files r w', w.dirs path = some files → Φ files →
      w.answers self call op r w' → (∃ a, r = .ok a) ∧ ∃ files', w' = w.setDir path (some files') ∧
      Between file files files' ∧ Φ' files') :
    OwnerTriple self call (At path P Φ)
      (perform op)
      (Ending (fun _ => At path P Φ') (At path P fun _ => True)) := by
  refine perform_triple (h.stable Φ) (fun _ => h.stable Φ') (h.stable _)
    (fun _ w hw => ⟨hw.1, hw.2.imp fun _ hfiles => ⟨hfiles.1, trivial⟩⟩) ?_
  rintro w r w' ⟨hw, files, hfiles, hΦ⟩ hI hanswer
  obtain ⟨⟨a, rfl⟩, files', rfl, hbetween, hΦ'⟩ := hop w files r w' hfiles hΦ hanswer
  obtain ⟨hI', hguar, hw'⟩ := h.write w files files' hw hI hfiles hbetween
  exact ⟨hI', hguar, hw', files', w.dirs_setDir_self .., hΦ'⟩

lemma writeJsonAtomically_triple :
    OwnerTriple self call (At path P fun _ => True)
      (writeJsonAtomically path file)
      (Ending (fun _ => At path P (Written file)) P) := by
  have huuid : OwnerTriple self call (At path P fun _ => True)
      (perform .randomUUID)
      (Ending (fun _ => At path P fun _ => True) P) := by
    refine perform_triple (h.stable _) (fun _ => h.stable _) h.framed.stable nofun ?_
    rintro w r w' ⟨hw, hfiles⟩ hI ⟨uuid, rfl, hnone, rfl⟩
    exact ⟨hI.issue hnone, .issue hnone, h.framed.issue w uuid hnone hw, hfiles⟩
  have hwrite : ∀ uuid, OwnerTriple self call
      (At path P fun _ => True)
      (do
        perform (.writeTemp path uuid file)
        perform (.renameTemp path uuid))
      (Ending (fun _ => At path P (Written file)) (At path P fun _ => True)) := by
    intro uuid
    refine (h.triple _ (fun files => files.temps uuid = some file) ?_).andThen
      fun _ => h.triple _ _ ?_
    · rintro w files r w' hfiles - ⟨files', hfiles', rfl, rfl⟩
      obtain rfl := mem_unique hfiles hfiles'
      exact ⟨⟨_, rfl⟩, _, rfl, .inl rfl, Function.update_self ..⟩
    · rintro w files r w' hfiles htemp ⟨files', file', hfiles', htemp', rfl, rfl⟩
      obtain rfl := mem_unique hfiles hfiles'
      obtain rfl := mem_unique htemp htemp'
      refine ⟨⟨_, rfl⟩, _, rfl, ?_⟩
      cases file with
      | owner record =>
        refine ⟨.inr ⟨record, rfl, rfl⟩, ?_⟩
        rintro _ ⟨⟩
        rfl
      | scope scope => exact ⟨.inl rfl, fun _ => nofun⟩
  refine huuid.andThen fun uuid => Triple.attempt_bind (hwrite uuid) fun result => ?_
  cases result with
  | ok _ => exact triple_pure mortal_owner (h.stable _) fun _ => id
  | error error =>
    have hunlink : OwnerTriple self call (At path P fun _ => True)
        (perform (.unlinkTemp path uuid))
        (Ending (fun _ => At path P fun _ => True) (At path P fun _ => True)) := by
      refine h.triple _ _ ?_
      rintro w files r w' hfiles - ⟨rfl, rfl⟩
      refine ⟨⟨_, rfl⟩, files.setTemp uuid none, ?_, .inl rfl, trivial⟩
      rw [hfiles]
      rfl
    refine hunlink.bind (fun _ => ?_) fun _ w hw => hw.1
    exact triple_throw mortal_owner (h.stable _) fun w hw => hw.1

end

end Writing

/-! ### Drafting a record -/

/-- The token is the call's, and has not come to anything yet. -/
structure Fresh (call : OwnerCall π) (token : String) (w : OwnerWorld π) : Prop where
  issued : w.issued token = some call
  unused : w.Unused token

lemma framed_fresh (token : String) : Framed self call (Fresh call token) where
  stable _ _ hw hrely _ := ⟨hrely.issued _ _ hw.issued, hrely.unused _ hw.issued hw.unused⟩
  issue w _ hnone hw := ⟨w.issued_of_issued hnone hw.issued, hw.unused⟩
  setRenamed _ _ _ _ _ hw := ⟨hw.issued, hw.unused⟩
  remember _ _ hw := ⟨hw.issued, hw.unused⟩

lemma unguarded_fresh (token : String) : Unguarded (Fresh call token) :=
  fun _ _ hw => ⟨hw.issued, hw.unused⟩

/-- A candidate may be written to. -/
lemma writable_candidate (pid : ℕ) (token : String) (file : OwnerFile) :
    Writable self call (.candidate pid token) file (Fresh call token) where
  framed := framed_fresh token
  stable_dir files w w' hw hrely halive :=
    ⟨(framed_fresh token).stable w w' hw.1 hrely halive,
      (hrely.candidate token hw.1.issued pid).trans hw.2⟩
  write w files files' hw hI hfiles _ := by
    have hprivate : Private call (.candidate pid token) w := hw.issued
    exact ⟨hI.setPrivate hprivate, .setPrivate hprivate, hw.issued, hw.unused⟩

/-- The candidate has the record. -/
def Drafted (call : OwnerCall π) (pid : ℕ) (record : DaemonSupervisorOwnerRecord)
    (w : OwnerWorld π) : Prop :=
  Fresh call record.token w ∧ ∃ files, w.dirs (.candidate pid record.token) = some files ∧
    files.owner = .valid record

section
variable (pid : ℕ) (record : DaemonSupervisorOwnerRecord)
include pid record

lemma framed_drafted : Framed self call (Drafted call pid record) := by
  have hfresh : Framed self call (Fresh call record.token) := framed_fresh _
  refine ⟨(writable_candidate pid record.token (.owner record)).stable _,
    fun w uuid hnone hw => ⟨hfresh.issue w uuid hnone hw.1, hw.2⟩,
    fun w directory suffix uuid files hw =>
      ⟨hfresh.setRenamed w directory suffix uuid files hw.1, ?_⟩,
    fun w path hw => ⟨hfresh.remember w path hw.1, hw.2⟩⟩
  exact hw.2

lemma writeScope_triple : OwnerTriple self call
      (At (.candidate pid record.token) (Fresh call record.token) fun _ => True)
      (writeJsonAtomically (.candidate pid record.token) (.scope record.scope))
      (Ending (fun _ => At (.candidate pid record.token) (Fresh call record.token) fun _ => True)
        (Fresh call record.token)) :=
  (writeJsonAtomically_triple (writable_candidate pid record.token _)).weaken
    (fun hw => ⟨hw.1, hw.2.imp fun _ hfiles => ⟨hfiles.1, trivial⟩⟩) id

lemma writeRecord_triple : OwnerTriple self call
      (At (.candidate pid record.token) (Fresh call record.token) fun _ => True)
      (writeJsonAtomically (.candidate pid record.token) (.owner record))
      (Ending (fun _ => Drafted call pid record) (Fresh call record.token)) :=
  (writeJsonAtomically_triple (writable_candidate pid record.token _)).weaken
    (fun hw => ⟨hw.1, hw.2.imp fun _ hfiles => ⟨hfiles.1, hfiles.2 record rfl⟩⟩) id

end

/-! ### The registry under the guard -/

section Registry

variable {generation : String} {w w' : OwnerWorld π}

lemma OwnerRely.ownerAt (hrely : OwnerRely call w w') (halive : call.Live w')
    (hguard : w.guard = some call) (generation : String) :
    w'.ownerAt (.owner generation) = w.ownerAt (.owner generation) := by
  rw [OwnerWorld.ownerAt, (hrely.guarded halive hguard).2]
  rfl

variable {r : DaemonSupervisorOwnerRecord}

lemma OwnerRely.dead (hrely : OwnerRely call w w')
    (h : w.Dead r) : w'.Dead r := by
  obtain ⟨writer, hwriter, hcrashed⟩ := h
  exact ⟨writer, hrely.issued _ _ hwriter, hrely.crashed _ hcrashed⟩

lemma OwnerWorld.Dead.issue {uuid : String} (hnone : w.issued uuid = none)
    (h : w.Dead r) : (w.issue uuid call).Dead r := by
  obtain ⟨writer, hwriter, hcrashed⟩ := h
  exact ⟨writer, w.issued_of_issued hnone hwriter, hcrashed⟩

/-- What is read of the registry under the guard stays so. -/
lemma framed_at (hP : Framed self call P) (hguard : ∀ w, P w → w.guard = some call)
    (generation : String) (record? : Option DaemonSupervisorOwnerRecord) :
    Framed self call fun w => P w ∧ w.ownerAt (.owner generation) = record? where
  stable w w' hw hrely halive := ⟨hP.stable w w' hw.1 hrely halive,
    (hrely.ownerAt halive (hguard w hw.1) generation).trans hw.2⟩
  issue w uuid hnone hw := ⟨hP.issue w uuid hnone hw.1, hw.2⟩
  setRenamed w directory suffix uuid files hw :=
    ⟨hP.setRenamed w directory suffix uuid files hw.1,
      (w.ownerAt_setDir_of_ne _ (by simp)).trans hw.2⟩
  remember w path hw := ⟨hP.remember w path hw.1, hw.2⟩

lemma framed_dead (hP : Framed self call P) (hguard : ∀ w, P w → w.guard = some call)
    (generation : String) : Framed self call fun w =>
      P w ∧ ∀ r, w.ownerAt (.owner generation) = some r → w.Dead r := by
  refine ⟨?_, fun w uuid hnone hw => ⟨hP.issue w uuid hnone hw.1, fun r hr =>
      (hw.2 r hr).issue hnone⟩, fun w directory suffix uuid files hw =>
      ⟨hP.setRenamed w directory suffix uuid files hw.1, fun r hr => hw.2 r ?_⟩,
    fun w path hw => ⟨hP.remember w path hw.1, hw.2⟩⟩
  · rintro w w' ⟨hw, hdead⟩ hrely halive
    refine ⟨hP.stable w w' hw hrely halive, fun r hr => hrely.dead (hdead r ?_)⟩
    rwa [← hrely.ownerAt halive (hguard w hw)]
  · rwa [w.ownerAt_setDir_of_ne _ (by simp)] at hr

lemma OwnerWorld.move_of_acquire (hreq : ∀ ownership, call.request ≠ .release ownership)
    (w : OwnerWorld π) (source target : OwnerPath) (files : OwnerFiles) :
    w.move call source target files = (w.setDir source none).setDir target (some files) := by
  rw [OwnerWorld.move]
  split
  · rename_i ownership hrelease
    exact absurd hrelease (hreq ownership)
  · rfl

/-- A directory without a live owner is renamed away. -/
lemma renameAway_triple (hreq : ∀ ownership, call.request ≠ .release ownership)
    (hP : Framed self call P) (hguard : ∀ w, P w → w.guard = some call)
    (hclear : ∀ w, P w → P (w.setDir (.owner generation) none)) (suffix : Suffix) (uuid : String) :
    OwnerTriple self call
      (fun w => P w ∧ ∀ r, w.ownerAt (.owner generation) = some r → w.Dead r)
      (perform
        (.rename (.owner generation) (.renamed (.owner generation) suffix uuid)))
      (Ending (fun _ w => P w ∧ w.ownerAt (.owner generation) = none) P) := by
  refine perform_triple (framed_dead hP hguard generation).stable
    (fun _ => (framed_at hP hguard generation none).stable) hP.stable (fun _ w hw => hw.1) ?_
  rintro w r w' ⟨hw, hdead⟩ hI ⟨files, -, -, rfl, rfl⟩
  rw [w.move_of_acquire hreq]
  have hI' : OwnerInvariant self (w.setDir (.owner generation) none) :=
    hI.clear fun p ownership howns => hI.not_owns_of_dead hdead howns
  have hguar : OwnerGuarantee call w (w.setDir (.owner generation) none) :=
    .clear (hguard w hw) fun r hr => .inl (hdead r hr)
  have hprivate : Private call (.renamed (.owner generation) suffix uuid)
      (w.setDir (.owner generation) none) := trivial
  refine ⟨hI'.setPrivate hprivate, hguar.trans (.setPrivate hprivate),
    hP.setRenamed _ _ _ _ _ (hclear w hw), ?_⟩
  rw [OwnerWorld.ownerAt_setDir_of_ne _ _ (by simp), OwnerWorld.ownerAt_setDir_self]
  rfl

lemma readOwnerRecord_triple (hP : Framed self call P) (hguard : ∀ w, P w → w.guard = some call)
    (generation : String) (hS : OwnerStable self call S) :
    OwnerTriple self call P (perform (.readOwnerRecord (.owner generation)))
      (Ending (fun record? w => P w ∧ w.ownerAt (.owner generation) = record?) S) := by
  refine quiet_triple hP.stable (fun record? => (framed_at hP hguard generation record?).stable)
    hS nofun ?_
  rintro w r w' hw - ⟨rfl, rfl⟩
  exact ⟨rfl, hw, rfl⟩

/-- What can be read of a directory, unless it is abandoned. -/
lemma readOwnerRecordForScope_triple (hreq : ∀ ownership, call.request ≠ .release ownership)
    (hP : Framed self call P) (hguard : ∀ w, P w → w.guard = some call)
    (hclear : ∀ w, P w → P (w.setDir (.owner generation) none))
    (isRelevant : DaemonSupervisorOwnerScope → Bool) :
    OwnerTriple self call P (readOwnerRecordForScope (.owner generation) isRelevant)
      (Ending (fun record? w => P w ∧ w.ownerAt (.owner generation) = record?) P) := by
  have hat := framed_at hP hguard generation
  refine (readOwnerRecord_triple hP hguard generation hP.stable).andThen fun record? => ?_
  cases record? with
  | some record => exact triple_pure mortal_owner (hat _).stable fun _ => id
  | none =>
    have hscope : OwnerTriple self call (fun w => P w ∧ w.ownerAt (.owner generation) = none)
        (readOwnerScope (.owner generation))
        (Ending (fun _ w => P w ∧ w.ownerAt (.owner generation) = none) P) := by
      refine (idle_triple (hat none) hP.stable (fun _ => And.left) ?_).andThen fun _ =>
        triple_pure mortal_owner (hat none).stable fun _ => id
      rintro w r w' ⟨rfl, rfl⟩
      exact ⟨⟨_, rfl⟩, rfl⟩
    have hentries : ∀ scope, OwnerTriple self call
        (fun w => P w ∧ w.ownerAt (.owner generation) = none)
        (entriesUnless scope (.owner generation))
        (Ending (fun _ w => P w ∧ w.ownerAt (.owner generation) = none) P) := by
      intro scope
      cases scope with
      | none =>
        refine idle_triple (hat none) hP.stable (fun _ => And.left) ?_
        rintro w r w' ⟨⟨files, names, -, -, rfl⟩, rfl⟩
        exact ⟨⟨_, rfl⟩, rfl⟩
      | some scope => exact triple_pure mortal_owner (hat none).stable fun _ => id
    refine hscope.andThen fun scope => (hentries scope).andThen fun entries => ?_
    split_ifs
    · refine (randomUUID_triple (hat none) hP.stable).andThen fun uuid => ?_
      refine Triple.andThen ((renameAway_triple hreq hP hguard hclear .abandoned uuid).mono
        (fun w hw => ⟨hw.1, fun r hr => ?_⟩) fun _ _ => id) fun _ => ?_
      · rw [hw.2] at hr
        cases hr
      · exact ((rmSync_renamed_triple (hat none) _ _ uuid).weaken id And.left).andThen fun _ =>
            triple_pure mortal_owner (hat none).stable fun _ => id
    · exact triple_throw mortal_owner (hat none).stable fun w hw => hw.1
    · exact triple_pure mortal_owner (hat none).stable fun _ => id

end Registry

/-! ### Acquiring -/

section Acquiring

variable {pid : ℕ} {record : DaemonSupervisorOwnerRecord} {directories : List OwnerPath}
  {generation : String}

/-- Under the guard, whoever conflicts is dead or among the directories. -/
structure Scanning (call : OwnerCall π) (pid : ℕ) (record : DaemonSupervisorOwnerRecord)
    (directories : List OwnerPath) (w : OwnerWorld π) : Prop where
  guard : w.guard = some call
  drafted : Drafted call pid record w
  rivals : ∀ generation r, w.ownerAt (.owner generation) = some r →
    ownerConflicts r.scope record.scope = true → w.Dead r ∨ .owner generation ∈ directories

lemma framed_scanning : Framed self call (Scanning call pid record directories) := by
  have hdrafted : Framed self call (Drafted call pid record) := framed_drafted pid record
  refine ⟨?_, fun w uuid hnone hw => ?_, fun w directory suffix uuid files hw => ?_,
    fun w path hw => ⟨hw.guard, hdrafted.remember w path hw.drafted, hw.rivals⟩⟩
  · intro w w' hw hrely halive
    refine ⟨(hrely.guarded halive hw.guard).1, hdrafted.stable w w' hw.drafted hrely halive,
      fun generation r hr hconf => ?_⟩
    rw [hrely.ownerAt halive hw.guard] at hr
    exact (hw.rivals generation r hr hconf).imp_left hrely.dead
  · refine ⟨hw.guard, hdrafted.issue w uuid hnone hw.drafted, fun generation r hr hconf => ?_⟩
    exact (hw.rivals generation r hr hconf).imp_left (OwnerWorld.Dead.issue hnone)
  · refine ⟨hw.guard, hdrafted.setRenamed w directory suffix uuid files hw.drafted,
      fun generation r hr hconf => ?_⟩
    exact hw.rivals generation r hr hconf

variable {w : OwnerWorld π}

lemma Scanning.clear (h : Scanning call pid record directories w) (generation : String) :
    Scanning call pid record directories (w.setDir (.owner generation) none) := by
  refine ⟨h.guard, ⟨⟨h.drafted.1.issued, h.drafted.1.unused⟩, ?_⟩,
    fun generation' r hr hconf => ?_⟩
  · exact h.drafted.2
  · by_cases heq : generation' = generation
    · rw [heq, w.ownerAt_setDir_self] at hr
      cases hr
    · rw [w.ownerAt_setDir_of_ne _ (by simpa using heq)] at hr
      exact h.rivals generation' r hr hconf

/-- The first directory has been looked at. -/
lemma Scanning.tail (h : Scanning call pid record (.owner generation :: directories) w)
    (hdone : ∀ r, w.ownerAt (.owner generation) = some r →
      ownerConflicts r.scope record.scope = true → w.Dead r) :
    Scanning call pid record directories w := by
  refine ⟨h.guard, h.drafted, fun generation' r hr hconf => ?_⟩
  rcases h.rivals generation' r hr hconf with hdead | hmem
  · exact .inl hdead
  · rcases List.mem_cons.mp hmem with heq | hmem
    · cases heq
      exact .inl (hdone r hr hconf)
    · exact .inr hmem

/-- Where a claim is given up, the call still has the guard and its token. -/
abbrev GivenUp (call : OwnerCall π) (record : DaemonSupervisorOwnerRecord)
    (w : OwnerWorld π) : Prop :=
  w.guard = some call ∧ Fresh call record.token w

lemma framed_givenUp : Framed self call (GivenUp call record) :=
  framed_guard.and (framed_fresh _)

lemma Scanning.givenUp (h : Scanning call pid record directories w) : GivenUp call record w :=
  ⟨h.guard, h.drafted.1⟩

/-- The owner that conflicts is dead, unless the claim is refused. -/
lemma isProcessIdentityAlive_triple {owner : DaemonSupervisorOwnerRecord} : OwnerTriple self call
      (fun w => Scanning call pid record directories w ∧ w.ownerAt (.owner generation) = some owner)
      (perform (.isProcessIdentityAlive owner.toProcessIdentity))
      (Ending (fun alive w => Scanning call pid record directories w ∧
        ∀ r, w.ownerAt (.owner generation) = some r → alive = false → w.Dead r)
        (GivenUp call record)) := by
  have hat : Framed self call fun w => Scanning call pid record directories w ∧
      w.ownerAt (.owner generation) = some owner :=
    framed_at framed_scanning (fun _ hw => hw.guard) generation _
  refine quiet_triple hat.stable (fun alive => ?_) framed_givenUp.stable nofun ?_
  · rintro w w' ⟨hw, hdead⟩ hrely halive
    refine ⟨framed_scanning.stable w w' hw hrely halive, fun r hr hfalse => ?_⟩
    rw [hrely.ownerAt halive hw.guard] at hr
    exact hrely.dead (hdead r hr hfalse)
  · rintro w r w' ⟨hw, howner⟩ hI ⟨⟨alive, rfl, haccurate⟩, rfl⟩
    refine ⟨rfl, hw, fun r hr hfalse => ?_⟩
    obtain rfl := mem_unique howner hr
    obtain ⟨writer, hwriter, hsigned⟩ := hI.signed generation owner howner
    refine ⟨writer, hwriter, by_contra fun halive => ?_⟩
    have hident := hsigned halive
    have htrue := (haccurate ⟨_, hident.symm⟩).mpr ⟨_, hident.symm, halive⟩
    simp [htrue] at hfalse

/-- **The loop of an acquisition**: when it is through, whoever conflicts is dead. -/
lemma setAsideStale_triple (hreq : ∀ ownership, call.request ≠ .release ownership)
    (hdirs : ∀ path ∈ directories, ∃ generation, path = .owner generation) :
    OwnerTriple self call (Scanning call pid record directories) (setAsideStale record directories)
      (Ending (fun _ => Scanning call pid record []) (GivenUp call record)) := by
  induction directories with
  | nil => exact triple_pure mortal_owner framed_scanning.stable fun _ => id
  | cons path rest ih =>
    obtain ⟨generation, rfl⟩ := hdirs path List.mem_cons_self
    have hscan : ∀ {ds}, Framed self call (Scanning call pid record ds) := framed_scanning
    have hrest := ih fun path hmem => hdirs path (List.mem_cons_of_mem _ hmem)
    have hread : OwnerTriple self call (Scanning call pid record (.owner generation :: rest))
        (readOwnerRecordForScope (.owner generation) fun scope =>
          ownerConflicts scope record.scope)
        (Ending (fun record? w => Scanning call pid record (.owner generation :: rest) w ∧
          w.ownerAt (.owner generation) = record?) (GivenUp call record)) :=
      (readOwnerRecordForScope_triple hreq hscan (fun _ hw => hw.guard)
        (fun _ hw => hw.clear generation) _).weaken id Scanning.givenUp
    refine hread.andThen fun record? => ?_
    cases record? with
    | none =>
      refine hrest.mono (fun w hw => hw.1.tail fun r hr => ?_) fun _ _ => id
      rw [hw.2] at hr
      cases hr
    | some owner =>
      show OwnerTriple self call _ (if !ownerConflicts owner.scope record.scope then
        setAsideStale record rest else _) _
      split_ifs with hconf
      · refine hrest.mono (fun w hw => hw.1.tail fun r hr hr' => ?_) fun _ _ => id
        obtain rfl := mem_unique hw.2 hr
        simp [hr'] at hconf
      · refine isProcessIdentityAlive_triple.andThen fun alive => ?_
        cases alive with
        | true =>
          exact Triple.mono (triple_throw mortal_owner hscan.stable fun _ => Scanning.givenUp)
            (fun _ hw => hw.1) fun _ _ => id
        | false =>
          -- the directory counts no more even before it is renamed away
          have hframed : Framed self call fun w => Scanning call pid record rest w ∧
              ∀ r, w.ownerAt (.owner generation) = some r → w.Dead r :=
            framed_dead hscan (fun _ hw => hw.guard) generation
          have haway : ∀ uuid, OwnerTriple self call
              (fun w => Scanning call pid record rest w ∧
                ∀ r, w.ownerAt (.owner generation) = some r → w.Dead r)
              (perform
                (.rename (.owner generation) (.renamed (.owner generation) .stale uuid)))
              (Ending (fun _ => Scanning call pid record rest) (GivenUp call record)) :=
            fun uuid => (renameAway_triple hreq hscan (fun _ hw => hw.guard)
              (fun _ hw => hw.clear generation) .stale uuid).weaken And.left Scanning.givenUp
          have hnext : OwnerTriple self call
              (fun w => Scanning call pid record rest w ∧
                ∀ r, w.ownerAt (.owner generation) = some r → w.Dead r)
              (do
                let uuid ← perform .randomUUID
                perform
                  (.rename (.owner generation) (.renamed (.owner generation) .stale uuid))
                perform (.remember (.renamed (.owner generation) .stale uuid))
                setAsideStale record rest)
              (Ending (fun _ => Scanning call pid record []) (GivenUp call record)) :=
            (randomUUID_triple hframed framed_givenUp.stable).andThen fun uuid =>
              (haway uuid).andThen fun _ =>
                (remember_triple hscan framed_givenUp.stable _ _ _).andThen fun _ => hrest
          exact hnext.mono
            (fun w hw => ⟨hw.1.tail fun r hr _ => hw.2 r hr rfl, fun r hr => hw.2 r hr rfl⟩)
            fun _ _ => id

/-- The record is in the registry, and no ownership has been made of it yet. -/
structure Entered (call : OwnerCall π) (record : DaemonSupervisorOwnerRecord)
    (w : OwnerWorld π) : Prop where
  fresh : Fresh call record.token w
  record : w.ownerAt (.owner record.generation) = some record

lemma framed_entered : Framed self call (Entered call record) := by
  have hfresh : Framed self call (Fresh call record.token) := framed_fresh _
  refine ⟨fun w w' hw hrely halive => ⟨hfresh.stable w w' hw.fresh hrely halive,
      hrely.placed halive _ _ hw.record hw.fresh.issued hw.fresh.unused⟩,
    fun w uuid hnone hw => ⟨hfresh.issue w uuid hnone hw.fresh, hw.record⟩,
    fun w directory suffix uuid files hw =>
      ⟨hfresh.setRenamed w directory suffix uuid files hw.fresh, ?_⟩,
    fun w path hw => ⟨hfresh.remember w path hw.fresh, hw.record⟩⟩
  exact hw.record

lemma unguarded_entered : Unguarded (Entered call record) :=
  fun w holder hw => ⟨unguarded_fresh _ w holder hw.fresh, hw.record⟩

section
variable (hreq : ∀ ownership, call.request ≠ .release ownership)
  (hself : record.toProcessIdentity = self call.process)
include hreq hself

/-- The candidate becomes the directory of an owner. -/
lemma renameCandidate_triple : OwnerTriple self call (Scanning call pid record [])
      (perform
        (.rename (.candidate pid record.token) (.owner record.generation)))
      (Ending (fun _ w => w.guard = some call ∧ Entered call record w)
        (GivenUp call record)) := by
  refine perform_triple framed_scanning.stable (fun _ => (framed_guard.and framed_entered).stable)
    framed_givenUp.stable (fun _ _ => Scanning.givenUp) ?_
  rintro w r w' hw hI ⟨files, hfiles, hvacant, rfl, rfl⟩
  rw [w.move_of_acquire hreq]
  obtain ⟨hfresh, files', hfiles', hrec⟩ := hw.drafted
  obtain rfl := mem_unique hfiles hfiles'
  have hprivate : Private call (.candidate pid record.token) w := hfresh.issued
  have hvacant' : (w.setDir (.candidate pid record.token) none).Vacant
      (.owner record.generation) := by
    exact hvacant
  have hvalue : (some files).bind (·.owner.value?) = some record := by
    rw [bind_some, hrec]
    rfl
  refine ⟨(hI.setPrivate hprivate).place hvacant' hvalue ⟨call, hfresh.issued, fun _ => hself⟩ ?_,
    (OwnerGuarantee.setPrivate hprivate).trans (.place hw.guard hvacant'), hw.guard,
    ⟨hfresh.issued, hfresh.unused⟩, ?_⟩
  · rintro generation r ⟨hr, writer, hwriter, halive⟩
    by_contra hconf
    rw [Bool.not_eq_false, ownerConflicts_comm] at hconf
    rcases hw.rivals generation r hr hconf with ⟨writer', hwriter', hcrashed⟩ | hmem
    · obtain rfl := mem_unique hwriter hwriter'
      exact halive hcrashed
    · cases hmem
  · rw [OwnerWorld.ownerAt_setDir_self]
    exact hvalue

lemma claimOwnership_triple :
    OwnerTriple self call (fun w => w.guard = some call ∧ Drafted call pid record w)
      (claimOwnership record (.candidate pid record.token) (.owner record.generation))
      (Ending (fun _ w => w.guard = some call ∧ Entered call record w)
        (GivenUp call record)) := by
  have hstart : Framed self call fun w => w.guard = some call ∧ Drafted call pid record w :=
    framed_guard.and (framed_drafted pid record)
  have hgivenUp : ∀ w, w.guard = some call ∧ Drafted call pid record w →
      GivenUp call record w := fun w hw => ⟨hw.1, hw.2.1⟩
  have hadmission : OwnerTriple self call
      (fun w => w.guard = some call ∧ Drafted call pid record w)
      (perform .readActiveShutdownAdmission)
      (Ending (fun _ w => w.guard = some call ∧ Drafted call pid record w)
        (GivenUp call record)) := by
    refine idle_triple hstart framed_givenUp.stable hgivenUp ?_
    rintro w r w' ⟨⟨active, rfl⟩, rfl⟩
    exact ⟨⟨active, rfl⟩, rfl⟩
  have hlist : OwnerTriple self call (fun w => w.guard = some call ∧ Drafted call pid record w)
      (perform .listOwnerDirectories)
      (Ending (fun directories w =>
        (∀ path ∈ directories, ∃ generation, path = .owner generation) ∧
          Scanning call pid record directories w) (GivenUp call record)) := by
    refine quiet_triple hstart.stable
      (fun directories => ((framed_const _).and framed_scanning).stable) framed_givenUp.stable
      (fun _ => hgivenUp) ?_
    rintro w r w' ⟨hguard, hdrafted⟩ - ⟨⟨directories, rfl, hall⟩, rfl⟩
    refine ⟨rfl, fun path hmem => ?_, hguard, hdrafted, fun generation r hr _ => .inr ?_⟩
    · obtain ⟨generation, heq, -⟩ := (hall path).mp hmem
      exact ⟨generation, heq⟩
    · refine (hall _).mpr ⟨generation, rfl, fun hnone => ?_⟩
      simp [OwnerWorld.ownerAt, hnone] at hr
  refine hadmission.andThen fun active => ?_
  cases active with
  | true => exact triple_throw mortal_owner hstart.stable hgivenUp
  | false =>
    exact hlist.andThen fun directories => triple_of_and mortal_owner fun hdirs =>
      (setAsideStale_triple hreq hdirs).andThen fun _ =>
        renameCandidate_triple hreq hself

/-- Under the guard, from a draft to a record in the registry. -/
lemma claim_triple : OwnerTriple self call
      (At (.candidate pid record.token) (Fresh call record.token) fun _ => True)
      (do
        writeJsonAtomically (.candidate pid record.token) (.scope record.scope)
        writeJsonAtomically (.candidate pid record.token) (.owner record)
        withDaemonSupervisorRegistryGuard
          (claimOwnership record (.candidate pid record.token) (.owner record.generation)))
      (Ending (fun _ => Entered call record) (Fresh call record.token)) := by
  have hguarded : OwnerTriple self call (Drafted call pid record)
      (withDaemonSupervisorRegistryGuard
        (claimOwnership record (.candidate pid record.token) (.owner record.generation)))
      (Ending (fun _ => Entered call record) (Fresh call record.token)) :=
    guard_triple (framed_drafted pid record).stable (fun _ => framed_entered.stable)
      (framed_fresh _).stable (fun w holder hw => ⟨unguarded_fresh _ w holder hw.1, hw.2⟩)
      (fun _ => unguarded_entered) (unguarded_fresh _) (fun _ hw => hw.1) (fun _ _ hw => hw.fresh)
      (claimOwnership_triple hreq hself)
  exact (writeScope_triple pid record).andThen fun _ =>
    (writeRecord_triple pid record).andThen fun _ => hguarded

end

/-- The `catch` clause. -/
lemma orRemove_triple (result : Except OwnerError Unit) :
    OwnerTriple self call (Ending (fun _ => Entered call record) (Fresh call record.token) result)
      (orRemove (.candidate pid record.token) result)
      (Ending (fun _ => Entered call record) fun _ => True) := by
  cases result with
  | ok _ => exact triple_pure mortal_owner framed_entered.stable fun _ => id
  | error error =>
    have hfresh : Framed self call (Fresh call record.token) := framed_fresh _
    have hremove : OwnerTriple self call (Fresh call record.token)
        (rmSync (.candidate pid record.token))
        (Ending (fun _ => Fresh call record.token) (Fresh call record.token)) :=
      rmSync_triple hfresh.stable (fun _ hw => hw.issued) fun _ _ hw => ⟨hw.issued, hw.unused⟩
    refine Triple.andThen (hremove.weaken id fun _ => trivial) fun _ => ?_
    exact triple_throw mortal_owner hfresh.stable fun _ _ => trivial

lemma newOwnership_triple : OwnerTriple self call (Entered call record)
      (perform (.newOwnership ⟨record, .owner record.generation⟩))
      (Ending (fun _ _ => True) fun _ => True) := by
  refine perform_triple framed_entered.stable (fun _ => (framed_const _).stable)
    (framed_const _).stable nofun ?_
  rintro w r w' hw hI ⟨rfl, rfl⟩
  exact ⟨hI.newOwnership hw.fresh.issued hw.fresh.unused rfl hw.record,
    .setOwnership (.inr hw.fresh.issued), trivial⟩

/-- What an acquisition does once it has a record to enter. -/
lemma enter_triple (pid : ℕ) (record : DaemonSupervisorOwnerRecord)
    (hreq : ∀ ownership, call.request ≠ .release ownership)
    (hself : record.toProcessIdentity = self call.process) :
    OwnerTriple self call (Fresh call record.token)
      (do
        perform (.mkdir (.candidate pid record.token))
        let claimed ← (do
          writeJsonAtomically (.candidate pid record.token) (.scope record.scope)
          writeJsonAtomically (.candidate pid record.token) (.owner record)
          withDaemonSupervisorRegistryGuard
            (claimOwnership record (.candidate pid record.token)
              (.owner record.generation))).attempt
        let result ← (orRemove (.candidate pid record.token) claimed).attempt
        let staleDirectories ← perform .remembered
        removeAll staleDirectories
        conclude result
        perform (.newOwnership ⟨record, .owner record.generation⟩)
        (pure ⟨record, .owner record.generation⟩ : OwnerProgram DaemonSupervisorOwnership))
      (Ending (fun _ _ => True) fun _ => True) := by
  have hfresh : Framed self call (Fresh call record.token) := framed_fresh _
  have htrue : Framed self call fun _ => True := framed_const True
  have hmkdir : OwnerTriple self call (Fresh call record.token)
      (perform (.mkdir (.candidate pid record.token)))
      (Ending (fun _ => At (.candidate pid record.token) (Fresh call record.token) fun _ => True)
        fun _ => True) := by
    refine perform_triple hfresh.stable
      (fun _ => (writable_candidate pid record.token (.owner record)).stable _) htrue.stable
      (fun _ _ _ => trivial) ?_
    rintro w r w' hw hI ⟨-, rfl, rfl⟩
    have hprivate : Private call (.candidate pid record.token) w := hw.issued
    exact ⟨hI.setPrivate hprivate, .setPrivate hprivate, ⟨hw.issued, hw.unused⟩, _,
      w.dirs_setDir_self .., trivial⟩
  refine hmkdir.andThen fun _ => (claim_triple hreq hself).attempt_bind fun claimed =>
    (orRemove_triple claimed).attempt_bind fun result => ?_
  have hres : Framed self call
      (Ending (fun _ => Entered call record) (fun _ => True) result) := by
    cases result with
    | ok _ => exact framed_entered
    | error error => exact htrue
  refine remembered_triple hres fun directories hrenamed => ?_
  refine Triple.andThen ((removeAll_triple hres hrenamed).weaken id fun _ => trivial) fun _ => ?_
  refine (conclude_triple (fun _ => framed_entered.stable) htrue.stable result).andThen fun _ =>
    newOwnership_triple.andThen fun _ => triple_pure mortal_owner htrue.stable fun _ => id

lemma acquire_triple (hreq : ∀ ownership, call.request ≠ .release ownership)
    (options : AcquireDaemonSupervisorOwnershipOptions) :
    OwnerTriple self call (fun _ => True)
      (acquireDaemonSupervisorOwnership (self call.process) options)
      (Ending (fun _ _ => True) fun _ => True) := by
  have htrue : Framed self call fun _ => True := framed_const True
  have htoken : OwnerTriple self call (fun _ => True) (perform .randomUUID)
      (Ending (fun token => Fresh call token) fun _ => True) := by
    refine perform_triple htrue.stable (fun token => (framed_fresh token).stable) htrue.stable
      nofun ?_
    rintro w r w' - hI ⟨token, rfl, hnone, rfl⟩
    refine ⟨hI.issue hnone, .issue hnone, w.issued_issue_self token call, fun p ownership h => ?_⟩
    by_contra hsome
    obtain ⟨writer, hwriter, -⟩ := hI.issued p ownership hsome
    rw [h, hnone] at hwriter
    cases hwriter
  have hidle := fun token op => @idle_triple π _ self call (Fresh call token) (fun _ => True) op
    (framed_fresh token) htrue.stable fun _ _ => trivial
  refine htoken.andThen fun token => (hidle token _ ?_).andThen fun now =>
    (hidle token _ ?_).andThen fun socketPath => (hidle token _ ?_).andThen fun descriptorDir =>
      (hidle token _ ?_).andThen fun agentDir => ?_
  · exact fun _ _ _ => id
  · exact fun _ _ _ => id
  · exact fun _ _ _ => id
  · exact fun _ _ _ => id
  rw [ownerDirectoryPath]
  split
  · exact enter_triple _ (options.record (self call.process) token now socketPath descriptorDir
      agentDir) hreq rfl
  · exact triple_throw mortal_owner (framed_fresh token).stable fun _ _ => trivial

end Acquiring

/-! ### Releasing, and changing the phase -/

section Owning

variable {ownership : DaemonSupervisorOwnership}

/-- The call is made on an ownership of its process. -/
abbrev Has (call : OwnerCall π) (ownership : DaemonSupervisorOwnership) (w : OwnerWorld π) : Prop :=
  w.ownerships call.process ownership ≠ none

lemma framed_has : Framed self call (Has call ownership) :=
  framed_ownership call.process ownership

/-- And it has the guard. -/
abbrev Guards (call : OwnerCall π) (ownership : DaemonSupervisorOwnership) (w : OwnerWorld π) :
    Prop :=
  w.guard = some call ∧ Has call ownership w

lemma framed_guards : Framed self call (Guards call ownership) := framed_guard.and framed_has

lemma isReleased_triple :
    OwnerTriple self call (Has call ownership) (perform (.isReleased ownership))
      (Ending (fun _ w => ownership.ownerDirectory = .owner ownership.record.generation ∧
        Has call ownership w) fun _ => True) := by
  refine quiet_triple framed_has.stable (fun _ => ((framed_const _).and framed_has).stable)
    (framed_const _).stable nofun ?_
  rintro w r w' hw hI ⟨rfl, rfl⟩
  exact ⟨rfl, hI.directory_eq call.process ownership hw, hw⟩

variable {generation : String}

section
variable (hreq : call.request = .release ownership)
include hreq

/-- The directory of the ownership leaves the registry, and the ownership with it. -/
lemma renameReleased_triple {r₀ : DaemonSupervisorOwnerRecord}
    (hdir : ownership.ownerDirectory = .owner generation)
    (htoken : r₀.token = ownership.record.token) (uuid : String) :
    OwnerTriple self call
      (fun w => Guards call ownership w ∧
        w.ownerAt (.owner generation) = some r₀)
      (perform (.rename (.owner generation) (.renamed (.owner generation) .released uuid)))
      (Ending (fun _ => Guards call ownership) (Guards call ownership)) := by
  have hhas : Framed self call (Guards call ownership) := framed_guards
  refine perform_triple (framed_at hhas (fun _ hw => hw.1) generation _).stable
    (fun _ => hhas.stable) hhas.stable (fun _ w hw => hw.1) ?_
  rintro w r w' ⟨⟨hguard, hsome⟩, hr⟩ hI ⟨files, -, -, rfl, rfl⟩
  have hmove : w.move call (.owner generation) (.renamed (.owner generation) .released uuid) files =
      ((w.setOwnership call.process ownership .unregistered).setDir (.owner generation) none).setDir
        (.renamed (.owner generation) .released uuid) (some files) := by
    rw [OwnerWorld.move, hreq]
    simp only [hdir, if_true]
    rfl
  have hI' : OwnerInvariant self (w.setOwnership call.process ownership .unregistered) :=
    hI.setStanding hsome nofun
  have hused : ¬(w.setOwnership call.process ownership .unregistered).Unused r₀.token := by
    intro hunused
    have hnone := hunused call.process ownership htoken.symm
    rw [w.ownerships_setOwnership, if_pos ⟨rfl, rfl⟩] at hnone
    cases hnone
  have hclear : OwnerInvariant self
      ((w.setOwnership call.process ownership .unregistered).setDir (.owner generation) none) := by
    refine hI'.clear fun p ownership' howns hdir' => ?_
    obtain ⟨r', hr', hcont⟩ := hI'.registered p ownership' howns
    rw [hdir'] at hr'
    obtain rfl := mem_unique hr hr'
    have hsome' : (w.setOwnership call.process ownership .unregistered).ownerships call.process
        ownership ≠ none := by simp [w.ownerships_setOwnership]
    obtain rfl := hI'.unique call.process p ownership ownership' hsome' howns.ne_none
      (htoken.symm.trans hcont.token)
    obtain ⟨writer, hwriter, hp⟩ := hI'.issued call.process ownership hsome'
    obtain ⟨writer', hwriter', hp'⟩ := hI'.issued p ownership howns.ne_none
    obtain rfl := mem_unique hwriter hwriter'
    have hstanding := howns.2
    rw [← hp', hp, w.ownerships_setOwnership, if_pos ⟨rfl, rfl⟩] at hstanding
    cases hstanding
  have hprivate : Private call (.renamed (.owner generation) .released uuid)
      ((w.setOwnership call.process ownership .unregistered).setDir (.owner generation) none) :=
    trivial
  rw [hmove]
  refine ⟨hclear.setPrivate hprivate, OwnerGuarantee.trans (.setOwnership (.inl hsome))
    (OwnerGuarantee.trans (.clear hguard fun r hr' => .inr ?_) (.setPrivate hprivate)), hguard, ?_⟩
  · obtain rfl := mem_unique hr hr'
    exact hused
  · show (w.setOwnership call.process ownership .unregistered).ownerships call.process ownership ≠
      none
    simp [w.ownerships_setOwnership]

lemma unregister_triple
    (hdir : ownership.ownerDirectory = .owner ownership.record.generation) :
    OwnerTriple self call (Guards call ownership)
      ownership.unregister
      (Ending (fun _ => Guards call ownership) (Guards call ownership)) := by
  have hhas : Framed self call (Guards call ownership) := framed_guards
  have hat := framed_at hhas (fun _ hw => hw.1) ownership.record.generation
  rw [DaemonSupervisorOwnership.unregister, hdir]
  refine (readOwnerRecord_triple hhas (fun _ hw => hw.1) _ hhas.stable).andThen fun current => ?_
  split_ifs with htoken
  · exact triple_pure mortal_owner (hat current).stable fun w hw => hw.1
  · rw [not_not, map_eq_some_iff] at htoken
    obtain ⟨r, rfl, htoken⟩ := htoken
    exact (randomUUID_triple (hat _) hhas.stable).andThen fun uuid =>
      (remember_triple (hat _) hhas.stable _ _ _).andThen fun _ =>
        renameReleased_triple hreq hdir htoken uuid

lemma release_triple : OwnerTriple self call (Has call ownership) ownership.release
      (Ending (fun _ _ => True) fun _ => True) := by
  have htrue : Framed self call fun _ => True := framed_const True
  have hguarded (hdir : ownership.ownerDirectory = .owner ownership.record.generation) :
      OwnerTriple self call (Has call ownership)
        (withDaemonSupervisorRegistryGuard ownership.unregister)
        (Ending (fun _ => Has call ownership) fun _ => True) :=
    (guard_triple framed_has.stable (fun _ => framed_has.stable) framed_has.stable
      (fun _ _ => id) (fun _ _ _ => id) (fun _ _ => id) (fun _ => id) (fun _ _ => id)
      (unregister_triple hreq hdir)).weaken id fun _ => trivial
  have hset : OwnerTriple self call (Has call ownership)
      (perform (.setReleased ownership)) (Ending (fun _ _ => True) fun _ => True) := by
    refine perform_triple framed_has.stable (fun _ => htrue.stable) htrue.stable nofun ?_
    rintro w r w' hw hI ⟨rfl, rfl⟩
    exact ⟨hI.setStanding hw nofun, .setOwnership (.inl hw), trivial⟩
  refine isReleased_triple.andThen fun released => triple_of_and mortal_owner fun hdir => ?_
  cases released with
  | true => exact triple_pure mortal_owner framed_has.stable fun _ _ => trivial
  | false =>
    refine ((hguarded hdir).andThen fun _ => hset).attempt_bind fun result => ?_
    have hres : Framed self call
        (Ending (fun _ _ => True) (fun _ => True) result) := by
      cases result <;> exact htrue
    refine remembered_triple hres fun directories hrenamed => ?_
    refine Triple.andThen ((removeAll_triple hres hrenamed).weaken id fun _ => trivial) fun _ => ?_
    exact conclude_triple (fun _ => htrue.stable) htrue.stable result

end

/-- While the call may write a new version of the record of its ownership. -/
abbrev Updating (call : OwnerCall π) (ownership : DaemonSupervisorOwnership) (generation : String)
    (updated : DaemonSupervisorOwnerRecord) (w : OwnerWorld π) : Prop :=
  ∃ r, (updated.Continues r ∧ r.token = ownership.record.token) ∧
    Guards call ownership w ∧ w.ownerAt (.owner generation) = some r

lemma writable_owner (updated : DaemonSupervisorOwnerRecord) :
    Writable self call (.owner generation) (.owner updated)
      (Updating call ownership generation updated) := by
  have hframed : Framed self call (Updating call ownership generation updated) :=
    .exists fun r => (framed_const _).and
      (framed_at (framed_guard.and framed_has) (fun _ hw => hw.1) generation _)
  refine ⟨hframed, ?_, ?_⟩
  · rintro files w w' ⟨hw, hfiles⟩ hrely halive
    refine ⟨hframed.stable w w' hw hrely halive, ?_⟩
    obtain ⟨r, -, ⟨hguard, -⟩, -⟩ := hw
    exact ((hrely.guarded halive hguard).2 generation).trans hfiles
  · rintro w files files' ⟨r, ⟨hcont, htoken⟩, ⟨hguard, hsome⟩, hr⟩ hI hfiles hbetween
    have hused : ¬w.Unused r.token := fun hunused => hsome (hunused _ _ htoken.symm)
    obtain ⟨r', hr', hcont', hcont''⟩ : ∃ r',
        (some files').bind (·.owner.value?) = some r' ∧ r'.Continues r ∧ updated.Continues r' := by
      rcases hbetween with hsame | ⟨_, ⟨⟩, hnew⟩
      · refine ⟨r, ?_, .refl r, hcont⟩
        rw [bind_some, hsame]
        rwa [OwnerWorld.ownerAt, hfiles] at hr
      · refine ⟨updated, ?_, hcont, .refl updated⟩
        rw [bind_some, hnew]
        rfl
    refine ⟨hI.amend hr hr' hcont', .amend hguard hr hused, r',
      ⟨hcont'', hcont'.token.trans htoken⟩, ⟨hguard, hsome⟩, ?_⟩
    rw [w.ownerAt_setDir_self]
    exact hr'

lemma requireOwnerRecord_triple (hP : Framed self call P)
    (hguard : ∀ w, P w → w.guard = some call) (generation : String) :
    OwnerTriple self call P (requireOwnerRecord (.owner generation))
      (Ending (fun record w => P w ∧ w.ownerAt (.owner generation) = some record) P) := by
  have hat := framed_at hP hguard generation
  refine (readOwnerRecord_triple hP hguard generation hP.stable).andThen fun record? => ?_
  cases record? with
  | some record => exact triple_pure mortal_owner (hat _).stable fun _ => id
  | none => exact triple_throw mortal_owner (hat _).stable fun w hw => hw.1

/-- A mutation that changes the phase only. -/
lemma mutateDaemonSupervisorOwner_triple
    {mutation : DaemonSupervisorOwnerRecord → DaemonSupervisorOwnerRecord}
    (hmutation : ∀ r updatedAt, { mutation r with updatedAt }.Continues r) :
    OwnerTriple self call (Has call ownership)
      (mutateDaemonSupervisorOwner ownership.record.generation ownership.record.token mutation)
      (Ending (fun _ => Has call ownership) (Has call ownership)) := by
  have hhas : Framed self call (Guards call ownership) := framed_guards
  have hat := framed_at hhas (fun _ hw => hw.1) ownership.record.generation
  refine guard_triple framed_has.stable (fun _ => framed_has.stable) framed_has.stable
    (fun _ _ => id) (fun _ _ _ => id) (fun _ _ => id) (fun _ => id) (fun _ _ => id) ?_
  have hexists : OwnerTriple self call (Guards call ownership)
      (perform (.existsSync (.owner ownership.record.generation)))
      (Ending (fun _ => Guards call ownership) (Guards call ownership)) := by
    refine idle_triple hhas hhas.stable (fun _ => id) ?_
    rintro w r w' ⟨rfl, rfl⟩
    exact ⟨⟨_, rfl⟩, rfl⟩
  have hnow : ∀ r, OwnerTriple self call
      (fun w => Guards call ownership w ∧
        w.ownerAt (.owner ownership.record.generation) = some r) (perform .nowIso)
      (Ending (fun _ w => Guards call ownership w ∧
        w.ownerAt (.owner ownership.record.generation) = some r)
        (Guards call ownership)) := by
    intro r
    exact idle_triple (hat _) hhas.stable (fun _ => And.left) fun _ _ _ => id
  rw [ownerDirectoryPath]
  split
  · refine hexists.andThen fun present => ?_
    cases present with
    | false => exact triple_pure mortal_owner hhas.stable fun _ => id
    | true =>
      refine (requireOwnerRecord_triple hhas (fun _ hw => hw.1) _).andThen fun current => ?_
      show OwnerTriple self call _ (if current.token ≠ ownership.record.token then _ else _) _
      split_ifs with htoken
      · exact triple_pure mortal_owner (hat _).stable fun w hw => hw.1
      · refine (hnow current).andThen fun now => ?_
        rw [not_not] at htoken
        show OwnerTriple self call _ (if _ ∨ _ then _ else _) _
        split_ifs
        · exact triple_throw mortal_owner (hat _).stable fun w hw => hw.1
        · -- the record in the directory is still the one that was read
          have hwrite : OwnerTriple self call
              (fun w => Guards call ownership w ∧
                w.ownerAt (.owner ownership.record.generation) = some current)
              (writeJsonAtomically (.owner ownership.record.generation)
                (.owner { mutation current with updatedAt := now }))
              (Ending (fun _ => Guards call ownership) (Guards call ownership)) := by
            refine (writeJsonAtomically_triple (writable_owner _)).mono (fun w hw => ?_)
              fun _ _ hw => hw.mono (fun _ hw => hw.1.choose_spec.2.1) fun hw =>
                hw.choose_spec.2.1
            refine ⟨⟨current, ⟨hmutation current now, htoken⟩, hw⟩, ?_⟩
            obtain ⟨files, hfiles, -⟩ := bind_eq_some_iff.mp hw.2
            exact ⟨files, hfiles, trivial⟩
          exact hwrite.andThen fun _ => triple_pure mortal_owner hhas.stable fun _ => id
  · exact triple_throw mortal_owner hhas.stable fun _ => id

lemma updatePhase_triple (phase : DaemonSupervisorOwnerPhase) :
    OwnerTriple self call (Has call ownership) (ownership.updatePhase phase)
      (Ending (fun _ _ => True) fun _ => True) := by
  refine isReleased_triple.andThen fun released => triple_of_and mortal_owner fun _ => ?_
  cases released with
  | true => exact triple_pure mortal_owner framed_has.stable fun _ _ => trivial
  | false =>
    have hmutate : OwnerTriple self call (Has call ownership)
        (mutateDaemonSupervisorOwner ownership.record.generation ownership.record.token
          fun owner => { owner with phase })
        (Ending (fun _ => Has call ownership) (Has call ownership)) :=
      mutateDaemonSupervisorOwner_triple fun _ _ => rfl
    refine Triple.andThen (hmutate.weaken id fun _ => trivial) fun updated => ?_
    cases updated with
    | none => exact triple_throw mortal_owner framed_has.stable fun _ _ => trivial
    | some _ => exact triple_pure mortal_owner framed_has.stable fun _ _ => trivial

end Owning

end Amide.SupervisorOwnership
