import Amide.Properties.Session.CrashConsistency

/-!
# Writes that fail

In a session that was created, or opened from a file of whole lines, the file ends at a line
boundary as long as no append without rollback is cut short, so the boundary condition of a clean
call holds by itself.  What an append that throws leaves in memory depends on its kind only: an
append with rollback takes its entry out again whatever its writes did.
-/

namespace Amide

open SessionState LineCodec

/-- A session at the path, created or opened; with `T`, from a file of whole lines. -/
inductive Started (T : Prop) (path : String) (s : SessionState) : Prop
  | created {dir cwd : String} {env : SessionEnv} {files : Files}
      (h : createSession dir cwd true env files = (.ok (), s))
      (hpath : s.manager.sessionFile = some path)
  | opened {dir cwd : String} {env : OpenEnv} {o : WriteOutcome} {files : Files}
      (h : openSession path dir cwd env o files = (.ok (), s))
      (hdraws : MigrationDrawsClean env.migrationDraws (loadEntriesFromFile files path))
      (hterm : T → ∀ content ∈ files path, Terminated content)

variable {path : String} {s : SessionState}

lemma Started.durable {T : Prop} (h : Started T path s) : Durable T path s := by
  cases h with
  | created h hpath =>
    obtain ⟨-, hset, hidx, hflushed, hpersist, -⟩ := newSession_spec h
    refine ⟨?_, hidx, hset, .of_not_flushed hflushed⟩
    rw [SessionManager.target, hpersist, if_pos rfl, hpath]
  | opened h hdraws hterm => exact openSession_durable hdraws hterm h

/-- On a file of whole lines an uncut call is clean. -/
theorem Durable.clean {c : SessionCall} (h : Durable True path s) (hc : UncutCall s c) :
    CleanCall path s c where
  toUncutCall := hc
  boundary _ _ hflushed _ content hfile := by
    obtain ⟨content', hfile', hterm, -⟩ := h.onDisk hflushed
    obtain rfl : content' = content := Option.mem_unique hfile' hfile
    exact hterm trivial

variable {calls : List SessionCall} {s₀ : SessionState}

lemma Durable.run_uncut
    (hrun : (sessionMachine.guard UncutCall).Run s₀ calls s) (h : Durable True path s₀) :
    Durable True path s :=
  hrun.invariant h fun _ _ _ hi hstep => hi.step (hi.clean hstep.2) hstep.1

/-- A call whose id is new where a write may fail. -/
def FreshCall (s : SessionState) (c : SessionCall) : Prop :=
  c.outcomes ≠ allDone → s.manager.byId.has (c.stamp.draws 100) = false

lemma Indexed.run_fresh
    (hrun : (sessionMachine.guard FreshCall).Run s₀ calls s) (h : Indexed s₀.manager) :
    Indexed s.manager :=
  hrun.invariant (I := fun s => Indexed s.manager) h fun _ _ _ hi hstep =>
    CallStep.indexed (.of_run hstep.1) hi hstep.2

/-- An append with rollback that throws leaves the tree as it was. -/
theorem CallStep.thrown_sameTree {op : SessionOp} {stamp : Stamp} {o : RollbackOutcomes}
    {s' : SessionState} {r : Except SessionError Unit} (h : CallStep op stamp o s r s')
    (hidx : Indexed s.manager)
    (hfall : o ≠ allDone → s.manager.byId.has (stamp.draws 100) = false)
    (hop : op.rollsBack = true) (hthrown : r ≠ .ok ()) : SameTree s.manager s'.manager := by
  cases h with
  | refused e => exact ⟨rfl, rfl, rfl, rfl⟩
  | leaf _ _ _ | kept _ _ _ _ => exact absurd rfl hthrown
  | flushed hnone _ => cases op <;> simp [SessionOp.rollsBack, SessionOp.body?] at hop hnone
  | appended hplain _ _ | labelled hplain _ _ _ => simp [hop] at hplain
  | undone hop hp h =>
    have hcut := ne_allDone_of_persistEntry h
    exact hp.rollback_sameTree hop (persistEntry_sameEntries h) hidx (hfall hcut) _
  | unflushed hop hp h hflush =>
    have hcut := ne_allDone_of_flushNow hflush
    exact hp.rollback_sameTree hop
      ((persistEntry_sameEntries h).trans (flushNow_sameEntries hflush)) hidx (hfall hcut) _

/-- **What failed writes leave.**  After calls of which no plain append was cut short, an append
that returns and is not held back leaves a file that loads as the entries in memory; after any
calls, an append with rollback that throws leaves the entries, the index and the leaf as they
were. -/
theorem session_consistent_of_failed_writes {path : String} {s₀ s s' : SessionState}
    {calls : List SessionCall} {c : SessionCall} (hstep : sessionMachine.step s c s') :
    (Started True path s₀ → (sessionMachine.guard UncutCall).Run s₀ calls s → UncutCall s c →
      c.result = .ok () → ∀ e ∈ c.op.made c.stamp s.manager,
        c.op.rollsBack = true ∨ writesEntry s.manager e = true →
        loadEntriesFromFile s'.files path = s'.manager.fileEntries) ∧
    (Started False path s₀ → (sessionMachine.guard FreshCall).Run s₀ calls s → FreshCall s c →
      c.op.rollsBack = true → c.result ≠ .ok () →
      s'.manager.fileEntries = s.manager.fileEntries ∧ s'.manager.byId = s.manager.byId ∧
        s'.manager.leafId = s.manager.leafId) := by
  have hcall : CallStep c.op c.stamp c.outcomes s c.result s' := .of_run hstep
  constructor
  · intro hstart hrun huncut hok e he hwrites
    have hdur := hstart.durable.run_uncut hrun
    obtain ⟨hdisk, hflushed⟩ := hcall.onDisk hdur (hdur.clean huncut)
    obtain ⟨content, hfile, -, hloads⟩ := hdisk (hflushed hok e he hwrites)
    exact hloads.load hfile
  · intro hstart hrun hfresh hop hthrown
    have hsame := hcall.thrown_sameTree (hstart.durable.indexed.run_fresh hrun) hfresh hop hthrown
    exact ⟨hsame.fileEntries, hsame.byId, hsame.leafId⟩

/-- A custom entry appended with rollback, whose line is cut after one byte. -/
def noteCall : SessionCall where
  op := .appendCustomEntryWithRollback "note" none
  stamp := ⟨fun _ => "n", "2026-01-03T00:00:00.000Z"⟩
  outcomes := ⟨.cut 1, .done, .done⟩
  result := .error .writeFailed

/-- A question and its answer. -/
def answered : SessionState := (diskSession.after (say "a" "one")).after (answer "b" "two")

lemma uncutCall_of_done {c : SessionCall} (hdone : c.outcomes = allDone)
    (hattr : attributions s.manager.fileEntries = []) : UncutCall s c where
  uncut _ _ _ _ _ written hcut := by
    rw [hdone] at hcut
    cases hcut
  untargeted e _ _ := by simp [hattr]
  fallback hfail := absurd hdone hfail

/-- A note that is not written, and a message behind it that is. -/
theorem session_consistent_of_failed_writes_answered :
    (answered.after noteCall).manager.fileEntries = answered.manager.fileEntries ∧
      (answered.after noteCall).manager.byId = answered.manager.byId ∧
      (answered.after noteCall).manager.leafId = answered.manager.leafId ∧
      loadEntriesFromFile ((answered.after noteCall).after (say "c" "three")).files "//new.jsonl" =
        ((answered.after noteCall).after (say "c" "three")).manager.fileEntries := by
  have hcreate : createSession "/" "/" true plainEnv.toSessionEnv (fun _ => none) =
      (.ok (), diskSession) := rfl
  have h₁ := run_after (.nil : (sessionMachine.guard UncutCall).Run diskSession [] _)
    (say "a" "one") rfl (uncutCall_of_done rfl rfl)
  have h₂ : (sessionMachine.guard UncutCall).Run diskSession _ answered :=
    run_after h₁ (answer "b" "two") rfl (uncutCall_of_done rfl rfl)
  have hnote : UncutCall answered noteCall := ⟨nofun, fun _ _ _ => nofun, fun _ => by decide⟩
  have h₃ := run_after h₂ noteCall rfl hnote
  obtain ⟨hentries, hbyId, hleaf⟩ := (session_consistent_of_failed_writes
    (Prod.ext rfl rfl : sessionMachine.step answered noteCall _)).2 (.created hcreate rfl)
    (h₂.guard_mono fun _ _ h => h.fallback) hnote.fallback rfl nofun
  refine ⟨hentries, hbyId, hleaf, ?_⟩
  exact (session_consistent_of_failed_writes
    (Prod.ext rfl rfl : sessionMachine.step (answered.after noteCall) (say "c" "three") _)).1
    (.created hcreate rfl) h₃ (uncutCall_of_done rfl rfl) rfl _ rfl (.inr rfl)

/-- **What is not on disk.**  The first message of a new session is held back; and a message cut
short stays in memory while the next one, which returns, is lost behind it. -/
theorem exists_append_not_on_disk :
    (∃ s s' path, createSession "/" "/" true plainEnv.toSessionEnv (fun _ => none) = (.ok (), s) ∧
      s.manager.sessionFile = some path ∧
      sessionMachine.step s (userCall "a" .done (.ok ())) s' ∧
      loadEntriesFromFile s'.files path ≠ s'.manager.fileEntries) ∧
    ∃ s₀ s, openSession "f" "/" "/" plainEnv .done
        (fileAtF (sessionCodec.write smallSession)) = (.ok (), s₀) ∧
      sessionMachine.Run s₀ [userCall "b" (.cut 1) (.error .writeFailed),
        userCall "c" .done (.ok ())] s ∧
      loadEntriesFromFile s.files "f" ≠ s.manager.fileEntries := by
  constructor
  · exact ⟨_, _, _, rfl, rfl, rfl, nofun⟩
  · obtain ⟨s₀, hopen, hentries, hsmall⟩ :=
      exists_open_smallSession (fileAtF_self _) loads_smallSession
    obtain ⟨s₁, hstep, hadded, hsmall₁⟩ := hsmall.append "b" (o := .cut 1) fun _ => rfl
    obtain ⟨s₂, hstep', hadded', hsmall₂⟩ := hsmall₁.append "c" (o := .done) fun _ => rfl
    have htorn : (sessionCodec.line (.entry (userEntry "b" s₀))).take 1 = [123] := by
      obtain ⟨u, hu⟩ := brace_prefix_encode (α := FileEntry) _ (.entry (userEntry "b" s₀))
      rw [line, sessionCodec, ← hu]
      rfl
    have hloads₂ := loadsAs_smallSession (read_torn_line (.entry (userEntry "c" s₁)))
    rw [htorn, List.append_assoc] at hsmall₂
    refine ⟨s₀, s₂, hopen, (Machine.Run.single hstep).snoc hstep', ?_⟩
    rw [hloads₂.load hsmall₂.file, hadded', hadded, hentries]
    simp

end Amide
