import Amide.Properties.Session.Opening

/-!
# Crashes and failed writes

Two runs over a session file: one that begins by opening whatever a crash left in the file, and
one in which writes fail.  In both the file loads as the entries in memory as long as the calls
are clean (`CleanCall`), and in both an unclean call loses entries: a line appended behind a torn
one is skipped by the loader together with it.
-/

namespace Amide

open SessionState LineCodec

/-- Every parent of an entry is in the index. -/
def ParentsResolve (m : SessionManager) : Prop :=
  ∀ e ∈ m.getEntries, ∀ p ∈ e.parentId, m.byId.has p = true

variable {s : SessionState} {calls : List SessionCall} {s₀ : SessionState} {path : String}

lemma Durable.run {T : Prop}
    (hrun : (sessionMachine.guard (CleanCall path)).Run s₀ calls s) (h : Durable T path s₀) :
    Durable T path s :=
  hrun.invariant h fun _ _ _ hi hstep => hi.step hstep.2 hstep.1

/-! ## Parents -/

lemma SameTree.parentsResolve {m m' : SessionManager} (h : SameTree m m')
    (hp : ParentsResolve m) : ParentsResolve m' := by
  unfold ParentsResolve SessionManager.getEntries
  rw [h.fileEntries, h.byId]
  exact hp

variable {r : Except SessionError Unit}

/-- Every call keeps the parents resolved. -/
theorem CallStep.parentsResolve {op : SessionOp} {stamp : Stamp} {o : RollbackOutcomes}
    {s' : SessionState} (h : CallStep op stamp o s r s') (hidx : Indexed s.manager)
    (hfall : o ≠ allDone → s.manager.byId.has (stamp.draws 100) = false)
    (hres : ParentsResolve s.manager) : ParentsResolve s'.manager := by
  rcases h.tree hidx hfall with hsame | ⟨leafId, -, hsame⟩ | ⟨e, p, hp, hsame⟩
  · exact hsame.parentsResolve hres
  · exact hsame.parentsResolve hres
  · refine hsame.parentsResolve fun x hx q hq => hp.has_byId ?_
    have hmem : x.parentId ∈ (sessionEntries p.manager.fileEntries).map SessionEntry.parentId :=
      List.mem_map_of_mem hx
    rw [hp.fileEntries, map_extendEntries parentId_setUsage] at hmem
    rcases List.mem_append.mp hmem with hmem | hmem
    · obtain ⟨y, hy, heq⟩ := List.mem_map.mp hmem
      exact hres y hy q (heq ▸ hq)
    · rw [List.mem_singleton.mp hmem] at hq
      exact hp.parentId_has hidx q hq

lemma ParentsResolve.run {T : Prop}
    (hrun : (sessionMachine.guard (CleanCall path)).Run s₀ calls s) (h : Durable T path s₀)
    (hres : ParentsResolve s₀.manager) : ParentsResolve s.manager := by
  have hboth : Durable T path s ∧ ParentsResolve s.manager :=
    hrun.invariant (I := fun s => Durable T path s ∧ ParentsResolve s.manager) ⟨h, hres⟩
      fun _ _ _ hi hstep => ⟨hi.1.step hstep.2 hstep.1,
        CallStep.parentsResolve (.of_run hstep.1) hi.1.indexed hstep.2.fallback hi.2⟩
  exact hboth.2

/-! ## After a crash -/

/-- **Clean runs survive a reload.**  Whatever the file held when it was opened, after clean calls
the last of which is on disk, opening the file again gives the header and the entries the manager
held, and parents that resolved still do. -/
theorem reopen_eq_of_clean_run {path dir cwd : String} {env : OpenEnv} {o : WriteOutcome}
    {files : Files} {s₀ s : SessionState} {calls : List SessionCall}
    (hopen : openSession path dir cwd env o files = (.ok (), s₀))
    (hdraws : MigrationDrawsClean env.migrationDraws (loadEntriesFromFile files path))
    (hrun : (sessionMachine.guard (CleanCall path)).Run s₀ calls s)
    (hflushed : s.manager.flushed = true) (dir' cwd' : String) (env' : OpenEnv)
    (o' : WriteOutcome) :
    ∃ s', openSession path dir' cwd' env' o' s.files = (.ok (), s') ∧
      s'.manager.fileEntries = s.manager.fileEntries ∧
      (ParentsResolve s₀.manager → ParentsResolve s'.manager) := by
  have hdur₀ : Durable False path s₀ := openSession_durable hdraws (by simp) hopen
  have hdur : Durable False path s := hdur₀.run hrun
  obtain ⟨content, hfile, -, hloads⟩ := hdur.onDisk hflushed
  obtain ⟨s', hopen', -, hentries, -, hbyId, -⟩ :=
    openSession_of_settled hfile hloads hdur.settled dir' cwd' env' o'
  refine ⟨s', hopen', hentries, fun hres => ?_⟩
  have hres' := ParentsResolve.run hrun hdur₀ hres
  unfold ParentsResolve SessionManager.getEntries at hres' ⊢
  rw [hentries, hbyId, ← SessionManager.getEntries, ← hdur.indexed.byId]
  exact hres'

/-! ### A small session -/

/-- A session with one answer. -/
def smallSession : List FileEntry :=
  [.session plainHeader, .entry (plainEntry "a" none (assistantBody "hello"))]

lemma settled_smallSession : Settled smallSession where
  header := ⟨plainHeader, _, rfl, Nat.le_refl 3, rfl⟩
  folded := rfl

/-- A call that appends a user message under the given id. -/
def userCall (id : String) (append : WriteOutcome) (result : Except SessionError Unit) :
    SessionCall where
  op := .appendMessage (.user { content := .string "next", timestamp := 0 })
  stamp := ⟨fun _ => id, "2026-01-03T00:00:00.000Z"⟩
  outcomes := ⟨append, .done, .done⟩
  result := result

/-- The files with nothing but one at the path `f`. -/
def fileAtF (content : List UInt8) : Files := Function.update (fun _ => none) "f" (some content)

@[simp] lemma fileAtF_self (content : List UInt8) : fileAtF content "f" = some content :=
  Function.update_self ..

/-- The state of a small session at the path `f` whose file holds the given bytes. -/
structure SmallState (content : List UInt8) (s : SessionState) : Prop where
  target : s.manager.target = some "f"
  flushed : s.manager.flushed = true
  file : s.files "f" = some content
  answered : s.manager.hasAssistant = true

lemma loadsAs_smallSession {rest : List UInt8} (hrest : sessionCodec.read rest = []) :
    LoadsAs (sessionCodec.write smallSession ++ rest) smallSession := by
  rw [LoadsAs, parseEntriesFromBuffer, read_write_append, hrest, List.append_nil,
    finalizeLoadedEntries_eq settled_smallSession.loaded]

lemma loads_smallSession : LoadsAs (sessionCodec.write smallSession) smallSession := by
  simpa using @loadsAs_smallSession [] sessionCodec.read_nil

/-- A file that loads as the small session opens as it. -/
theorem exists_open_smallSession {files : Files} {content : List UInt8}
    (hfile : files "f" = some content) (hloads : LoadsAs content smallSession) :
    ∃ s, openSession "f" "/" "/" plainEnv .done files = (.ok (), s) ∧
      s.manager.fileEntries = smallSession ∧ SmallState content s := by
  obtain ⟨s, hopen, hfiles, hentries, hflushed, -⟩ := openSession_of_settled hfile
    hloads settled_smallSession "/" "/" plainEnv .done
  have hdur : Durable False "f" s := openSession_durable
    (by rw [hloads.load hfile]; exact fun h => absurd h (by decide)) (by simp) hopen
  exact ⟨s, hopen, hentries, hdur.target, hflushed, by rw [hfiles, hfile],
    by rw [SessionManager.hasAssistant, hentries]; rfl⟩

/-- The entry a user call makes in a state. -/
def userEntry (id : String) (s : SessionState) : SessionEntry :=
  s.newEntry (userCall id .done (.ok ())).stamp
    (.message (.user { content := .string "next", timestamp := 0 }))

variable {content landed : List UInt8}

/-- Persisting an entry pushed onto a small session: `landed` is what its write makes of the
file. -/
theorem SmallState.persistEntry (h : SmallState content s)
    {e : SessionEntry} {o : WriteOutcome}
    (hline : ∀ s' : SessionState, s'.appendLine o "f" content e = (r, s'.writeFile "f" landed)) :
    (s.push e).persistEntry o e = (r, (s.push e).writeFile "f" landed) ∧
      SmallState landed ((s.push e).writeFile "f" landed) := by
  have htarget : (s.push e).manager.target = some "f" := h.target
  have hflushed : (s.push e).manager.flushed = true := h.flushed
  have hfile : (s.push e).files "f" = some content := h.file
  have hanswered : (s.push e).manager.hasAssistant = true := by
    have hs := h.answered
    rw [SessionManager.hasAssistant] at hs ⊢
    simp [SessionState.push, hs]
  refine ⟨?_, h.target, h.flushed, by simp [writeFile], hanswered⟩
  simp [SessionState.persistEntry, htarget, hanswered, hflushed, hfile, hline]

/-- A message appended to a small session. -/
theorem SmallState.append (h : SmallState content s) (id : String)
    {o : WriteOutcome}
    (hline : ∀ s' : SessionState, s'.appendLine o "f" content (userEntry id s) =
      (r, s'.writeFile "f" landed)) :
    ∃ s', sessionMachine.step s (userCall id o r) s' ∧
      s'.manager.fileEntries = s.manager.fileEntries ++ [.entry (userEntry id s)] ∧
      SmallState landed s' := by
  obtain ⟨hpersist, hsmall⟩ := h.persistEntry hline
  refine ⟨(s.push (userEntry id s)).writeFile "f" landed, ?_, rfl, hsmall⟩
  change SessionOp.void (s.appendEntry o (userEntry id s)) = _
  rw [appendEntry, hpersist]
  cases r <;> rfl

/-- An entry written behind the first byte of another is not read. -/
theorem read_torn_line (e : FileEntry) : sessionCodec.read (123 :: sessionCodec.line e) = [] :=
  read_brace_line _ e

/-- A clean run over a session whose file ends at a line boundary. -/
theorem reopen_eq_of_clean_run_smallSession :
    ∃ s₀ s s', openSession "f" "/" "/" plainEnv .done (fileAtF (sessionCodec.write smallSession)) =
        (.ok (), s₀) ∧
      (sessionMachine.guard (CleanCall "f")).Run s₀ [userCall "b" .done (.ok ())] s ∧
      openSession "f" "/" "/" plainEnv .done s.files = (.ok (), s') ∧
      s'.manager.fileEntries = s.manager.fileEntries := by
  obtain ⟨s₀, hopen, hentries, hsmall⟩ :=
    exists_open_smallSession (fileAtF_self _) loads_smallSession
  obtain ⟨s, hstep, -, hsmall'⟩ := hsmall.append "b" (o := .done) fun _ => rfl
  have hclean : CleanCall "f" s₀ (userCall "b" .done (.ok ())) := {
    boundary := fun _ _ _ _ content hfile => by
      rw [hsmall.file] at hfile
      exact Option.some.inj hfile ▸ terminated_write _ _
    uncut := fun _ _ _ _ _ written h => nomatch h
    untargeted := fun e he => by
      cases he
      exact fun h => absurd h (by simp [SessionEntry.isAssistant, AgentMessage.isAssistant])
    fallback := fun h => absurd rfl h }
  have hrun := Machine.Run.single (M := sessionMachine.guard (CleanCall "f")) ⟨hstep, hclean⟩
  have hdraws : MigrationDrawsClean plainEnv.migrationDraws
      (loadEntriesFromFile (fileAtF (sessionCodec.write smallSession)) "f") := by
    rw [loads_smallSession.load (fileAtF_self _)]
    exact fun h => absurd h (by decide)
  obtain ⟨s', hopen', hsame, -⟩ := reopen_eq_of_clean_run hopen hdraws hrun hsmall'.flushed
    "/" "/" plainEnv .done
  exact ⟨s₀, s, s', hopen, hrun, hopen', hsame⟩

/-- **A torn line takes the next one with it.**  The file holds a whole session and the first byte
of one more entry; the message appended behind it is on disk and in memory, and is not there when
the file is opened again. -/
theorem torn_line_loses_append :
    ∃ s₀ s s', [123] <+: sessionCodec.encode (.entry (userEntry "b" s₀)) ∧
      [123] ≠ sessionCodec.encode (.entry (userEntry "b" s₀)) ∧
      openSession "f" "/" "/" plainEnv .done
        (fileAtF (sessionCodec.write smallSession ++ [123])) = (.ok (), s₀) ∧
      sessionMachine.Run s₀ [userCall "b" .done (.ok ())] s ∧
      s.manager.flushed = true ∧
      openSession "f" "/" "/" plainEnv .done s.files = (.ok (), s') ∧
      s'.manager.fileEntries ≠ s.manager.fileEntries := by
  have htorn : sessionCodec.read [123] = [] := by
    rfl
  obtain ⟨s₀, hopen, hentries, hsmall⟩ :=
    exists_open_smallSession (fileAtF_self _) (loadsAs_smallSession htorn)
  obtain ⟨s, hstep, hadded, hsmall'⟩ := hsmall.append "b" (o := .done) fun _ => rfl
  have hloads : LoadsAs (sessionCodec.write smallSession ++ [123] ++
      sessionCodec.line (.entry (userEntry "b" s₀))) smallSession := by
    rw [List.append_assoc]
    exact loadsAs_smallSession (read_torn_line _)
  obtain ⟨s', hopen', hentries', -⟩ := exists_open_smallSession hsmall'.file hloads
  refine ⟨s₀, s, s', brace_prefix_encode _ _, fun h => ?_, hopen, .single hstep,
    hsmall'.flushed, hopen', ?_⟩
  · have hread := sessionCodec.read_encode (.entry (userEntry "b" s₀))
    rw [← h, htorn] at hread
    cases hread
  · rw [hentries', hadded, hentries]
    simp

end Amide
