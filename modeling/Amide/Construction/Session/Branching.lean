import Amide.Construction.Session.Manager

/-!
# New sessions from old ones

`createBranchedSession` turns a session into one that holds a single branch of it, and `forkFrom`
copies a session file for another directory.  Both walk along parents without a bound: where the
source would walk forever the result is `none`.
-/

namespace Amide

/-! ## A session of one branch -/

/-- What a branched session takes from outside: next to what a new session takes, the draws for
each of its label entries and the depth resolved from the header of the old session. -/
structure BranchEnv extends SessionEnv where
  labelDraws : ℕ → Draws
  resolvedRlmDepth : ℕ

/-- A label to be written again. -/
structure LabelToWrite where
  targetId : String
  label : String
  timestamp : String

/-- The label entries made for the labels, one behind the other; `i` counts them, `taken` are the
ids in use. -/
def makeLabelEntries (draws : ℕ → Draws) :
    ℕ → List String → Option String → List LabelToWrite → List SessionEntry
  | _, _, _, [] => []
  | i, taken, parentId, l :: rest =>
      let id := generateId taken.contains (draws i)
      { id, parentId, timestamp := l.timestamp, body := .label l.targetId (some l.label) } ::
        makeLabelEntries draws (i + 1) (taken ++ [id]) (some id) rest

namespace SessionManager

/-- The labels of the entries with the given ids, in the order of the label map. -/
def labelsToWrite (m : SessionManager) (pathEntryIds : List String) : List LabelToWrite :=
  (m.labelsById.entries.filter fun p => pathEntryIds.contains p.1).map fun p =>
    { targetId := p.1, label := p.2, timestamp := (m.labelTimestampsById.get? p.1).getD "" }

/-- The entries of the session that a path becomes. -/
def branchedEntries (m : SessionManager) (draws : ℕ → Draws) (path : List SessionEntry) :
    List SessionEntry :=
  let pathWithoutLabels := path.filter fun e => !e.isLabel
  let pathEntryIds := pathWithoutLabels.map SessionEntry.id
  -- `pathWithoutLabels[length - 1]?.id || null`
  let lastEntryId := pathEntryIds.getLast?.filter (· ≠ "")
  pathWithoutLabels ++
    makeLabelEntries draws 0 pathEntryIds lastEntryId (m.labelsToWrite pathEntryIds)

/-- The manager with the header and the entries of a branched session, before `_buildIndex`. -/
def branched (m : SessionManager) (env : BranchEnv) (path : List SessionEntry)
    (newSessionId : String) (newSessionFile : Option String) : SessionManager :=
  let header : SessionHeader :=
    { version := some currentSessionVersion, id := newSessionId, timestamp := env.timestamp,
      cwd := m.cwd, parentSession := if m.persist then m.sessionFile else none
      rlmDepth := some env.resolvedRlmDepth, git := if m.persist then env.git else none }
  { m with
    fileEntries := .session header :: (m.branchedEntries env.labelDraws path).map .entry
    sessionId := newSessionId
    sessionFile := if m.persist then newSessionFile else m.sessionFile }

end SessionManager

namespace SessionState

/-- `createBranchedSession`; the path of the new session file, if it has one. -/
def createBranchedSession (leafId : String) (env : BranchEnv) (o : WriteOutcome)
    (s : SessionState) : Option (Outcome (Option String)) :=
  (s.manager.getBranch (some leafId)).map fun path =>
    if path = [] then (.error (.thrown s!"Entry {leafId} not found"), s)
    else
      let target :=
        if s.manager.persist then
          (createUniqueSessionFileTarget s.files s.manager.sessionDir env.sessionIds).map
            fun t => (t.1, some t.2)
        else some (env.sessionIds 0, none)
      match target with
      | none => (.error (.thrown "Unable to create a unique session file"), s)
      | some (newSessionId, newSessionFile) =>
        let m := s.manager.branched env path newSessionId newSessionFile
        let s' : SessionState := { s with manager := m.buildIndex }
        if s.manager.persist then
          if m.hasAssistant then
            match s'.rewriteAll o with
            | (.ok _, s'') => (.ok newSessionFile, s'')
            | (.error e, s'') => (.error e, s'')
          else (.ok newSessionFile, s'.setFlushed false)
        else (.ok none, s')

end SessionState

/-! ## Forks -/

/-- `droppedParent`: the parents of the git states. -/
def droppedParent (entries : List SessionEntry) : JsMap String (Option String) :=
  entries.foldl (fun m e => if e.isGitState then m.set e.id e.parentId else m) JsMap.empty

/-- `liveParent`, within the given number of steps. -/
def liveParent (dropped : JsMap String (Option String)) : ℕ → Option String → Option (Option String)
  | _, none => some none
  | fuel, some pid =>
    match dropped.get? pid with
    | none => some (some pid)
    | some parentId =>
      match fuel with
      | 0 => none
      | n + 1 => liveParent dropped n parentId

/-- The entries of a fork: the git states are dropped and their children hung on what stays. -/
def forkedEntries (entries : List SessionEntry) : Option (List SessionEntry) :=
  let dropped := droppedParent entries
  (entries.filter fun e => !e.isGitState).mapM fun e =>
    (liveParent dropped (dropped.size + 1) e.parentId).map fun parentId => { e with parentId }

/-- What a fork takes from outside: next to what opening its file takes, the depth resolved from
the header of the source, a safe integer. -/
structure ForkEnv extends SessionState.OpenEnv where
  sourceRlmDepth : ℕ
  sourceRlmDepth_lt : sourceRlmDepth < 2 ^ 53

/-- `forkFrom`: what it returns or throws and the files it leaves. -/
def forkFrom (sourcePath targetCwd dir : String) (env : ForkEnv) (o : WriteOutcome)
    (files : Files) :
    Option (Except SessionError SessionManager × Files) :=
  match loadEntriesFromFile files sourcePath with
  | [] => some (.error (.thrown
      s!"Cannot fork: source session file is empty or invalid: {sourcePath}"), files)
  | sourceEntries =>
    if (sourceEntries.findSome? FileEntry.header?).isNone then
      some (.error (.thrown s!"Cannot fork: source session has no header: {sourcePath}"), files)
    else
      let source := (migrateToCurrentVersion env.migrationDraws sourceEntries).1
      match createUniqueSessionFileTarget files dir env.sessionIds with
      | none => some (.error (.thrown "Unable to create a unique session file"), files)
      | some (newSessionId, newSessionFile) =>
        let newHeader : SessionHeader :=
          { version := some currentSessionVersion, id := newSessionId, timestamp := env.timestamp,
            cwd := targetCwd, parentSession := some sourcePath
            rlmDepth := some env.sourceRlmDepth, git := env.git }
        (forkedEntries (sessionEntries source)).map fun entries =>
          let content := sessionCodec.write (.session newHeader :: entries.map .entry)
          match o with
          | .cut written =>
              (.error .writeFailed,
                Function.update files newSessionFile (some (content.take written)))
          | .done =>
            match SessionState.openSession newSessionFile dir targetCwd env.toOpenEnv o
                (Function.update files newSessionFile (some content)) with
            | (.ok _, s) => (.ok s.manager, s.files)
            | (.error e, s) => (.error e, s.files)

end Amide
