import Amide.Framework.JsMap
import Amide.Framework.Json

/-!
# Settings and their file (`core/settings-manager.ts`)

A `SettingsManager` keeps the settings of one file in memory.  Its setters mark what they change,
and `save` queues a write that carries a snapshot of the settings and of the marks.  A write goes
through `FileSettingsStorage.withLock`, which is followed step by step (`SettingsTask`) as other
processes come in between.

The global settings are modelled; the project's do the same with their own marks, over another file.
A file is seen through `JSON.parse`, and settings through what `JSON.stringify` makes of them: a
member that is `undefined` is absent.
-/

namespace Json

/-! ## Values -/

/-- `{ ...value }`; the characters of a string are taken to be one code unit long. -/
def spread : Json → JsMap String Json
  | .obj fields => fields.foldl (fun m p => m.set p.1 p.2) .empty
  | .arr elems => elems.zipIdx.foldl (fun m p => m.set (toString p.2) p.1) .empty
  | .str s => s.toList.zipIdx.foldl (fun m p => m.set (toString p.2) (.str (.singleton p.1))) .empty
  | _ => .empty

/-- `typeof value === "object" && value !== null` -/
def isObject : Json → Bool
  | .obj _ | .arr _ => true
  | _ => false

/-- The value is false where a condition is expected. -/
def isFalsy : Json → Bool
  | .null | .bool false | .str "" => true
  | .num n => (n.text.takeWhile fun b => !NumState.isExp b).all fun b => b = 48 || b = 45 || b = 46
  | _ => false

end Json

namespace Amide

abbrev Settings := JsMap String Json

/-! ## `migrateSettings` -/

def migrateQueueMode (settings : Settings) : Settings :=
  match settings.get? "queueMode" with
  | some queueMode =>
    if settings.has "steeringMode" then settings
    else (settings.set "steeringMode" queueMode).delete "queueMode"
  | none => settings

def migrateWebsockets (settings : Settings) : Settings :=
  match settings.get? "websockets" with
  | some (.bool websockets) =>
    if settings.has "transport" then settings
    else (settings.set "transport" (.str (if websockets then "websocket" else "sse"))).delete
      "websockets"
  | _ => settings

def migrateSkills (settings : Settings) : Settings :=
  match settings.get? "skills" with
  | some (.obj fields) =>
    let skills := (Json.obj fields).spread
    let settings :=
      if settings.has "enableSkillCommands" then settings
      else settings.assign "enableSkillCommands" (skills.get? "enableSkillCommands")
    match skills.get? "customDirectories" with
    | some (.arr (directory :: directories)) =>
      settings.set "skills" (.arr (directory :: directories))
    | _ => settings.delete "skills"
  | _ => settings

def migrateRetry (settings : Settings) : Settings :=
  match settings.get? "retry" with
  | some (.obj fields) =>
    let retry := (Json.obj fields).spread
    let provider := match retry.get? "provider" with
      | some provider => if provider.isObject then provider.spread else .empty
      | none => .empty
    let given := match provider.get? "maxRetryDelayMs" with
      | none | some .null => false
      | some _ => true
    let retry := match retry.get? "maxDelayMs" with
      | some (.num delay) =>
        if given then retry
        else retry.set "provider" (.obj (provider.set "maxRetryDelayMs" (.num delay)).entries)
      | _ => retry
    settings.set "retry" (.obj (retry.delete "maxDelayMs").entries)
  | _ => settings

def migrateTelemetry (settings : Settings) : Settings :=
  match settings.get? "telemetry" with
  | some (.bool enabled) => settings.set "telemetry" (.obj [("enabled", .bool enabled)])
  | some telemetry => if telemetry.isObj then settings else settings.delete "telemetry"
  | none => settings

def migrateMarkdown (settings : Settings) : Settings :=
  match settings.get? "markdown" with
  | some markdown => if markdown.isObj then settings else settings.delete "markdown"
  | none => settings

def migrateSettings (settings : Settings) : Settings :=
  migrateMarkdown (migrateTelemetry (migrateRetry (migrateSkills (migrateWebsockets
    (migrateQueueMode settings)))))

/-! ## The file -/

/-- What there is in a settings file. -/
inductive SettingsText where
  | empty
  /-- `JSON.parse` throws. -/
  | malformed (error : String)
  | holds (value : Json)

/-- The settings of a file, and of one that is missing. -/
def parseSettings : Option SettingsText → Except String Settings
  | none | some .empty => .ok .empty
  | some (.malformed error) => .error error
  | some (.holds value) =>
    if value.isObject then .ok (migrateSettings value.spread)
    else .error "Cannot use 'in' operator to search for 'queueMode'"

/-! ## The manager -/

/-- A write in the queue. -/
structure SettingsWrite where
  snapshotSettings : Settings
  modifiedFields : List String
  modifiedNestedFields : JsMap String (List String)

structure SettingsManager where
  globalSettings : Settings := .empty
  modifiedFields : List String := []
  modifiedNestedFields : JsMap String (List String) := .empty
  globalSettingsLoadError : Option String := none
  writeQueue : List SettingsWrite := []
  errors : List String := []

namespace SettingsManager

variable (m : SettingsManager)

def recordError (error : String) : SettingsManager :=
  { m with errors := m.errors ++ [error] }

def clearModifiedScope : SettingsManager :=
  { m with
    modifiedFields := []
    modifiedNestedFields := .empty }

def addMark (marks : List String) (mark : String) : List String :=
  if mark ∈ marks then marks else marks ++ [mark]

def markModified (field : String) (nestedKey : Option String) : SettingsManager :=
  { m with
    modifiedFields := addMark m.modifiedFields field
    modifiedNestedFields := match nestedKey with
      | none | some "" => m.modifiedNestedFields
      | some key =>
        m.modifiedNestedFields.set field
          (addMark ((m.modifiedNestedFields.get? field).getD []) key) }

/-- Queues a write, unless the file could not be read. -/
def save : SettingsManager :=
  match m.globalSettingsLoadError with
  | some error =>
    m.recordError s!"Global settings not saved: settings file failed to parse: {error}"
  | none =>
    { m with
      writeQueue := m.writeQueue ++
        [{ snapshotSettings := m.globalSettings
           modifiedFields := m.modifiedFields
           modifiedNestedFields := m.modifiedNestedFields }] }

/-- `reload`, when it has loaded the file or failed to. -/
def reload (loaded : Except String Settings) : SettingsManager :=
  clearModifiedScope (match loaded with
    | .ok settings =>
      { m with
        globalSettings := settings
        globalSettingsLoadError := none }
    | .error error => { m with globalSettingsLoadError := some error }.recordError error)

/-! ## Setters -/

/-- The fields that have a setter (`setTheme` and so on). -/
def settableFields : List String :=
  ["onboardingShown", "defaultProvider", "defaultModel", "recentModels", "steeringMode",
    "followUpMode", "theme", "defaultThinkingLevel", "defaultServiceTier", "rlmMaxDepth",
    "idleEvictionMinutes", "transport", "hideThinkingBlock", "shellPath", "quietStartup",
    "shellCommandPrefix", "npmCommand", "packages", "extensions", "skills", "prompts", "themes",
    "enableSkillCommands", "enableBuiltinSkills", "enabledModels", "treeFilterMode",
    "showHardwareCursor", "editorPaddingX", "autocompleteMaxVisible", "warnings"]

/-- The nested keys that have a setter (`setCompactionEnabled` and so on); those of `mcpServers` are
the names of servers. -/
def settableKeys : List (String × String) :=
  [("compaction", "enabled"), ("agentTraces", "enabled"), ("telemetry", "enabled"),
    ("telemetry", "noticeShown"), ("retry", "enabled"), ("terminal", "showImages"),
    ("terminal", "clearOnShrink"), ("terminal", "fullscreen"), ("terminal", "fullscreenMouse"),
    ("terminal", "showTerminalProgress"), ("images", "autoResize"), ("images", "blockImages"),
    ("markdown", "mermaid")]

/-- A setter of one field, or of several (`setDefaultModelAndProvider`). -/
def setFields (changes : List (String × Option Json)) : SettingsManager :=
  save (changes.foldl
    (fun (m : SettingsManager) change =>
      { m with globalSettings := m.globalSettings.assign change.1 change.2 }.markModified
        change.1 none) m)

/-- The object that a setter of a nested key finds or creates.  Where the field is a number, `true`
or a text, the assignment to a member of it throws. -/
def nestedBase (field : String) (value : Option Json) : Option (JsMap String Json) :=
  let value := value.getD .null
  if field = "mcpServers" then some value.spread
  else if field = "telemetry" then some (if value.isObj then value.spread else .empty)
  else if value.isObject then some value.spread
  else if field = "markdown" then (match value with
    | .null => some .empty
    | _ => none)
  else if value.isFalsy then some .empty
  else none

/-- A setter of a nested key; the value is absent where a server is removed. -/
def setNested (field key : String) (value : Option Json) : SettingsManager :=
  match nestedBase field (m.globalSettings.get? field) with
  | none => m
  | some base =>
    save ({ m with
      globalSettings := m.globalSettings.set field (.obj (base.assign key value).entries)
        : SettingsManager }.markModified field (some key))

end SettingsManager

/-! ## A write -/

namespace SettingsWrite

variable (w : SettingsWrite)

/-- What a write puts in place of a field. -/
def fieldValue (current : Settings) (field : String) : Option Json :=
  let value := w.snapshotSettings.get? field
  match w.modifiedNestedFields.get? field, value with
  | some nestedModified, some value =>
    if value.isObject then
      let baseNested := ((current.get? field).getD .null).spread
      some (.obj (nestedModified.foldl
        (fun (mergedNested : JsMap String Json) nestedKey =>
          mergedNested.assign nestedKey (value.spread.get? nestedKey)) baseNested).entries)
    else some value
  | _, _ => value

/-- The settings that a write leaves in the file (`persistScopedSettings`). -/
def mergedSettings (current : Settings) : Settings :=
  w.modifiedFields.foldl (fun merged field => merged.assign field (w.fieldValue current field))
    current

end SettingsWrite

/-! ## `withLock` -/

/-- What `withLock` is called for. -/
inductive SettingsTask where
  | write (w : SettingsWrite)
  | load

/-- Where a call of `withLock` stands. -/
inductive LockPhase where
  | idle
  /-- The file has been looked for. -/
  | checked (task : SettingsTask) (fileExists : Bool)
  /-- The file is there, and its lock is held. -/
  | locked (task : SettingsTask)
  | read (task : SettingsTask) (fileExists : Bool) (current : Option SettingsText)
  /-- The next content is known, and the lock is held. -/
  | ready (w : SettingsWrite) (fileExists : Bool) (next : Settings)
  /-- The file has been replaced; `before` is what it was. -/
  | renamed (w : SettingsWrite) (fileExists : Bool) (before : Option SettingsText)

def LockPhase.task : LockPhase → Option SettingsTask
  | idle => none
  | checked task _ | locked task | read task _ _ => some task
  | ready w _ _ | renamed w _ _ => some (.write w)

/-! ## Managers over one file -/

/-- A field, or a nested key of one. -/
inductive SettingKey where
  | field (field : String)
  | nested (field key : String)
  deriving DecidableEq

/-- What a manager has set when it saves: since its last reload, and of that what it has set since a
write of it last succeeded. -/
structure SaveRecord where
  touched : List SettingKey := []
  unsaved : List SettingKey := []

/-- A manager, where its call of `withLock` stands, and a record of what it has set: now, at each
save whose write is queued, and at the save whose write is running. -/
structure SettingsParty where
  manager : SettingsManager := {}
  phase : LockPhase := .idle
  record : SaveRecord := {}
  queued : List SaveRecord := []
  running : SaveRecord := {}

structure SettingsSystem (ι : Type) where
  parties : ι → SettingsParty
  file : Option SettingsText
  holder : Option ι := none

inductive SettingsMove where
  | setFields (changes : List (String × Option Json))
  | setNested (field key : String) (value : Option Json)
  /-- The next write of the queue looks for the file. -/
  | write
  /-- The manager is created, or `reload` goes on after the writes before it. -/
  | load
  | lock
  | read
  /-- The next content is made; the lock is taken now if there was no file. -/
  | merge
  | rename
  /-- The lock is released, and the call returns. -/
  | finish
  /-- Something throws, and the lock is released. -/
  | fail (error : String)

namespace SettingsParty

variable (p : SettingsParty)

/-- A setter has run that marked `keys`. -/
def afterSetter (manager : SettingsManager) (keys : List SettingKey) : SettingsParty :=
  let record : SaveRecord :=
    { touched := p.record.touched ++ keys
      unsaved := p.record.unsaved ++ keys }
  { p with
    manager
    record
    queued := if p.manager.globalSettingsLoadError.isSome then p.queued else p.queued ++ [record] }

def afterLoad (loaded : Except String Settings) : SettingsParty :=
  { p with
    manager := p.manager.reload loaded
    phase := .idle
    record := {} }

end SettingsParty

namespace SettingsSystem

variable {ι : Type} [DecidableEq ι] (s : SettingsSystem ι) (i : ι)

def setParty (party : SettingsParty) : SettingsSystem ι :=
  { s with parties := Function.update s.parties i party }

def release : Option ι := if s.holder = some i then none else s.holder

/-- One step of the manager `i`.  Calls of `withLock` are synchronous: setters run in between. -/
def perform (move : SettingsMove) : Option (SettingsSystem ι) :=
  let p := s.parties i
  match move, p.phase with
  | .setFields changes, .idle =>
    if ∀ change ∈ changes, change.1 ∈ SettingsManager.settableFields then
      some (s.setParty i (p.afterSetter (p.manager.setFields changes)
        (changes.map fun change => .field change.1)))
    else none
  | .setNested field key value, .idle =>
    if ((field, key) ∈ SettingsManager.settableKeys ∨ field = "mcpServers" ∧ key ≠ "") ∧
        (SettingsManager.nestedBase field (p.manager.globalSettings.get? field)).isSome then
      some (s.setParty i (p.afterSetter (p.manager.setNested field key value)
        [.nested field key]))
    else none
  | .write, .idle =>
    match p.manager.writeQueue, p.queued with
    | w :: writeQueue, record :: queued =>
      some (s.setParty i { p with
        manager := { p.manager with writeQueue }
        phase := .checked (.write w) s.file.isSome
        queued
        running := record })
    | _, _ => none
  | .load, .idle => some (s.setParty i { p with phase := .checked .load s.file.isSome })
  | .lock, .checked task true =>
    if s.holder = none then
      some { s.setParty i { p with phase := .locked task } with holder := some i }
    else none
  | .read, .locked task => some (s.setParty i { p with phase := .read task true s.file })
  | .read, .checked task false => some (s.setParty i { p with phase := .read task false none })
  | .merge, .read (.write w) fileExists current =>
    match parseSettings current with
    | .error _ => none
    | .ok settings =>
      if fileExists = true ∨ s.holder = none then
        some { s.setParty i { p with phase := .ready w fileExists (w.mergedSettings settings) } with
          holder := some i }
      else none
  | .rename, .ready w fileExists next =>
    some { s.setParty i { p with phase := .renamed w fileExists s.file } with
      file := some (.holds (.obj next.entries)) }
  | .finish, .renamed _ _ _ =>
    some { s.setParty i { p with
        manager := p.manager.clearModifiedScope
        phase := .idle
        record := { p.record with unsaved := [] } } with
      holder := s.release i }
  | .finish, .read .load _ current =>
    some { s.setParty i (p.afterLoad (parseSettings current)) with holder := s.release i }
  | .fail error, phase =>
    match phase.task with
    | some (.write _) =>
      some { s.setParty i { p with
          manager := p.manager.recordError error
          phase := .idle } with
        holder := s.release i }
    | some .load =>
      some { s.setParty i (p.afterLoad (.error error)) with holder := s.release i }
    | none => none
  | _, _ => none

end SettingsSystem

end Amide
