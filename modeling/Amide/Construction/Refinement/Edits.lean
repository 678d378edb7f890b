import Amide.Construction.Refinement.Harness
import Amide.Framework.Trim

/-!
# Edits of the harness (`core/refinement/refinement.ts`)

A proposal is a list of edits, applied one by one (`applyRefinementProposal`): each is checked
(`validateEdit`), compared with the entry as it stood when the proposal was planned, and recorded
with the entry before and after it.  `rollbackProposal` makes of these records the edits that undo
them, the last one first; they go through the same checks.

An edit's title, content and path may be any JSON value, as rolling back hands on what was read
from a file.  The time is one for all edits of a proposal, and what `version + 1` is for a version
that was read from a file is left to the host (`RefineHost`).
-/

namespace Amide

/-- One of the named values, or another text, or something that is no text as `String` shows it. -/
inductive Stated (α : Type) where
  | known (a : α)
  | other (text : String)
  | noText (shown : String)
  deriving DecidableEq

inductive RefinementAction where
  | create
  | update
  | delete
  deriving DecidableEq

def RefinementAction.text : RefinementAction → String
  | create => "create"
  | update => "update"
  | delete => "delete"

structure RefinementEdit where
  action : Stated RefinementAction
  kind : Stated RefinementKind
  id : Option String := none
  title : Option Json := none
  content : Option Json := none
  path : Option Json := none
  reference : Option JsonObject := none
  arguments : Option JsonObject := none
  metadata : Option JsonObject := none
  reason : Option String := none

structure RefinementProposal where
  summary : String
  rationale : String
  edits : List RefinementEdit
  expectedOutcome : String

structure AppliedRefinementEdit where
  edit : RefinementEdit
  id : String
  before : Option HarnessEntry := none
  after : Option HarnessEntry := none
  applied : Bool
  error : Option String := none

structure RefinementResult where
  id : String
  summary : String
  rationale : String
  expectedOutcome : String
  appliedEdits : List AppliedRefinementEdit
  harnessStatePath : String := ""
  rollbackOf : Option String
  scope : Option HarnessScope

structure ApplyOptions where
  id : String
  rollbackOf : Option String := none
  scope : Option HarnessScope := none
  baselineState : Option HarnessState := none

structure RefineHost where
  now : String
  increment : Option Json → Json

/-! ## Ids -/

/-- `toLowerCase`, as far as it matters to the letters `a` to `z`. -/
def lowerCase (c : Char) : List Char :=
  if c.toNat = 0x212A then ['k']
  else if c.toNat = 0x130 then ['i', Char.ofNat 0x307]
  else [c.toLower]

def isWordChar (c : Char) : Bool := ('a' ≤ c && c ≤ 'z') || ('0' ≤ c && c ≤ '9')

/-- Each run of other characters is one underscore. -/
def underscoreRuns : Bool → List Char → List Char
  | _, [] => []
  | inRun, c :: cs =>
    if isWordChar c then c :: underscoreRuns false cs
    else if inRun then underscoreRuns true cs
    else '_' :: underscoreRuns true cs

def slug (raw fallback : String) : String :=
  let normalized := (((underscoreRuns false ((Chars.trim raw.toList).flatMap lowerCase)).dropWhile
    (· = '_')).rdropWhile (· = '_')).take 80
  if normalized = [] then fallback else String.ofList normalized

def Stated.kindText : Stated RefinementKind → String
  | known kind => kind.text
  | other text | noText text => text

/-- `raw.trim` of something that is no text. -/
def noTrim (shown : String) : String :=
  if shown = "undefined" ∨ shown = "null" then
    s!"Cannot read properties of {shown} (reading 'trim')"
  else "raw.trim is not a function"

/-- The id of an edit; throws for a title that is no text, or without one for such a kind. -/
def editId (edit : RefinementEdit) : Except String String :=
  match edit.id with
  | some id => .ok id
  | none =>
    if edit.action = .known .create then
      match edit.title, edit.kind with
      | some (.str title), kind => .ok (slug title kind.kindText)
      | none, .noText shown | some .null, .noText shown => .error (noTrim shown)
      | none, kind | some .null, kind => .ok (slug kind.kindText kind.kindText)
      | some _, _ => .error "raw.trim is not a function"
    else .ok ""

/-! ## Checks -/

/-- A number whose digits, up to an exponent, are all zero. -/
def NumLit.isZero (n : NumLit) : Bool :=
  (n.text.takeWhile fun b => b ≠ 101 && b ≠ 69).all fun b => !(49 ≤ b && b ≤ 57)

def truthy : Option Json → Bool
  | none | some .null | some (.bool false) => false
  | some (.num n) => !NumLit.isZero n
  | some (.str s) => s ≠ ""
  | _ => true

/-- A member that is a text and not empty. -/
def hasText (members : JsonObject) (name : String) : Bool :=
  match Json.lookupField name members with
  | some (.str s) => s ≠ ""
  | _ => false

def validateReference (action : RefinementAction) (reference : Option JsonObject) : Option String :=
  match reference with
  | none => some s!"{action.text} skill requires python reference"
  | some members =>
    match Json.lookupField "type" members with
    | some (.str "python") =>
      if !(hasText members "import" || hasText members "python_import") then
        some s!"{action.text} skill requires python import"
      else if !(hasText members "callable" || hasText members "call_pattern") then
        some s!"{action.text} skill requires callable or call_pattern"
      else none
    | _ => some s!"{action.text} skill reference.type must be python"

/-- What is wrong with an edit. -/
def validateEdit (edit : RefinementEdit) (computedId : String) : Option String :=
  match edit.action, edit.kind with
  | .other action, _ | .noText action, _ => some s!"unsupported action {action}"
  | _, .other kind | _, .noText kind => some s!"unsupported kind {kind}"
  | .known action, .known kind =>
    if kind = .prompt ∧ (edit.id = some "base_system_prompt" ∨
        computedId = "base_system_prompt") then
      some "base system prompt is not editable"
    else if action ≠ .create ∧ edit.id.getD "" = "" then some s!"{action.text} requires id"
    else if action ≠ .delete ∧ ¬(truthy edit.title = true ∧ truthy edit.content = true) then
      some s!"{action.text} requires title and content"
    else if action ≠ .delete ∧ kind = .skill ∧ edit.arguments.isNone = true then
      some s!"{action.text} skill requires arguments"
    else if action ≠ .delete ∧ kind = .skill then validateReference action edit.reference
    else none

/-! ## Applying -/

/-- `a ?? b`. -/
def nullish (a b : Option Json) : Option Json :=
  match a with
  | none | some .null => b
  | some a => some a

/-- The entries, and the ones the proposal has modified. -/
structure EditState where
  entries : HarnessEntries
  proposalModifiedKeys : List (RefinementKind × String)

def EditState.modify (s : EditState) (kind : RefinementKind) (id : String)
    (records : JsMap String HarnessEntry) : EditState where
  entries := Function.update s.entries kind records
  proposalModifiedKeys := (kind, id) :: s.proposalModifiedKeys

section Apply

variable (host : RefineHost) (options : ApplyOptions)

def writtenEntry (edit : RefinementEdit) (kind : RefinementKind) (id : String)
    (before : Option HarnessEntry) : HarnessEntry where
  id := some (.str id)
  kind := some (.str kind.text)
  title := nullish edit.title (nullish (before.bind HarnessEntry.title) (some (.str id)))
  content := nullish edit.content (nullish (before.bind HarnessEntry.content) (some (.str "")))
  path := nullish edit.path (nullish (before.bind HarnessEntry.path) (some (.str "general")))
  scope := some (((before.bind HarnessEntry.scope).or options.scope).getD .local)
  reference := some ((edit.reference.or (before.bind HarnessEntry.reference)).getD [])
  arguments := some ((edit.arguments.or (before.bind HarnessEntry.arguments)).getD [])
  metadata := some ((edit.metadata.or (before.bind HarnessEntry.metadata)).getD [])
  source := some (.str "refine")
  createdAt := nullish (before.bind HarnessEntry.createdAt) (some (.str host.now))
  updatedAt := some (.str host.now)
  version := some (match before with
    | some before => host.increment before.version
    | none => .num (.ofNat 1))

/-- The entry the proposal was planned with. -/
def baselineEntry (kind : RefinementKind) (id : String) : Except String (Option HarnessEntry) :=
  match options.baselineState with
  | none => .ok none
  | some baselineState => lookupRecord (baselineState.entries kind) id

def entryText (entry : Option HarnessEntry) : Option (List UInt8) :=
  entry.map fun entry => entry.toJson.stringify

/-- An entry that was changed in the meantime, by others than the proposal. -/
def isConflict (s : EditState) (kind : RefinementKind) (id : String)
    (before baseline : Option HarnessEntry) : Bool :=
  options.baselineState.isSome && !s.proposalModifiedKeys.contains (kind, id) &&
    entryText before ≠ entryText baseline

/-- What an edit that passed its check comes to. -/
def performEdit (s : EditState) (edit : RefinementEdit) (action : RefinementAction)
    (kind : RefinementKind) (id : String) (before : Option HarnessEntry) :
    EditState × AppliedRefinementEdit :=
  match action, before with
  | .delete, none => (s, { edit, id, applied := false, error := some "entry not found" })
  | .delete, some before => (s.modify kind id ((s.entries kind).delete id), {
      edit, id, before := some before, applied := true })
  | .create, some before => (s, {
      edit, id, before := some before, applied := false, error := some "entry already exists" })
  | .update, none => (s, { edit, id, applied := false, error := some "entry not found" })
  | _, before =>
    let after := writtenEntry host options edit kind id before
    (s.modify kind id (setRecord (s.entries kind) id after), {
      edit, id, before, after := some after, applied := true })

def applyValidEdit (s : EditState) (edit : RefinementEdit) (action : RefinementAction)
    (kind : RefinementKind) (id : String) : Except String (EditState × AppliedRefinementEdit) := do
  let before ← lookupRecord (s.entries kind) id
  let baseline ← baselineEntry options kind id
  if isConflict options s kind id before baseline then
    .ok (s, {
      edit, id, before, applied := false,
      error := some "entry changed during refinement planning" })
  else .ok (performEdit host options s edit action kind id before)

def applyEdit (s : EditState) (edit : RefinementEdit) :
    Except String (EditState × AppliedRefinementEdit) := do
  let id ← editId edit
  match validateEdit edit id, edit.action, edit.kind with
  | none, .known action, .known kind => applyValidEdit host options s edit action kind id
  | error, _, _ => .ok (s, { edit, id, applied := false, error })

def applyEdits : EditState → List RefinementEdit →
    Except String (EditState × List AppliedRefinementEdit)
  | s, [] => .ok (s, [])
  | s, edit :: edits => do
    let (s', appliedEdit) ← applyEdit host options s edit
    let (s'', appliedEdits) ← applyEdits s' edits
    .ok (s'', appliedEdit :: appliedEdits)

def changeText (appliedEdit : AppliedRefinementEdit) : String :=
  let action := match appliedEdit.edit.action with
    | .known action => action.text
    | .other text | .noText text => text
  s!"{action} {appliedEdit.edit.kind.kindText}:{appliedEdit.id}"

def refinementEvent (proposal : RefinementProposal) (appliedEdits : List AppliedRefinementEdit) :
    Json :=
  .obj [("id", .str options.id), ("trigger", .str proposal.summary),
    ("changes", .arr ((appliedEdits.filter AppliedRefinementEdit.applied).map fun appliedEdit =>
      .str (changeText appliedEdit))),
    ("evidence", .str proposal.rationale), ("outcome", .str proposal.expectedOutcome),
    ("created_at", .str host.now)]

/-- The state afterwards, and the result. -/
def applyRefinementProposal (state : HarnessState) (proposal : RefinementProposal) :
    Except String (HarnessState × RefinementResult) := do
  let (s, appliedEdits) ← applyEdits host options ⟨state.entries, []⟩ proposal.edits
  let event := refinementEvent host options proposal appliedEdits
  .ok ({ state with entries := s.entries, refinements := state.refinements ++ [event] },
    { id := options.id
      summary := proposal.summary
      rationale := proposal.rationale
      expectedOutcome := proposal.expectedOutcome
      appliedEdits
      rollbackOf := options.rollbackOf
      scope := options.scope })

end Apply

/-! ## Rolling back -/

/-- The edit that puts an entry back. -/
def restoringEdit (targetId : String) (action : RefinementAction) (kind : Stated RefinementKind)
    (id : String) (before : HarnessEntry) : RefinementEdit where
  action := .known action
  kind := kind
  id := some id
  title := before.title
  content := before.content
  path := before.path
  reference := before.reference
  arguments := before.arguments
  metadata := before.metadata
  reason := some s!"Rollback {targetId}"

/-- The edit that takes a new entry away again. -/
def removingEdit (targetId : String) (kind : Stated RefinementKind) (id : String) :
    RefinementEdit where
  action := .known .delete
  kind := kind
  id := some id
  reason := some s!"Rollback {targetId}"

def rollbackEdit (targetId : String) (appliedEdit : AppliedRefinementEdit) :
    Option RefinementEdit :=
  if appliedEdit.applied = false then none
  else
    match appliedEdit.before, appliedEdit.after with
    | some before, some _ =>
      some (restoringEdit targetId .update appliedEdit.edit.kind appliedEdit.id before)
    | some before, none =>
      some (restoringEdit targetId .create appliedEdit.edit.kind appliedEdit.id before)
    | none, some _ => some (removingEdit targetId appliedEdit.edit.kind appliedEdit.id)
    | none, none => none

def rollbackProposal (target : RefinementResult) : RefinementProposal where
  summary := s!"Rollback refinement {target.id}"
  rationale := s!"Restores continual harness state snapshots from refinement {target.id}."
  expectedOutcome := "Faulty refinement edits are reverted."
  edits := target.appliedEdits.reverse.filterMap (rollbackEdit target.id)

end Amide
