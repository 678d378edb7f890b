import Amide.Framework.JsMap
import Amide.Framework.JsonCodec

/-!
# The continual harness (`core/refinement/refinement.ts`)

The entries of a harness by kind and id, and how its file is loaded (`loadHarnessState`): a file
that cannot be read is an empty harness, and of an entry only the scope and the three records are
checked.  Every other member of an entry stands as it was read, so it may be any JSON value, or
absent.

The entries of a kind are an object of the language, which has members before any are added: the
ones of `objectPrototype` are found under their names unless an entry takes their place
(`lookupRecord`).  Assigning to `__proto__` makes no entry; what an object inherits after that is
left out, and so is the order of an entry's members.
-/

namespace Amide

inductive RefinementKind where
  | prompt
  | memory
  | skill
  | subagent
  deriving DecidableEq

def RefinementKind.text : RefinementKind → String
  | prompt => "prompt"
  | memory => "memory"
  | skill => "skill"
  | subagent => "subagent"

inductive HarnessScope where
  | «local»
  | global

def HarnessScope.text : HarnessScope → String
  | «local» => "local"
  | global => "global"

abbrev JsonObject := List (String × Json)

structure HarnessEntry where
  id : Option Json := none
  kind : Option Json := none
  title : Option Json := none
  content : Option Json := none
  path : Option Json := none
  scope : Option HarnessScope := none
  reference : Option JsonObject := none
  arguments : Option JsonObject := none
  metadata : Option JsonObject := none
  source : Option Json := none
  createdAt : Option Json := none
  updatedAt : Option Json := none
  version : Option Json := none

abbrev HarnessEntries := RefinementKind → JsMap String HarnessEntry

structure HarnessState where
  schema : Json := .num (.ofNat 1)
  entries : HarnessEntries := fun _ => .empty
  refinements : List Json := []

def emptyHarnessState : HarnessState := {}

def HarnessEntry.toJson (entry : HarnessEntry) : Json :=
  .obj ((([("id", entry.id), ("kind", entry.kind), ("title", entry.title),
    ("content", entry.content), ("path", entry.path),
    ("scope", entry.scope.map fun scope => .str scope.text),
    ("reference", entry.reference.map .obj), ("arguments", entry.arguments.map .obj),
    ("metadata", entry.metadata.map .obj), ("source", entry.source),
    ("created_at", entry.createdAt), ("updated_at", entry.updatedAt),
    ("version", entry.version)] : List (String × Option Json))).filterMap fun member =>
      member.2.map fun value => (member.1, value))

/-! ## Records -/

/-- The functions that every object inherits. -/
def objectPrototype : List String :=
  ["constructor", "hasOwnProperty", "isPrototypeOf", "propertyIsEnumerable", "toLocaleString",
    "toString", "valueOf", "__defineGetter__", "__defineSetter__", "__lookupGetter__",
    "__lookupSetter__"]

/-- A copy of what stands under a name.  A function has no text to copy it by, and what stands
under `__proto__` is an object without members of its own. -/
def lookupRecord (records : JsMap String HarnessEntry) (id : String) :
    Except String (Option HarnessEntry) :=
  match records.get? id with
  | some entry => .ok (some entry)
  | none =>
    if id ∈ objectPrototype then .error "\"undefined\" is not valid JSON"
    else if id = "__proto__" then .ok (some {})
    else .ok none

def setRecord (records : JsMap String HarnessEntry) (id : String) (entry : HarnessEntry) :
    JsMap String HarnessEntry :=
  if id = "__proto__" then records else records.set id entry

/-! ## Loading -/

def objectRecord : Option Json → Option JsonObject
  | some (.obj members) => some members
  | _ => none

def normalizeHarnessScope (value : Option Json) (fallback : HarnessScope) : HarnessScope :=
  match value with
  | some (.str "global") => .global
  | some (.str "local") => .local
  | _ => fallback

/-- `Object.entries`; of two members with one name the last counts. -/
def objectEntries : Json → List (String × Json)
  | .obj members =>
    (members.foldl (fun own member => own.set member.1 member.2) JsMap.empty).entries
  | .arr elems => elems.mapIdx fun i elem => (toString i, elem)
  | _ => []

def loadEntry (scope : HarnessScope) (members : JsonObject) : HarnessEntry :=
  let member := fun name => Json.lookupField name members
  { id := member "id"
    kind := member "kind"
    title := member "title"
    content := member "content"
    path := member "path"
    scope := some (normalizeHarnessScope (member "scope") scope)
    reference := some ((objectRecord (member "reference")).getD [])
    arguments := some ((objectRecord (member "arguments")).getD [])
    metadata := some ((objectRecord (member "metadata")).getD [])
    source := member "source"
    createdAt := member "created_at"
    updatedAt := member "updated_at"
    version := member "version" }

/-- What is no object is passed over. -/
def loadRecord (scope : HarnessScope) (loaded : JsMap String HarnessEntry)
    (record : String × Json) : JsMap String HarnessEntry :=
  match objectRecord (some record.2) with
  | none => loaded
  | some members => setRecord loaded record.1 (loadEntry scope members)

def loadEntries (scope : HarnessScope) (kinds : Option Json) : HarnessEntries := fun kind =>
  match kinds.bind fun kinds => kinds.get? kind.text with
  | some records => (objectEntries records).foldl (loadRecord scope) .empty
  | none => .empty

/-- From the file's content, if there is a file. -/
def loadHarnessState (content : Option (List UInt8)) (scope : HarnessScope) : HarnessState :=
  match content.bind Json.parse with
  | some (.obj members) =>
    { schema := match Json.lookupField "schema" members with
        | some (.num n) => .num n
        | _ => .num (.ofNat 1)
      entries := loadEntries scope (Json.lookupField "entries" members)
      refinements := match Json.lookupField "refinements" members with
        | some (.arr refinements) => refinements
        | _ => [] }
  | _ => emptyHarnessState

end Amide
