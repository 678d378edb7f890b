import Mathlib.Data.Int.Notation
import Mathlib.Data.List.Basic

/-!
# Families of agents (`core/agent-messages.ts`)

An agent reaches its parent, its siblings and its children.  Two functions say who these are:
`buildAgentFamilyRoster` lists them from a catalog, `agentFamilyRelationship` relates two agents
when one sends to the other.  The order in which names are listed is a parameter (`localeCompare`).
-/

namespace Amide

inductive AgentFamilyStatus
  | running
  | idle
  | inactive
  deriving DecidableEq

inductive AgentFamilyRelationship
  | parent
  | sibling
  | child
  deriving DecidableEq

structure AgentSessionNameScope where
  parentSessionId : Option String := none
  parentSessionPath : Option String := none
  depth : ℤ
  deriving DecidableEq

structure AgentFamilyCatalogEntry extends AgentSessionNameScope where
  id : String
  name : Option String := none
  status : AgentFamilyStatus
  repliedSinceTask : Option Bool := none
  sessionPath : Option String := none
  deriving DecidableEq

structure AgentFamilyRosterEntry where
  relationship : AgentFamilyRelationship
  name : String
  id : String
  depth : ℤ
  status : AgentFamilyStatus
  repliedSinceTask : Option Bool

structure AgentFamilyCurrent where
  name : String
  id : String
  depth : ℤ

structure AgentFamilyRosterResult where
  current : AgentFamilyCurrent
  entries : List AgentFamilyRosterEntry

/-- `a !== undefined && a === b` -/
def definedAndEqual (a b : Option String) : Bool := a.isSome && a == b

def isAgentFamilyParent (parent child : AgentFamilyCatalogEntry) : Bool :=
  definedAndEqual child.parentSessionPath parent.sessionPath ||
    definedAndEqual child.parentSessionId (some parent.id)

def hasCatalogParentPair (catalog : List AgentFamilyCatalogEntry)
    (parentSessionId parentSessionPath : Option String) : Bool :=
  parentSessionId.isSome && parentSessionPath.isSome && catalog.any fun entry =>
      (some entry.id == parentSessionId && entry.sessionPath == parentSessionPath) ||
        (entry.parentSessionId == parentSessionId && entry.parentSessionPath == parentSessionPath)

def sameAgentFamilyParent (left right : AgentSessionNameScope)
    (catalog : List AgentFamilyCatalogEntry) : Bool :=
  if definedAndEqual left.parentSessionPath right.parentSessionPath then true
  else if definedAndEqual left.parentSessionId right.parentSessionId then true
  else if hasCatalogParentPair catalog left.parentSessionId right.parentSessionPath ||
      hasCatalogParentPair catalog right.parentSessionId left.parentSessionPath then true
  else
    left.depth == 0 && right.depth == 0 &&
      left.parentSessionPath == none && right.parentSessionPath == none &&
      left.parentSessionId == none && right.parentSessionId == none

/-- The relationship of `target` to `current`, from the two agents alone. -/
def agentFamilyRelationship (current target : AgentFamilyCatalogEntry) :
    Option AgentFamilyRelationship :=
  if current.id = target.id then none
  else if isAgentFamilyParent target current then some .parent
  else if isAgentFamilyParent current target then some .child
  else if current.depth = target.depth &&
      sameAgentFamilyParent current.toAgentSessionNameScope target.toAgentSessionNameScope
        [current, target] then some .sibling
  else none

def AGENT_FAMILY_REACH_ERROR : String := "Agent reach is limited to parent, siblings, and children"

def assertAgentFamilyReach (current target : AgentFamilyCatalogEntry) :
    Except String AgentFamilyRelationship :=
  match agentFamilyRelationship current target with
  | none => .error AGENT_FAMILY_REACH_ERROR
  | some relationship => .ok relationship

section Roster

variable (localeCompare : String → String → Ordering)

/-- `entries.sort(...)` by the names shown. -/
def sortByName (entries : List AgentFamilyCatalogEntry) : List AgentFamilyCatalogEntry :=
  entries.mergeSort fun a b => localeCompare (a.name.getD a.id) (b.name.getD b.id) != .gt

/-- The agents of a family as the catalog has them, in the order of the roster. -/
def agentFamily (current : AgentFamilyCatalogEntry) (catalog : List AgentFamilyCatalogEntry) :
    List (AgentFamilyRelationship × AgentFamilyCatalogEntry) :=
  let parent := catalog.find? fun entry => isAgentFamilyParent entry current
  let siblings := catalog.filter fun entry =>
    entry.id != current.id && entry.depth == current.depth &&
      sameAgentFamilyParent entry.toAgentSessionNameScope current.toAgentSessionNameScope catalog
  let children := catalog.filter fun entry =>
    entry.depth == current.depth + 1 && isAgentFamilyParent current entry
  parent.toList.map (.parent, ·) ++ (sortByName localeCompare siblings).map (.sibling, ·) ++
    (sortByName localeCompare children).map (.child, ·)

/-- `row(relationship, entry)` -/
def familyRow (relationship : AgentFamilyRelationship) (entry : AgentFamilyCatalogEntry) :
    AgentFamilyRosterEntry :=
  { relationship
    name := entry.name.getD entry.id
    id := entry.id
    depth := entry.depth
    status := entry.status
    repliedSinceTask := if relationship = .child then entry.repliedSinceTask else none }

def buildAgentFamilyRoster (current : AgentFamilyCatalogEntry)
    (catalog : List AgentFamilyCatalogEntry) : AgentFamilyRosterResult :=
  { current :=
      { name := current.name.getD current.id
        id := current.id
        depth := current.depth }
    entries := (agentFamily localeCompare current catalog).map fun p => familyRow p.1 p.2 }

end Roster

end Amide
