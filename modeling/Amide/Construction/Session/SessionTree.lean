import Amide.Construction.Session.Manager

/-!
# The tree of entries

`getTree` makes a node for each id, puts every entry's node under that of its parent or among the
roots, and then goes over the tree with a stack and sorts the children of each node by time.

The nodes of the source are objects that hold their children.  Here a node is its id: `nodes` has
what it shows and `children` what is below it.  The pass over the tree has no bound of its own, and
is given a number of steps; `none` says that they are not enough.  What the language leaves to its
engine, dates and the order of nodes whose times are no numbers, is a parameter (`DateEngine`).

`branchEntries` of `core/context-tree.ts` is the walk of `getBranch`, but stops at an entry it has
seen.
-/

namespace Amide

/-- How an engine reads dates, and how it sorts by them where a comparison gives `NaN`. -/
structure DateEngine where
  /-- `new Date(timestamp).getTime()`; `none` is `NaN`. -/
  getTime : String → Option ℤ
  arrange : (String → Option ℤ) → List String → List String
  arrange_perm : ∀ time ids, (arrange time ids).Perm ids

structure SessionTreeFlatNode where
  entry : SessionEntry
  label : Option String
  labelTimestamp : Option String

structure SessionTree where
  nodes : JsMap String SessionTreeFlatNode
  roots : List String
  children : JsMap String (List String)

namespace SessionTree

def childrenOf (tree : SessionTree) (id : String) : List String := (tree.children.get? id).getD []

def addRoot (tree : SessionTree) (id : String) : SessionTree :=
  { tree with roots := tree.roots ++ [id] }

def addChild (tree : SessionTree) (parentId id : String) : SessionTree :=
  { tree with children := tree.children.set parentId (tree.childrenOf parentId ++ [id]) }

/-- The second loop of `getTree`. -/
def linkNode (tree : SessionTree) (entry : SessionEntry) : SessionTree :=
  match entry.parentId with
  | none => tree.addRoot entry.id
  | some parentId =>
    if parentId = entry.id then tree.addRoot entry.id
    else if tree.nodes.has parentId then tree.addChild parentId entry.id
    else tree.addRoot entry.id

variable (dates : DateEngine)

def time (tree : SessionTree) (id : String) : Option ℤ :=
  (tree.nodes.get? id).bind fun node => dates.getTime node.entry.timestamp

/-- `children.sort`, by the differences of the times. -/
def sortedChildren (tree : SessionTree) (id : String) : List String :=
  if (tree.childrenOf id).all fun c => (tree.time dates c).isSome then
    (tree.childrenOf id).mergeSort fun a b =>
      (tree.time dates a).getD 0 - (tree.time dates b).getD 0 ≤ 0
  else dates.arrange (tree.time dates) (tree.childrenOf id)

def sortChildren (tree : SessionTree) (id : String) : SessionTree :=
  { tree with children := tree.children.set id (tree.sortedChildren dates id) }

/-- The loop over the stack, whose top comes first here. -/
def sortNodes : ℕ → List String → SessionTree → Option SessionTree
  | _, [], tree => some tree
  | 0, _ :: _, _ => none
  | fuel + 1, id :: stack, tree =>
    let tree := tree.sortChildren dates id
    sortNodes fuel ((tree.childrenOf id).reverse ++ stack) tree

end SessionTree

namespace SessionManager

def getFlatTree (m : SessionManager) : List SessionTreeFlatNode :=
  m.getEntries.map fun entry =>
    ⟨entry, m.labelsById.get? entry.id, m.labelTimestampsById.get? entry.id⟩

/-- The tree before it is sorted. -/
def linkTree (m : SessionManager) : SessionTree :=
  m.getEntries.foldl SessionTree.linkNode
    { nodes := JsMap.index (fun node => node.entry.id) m.getFlatTree, roots := [],
      children := .empty }

def getTree (m : SessionManager) (dates : DateEngine) (fuel : ℕ) : Option SessionTree :=
  m.linkTree.sortNodes dates fuel m.linkTree.roots.reverse

end SessionManager

/-! ## The other walks -/

/-- The loop of `branchEntries`. -/
def branchWalk (byId : JsMap String SessionEntry) :
    ℕ → List String → Option SessionEntry → Option (List SessionEntry)
  | _, _, none => some []
  | 0, seen, some e => if e.id ∈ seen then some [] else none
  | fuel + 1, seen, some e =>
    if e.id ∈ seen then some []
    else (branchWalk byId fuel (e.id :: seen) (lookupId byId e.parentId)).map (e :: ·)

def branchEntries (entries : List SessionEntry) (fuel : ℕ) : Option (List SessionEntry) :=
  (branchWalk (JsMap.index SessionEntry.id entries) fuel [] entries.getLast?).map List.reverse

/-- The loop of `getLatestAgentStatus`: the entries it comes to, and what it returns. -/
def statusWalk (byId : JsMap String SessionEntry) :
    ℕ → Option SessionEntry → Option (List SessionEntry × Option AgentStatus)
  | _, none => some ([], none)
  | 0, some _ => none
  | fuel + 1, some e =>
    match e.body with
    | .agentStatus status => some ([e], some status)
    | _ => (statusWalk byId fuel (lookupId byId e.parentId)).map fun r => (e :: r.1, r.2)

def SessionManager.getLatestAgentStatus (m : SessionManager) (fuel : ℕ) :
    Option (Option AgentStatus) :=
  (statusWalk m.byId fuel (lookupId m.byId m.leafId)).map Prod.snd

end Amide
