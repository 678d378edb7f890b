import Amide.Framework.JsMap
import Amide.Construction.Session.Entries

/-!
# The context of a branch

`buildSessionContext` and `getBranch`: the walk from a leaf to its root along `parentId`, and the
messages and settings the entries of that path amount to.

The walk of the source has no bound of its own and a cycle of parents would keep it going.
`walk` takes one step for each entry of the index and one more; when the chain of parents has not
ended by then it never does, since a walk that ends visits no entry twice, and the result is
`none`.
-/

namespace Amide

/-- `model` of a session context. -/
structure ModelRef where
  provider : String
  modelId : String
  deriving DecidableEq

structure SessionContext where
  messages : List AgentMessage
  thinkingLevel : String
  serviceTier : ServiceTier
  model : Option ModelRef
  deriving DecidableEq

/-! ## The walk -/

/-- `parentId ? byId.get(parentId) : undefined`; the empty string is falsy too. -/
def lookupId (byId : JsMap String SessionEntry) : Option String → Option SessionEntry
  | none => none
  | some id => if id = "" then none else byId.get? id

/-- The entries from the given one to its root, within the given number of steps. -/
def walk (byId : JsMap String SessionEntry) : ℕ → Option SessionEntry → Option (List SessionEntry)
  | _, none => some []
  | 0, some _ => none
  | n + 1, some e => (walk byId n (lookupId byId e.parentId)).map (e :: ·)

@[simp] lemma walk_none (byId : JsMap String SessionEntry) (n : ℕ) :
    walk byId n none = some [] := by
  cases n <;> rfl

/-- More steps than a walk needs do not change it. -/
theorem walk_mono {byId : JsMap String SessionEntry} {n m : ℕ} (hnm : n ≤ m)
    {e : Option SessionEntry} {path : List SessionEntry} (h : walk byId n e = some path) :
    walk byId m e = some path := by
  induction n generalizing m e path with
  | zero =>
    cases e with
    | none => simpa using h
    | some e => simp [walk] at h
  | succ n ih =>
    cases e with
    | none => simpa using h
    | some e =>
      obtain ⟨m, rfl⟩ : ∃ k, m = k + 1 := ⟨m - 1, by omega⟩
      obtain ⟨rest, hrest, rfl⟩ := Option.map_eq_some_iff.mp h
      have hrest' := ih (Nat.le_of_succ_le_succ hnm) hrest
      simp [walk, hrest']

/-- The path from the root to the given leaf, `none` if the walk never ends. -/
def rootPath (byId : JsMap String SessionEntry) (leaf : Option SessionEntry) :
    Option (List SessionEntry) :=
  (walk byId (byId.size + 1) leaf).map List.reverse

/-! ## What a path amounts to -/

/-- The message an entry stands for in the context; `appendMessage` of the source. -/
def SessionEntry.contextMessage? (e : SessionEntry) : Option AgentMessage :=
  match e.body with
  | .message m => some m
  | .customMessage m =>
      some (createCustomMessage m.customType m.content m.display m.details e.timestamp)
  | .branchSummary b =>
      if b.summary = "" then none
      else some (createBranchSummaryMessage b.summary b.fromId e.timestamp)
  | _ => none

/-- What the settings loop of `buildSessionContext` carries. -/
structure PathSettings where
  thinkingLevel : String := "off"
  serviceTier : ServiceTier := .default
  model : Option ModelRef := none
  compaction : Option (SessionEntry × CompactionFields) := none

def PathSettings.step (s : PathSettings) (e : SessionEntry) : PathSettings :=
  match e.body with
  | .thinkingLevelChange l => { s with thinkingLevel := l }
  | .serviceTierChange t => { s with serviceTier := t }
  | .modelChange provider modelId => { s with model := some ⟨provider, modelId⟩ }
  | .message (.assistant m) => { s with model := some ⟨m.provider, m.model⟩ }
  | .compaction c => { s with compaction := some (e, c) }
  | _ => s

def pathSettings (path : List SessionEntry) : PathSettings := path.foldl PathSettings.step {}

/-- `foundFirstKept`: the entries from the first one with the given id on. -/
def fromFirstKept (firstKeptEntryId : String) (es : List SessionEntry) : List SessionEntry :=
  es.dropWhile fun e => e.id ≠ firstKeptEntryId

def contextMessages (es : List SessionEntry) : List AgentMessage :=
  es.filterMap SessionEntry.contextMessage?

/-- The messages of a path: all of them, or, after a compaction, its summary, the messages it
kept and the messages behind it. -/
def pathMessages (path : List SessionEntry) : List AgentMessage :=
  match (pathSettings path).compaction with
  | none => contextMessages path
  | some (entry, c) =>
      let compactionIdx := path.findIdx fun e => e.isCompaction && e.id = entry.id
      let retainedMessages :=
        contextMessages (fromFirstKept c.firstKeptEntryId (path.take compactionIdx))
      createCompactionSummaryMessage c.summary c.tokensBefore entry.timestamp c.customInstructions
          (some retainedMessages.length) ::
        retainedMessages ++ contextMessages (path.drop (compactionIdx + 1))

/-- The context of a path from the root to a leaf. -/
def contextOfPath (path : List SessionEntry) : SessionContext where
  messages := pathMessages path
  thinkingLevel := (pathSettings path).thinkingLevel
  serviceTier := (pathSettings path).serviceTier
  model := (pathSettings path).model

def emptyContext : SessionContext := ⟨[], "off", .default, none⟩

/-! ## The functions of the source -/

/-- `buildSessionContext(entries, leafId, byId)`; `leafId` is `none` where the caller leaves it
out.  A leaf that is not in the index falls back to the last of `entries`, and when that is a
header (the manager passes its whole file) the path is the header alone, which stands for nothing.
`none` if the walk does not end. -/
def buildSessionContext (entries : List FileEntry) (leafId : Option (Option String))
    (byId : JsMap String SessionEntry) : Option SessionContext :=
  if leafId = some none then some emptyContext
  else
    let leaf := (lookupId byId leafId.join).or (entries.getLast?.bind FileEntry.asEntry)
    (rootPath byId leaf).map contextOfPath

/-- `buildSessionContext(entries)`, with the index and the leaf it makes for itself. -/
def buildSessionContextOf (entries : List SessionEntry) : Option SessionContext :=
  buildSessionContext (entries.map .entry) none (JsMap.index SessionEntry.id entries)

/-- `getBranch` from the given id. -/
def getBranch (byId : JsMap String SessionEntry) (startId : Option String) :
    Option (List SessionEntry) :=
  rootPath byId (lookupId byId startId)

end Amide
