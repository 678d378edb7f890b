import Amide.Framework.AssignLast
import Amide.Construction.Session.Entries

/-!
# Loading a session file

From the bytes of a file to its entries: the lines are parsed one by one and those that do not
parse are skipped, the usage that child runs added is folded into the assistant messages, and
entries of an older version are migrated.

`applyChildUsageAttributions` writes through a map from ids to assistant entries, in which the
last entry with an id stands; it is an instance of `AssignLast`.
-/

namespace Amide

/-! ## Child usage -/

namespace FileEntry

/-- The id of an entry with an assistant message. -/
def assistantId? : FileEntry → Option String
  | session _ => none
  | entry e => if e.isAssistant then some e.id else none

/-- `target.message.usage = usage`. -/
def withUsage (usage : Usage) : FileEntry → FileEntry
  | entry ⟨id, parentId, timestamp, .message (.assistant m)⟩ =>
      entry ⟨id, parentId, timestamp, .message (.assistant { m with usage })⟩
  | f => f

/-- The attribution of an entry: the target and its aggregate usage. -/
def attribution? : FileEntry → Option (String × Usage)
  | entry ⟨_, _, _, .childUsageAttributed a⟩ => some (a.targetId, a.aggregateUsage)
  | _ => none

end FileEntry

/-- Sets the usage of the assistant entry with the given id, the last if there are several. -/
def setUsage (targetId : String) (usage : Usage) : List FileEntry → List FileEntry :=
  AssignLast.assign FileEntry.assistantId? FileEntry.withUsage (AssignLast.one targetId usage)

def applyChildUsageAttributions (entries : List FileEntry) : List FileEntry :=
  (entries.filterMap FileEntry.attribution?).foldl (fun es a => setUsage a.1 a.2 es) entries

/-! ## The loader -/

/-- The entries of a buffer: each line is parsed, malformed and blank lines are skipped. -/
def parseEntriesFromBuffer (buffer : List UInt8) : List FileEntry := sessionCodec.read buffer

def finalizeLoadedEntries (entries : List FileEntry) : List FileEntry :=
  match entries with
  | .session _ :: _ => applyChildUsageAttributions entries
  | _ => []

/-- The files of the session directory, by path. -/
abbrev Files := String → Option (List UInt8)

def loadEntriesFromFile (files : Files) (path : String) : List FileEntry :=
  match files path with
  | none => []
  | some buffer => finalizeLoadedEntries (parseEntriesFromBuffer buffer)

/-! ## Ids -/

/-- What `randomUUID` returns, call after call. -/
abbrev Draws := ℕ → String

/-- `slice(0, 8)` of an id, all of whose characters are ASCII. -/
def shortId (uuid : String) : String := String.ofList (uuid.toList.take 8)

/-- The first of a hundred short ids that is not taken, or else a whole UUID, which is not
checked. -/
def generateId (has : String → Bool) (draws : Draws) : String :=
  match (List.range 100).find? fun i => !has (shortId (draws i)) with
  | some i => shortId (draws i)
  | none => draws 100

/-! ## Migration -/

def currentSessionVersion : ℕ := 3

/-- `firstKeptEntryIndex` becomes `firstKeptEntryId`, by the ids the entries have at this point of
the migration. -/
def migrateFirstKept (entries : List FileEntry) (e : SessionEntry) : SessionEntry :=
  match e.body with
  | .compaction c =>
    match c.firstKeptEntryIndex with
    | none => e
    | some i =>
      let firstKeptEntryId :=
        match entries[i]? with
        | some (.entry target) => target.id
        | _ => c.firstKeptEntryId
      { e with body := .compaction { c with firstKeptEntryId, firstKeptEntryIndex := none } }
  | _ => e

/-- The loop of `migrateV1ToV2` over the entries left to do.  The set it checks new ids against
stays empty, so each entry takes its first draw. -/
def migrateV1ToV2From (draws : ℕ → Draws) :
    List FileEntry → Option String → List FileEntry → List FileEntry
  | migrated, _, [] => migrated
  | migrated, prevId, .session h :: rest =>
      migrateV1ToV2From draws (migrated ++ [.session { h with version := some 2 }]) prevId rest
  | migrated, prevId, .entry e :: rest =>
      let id := generateId (fun _ => false) (draws migrated.length)
      let e := { e with id, parentId := prevId }
      let e := migrateFirstKept (migrated ++ .entry e :: rest) e
      migrateV1ToV2From draws (migrated ++ [.entry e]) (some id) rest

def migrateV1ToV2 (draws : ℕ → Draws) (entries : List FileEntry) : List FileEntry :=
  migrateV1ToV2From draws [] none entries

/-- One entry of `migrateV2ToV3`. -/
def migrateEntryToV3 : FileEntry → FileEntry
  | .session h => .session { h with version := some 3 }
  | .entry ⟨id, parentId, timestamp, .message (.hookMessage m)⟩ =>
      .entry ⟨id, parentId, timestamp, .message (.custom m)⟩
  | f => f

def migrateV2ToV3 (entries : List FileEntry) : List FileEntry := entries.map migrateEntryToV3

/-- The version the header of a file names, 1 if it names none. -/
def sessionVersion (entries : List FileEntry) : ℕ :=
  ((entries.findSome? FileEntry.header?).bind SessionHeader.version).getD 1

/-- The migrated entries, and whether anything was migrated. -/
def migrateToCurrentVersion (draws : ℕ → Draws) (entries : List FileEntry) :
    List FileEntry × Bool :=
  let version := sessionVersion entries
  if currentSessionVersion ≤ version then (entries, false)
  else
    let entries := if version < 2 then migrateV1ToV2 draws entries else entries
    let entries := if version < 3 then migrateV2ToV3 entries else entries
    (entries, true)

end Amide
