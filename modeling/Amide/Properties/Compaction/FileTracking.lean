import Amide.Properties.Compaction.Partition
import Amide.Properties.Compaction.Summaries

/-!
# Files are tracked over chains of compactions

A compaction keeps, in its details, the files that were edited in the messages it summarizes, and
takes over those its predecessor on the path lists.  So on a path with any number of compactions
each one lists what all the earlier ones have seen (`compactedPath_tracks`).

The tool calls that are looked at are those of `edit`, with a path that is not empty.
-/

namespace Amide

open List

/-! ## Paths with compactions -/

/-- The details that are saved with a compaction. -/
def compactionDetails (files : FileLists) : Json :=
  .obj [("readFiles", toJson files.readFiles), ("modifiedFiles", toJson files.modifiedFiles)]

/-- The result of `compact`, saved by `appendCompaction` for no hook. -/
def IsSaved (result : CompactionResult) (c : CompactionFields) : Prop :=
  c.summary = result.summary ∧ c.firstKeptEntryId = result.firstKeptEntryId ∧
    c.tokensBefore = result.tokensBefore ∧ c.details = some (compactionDetails result.details) ∧
    c.fromHook ≠ some true

/-- What a compaction has summarized, and the files it lists. -/
structure CompactionRecord where
  summarized : List AgentMessage
  details : FileLists

/-- The paths of a session all of whose compactions come from `compact`, with their records.  While
a compaction is made, other entries may be appended. -/
inductive CompactedPath : List SessionEntry → List CompactionRecord → Prop
  | nil : CompactedPath [] []
  | entry {path : List SessionEntry} {records : List CompactionRecord} {e : SessionEntry}
      (h : CompactedPath path records) (hentry : e.isCompaction = false) :
    CompactedPath (path ++ [e]) records
  | compaction {path between : List SessionEntry} {records : List CompactionRecord}
      {e : SessionEntry} {settings : CompactionSettings} {preparation : CompactionPreparation}
      {env : SummaryEnv} {customInstructions : Option String} {result : CompactionResult}
      {c : CompactionFields} (h : CompactedPath path records)
      (hbetween : ∀ x ∈ between, x.isCompaction = false)
      (hprep : prepareCompaction path settings = some preparation)
      (hresult : (compact env preparation customInstructions).result = .ok result)
      (hbody : e.body = .compaction c) (hsaved : IsSaved result c) :
    CompactedPath (path ++ between ++ [e])
      (records ++ [⟨preparation.messagesToSummarize ++ preparation.turnPrefixMessages,
        result.details⟩])

/-- A tool call edits a file. -/
def ToolCall.Edits (call : ToolCall) (file : String) : Prop :=
  call.name = "edit" ∧ call.arguments.get? "path" = some (.str file) ∧ file ≠ ""

def EditedIn (messages : List AgentMessage) (file : String) : Prop :=
  ∃ m, .assistant m ∈ messages ∧ ∃ call ∈ m.toolCalls, call.Edits file

/-- What an earlier compaction lists is listed by a later one. -/
structure Inherits (earlier later : CompactionRecord) : Prop where
  modified : ∀ file ∈ earlier.details.modifiedFiles, file ∈ later.details.modifiedFiles
  read : ∀ file ∈ earlier.details.readFiles,
    file ∈ later.details.readFiles ∨ file ∈ later.details.modifiedFiles

lemma Inherits.trans {r₁ r₂ r₃ : CompactionRecord} (h : Inherits r₁ r₂) (h' : Inherits r₂ r₃) :
    Inherits r₁ r₃ where
  modified file hfile := h'.modified file (h.modified file hfile)
  read file hfile := by
    rcases h.read file hfile with hread | hmod
    · exact h'.read file hread
    · exact .inr (h'.modified file hmod)

/-! ## File operations -/

variable {paths : List String}

section Operations

variable {fileOps : FileOperations} {file : String}

lemma mem_addPath {path : String} : file ∈ addPath paths path ↔ file ∈ paths ∨ file = path := by
  rw [addPath]
  split_ifs with hpath
  · refine ⟨.inl, fun h => ?_⟩
    rcases h with h | rfl
    · exact h
    · exact hpath
  · rw [mem_append, mem_singleton]

lemma mem_foldl_addPath {init : List String} :
    file ∈ paths.foldl addPath init ↔ file ∈ init ∨ file ∈ paths := by
  induction paths generalizing init with
  | nil => simp
  | cons path paths ih => rw [foldl_cons, ih, mem_addPath, mem_cons, or_assoc]

lemma addCall_read (call : ToolCall) : (fileOps.addCall call).read = fileOps.read := by
  rw [FileOperations.addCall]
  split
  · split_ifs
    · rfl
    · rfl
  · rfl

lemma mem_addCall_edited {call : ToolCall} :
    file ∈ (fileOps.addCall call).edited ↔ file ∈ fileOps.edited ∨ call.Edits file := by
  rw [FileOperations.addCall, ToolCall.Edits]
  split
  · rename_i path hpath
    rw [hpath, Option.some_inj, Json.str.injEq]
    split_ifs with hedit
    · rw [mem_addPath]
      refine or_congr_right ⟨?_, fun h => h.2.1.symm⟩
      rintro rfl
      exact ⟨hedit.2, rfl, hedit.1⟩
    · refine ⟨.inl, fun h => h.resolve_right ?_⟩
      rintro ⟨hname, rfl, hne⟩
      exact hedit ⟨hne, hname⟩
  · rename_i hnone
    refine ⟨.inl, fun h => h.resolve_right ?_⟩
    rintro ⟨-, hpath, -⟩
    exact hnone file hpath

lemma foldl_addCall (calls : List ToolCall) :
    (calls.foldl FileOperations.addCall fileOps).read = fileOps.read ∧
      (file ∈ (calls.foldl FileOperations.addCall fileOps).edited ↔
        file ∈ fileOps.edited ∨ ∃ call ∈ calls, call.Edits file) := by
  induction calls generalizing fileOps with
  | nil => simp
  | cons call calls ih =>
    obtain ⟨hread, hedited⟩ := @ih (fileOps.addCall call)
    refine ⟨hread.trans (addCall_read call), hedited.trans ?_⟩
    rw [mem_addCall_edited, exists_mem_cons_iff, or_assoc]

lemma editedIn_append {messages messages' : List AgentMessage} :
    EditedIn (messages ++ messages') file ↔ EditedIn messages file ∨ EditedIn messages' file := by
  simp only [EditedIn, mem_append, or_and_right, exists_or]

lemma foldl_extract (messages : List AgentMessage) :
    (messages.foldl extractFileOpsFromMessage fileOps).read = fileOps.read ∧
      (file ∈ (messages.foldl extractFileOpsFromMessage fileOps).edited ↔
        file ∈ fileOps.edited ∨ EditedIn messages file) := by
  induction messages generalizing fileOps with
  | nil => simp [EditedIn]
  | cons message messages ih =>
    obtain ⟨hread, hedited⟩ := @ih (extractFileOpsFromMessage fileOps message)
    have hstep : (extractFileOpsFromMessage fileOps message).read = fileOps.read ∧
        (file ∈ (extractFileOpsFromMessage fileOps message).edited ↔
          file ∈ fileOps.edited ∨ EditedIn [message] file) := by
      cases message with
      | assistant m =>
        obtain ⟨hread, hedited⟩ := @foldl_addCall fileOps file m.toolCalls
        refine ⟨hread, hedited.trans (or_congr_right ?_)⟩
        simp [EditedIn]
      | _ => simp [extractFileOpsFromMessage, EditedIn]
    refine ⟨hread.trans hstep.1, hedited.trans ?_⟩
    rw [hstep.2, or_assoc, ← editedIn_append, singleton_append]

end Operations

/-! ## One compaction -/

section Lists

variable {fileOps : FileOperations} {file : String}

lemma mem_sortStrings : file ∈ sortStrings paths ↔ file ∈ paths :=
  mem_mergeSort

lemma mem_modifiedFiles (h : file ∈ fileOps.edited) :
    file ∈ (computeFileLists fileOps).modifiedFiles :=
  mem_sortStrings.2 (mem_foldl_addPath.2 (.inl h))

lemma mem_fileLists_of_read (h : file ∈ fileOps.read) :
    file ∈ (computeFileLists fileOps).readFiles ∨
      file ∈ (computeFileLists fileOps).modifiedFiles := by
  by_cases hmod : file ∈ (computeFileLists fileOps).modifiedFiles
  · exact .inr hmod
  · refine .inl (mem_sortStrings.2 (mem_filter.2 ⟨h, ?_⟩))
    rw [computeFileLists, mem_sortStrings] at hmod
    simpa using hmod

end Lists

section Compaction

variable {path : List SessionEntry} {settings : CompactionSettings}
  {preparation : CompactionPreparation} {env : SummaryEnv} {customInstructions : Option String}
  {result : CompactionResult} {file : String}

lemma stringsAt_toJson {details : Json} {key : String} (paths : List String)
    (h : details.get? key = some (toJson paths)) : stringsAt details key = paths := by
  rw [stringsAt, h]
  change (paths.map toJson).filterMap (fun j => (ofJson j : Option String)) = paths
  rw [filterMap_map]
  have hcodec : (fun j => (ofJson j : Option String)) ∘ toJson = some := by
    funext path
    exact JsonCodec.ofJson_toJson path
  rw [hcodec, filterMap_some]

variable {c : CompactionFields}

/-- What a saved compaction lists is where the next one begins. -/
lemma extractFileOperations_saved (hsaved : IsSaved result c)
    (messages : List AgentMessage) :
    extractFileOperations messages (some c) = messages.foldl extractFileOpsFromMessage
      { read := result.details.readFiles.foldl addPath []
        edited := result.details.modifiedFiles.foldl addPath [] } := by
  obtain ⟨-, -, -, hdetails, hhook⟩ := hsaved
  obtain ⟨summary, firstKeptEntryId, firstKeptEntryIndex, tokensBefore, details, fromHook,
    instructions, usage⟩ := c
  obtain rfl : details = some (compactionDetails result.details) := hdetails
  rw [extractFileOperations, if_neg hhook, stringsAt_toJson result.details.readFiles rfl,
    stringsAt_toJson result.details.modifiedFiles rfl]

lemma compact_details (h : (compact env preparation customInstructions).result = .ok result) :
    result.details = computeFileLists preparation.fileOps := by
  have hfinish : ∀ {summary slices}, finishCompaction preparation summary slices = .ok result →
        result.details = computeFileLists preparation.fileOps := by
    intro summary slices hok
    simp only [finishCompaction] at hok
    split_ifs at hok
    cases hok
    rfl
  simp only [compact] at h
  split_ifs at h
  · obtain ⟨history, -, h⟩ := Except.of_bind h
    obtain ⟨turnPrefix, -, h⟩ := Except.of_bind h
    exact hfinish h
  · obtain ⟨history, -, h⟩ := Except.of_bind h
    obtain ⟨turnPrefix, -, h⟩ := Except.of_bind h
    exact hfinish h
  · obtain ⟨history, -, h⟩ := Except.of_bind h
    exact hfinish h

section
variable (hprep : prepareCompaction path settings = some preparation)
  (hres : (compact env preparation customInstructions).result = .ok result)
include hprep hres

/-- A compaction lists what is edited in the messages it summarizes. -/
lemma lists_edited
    (hedited : EditedIn (preparation.messagesToSummarize ++ preparation.turnPrefixMessages) file) :
    file ∈ result.details.modifiedFiles := by
  rw [compact_details hres, (prepareCompaction_cases hprep).2.2.2.2]
  refine mem_modifiedFiles ((foldl_extract _).2.2 ?_)
  rcases editedIn_append.1 hedited with hhistory | hprefix
  · exact .inl ((foldl_extract _).2.2 (.inr hhistory))
  · exact .inr hprefix

/-- A compaction lists what the last one before it lists. -/
lemma lists_inherited {i : ℕ} {earlier : CompactionResult}
    (hlast : lastCompaction path path.length = some (i, c)) (hsaved : IsSaved earlier c)
    (summarized summarized' : List AgentMessage) :
    Inherits ⟨summarized, earlier.details⟩ ⟨summarized', result.details⟩ := by
  have hops : preparation.fileOps = preparation.turnPrefixMessages.foldl extractFileOpsFromMessage
      (preparation.messagesToSummarize.foldl extractFileOpsFromMessage
        { read := earlier.details.readFiles.foldl addPath []
          edited := earlier.details.modifiedFiles.foldl addPath [] }) := by
    rw [(prepareCompaction_cases hprep).2.2.2.2, hlast, Option.map_some,
      extractFileOperations_saved hsaved]
  rw [compact_details hres, hops]
  refine ⟨fun file hfile => ?_, fun file hfile => ?_⟩
  · refine mem_modifiedFiles ((foldl_extract _).2.2 (.inl ((foldl_extract _).2.2 (.inl ?_))))
    exact mem_foldl_addPath.2 (.inr hfile)
  · refine mem_fileLists_of_read ?_
    rw [(@foldl_extract _ file _).1, (@foldl_extract _ file _).1]
    exact mem_foldl_addPath.2 (.inr hfile)

end

end Compaction

/-! ## Chains -/

/-- The last compaction on a path is the one with the last record. -/
def EndsIn (path : List SessionEntry) (records : List CompactionRecord) : Prop :=
  ∀ r ∈ records.getLast?, ∃ pre e c post result, path = pre ++ e :: post ∧
    e.body = .compaction c ∧ (∀ x ∈ post, x.isCompaction = false) ∧ IsSaved result c ∧
    result.details = r.details

variable {path : List SessionEntry} {records : List CompactionRecord}

lemma EndsIn.append (h : EndsIn path records) {post : List SessionEntry}
    (hpost : ∀ x ∈ post, x.isCompaction = false) : EndsIn (path ++ post) records := by
  intro r hr
  obtain ⟨pre, e, c, post', result, rfl, hbody, hpost', hsaved, hdetails⟩ := h r hr
  refine ⟨pre, e, c, post' ++ post, result, by simp, hbody, fun x hx => ?_, hsaved, hdetails⟩
  rcases mem_append.1 hx with hx | hx
  · exact hpost' x hx
  · exact hpost x hx

lemma endsIn_of_compactedPath (h : CompactedPath path records) : EndsIn path records := by
  induction h with
  | nil => exact fun r hr => nomatch hr
  | entry _ hentry ih =>
    exact ih.append fun x hx => mem_singleton.1 hx ▸ hentry
  | @compaction path between records e settings preparation env customInstructions result c _ _ _ _
      hbody hsaved _ =>
    intro r hr
    rw [getLast?_concat] at hr
    cases hr
    exact ⟨path ++ between, e, c, [], result, rfl, hbody, (fun x hx => nomatch hx), hsaved, rfl⟩

/-- **Files are tracked over any number of compactions.** -/
theorem compactedPath_tracks (h : CompactedPath path records) :
    (∀ r ∈ records, ∀ file, EditedIn r.summarized file → file ∈ r.details.modifiedFiles) ∧
      records.Pairwise fun earlier later => Inherits earlier later ∧
        ∀ file, EditedIn earlier.summarized file → file ∈ later.details.modifiedFiles := by
  induction h with
  | nil => exact ⟨(fun r hr => nomatch hr), .nil⟩
  | entry _ _ ih => exact ih
  | @compaction path between records e settings preparation env customInstructions result c hpath
      hbetween hprep hres hbody hsaved ih =>
    obtain ⟨hlists, hpairs⟩ := ih
    refine ⟨fun r hr => ?_, pairwise_append.2 ⟨hpairs, pairwise_singleton _ _, ?_⟩⟩
    · rcases mem_append.1 hr with hr | hr
      · exact hlists r hr
      · rw [mem_singleton.1 hr]
        exact fun file hedited => lists_edited hprep hres hedited
    · intro r hr new hnew
      rw [mem_singleton.1 hnew]
      rcases eq_nil_or_concat records with rfl | ⟨init, last, hconcat⟩
      · exact nomatch hr
      rw [concat_eq_append] at hconcat
      subst hconcat
      obtain ⟨pre, e', c', post, earlier, rfl, hbody', hpost, hsaved', hdetails⟩ :=
        endsIn_of_compactedPath hpath last getLast?_concat
      have hlast := lists_inherited hprep hres (lastCompaction_of_split hbody' hpost) hsaved'
        last.summarized (preparation.messagesToSummarize ++ preparation.turnPrefixMessages)
      rw [hdetails] at hlast
      rcases mem_append.1 hr with hr | hr
      · obtain ⟨hinherits, hedits⟩ :=
          (pairwise_append.1 hpairs).2.2 r hr last (mem_singleton_self last)
        exact ⟨hinherits.trans hlast, fun file hedited => hlast.modified file (hedits file hedited)⟩
      · rw [mem_singleton.1 hr]
        refine ⟨hlast, fun file hedited => hlast.modified file ?_⟩
        exact hlists last (mem_append_right _ (mem_singleton_self last)) file hedited

/-! ### Two compactions -/

/-- A call of a tool on the file `x.ts`. -/
def toolBody (name : String) : EntryBody :=
  .message (.assistant
    { content := [.toolCall { id := "call", name, arguments := .obj [("path", .str "x.ts")] }]
      api := "api", provider := "provider", model := "model", usage := plainUsage
      stopReason := .toolUse, timestamp := 0 })

def toolPath (name : String) : List SessionEntry :=
  [plainEntry "a" none (userBody "go"), plainEntry "b" (some "a") (toolBody name),
    plainEntry "c" (some "b") (userBody "more"), plainEntry "d" (some "c") (assistantBody "done")]

def savedCompaction (result : CompactionResult) : CompactionFields where
  summary := result.summary
  firstKeptEntryId := result.firstKeptEntryId
  tokensBefore := result.tokensBefore
  details := some (compactionDetails result.details)

/-- A compaction is made and saved, and the assistant goes on. -/
def compactOnce (ids : String × String × String) (path : List SessionEntry)
    (records : List CompactionRecord) : Option (List SessionEntry × List CompactionRecord) := do
  let preparation ← prepareCompaction path ⟨true, 100, 0⟩
  match (compact silentEnv preparation none).result with
  | .error _ => none
  | .ok result =>
    some (path ++ [plainEntry ids.2.1 (some ids.1) (.compaction (savedCompaction result))] ++
        [plainEntry ids.2.2 (some ids.2.1) (assistantBody "done")],
      records ++ [⟨preparation.messagesToSummarize ++ preparation.turnPrefixMessages,
        result.details⟩])

lemma compactedPath_compactOnce {ids : String × String × String}
    {compacted : List SessionEntry × List CompactionRecord} (h : CompactedPath path records)
    (hcompacted : compactOnce ids path records = some compacted) :
    CompactedPath compacted.1 compacted.2 := by
  simp only [compactOnce, bind, Option.bind_eq_some_iff] at hcompacted
  obtain ⟨preparation, hprep, hcompacted⟩ := hcompacted
  split at hcompacted
  · cases hcompacted
  · rename_i result hres
    cases hcompacted
    refine .entry ?_ rfl
    have hcomp := CompactedPath.compaction h (fun x hx => absurd hx not_mem_nil) hprep
      hres (show (plainEntry ids.2.1 (some ids.1) (.compaction (savedCompaction result))).body =
        _ from rfl) ⟨rfl, rfl, rfl, rfl, nofun⟩
    rwa [append_nil] at hcomp

lemma compactedPath_toolPath (name : String) : CompactedPath (toolPath name) [] :=
  .entry (.entry (.entry (.entry .nil rfl) rfl) rfl) rfl

/-- An edit is followed by two compactions. -/
theorem compactedPath_tracks_twice :
    ∃ path records, CompactedPath path records ∧ records.length = 2 ∧
      (∀ r ∈ records, ∀ file, EditedIn r.summarized file → file ∈ r.details.modifiedFiles) ∧
      records.Pairwise fun earlier later => Inherits earlier later ∧
        ∀ file, EditedIn earlier.summarized file → file ∈ later.details.modifiedFiles := by
  have htwice : (((compactOnce ("d", "e", "f") (toolPath "edit") []).bind fun once =>
      compactOnce ("f", "g", "h") once.1 once.2).map fun twice => twice.2.length) = some 2 := by
    decide +kernel
  obtain ⟨twice, htwice, hlength⟩ := Option.map_eq_some_iff.1 htwice
  obtain ⟨once, honce, htwice⟩ := Option.bind_eq_some_iff.1 htwice
  have hpath := compactedPath_compactOnce
    (compactedPath_compactOnce (compactedPath_toolPath "edit") honce) htwice
  exact ⟨twice.1, twice.2, hpath, hlength, compactedPath_tracks hpath⟩

/-- A call of the tool that names a file is summarized, and the record lists no file. -/
def Untracked (name : String) : Prop :=
  ∃ path records, CompactedPath path records ∧
    ∃ r ∈ records, r.details = ⟨[], []⟩ ∧ ∃ m, .assistant m ∈ r.summarized ∧
      ∃ call ∈ m.toolCalls, call.name = name ∧ call.arguments.get? "path" = some (.str "x.ts")

lemma untracked_of_compactOnce {name : String}
    (hcompacted : (compactOnce ("d", "e", "f") (toolPath name) []).map (fun once =>
      once.2.map fun r => (r.details, r.summarized.any fun
        | .assistant m => m.toolCalls.any fun call =>
            call.name = name ∧ call.arguments.get? "path" = some (.str "x.ts")
        | _ => false)) = some [(⟨[], []⟩, true)]) : Untracked name := by
  obtain ⟨once, honce, hrecords⟩ := Option.map_eq_some_iff.1 hcompacted
  obtain ⟨r, rest, hr, hdetails, -⟩ := map_eq_cons_iff.1 hrecords
  obtain ⟨hdetails, hcall⟩ := Prod.mk.inj hdetails
  obtain ⟨message, hmsg, hcall⟩ := any_eq_true.1 hcall
  have hmem : r ∈ once.2 := hr ▸ mem_cons_self
  refine ⟨once.1, once.2, compactedPath_compactOnce (compactedPath_toolPath name) honce, r, hmem,
    hdetails, ?_⟩
  cases message with
  | assistant m =>
    obtain ⟨call, hcall, hnamed⟩ := any_eq_true.1 hcall
    exact ⟨m, hmsg, call, hcall, of_decide_eq_true hnamed⟩
  | _ => cases hcall

/-- Calls of `read` and `write` leave no trace. -/
theorem compaction_lists_no_write : Untracked "read" ∧ Untracked "write" := by
  constructor
  · exact untracked_of_compactOnce (by decide +kernel)
  · exact untracked_of_compactOnce (by decide +kernel)

end Amide
