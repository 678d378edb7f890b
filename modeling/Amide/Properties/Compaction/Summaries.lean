import Amide.Framework.Fallible
import Amide.Construction.Compaction.Summaries

/-!
# Earlier summaries

A compaction that follows another hands the earlier summary to the request for the history.  A cut
inside the first turn of what the earlier compaction kept leaves no history: then only the prefix of
the turn is summarized, and the earlier summary goes nowhere (`compact_passesOn_iff`).
-/

namespace Amide

def Occurs (part text : String) : Prop := ∃ before after, text = before ++ part ++ after

/-- One of the requests shows the summary, and what it is answered becomes part of the new
summary. -/
def PassesOn (env : SummaryEnv) (preparation : CompactionPreparation)
    (customInstructions : Option String) (summary : String) : Prop :=
  let run := compact env preparation customInstructions
  ∃ call ∈ run.calls, (∃ messages, call = .history messages customInstructions (some summary)) ∧
    let request := call.request env.conversationText preparation.settings.reserveTokens
    Occurs (previousSummaryBlock summary) request.promptText ∧
      ∀ result, run.result = .ok result → Occurs (env.completeSimple request).text result.summary

/-- Nothing but the prefix of a turn is summarized. -/
def CompactionPreparation.hasOnlyTurnPrefix (p : CompactionPreparation) : Bool :=
  p.isSplitTurn && p.turnPrefixMessages ≠ [] && p.messagesToSummarize = []

variable {env : SummaryEnv} {preparation : CompactionPreparation}
  {customInstructions : Option String} {summary : String}

lemma occurs_promptText (conversationText : List AgentMessage → String) (reserveTokens : ℕ)
    (messages : List AgentMessage) (customInstructions : Option String) (hne : summary ≠ "") :
    Occurs (previousSummaryBlock summary)
      ((SummaryCall.history messages customInstructions (some summary)).request conversationText
        reserveTokens).promptText := by
  refine ⟨"<conversation>\n" ++ conversationText messages ++ "\n</conversation>\n\n",
    buildSummarizationPrompt customInstructions (some summary), ?_⟩
  -- a summary that is not empty is shown
  simp only [SummaryCall.request]

/-- A call that does not fail gives the text of its answer. -/
lemma SummaryCall.run_eq_ok {reserveTokens : ℕ} {call : SummaryCall} {slice : SummarySlice}
    (h : call.run env reserveTokens = .ok slice) :
    slice.summary =
      (env.completeSimple (call.request env.conversationText reserveTokens)).text := by
  simp only [SummaryCall.run] at h
  split_ifs at h
  cases h
  rfl

lemma finishCompaction_eq_ok {text : String} {slices : List SummarySlice}
    {result : CompactionResult} (h : finishCompaction preparation text slices = .ok result) :
    ∃ files, result.summary = text ++ files := by
  simp only [finishCompaction] at h
  split_ifs at h
  cases h
  exact ⟨_, rfl⟩

/-- The answer to the history stands in the new summary wherever the history is asked for. -/
lemma compact_history (h : preparation.hasOnlyTurnPrefix = false) :
    let history := SummaryCall.history preparation.messagesToSummarize customInstructions
      preparation.previousSummary
    history ∈ (compact env preparation customInstructions).calls ∧
      ∀ result, (compact env preparation customInstructions).result = .ok result →
        ∃ slice, history.run env preparation.settings.reserveTokens = .ok slice ∧
          Occurs slice.summary result.summary := by
  simp only [compact]
  split_ifs with hsplit hhistory
  · refine ⟨by simp, fun result hok => ?_⟩
    obtain ⟨slice, hrun, hok⟩ := Except.of_bind hok
    obtain ⟨turnPrefix, -, hok⟩ := Except.of_bind hok
    obtain ⟨files, hfiles⟩ := finishCompaction_eq_ok hok
    exact ⟨slice, hrun, "", "\n\n---\n\n**Turn Context (split turn):**\n\n" ++
      turnPrefix.summary ++ files, by rw [hfiles]; simp [String.append_assoc]⟩
  · -- only the prefix of a turn would be summarized
    simp only [CompactionPreparation.hasOnlyTurnPrefix, hsplit, Bool.true_and,
      decide_eq_false_iff_not] at h
    exact absurd (by simpa using h) hhistory
  · refine ⟨by simp, fun result hok => ?_⟩
    obtain ⟨slice, hrun, hok⟩ := Except.of_bind hok
    obtain ⟨files, hfiles⟩ := finishCompaction_eq_ok hok
    exact ⟨slice, hrun, "", files, by rw [hfiles]; simp⟩

lemma calls_of_hasOnlyTurnPrefix (h : preparation.hasOnlyTurnPrefix = true) :
    (compact env preparation customInstructions).calls =
      [.turnPrefix preparation.turnPrefixMessages] := by
  simp only [CompactionPreparation.hasOnlyTurnPrefix, Bool.and_eq_true, decide_eq_true_eq] at h
  simp [compact, h.1.1, h.1.2, h.2]

lemma passesOn_iff (hprev : preparation.previousSummary = some summary) (hne : summary ≠ "") :
    PassesOn env preparation customInstructions summary ↔
      preparation.hasOnlyTurnPrefix = false := by
  constructor
  · rintro ⟨call, hmem, ⟨messages, rfl⟩, -⟩
    by_contra h
    rw [calls_of_hasOnlyTurnPrefix (Bool.not_eq_false _ ▸ h)] at hmem
    simp at hmem
  · intro h
    obtain ⟨hmem, hres⟩ := @compact_history env preparation customInstructions h
    rw [hprev] at hmem hres
    refine ⟨_, hmem, ⟨_, rfl⟩, occurs_promptText _ _ _ _ hne, fun result hok => ?_⟩
    obtain ⟨slice, hrun, hoccurs⟩ := hres result hok
    rwa [SummaryCall.run_eq_ok hrun] at hoccurs

/-- **When an earlier summary is passed on.**  The summary of the last compaction on a path is shown
to a request whose answer becomes part of the next summary, exactly if the preparation does not
consist of the prefix of a split turn alone. -/
theorem compact_passesOn_iff {path : List SessionEntry} {settings : CompactionSettings}
    {preparation : CompactionPreparation} {i : ℕ} {c : CompactionFields}
    (hprep : prepareCompaction path settings = some preparation)
    (hlast : lastCompaction path path.length = some (i, c)) (hne : c.summary ≠ "")
    (env : SummaryEnv) (customInstructions : Option String) :
    PassesOn env preparation customInstructions c.summary ↔
      preparation.hasOnlyTurnPrefix = false := by
  refine passesOn_iff ?_ hne
  rw [(prepareCompaction_cases hprep).2.2.2.1, hlast, Option.map_some]

/-! ### Two compactions -/

/-- A path with a compaction that kept the entries from the given one on. -/
def recompactedPath (firstKeptEntryId : String) : List SessionEntry :=
  [plainEntry "a" none (userBody "one"), plainEntry "b" (some "a") (assistantBody "two"),
    plainEntry "c" (some "b") (userBody "three"),
    plainEntry "d" (some "c") (compactionBody firstKeptEntryId),
    plainEntry "e" (some "d") (assistantBody "four"),
    plainEntry "f" (some "e") (assistantBody "five")]

def recompaction (firstKeptEntryId : String) : Option CompactionPreparation :=
  prepareCompaction (recompactedPath firstKeptEntryId) ⟨true, 100, 0⟩

/-- A model that answers nothing. -/
def silentEnv : SummaryEnv where
  completeSimple _ := { content := [], stopReason := .stop, usage := plainUsage }
  conversationText _ := ""

/-- With an entry left in front of the turn, the earlier summary is passed on. -/
theorem compact_passesOn_recompacted :
    PassesOn silentEnv ((recompaction "b").get (by decide)) none "so far" :=
  (compact_passesOn_iff (Option.some_get _).symm
    (by decide : lastCompaction (recompactedPath "b") 6 =
      some (3, { summary := "so far", firstKeptEntryId := "b", tokensBefore := 0 }))
    (by decide) silentEnv none).mpr (by decide)

/-- **An earlier summary that goes nowhere.**  The first compaction kept from the beginning of a
turn on, and the second cuts inside that turn. -/
theorem recompacted_not_passesOn : ∃ preparation, recompaction "c" = some preparation ∧
      preparation.previousSummary = some "so far" ∧
      ∀ env customInstructions, ¬ PassesOn env preparation customInstructions "so far" := by
  refine ⟨(recompaction "c").get (by decide), (Option.some_get _).symm, by decide, ?_⟩
  intro env customInstructions h
  exact absurd ((passesOn_iff (by decide) (by decide)).mp h) (by decide)

end Amide
