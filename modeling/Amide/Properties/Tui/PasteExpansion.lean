import Amide.Construction.Tui.Editor
import Amide.Framework.Machine

/-!
# Submitted text contains what was pasted

The text of an editor falls into the markers that pastes have inserted and other units
(`textItems`), and what is submitted should have the content of each of these pastes in place of its
marker (`expected`).

The editor knows the pastes whose markers are in its text (`PastesKnown`), as long as no yank
brings back the marker of one that a submit or an undo has made it forget (`YanksKnown`).  It
expands the markers one paste after the other, and finds them by how they look, so the text is as
expected as long as nothing else looks like the marker it is about to expand: neither what was
typed, nor what has been expanded before (`Unmistakable`).
-/

namespace Amide

open List

open Editor (handle markerUnits pasteMarker)

/-! ## Items of a text -/

/-- A unit, or a whole marker as a paste has inserted it. -/
inductive TextItem where
  | unit (code : UInt16)
  | marker (paste : PasteRecord)

/-- The paste whose marker the text begins with. -/
def markerAt (record : List PasteRecord) (text : EditorText) : Option PasteRecord :=
  match text.head?.bind TextUnit.origin with
  | some (serial, 0) =>
    match record[serial]? with
    | some paste =>
      if (markerUnits serial paste.marker).isPrefixOf text then some paste else none
    | none => none
  | _ => none

/-- The first `skip` units belong to a marker that has been found. -/
def textItems (record : List PasteRecord) : ℕ → EditorText → List TextItem
  | _, [] => []
  | skip + 1, _ :: text => textItems record skip text
  | 0, u :: text =>
    match markerAt record (u :: text) with
    | some paste => .marker paste :: textItems record (paste.marker.length - 1) text
    | none => .unit u.code :: textItems record 0 text

/-- The text of an item, when the markers of the pastes `done` have been expanded. -/
def TextItem.text (done : List ℕ) : TextItem → CodeUnits
  | unit code => [code]
  | marker paste => if paste.id ∈ done then paste.content else paste.marker

def expandedUpTo (done : List ℕ) (items : List TextItem) : CodeUnits :=
  items.flatMap (TextItem.text done)

/-- Each marker is replaced by the content of its paste. -/
def expected (items : List TextItem) : CodeUnits :=
  items.flatMap fun
    | .unit code => [code]
    | .marker paste => paste.content

def TextItem.isMarkerOf (id : ℕ) : TextItem → Bool
  | unit _ => false
  | marker paste => paste.id = id

/-- Only what a paste of that id has inserted looks like a marker of `id`, when the markers of the
pastes `done` have been expanded. -/
def OnlyMarkers (id : ℕ) (done : List ℕ) : List TextItem → Prop
  | [] => True
  | item :: items =>
    (∀ i < (item.text done).length,
      (afterMarker id ((item.text done ++ expandedUpTo done items).drop i)).isSome →
        i = 0 ∧ item.isMarkerOf id = true) ∧ OnlyMarkers id done items

/-- The same for each of the pastes, in the order in which they are expanded. -/
def Unmistakable (items : List TextItem) : List ℕ → List (ℕ × CodeUnits) → Prop
  | _, [] => True
  | done, (id, _) :: pastes =>
    OnlyMarkers id done items ∧ Unmistakable items (done ++ [id]) pastes

instance decidableOnlyMarkers (id : ℕ) (done : List ℕ) :
    (items : List TextItem) → Decidable (OnlyMarkers id done items)
  | [] => inferInstanceAs (Decidable True)
  | _ :: items =>
    have := decidableOnlyMarkers id done items
    inferInstanceAs (Decidable (_ ∧ _))

instance decidableUnmistakable (items : List TextItem) :
    (done : List ℕ) → (pastes : List (ℕ × CodeUnits)) → Decidable (Unmistakable items done pastes)
  | _, [] => inferInstanceAs (Decidable True)
  | done, (id, _) :: pastes =>
    have := decidableUnmistakable items (done ++ [id]) pastes
    inferInstanceAs (Decidable (_ ∧ _))

/-! ## Expansion -/

section Expansion

variable {id : ℕ} {content s t : CodeUnits} {done : List ℕ} {items : List TextItem}
  {paste : PasteRecord}

lemma replaceMarkers_skip (id : ℕ) (content s : CodeUnits) (skip : ℕ) :
    replaceMarkers id content skip s = replaceMarkers id content 0 (s.drop skip) := by
  induction s generalizing skip with
  | nil =>
    cases skip <;> rfl
  | cons c s ih =>
    cases skip with
    | zero => rfl
    | succ skip =>
      rw [replaceMarkers, ih, drop_succ_cons]

/-- Text in which no marker begins is left as it is. -/
lemma replaceMarkers_append_of_none
    (h : ∀ i < s.length, afterMarker id ((s ++ t).drop i) = none) :
    replaceMarkers id content 0 (s ++ t) = s ++ replaceMarkers id content 0 t := by
  induction s with
  | nil => rfl
  | cons c s ih =>
    have hfirst : afterMarker id (c :: (s ++ t)) = none := h 0 (Nat.succ_pos _)
    rw [cons_append, replaceMarkers, hfirst]
    rw [ih fun i hi => h (i + 1) (Nat.succ_lt_succ hi), cons_append]

/-- A marker is replaced. -/
lemma replaceMarkers_append_of_marker (hs : s ≠ []) (h : afterMarker id (s ++ t) = some t) :
    replaceMarkers id content 0 (s ++ t) = content ++ replaceMarkers id content 0 t := by
  obtain ⟨c, s, rfl⟩ := exists_cons_of_ne_nil hs
  rw [cons_append] at h ⊢
  rw [replaceMarkers, h]
  dsimp only
  rw [replaceMarkers_skip, length_append, Nat.add_sub_cancel_right, drop_left]

/-- The marker of a paste looks like one. -/
structure IsMarker (paste : PasteRecord) : Prop where
  ne_nil : paste.marker ≠ []
  after : ∀ t, afterMarker paste.id (paste.marker ++ t) = some t

lemma expandedUpTo_cons (done : List ℕ) (item : TextItem) (items : List TextItem) :
    expandedUpTo done (item :: items) = item.text done ++ expandedUpTo done items :=
  flatMap_cons

/-- Expanding the markers of one more paste. -/
lemma replaceMarkers_expandedUpTo (hid : id ∉ done) (honly : OnlyMarkers id done items)
    (hitems : ∀ paste, .marker paste ∈ items → IsMarker paste ∧
      (paste.id = id → paste.content = content)) :
    replaceMarkers id content 0 (expandedUpTo done items) = expandedUpTo (done ++ [id]) items := by
  induction items with
  | nil => rfl
  | cons item items ih =>
    obtain ⟨hitem, hrest⟩ := honly
    have hexpanded := ih hrest fun paste hmem => hitems paste (mem_cons_of_mem _ hmem)
    rw [expandedUpTo_cons, expandedUpTo_cons, ← hexpanded]
    by_cases hmarker : ∃ paste, item = .marker paste ∧ paste.id = id
    · obtain ⟨paste, rfl, rfl⟩ := hmarker
      obtain ⟨hlooks, hcont⟩ := hitems paste mem_cons_self
      rw [TextItem.text, if_neg hid, TextItem.text, if_pos (mem_append_right _
        (mem_singleton_self _)), hcont rfl]
      exact replaceMarkers_append_of_marker hlooks.ne_nil (hlooks.after _)
    · have hnone : ∀ i < (item.text done).length,
          afterMarker id ((item.text done ++ expandedUpTo done items).drop i) = none := by
        intro i hi
        by_contra hsome
        obtain ⟨-, hof⟩ := hitem i hi (Option.isSome_iff_ne_none.2 hsome)
        cases item with
        | unit code => cases hof
        | marker paste => exact hmarker ⟨paste, rfl, of_decide_eq_true hof⟩
      rw [replaceMarkers_append_of_none hnone]
      cases item with
      | unit code => rfl
      | marker paste =>
        have hne : paste.id ≠ id := fun heq => hmarker ⟨paste, rfl, heq⟩
        rw [TextItem.text, TextItem.text]
        simp [hne]

lemma expandedUpTo_eq_expected (h : ∀ paste, .marker paste ∈ items → paste.id ∈ done) :
    expandedUpTo done items = expected items := by
  refine flatMap_congr fun item hitem => ?_
  cases item with
  | unit code => rfl
  | marker paste => exact if_pos (h paste hitem)

/-- Expanding the markers of the pastes one after the other gives the text that is expected. -/
theorem expand_eq_expected {pastes : List (ℕ × CodeUnits)}
    (hnodup : (done ++ pastes.map Prod.fst).Nodup) (hunmistakable : Unmistakable items done pastes)
    (hitems : ∀ paste, .marker paste ∈ items → IsMarker paste ∧
      (paste.id ∈ done ∨ (paste.id, paste.content) ∈ pastes)) :
    pastes.foldl (fun result paste => replaceMarkers paste.1 paste.2 0 result)
      (expandedUpTo done items) = expected items := by
  induction pastes generalizing done with
  | nil =>
    refine expandedUpTo_eq_expected fun paste hmem => ?_
    exact (hitems paste hmem).2.resolve_right not_mem_nil
  | cons first pastes ih =>
    obtain ⟨id, content⟩ := first
    obtain ⟨honly, hrest⟩ := hunmistakable
    have hnodup' : (done ++ [id] ++ pastes.map Prod.fst).Nodup := by
      rwa [← append_cons]
    have hid : id ∉ done := by
      intro hmem
      have hdisj := disjoint_of_nodup_append hnodup
      exact hdisj hmem mem_cons_self
    have hlater : id ∉ pastes.map Prod.fst := by
      intro hmem
      have hdisj := disjoint_of_nodup_append hnodup'
      exact hdisj (mem_append_right _ (mem_singleton_self _)) hmem
    rw [foldl_cons, replaceMarkers_expandedUpTo hid honly]
    · refine ih hnodup' hrest fun paste hmem => ?_
      obtain ⟨hlooks, hdone | hmem⟩ := hitems paste hmem
      · exact ⟨hlooks, .inl (mem_append_left _ hdone)⟩
      · rcases mem_cons.1 hmem with heq | hmem
        · obtain ⟨rfl, -⟩ := Prod.ext_iff.1 heq
          exact ⟨hlooks, .inl (mem_append_right _ (mem_singleton_self _))⟩
        · exact ⟨hlooks, .inr hmem⟩
    · intro paste hmem
      obtain ⟨hlooks, hknown⟩ := hitems paste hmem
      refine ⟨hlooks, ?_⟩
      rintro rfl
      rcases mem_cons.1 (hknown.resolve_left hid) with heq | hmem
      · exact (Prod.ext_iff.1 heq).2
      · exact absurd (mem_map_of_mem hmem) hlater

end Expansion

/-! ## Markers of pastes -/

section Markers

variable {n : ℕ} {s t : CodeUnits}

lemma isPrefixOf?_append (s t : CodeUnits) : s.isPrefixOf? (s ++ t) = some t := by
  induction s with
  | nil => rfl
  | cons c s ih => simp [isPrefixOf?, ih]

lemma afterCount_decimalUnits {unit : String} (h : (asciiUnits unit).head? = some 32) :
    afterCount unit (decimalUnits n ++ (asciiUnits unit ++ t)) = some t := by
  obtain ⟨rest, hunit⟩ := head?_eq_some_iff.1 h
  have hdigits : ∀ c ∈ decimalUnits n, StdinBuffer.isDigit c = true :=
    fun c hc => isDigit_of_mem_decimalUnits hc
  have hstop : StdinBuffer.isDigit 32 = false := rfl
  have htake : (decimalUnits n ++ (asciiUnits unit ++ t)).takeWhile StdinBuffer.isDigit =
      decimalUnits n := by
    rw [takeWhile_append_of_pos hdigits, hunit, cons_append,
      takeWhile_cons_of_neg (by simp [hstop]), append_nil]
  have hdrop : (decimalUnits n ++ (asciiUnits unit ++ t)).dropWhile StdinBuffer.isDigit =
      asciiUnits unit ++ t := by
    rw [dropWhile_append_of_pos hdigits, hunit, cons_append,
      dropWhile_cons_of_neg (by simp [hstop])]
  rw [afterCount, htake, hdrop, if_neg (decimalUnits_ne_nil n), isPrefixOf?_append]

lemma isMarker_pasteMarker (id pastedLines totalChars : ℕ) (content : CodeUnits) :
    IsMarker ⟨id, pasteMarker id pastedLines totalChars, content⟩ := by
  refine ⟨?_, fun t => ?_⟩
  · rw [pasteMarker]
    simp [decimalUnits_ne_nil]
  · change afterMarker id (pasteMarker id pastedLines totalChars ++ t) = some t
    rw [afterMarker, pasteMarker, append_assoc, isPrefixOf?_append]
    split_ifs
    · have hplus : asciiUnits " +" = [32, 43] := rfl
      rw [hplus, append_assoc, append_assoc]
      exact afterCount_decimalUnits rfl
    · have hspace : asciiUnits " " = [32] := rfl
      rw [hspace, append_assoc, append_assoc]
      have hcount := afterCount_decimalUnits (n := totalChars) (t := t)
        (show (asciiUnits " chars]").head? = some 32 from rfl)
      obtain ⟨c, rest, hdecimal⟩ := exists_cons_of_ne_nil (decimalUnits_ne_nil totalChars)
      have hc : c ≠ 43 := by
        rintro rfl
        have hdigit := isDigit_of_mem_decimalUnits (n := totalChars)
          (hdecimal ▸ mem_cons_self)
        cases hdigit
      split
      · simp_all
      · simp_all
      · simp_all
      · simp_all

end Markers

/-! ## What the editor knows -/

/-- The editor has the paste with whose marker the unit was inserted. -/
def Known (record : List PasteRecord) (pastes : JsMap ℕ CodeUnits) (u : TextUnit) : Prop :=
  ∀ serial place, u.origin = some (serial, place) →
    ∃ paste, record[serial]? = some paste ∧ pastes.get? paste.id = some paste.content

variable {record : List PasteRecord} {pastes : JsMap ℕ CodeUnits} {u : TextUnit}

lemma known_iff :
    Known record pastes u ↔ ∀ origin ∈ u.origin, ∃ paste ∈ record[origin.1]?,
      pastes.get? paste.id = some paste.content :=
  ⟨fun h origin horigin => h origin.1 origin.2 horigin,
    fun h serial place horigin => h (serial, place) horigin⟩

instance (record : List PasteRecord) (pastes : JsMap ℕ CodeUnits) (u : TextUnit) :
    Decidable (Known record pastes u) :=
  decidable_of_iff _ known_iff.symm

def AllUnits (P : TextUnit → Prop) (lines : List EditorText) : Prop :=
  ∀ line ∈ lines, ∀ u ∈ line, P u

variable {text : EditorText}

section Units

variable {P Q : TextUnit → Prop} {lines lines' : List EditorText} {line : EditorText} {n : ℕ}

lemma AllUnits.mono (h : AllUnits P lines) (hPQ : ∀ u, P u → Q u) : AllUnits Q lines :=
  fun line hline u hu => hPQ u (h line hline u hu)

lemma AllUnits.sublist (h : AllUnits P lines) (hsub : lines' ⊆ lines) : AllUnits P lines' :=
  fun line hline => h line (hsub hline)

lemma allUnits_append : AllUnits P (lines ++ lines') ↔ AllUnits P lines ∧ AllUnits P lines' := by
  simp only [AllUnits, mem_append, or_imp, forall_and]

lemma allUnits_singleton : AllUnits P [line] ↔ ∀ u ∈ line, P u := by
  simp [AllUnits]

section
variable (h : AllUnits P lines)
include h

lemma AllUnits.set (hline : ∀ u ∈ line, P u) : AllUnits P (lines.set n line) := by
  intro line' hline'
  rcases mem_or_eq_of_mem_set hline' with hmem | rfl
  · exact h line' hmem
  · exact hline

lemma AllUnits.getD : ∀ u ∈ (lines[n]?).getD [], P u := by
  rcases hline : lines[n]? with _ | line
  · exact fun u hu => nomatch hu
  · exact h line (mem_of_getElem? hline)

lemma AllUnits.splice {start deleteCount : ℕ} (hline : ∀ u ∈ line, P u) :
    AllUnits P (Editor.splice lines start deleteCount line) := by
  rw [Editor.splice, allUnits_append, allUnits_append, allUnits_singleton]
  exact ⟨⟨h.sublist (take_subset _ _), hline⟩, h.sublist (drop_subset _ _)⟩

lemma AllUnits.join (k l m : ℕ) :
    AllUnits P ((lines.set n ((lines[k]?).getD [] ++ (lines[l]?).getD [])).eraseIdx m) := by
  refine AllUnits.sublist (h.set ?_) (eraseIdx_subset)
  intro u hu
  rcases mem_append.1 hu with hu | hu
  · exact h.getD u hu
  · exact h.getD u hu

lemma AllUnits.getLastD : ∀ u ∈ lines.getLastD [], P u := by
  rcases lines.eq_nil_or_concat with rfl | ⟨front, last, rfl⟩
  · exact fun u hu => nomatch hu
  · rw [concat_eq_append, getLastD_concat]
    exact h last (by simp)

end

lemma AllUnits.foldl_splice {inserted : List (EditorText × ℕ)} (start : ℕ) (h : AllUnits P lines)
    (hinserted : ∀ p ∈ inserted, ∀ u ∈ p.1, P u) :
    AllUnits P (inserted.foldl (fun lines p => Editor.splice lines (start + p.2) 0 p.1) lines) := by
  induction inserted generalizing lines with
  | nil => exact h
  | cons p inserted ih =>
    refine ih (h.splice (hinserted p mem_cons_self)) ?_
    exact fun p' hp' => hinserted p' (mem_cons_of_mem p hp')

lemma allUnits_splitTextLines (h : ∀ u ∈ text, P u) : AllUnits P (splitTextLines text) := by
  rw [splitTextLines]
  induction text with
  | nil =>
    rw [splitOnP_nil, allUnits_singleton]
    exact fun u hu => nomatch hu
  | cons u text ih =>
    have hrest := ih fun u' hu' => h u' (mem_cons_of_mem u hu')
    rw [splitOnP_cons_eq_if_modifyHead]
    split_ifs
    · intro line hline
      rcases mem_cons.1 hline with rfl | hline
      · exact fun u hu => nomatch hu
      · exact hrest line hline
    · rcases hsplit : text.splitOnP fun u => decide (u.code = newlineCode) with _ | ⟨first, others⟩
      · exact absurd hsplit (splitOnP_ne_nil _ _)
      · rw [hsplit] at hrest ⊢
        intro line hline
        rcases mem_cons.1 hline with rfl | hline
        · intro u' hu'
          rcases mem_cons.1 hu' with rfl | hu'
          · exact h u' mem_cons_self
          · exact hrest first mem_cons_self u' hu'
        · exact hrest line (mem_cons_of_mem first hline)

end Units

lemma known_plainText {s : CodeUnits} : ∀ u ∈ plainText s, Known record pastes u := by
  intro u hu serial place horigin
  obtain ⟨code, -, rfl⟩ := List.mem_map.1 hu
  cases horigin

/-- The editor knows the pastes whose markers are in its text, and so does each snapshot. -/
structure PastesKnown (e : Editor) : Prop where
  lines : AllUnits (Known e.record e.pastes) e.lines
  counter : ∀ id content, e.pastes.get? id = some content → id ≤ e.pasteCounter
  undoStack : ∀ snapshot ∈ e.undoStack, AllUnits (Known e.record snapshot.pastes) snapshot.lines ∧
    ∀ id content, snapshot.pastes.get? id = some content → id ≤ snapshot.pasteCounter
  markers : ∀ paste ∈ e.record, IsMarker paste

section Operations

variable {e : Editor}

lemma PastesKnown.pushUndoSnapshot (h : PastesKnown e) : PastesKnown e.pushUndoSnapshot := by
  refine ⟨h.lines, h.counter, ?_, h.markers⟩
  intro snapshot hmem
  rcases mem_cons.1 hmem with rfl | hmem
  · exact ⟨h.lines, h.counter⟩
  · exact h.undoStack snapshot hmem

/-- An operation that changes the text alone. -/
lemma PastesKnown.of_lines {e' : Editor} (h : PastesKnown e)
    (hlines : AllUnits (Known e.record e.pastes) e'.lines)
    (hpastes : e'.pastes = e.pastes ∧ e'.pasteCounter = e.pasteCounter ∧
      e'.undoStack = e.undoStack ∧
      e'.record = e.record) : PastesKnown e' := by
  obtain ⟨hpastes, hcounter, hundo, hrec⟩ := hpastes
  refine ⟨?_, ?_, ?_, ?_⟩
  · rwa [hrec, hpastes]
  · rw [hpastes, hcounter]
    exact h.counter
  · rw [hundo, hrec]
    exact h.undoStack
  · rw [hrec]
    exact h.markers

lemma PastesKnown.before (h : PastesKnown e) (col : ℕ) :
    ∀ u ∈ e.currentLine.take col, Known e.record e.pastes u :=
  fun u hu => h.lines.getD u (mem_of_mem_take hu)

lemma PastesKnown.after (h : PastesKnown e) (col : ℕ) :
    ∀ u ∈ e.currentLine.drop col, Known e.record e.pastes u :=
  fun u hu => h.lines.getD u (mem_of_mem_drop hu)

lemma forall_mem_append {P : TextUnit → Prop} {text' : EditorText} (h : ∀ u ∈ text, P u)
    (h' : ∀ u ∈ text', P u) : ∀ u ∈ text ++ text', P u := by
  intro u hu
  rcases mem_append.1 hu with hu | hu
  · exact h u hu
  · exact h' u hu

lemma PastesKnown.insertTextAtCursorInternal (h : PastesKnown e)
    (htext : ∀ u ∈ text, Known e.record e.pastes u) :
    PastesKnown (e.insertTextAtCursorInternal text) := by
  have hone := h.lines.set (n := e.cursorLine) (forall_mem_append
    (forall_mem_append (h.before e.cursorCol) htext) (h.after e.cursorCol))
  have hsplit := allUnits_splitTextLines htext
  rw [Editor.insertTextAtCursorInternal]
  split_ifs
  · exact h
  split
  · exact h.of_lines hone ⟨rfl, rfl, rfl, rfl⟩
  · exact h.of_lines hone ⟨rfl, rfl, rfl, rfl⟩
  · rename_i first second others hlines
    rw [hlines] at hsplit
    have hothers := hsplit.sublist (subset_cons_self first (second :: others))
    refine h.of_lines ?_ ⟨rfl, rfl, rfl, rfl⟩
    simp only [allUnits_append, allUnits_singleton]
    refine ⟨⟨⟨⟨?_, ?_⟩, ?_⟩, ?_⟩, ?_⟩
    · exact h.lines.sublist (take_subset _ _)
    · exact forall_mem_append (h.before _) (hsplit first mem_cons_self)
    · exact hothers.sublist (dropLast_subset _)
    · exact forall_mem_append hothers.getLastD (h.after _)
    · exact h.lines.sublist (drop_subset _ _)

lemma PastesKnown.insertYankedText (h : PastesKnown e)
    (htext : ∀ u ∈ text, Known e.record e.pastes u) : PastesKnown (e.insertYankedText text) := by
  have hone := h.lines.set (n := e.cursorLine) (forall_mem_append
    (forall_mem_append (h.before e.cursorCol) htext) (h.after e.cursorCol))
  have hsplit := allUnits_splitTextLines htext
  rw [Editor.insertYankedText]
  split
  · exact h.of_lines hone ⟨rfl, rfl, rfl, rfl⟩
  · exact h.of_lines hone ⟨rfl, rfl, rfl, rfl⟩
  · rename_i first second others hlines
    rw [hlines] at hsplit
    have hothers := hsplit.sublist (subset_cons_self first (second :: others))
    refine h.of_lines (AllUnits.splice (AllUnits.foldl_splice _ (h.lines.set ?_) ?_) ?_)
      ⟨rfl, rfl, rfl, rfl⟩
    · exact forall_mem_append (h.before _) (hsplit first mem_cons_self)
    · intro p hp
      exact hothers p.1 (dropLast_subset _ (fst_mem_of_mem_zipIdx hp))
    · exact forall_mem_append hothers.getLastD (h.after _)

lemma PastesKnown.cut (h : PastesKnown e) (deleteFrom deleteTo : ℕ) :
    PastesKnown (e.cut deleteFrom deleteTo) :=
  h.of_lines (h.lines.set (forall_mem_append (h.before _) (h.after _))) ⟨rfl, rfl, rfl, rfl⟩

section
variable (h : PastesKnown e)
include h

lemma PastesKnown.joinPrevious : PastesKnown e.joinPrevious :=
  h.of_lines (h.lines.join _ _ _) ⟨rfl, rfl, rfl, rfl⟩

lemma PastesKnown.joinNext : PastesKnown e.joinNext :=
  h.of_lines (h.lines.join _ _ _) ⟨rfl, rfl, rfl, rfl⟩

lemma PastesKnown.kill (text : EditorText) (prepend : Bool) : PastesKnown (e.kill text prepend) :=
  h.of_lines h.lines ⟨rfl, rfl, rfl, rfl⟩

lemma PastesKnown.deleteYankedText : PastesKnown e.deleteYankedText := by
  rw [Editor.deleteYankedText]
  split
  · exact h
  · exact h
  · dsimp only
    split_ifs
    · exact h.cut _ _
    · refine h.of_lines (h.lines.splice (forall_mem_append ?_ (h.after _))) ⟨rfl, rfl, rfl, rfl⟩
      exact fun u hu => h.lines.getD u (mem_of_mem_take hu)

lemma PastesKnown.setTextInternal (text : CodeUnits) : PastesKnown (e.setTextInternal text) :=
  h.of_lines (allUnits_splitTextLines known_plainText) ⟨rfl, rfl, rfl, rfl⟩

end

/-! ### What each operation keeps -/

section
variable (h : PastesKnown e)
include h

lemma PastesKnown.insertTextAtCursor (text : CodeUnits) :
    PastesKnown (e.insertTextAtCursor text) := by
  rw [Editor.insertTextAtCursor]
  split_ifs
  · exact h
  · refine PastesKnown.insertTextAtCursorInternal ?_ known_plainText
    exact h.pushUndoSnapshot.of_lines h.lines ⟨rfl, rfl, rfl, rfl⟩

/-- A change of what is neither text nor pastes. -/
lemma PastesKnown.same {e' : Editor}
    (hsame : e'.lines = e.lines ∧ e'.pastes = e.pastes ∧ e'.pasteCounter = e.pasteCounter ∧
      e'.undoStack = e.undoStack ∧ e'.record = e.record) :
    PastesKnown e' :=
  h.of_lines (hsame.1 ▸ h.lines) hsame.2

lemma PastesKnown.insertCharacter (char : CodeUnits) : PastesKnown (e.insertCharacter char) := by
  have hset : ∀ e' : Editor, PastesKnown e' → PastesKnown { e'.setLine
      (e'.currentLine.take e'.cursorCol ++ plainText char ++ e'.currentLine.drop e'.cursorCol) with
        cursorCol := e'.cursorCol + char.length
        lastAction := some .typeWord
        historyIndex := none } := by
    intro e' h'
    exact h'.of_lines (h'.lines.set (forall_mem_append (forall_mem_append (h'.before _)
      known_plainText) (h'.after _))) ⟨rfl, rfl, rfl, rfl⟩
  rw [Editor.insertCharacter]
  split_ifs
  · exact hset _ h.pushUndoSnapshot
  · exact hset _ h

lemma PastesKnown.addNewLine : PastesKnown e.addNewLine := by
  refine h.pushUndoSnapshot.of_lines ?_ ⟨rfl, rfl, rfl, rfl⟩
  rw [Editor.addNewLine]
  rw [allUnits_append, allUnits_append]
  refine ⟨⟨h.lines.sublist (take_subset _ _), ?_⟩, h.lines.sublist (drop_subset _ _)⟩
  intro line hline
  rcases mem_cons.1 hline with rfl | hline
  · exact h.before _
  · obtain rfl := mem_singleton.1 hline
    exact h.after _

/-- The editor before an operation that begins with a snapshot. -/
lemma PastesKnown.prepared (historyIndex : Option ℕ) (lastAction : Option EditorAction) :
    PastesKnown { e with
      historyIndex
      lastAction }.pushUndoSnapshot :=
  PastesKnown.pushUndoSnapshot (h.same ⟨rfl, rfl, rfl, rfl, rfl⟩)

end

lemma Known.mono {more : List PasteRecord} {pastes' : JsMap ℕ CodeUnits}
    (h : Known record pastes u)
    (hpastes : ∀ id content, pastes.get? id = some content → pastes'.get? id = some content) :
    Known (record ++ more) pastes' u := by
  intro serial place horigin
  obtain ⟨paste, hpaste, hcont⟩ := h serial place horigin
  obtain ⟨hlt, -⟩ := List.getElem?_eq_some_iff.1 hpaste
  exact ⟨paste, (getElem?_append_left hlt).trans hpaste, hpastes _ _ hcont⟩

lemma known_markerUnits (paste : PasteRecord) (hpaste : pastes.get? paste.id = some paste.content) :
    ∀ u ∈ markerUnits record.length paste.marker, Known (record ++ [paste]) pastes u := by
  intro u hu serial place horigin
  obtain ⟨p, -, rfl⟩ := List.mem_map.1 hu
  obtain ⟨rfl, -⟩ := Prod.ext_iff.1 (Option.some.inj horigin)
  exact ⟨paste, getElem?_concat_length, hpaste⟩

section
variable (h : PastesKnown e)
include h

/-- The editor has a new paste, whose marker is not in the text yet. -/
lemma PastesKnown.addPaste {paste : PasteRecord} (hmarker : IsMarker paste)
    (hid : paste.id = e.pasteCounter + 1) :
    PastesKnown { e with
      pasteCounter := paste.id
      pastes := e.pastes.set paste.id paste.content
      record := e.record ++ [paste] } := by
  have hnew : ∀ id content, e.pastes.get? id = some content →
      (e.pastes.set paste.id paste.content).get? id = some content := by
    intro id content hget
    have hle := h.counter id content hget
    rw [JsMap.get?_set, if_neg (by omega), hget]
  refine ⟨?_, ?_, ?_, ?_⟩
  · exact h.lines.mono fun u hu => hu.mono hnew
  · intro id content hget
    dsimp only at hget ⊢
    rw [JsMap.get?_set] at hget
    split_ifs at hget with heq
    · exact heq ▸ le_rfl
    · have hle := h.counter id content hget
      omega
  · intro snapshot hmem
    obtain ⟨hlines, hcounter⟩ := h.undoStack snapshot hmem
    exact ⟨hlines.mono fun u hu => hu.mono fun _ _ hget => hget, hcounter⟩
  · intro paste' hmem
    rcases mem_append.1 hmem with hmem | hmem
    · exact h.markers paste' hmem
    · exact mem_singleton.1 hmem ▸ hmarker

/-- A paste that is kept is known, and those that were are. -/
lemma PastesKnown.handlePaste (pasted : CodeUnits) : PastesKnown (e.handlePaste pasted) := by
  have hprep := h.prepared none none
  rw [Editor.handlePaste]
  split_ifs
  · refine PastesKnown.insertTextAtCursorInternal
      (hprep.addPaste (isMarker_pasteMarker _ _ _ _) rfl) ?_
    exact known_markerUnits ⟨_, _, _⟩ (JsMap.get?_set_self _ _ _)
  · exact hprep.insertTextAtCursorInternal known_plainText

lemma PastesKnown.submitValue : PastesKnown e.submitValue.1 := by
  refine ⟨?_, ?_, ?_, h.markers⟩
  · exact allUnits_singleton.2 fun u hu => nomatch hu
  · exact fun id content hid => nomatch hid
  · exact fun snapshot hmem => nomatch hmem

lemma PastesKnown.setText (text : CodeUnits) : PastesKnown (e.setText text) := by
  rw [Editor.setText]
  split_ifs
  · exact (h.prepared none none).setTextInternal _
  · refine PastesKnown.setTextInternal ?_ _
    exact h.same ⟨rfl, rfl, rfl, rfl, rfl⟩

lemma PastesKnown.navigateHistory (up : Bool) : PastesKnown (e.navigateHistory up) := by
  have hsame : PastesKnown { e with lastAction := none } := h.same ⟨rfl, rfl, rfl, rfl, rfl⟩
  unfold Editor.navigateHistory
  dsimp only
  split
  · exact hsame
  · refine PastesKnown.setTextInternal ?_ _
    exact hsame.same ⟨rfl, rfl, rfl, rfl, rfl⟩
  · split
    · exact hsame
    · refine PastesKnown.setTextInternal ?_ _
      split_ifs
      · exact hsame.pushUndoSnapshot.same ⟨rfl, rfl, rfl, rfl, rfl⟩
      · exact hsame.same ⟨rfl, rfl, rfl, rfl, rfl⟩

lemma PastesKnown.addToHistory (text : CodeUnits) : PastesKnown (e.addToHistory text) := by
  rw [Editor.addToHistory]
  split_ifs
  · exact h
  · exact h.same ⟨rfl, rfl, rfl, rfl, rfl⟩

lemma PastesKnown.handleBackspace (graphemeLength : ℕ) :
    PastesKnown (e.handleBackspace graphemeLength) := by
  rw [Editor.handleBackspace]
  split_ifs
  · exact (h.prepared none none).cut _ _
  · exact (h.prepared none none).joinPrevious
  · exact h.same ⟨rfl, rfl, rfl, rfl, rfl⟩

lemma PastesKnown.handleForwardDelete (graphemeLength : ℕ) :
    PastesKnown (e.handleForwardDelete graphemeLength) := by
  rw [Editor.handleForwardDelete]
  split_ifs
  · exact (h.prepared none none).cut _ _
  · exact (h.prepared none none).joinNext
  · exact h.same ⟨rfl, rfl, rfl, rfl, rfl⟩

lemma PastesKnown.deleteToStartOfLine : PastesKnown e.deleteToStartOfLine := by
  have hprep := h.prepared none e.lastAction
  rw [Editor.deleteToStartOfLine]
  split_ifs
  · exact (hprep.kill _ _).cut _ _
  · exact (hprep.kill _ _).joinPrevious
  · exact h.same ⟨rfl, rfl, rfl, rfl, rfl⟩

lemma PastesKnown.deleteToEndOfLine : PastesKnown e.deleteToEndOfLine := by
  have hprep := h.prepared none e.lastAction
  rw [Editor.deleteToEndOfLine]
  split_ifs
  · exact (hprep.kill _ _).cut _ _
  · exact (hprep.kill _ _).joinNext
  · exact h.same ⟨rfl, rfl, rfl, rfl, rfl⟩

lemma PastesKnown.deleteWordBackwards (deleteFrom : ℕ) :
    PastesKnown (e.deleteWordBackwards deleteFrom) := by
  have hprep := h.prepared none e.lastAction
  rw [Editor.deleteWordBackwards]
  split_ifs
  · exact (hprep.kill _ _).joinPrevious
  · exact h.same ⟨rfl, rfl, rfl, rfl, rfl⟩
  · exact (hprep.kill _ _).cut _ _

lemma PastesKnown.deleteWordForward (deleteTo : ℕ) :
    PastesKnown (e.deleteWordForward deleteTo) := by
  have hprep := h.prepared none e.lastAction
  rw [Editor.deleteWordForward]
  split_ifs
  · exact (hprep.kill _ _).joinNext
  · exact h.same ⟨rfl, rfl, rfl, rfl, rfl⟩
  · exact (hprep.kill _ _).cut _ _

lemma PastesKnown.undo : PastesKnown e.undo := by
  rw [Editor.undo]
  split
  · exact h.same ⟨rfl, rfl, rfl, rfl, rfl⟩
  · rename_i snapshot undoStack hstack
    have hundo := h.undoStack
    rw [hstack] at hundo
    obtain ⟨hlines, hcounter⟩ := hundo snapshot mem_cons_self
    exact ⟨hlines, hcounter, fun s hs => hundo s (mem_cons_of_mem _ hs), h.markers⟩

end

/-- The text that a yank would insert. -/
def Editor.yankedText (e : Editor) : EditorInput → EditorText
  | .yank => (e.killRing.getLast?).getD []
  | .yankPop => ((Editor.rotated e.killRing).getLast?).getD []
  | _ => []

/-- No yank brings back the marker of a paste that the editor has forgotten. -/
def YanksKnown (e : Editor) (input : EditorInput) : Prop :=
  ∀ u ∈ e.yankedText input, Known e.record e.pastes u

instance (e : Editor) (input : EditorInput) : Decidable (YanksKnown e input) :=
  inferInstanceAs (Decidable (∀ u ∈ e.yankedText input, Known e.record e.pastes u))

lemma PastesKnown.yank (h : PastesKnown e) (hyank : YanksKnown e .yank) : PastesKnown e.yank := by
  rw [Editor.yank]
  split
  · exact h
  · rename_i text htext
    have hknown : ∀ u ∈ text, Known e.record e.pastes u := by
      intro u hu
      refine hyank u ?_
      rwa [Editor.yankedText, htext]
    exact (h.pushUndoSnapshot.insertYankedText hknown).same ⟨rfl, rfl, rfl, rfl, rfl⟩

lemma deleteYankedText_same (e : Editor) : e.deleteYankedText.killRing = e.killRing ∧
    e.deleteYankedText.pastes = e.pastes ∧ e.deleteYankedText.record = e.record := by
  rw [Editor.deleteYankedText]
  split
  · exact ⟨rfl, rfl, rfl⟩
  · exact ⟨rfl, rfl, rfl⟩
  · dsimp only
    split_ifs
    · exact ⟨rfl, rfl, rfl⟩
    · exact ⟨rfl, rfl, rfl⟩

lemma PastesKnown.yankPop (h : PastesKnown e) (hyank : YanksKnown e .yankPop) :
    PastesKnown e.yankPop := by
  rw [Editor.yankPop]
  split_ifs
  · exact h
  · obtain ⟨hring, hpastes, hrec⟩ := deleteYankedText_same e.pushUndoSnapshot
    have hdel := h.pushUndoSnapshot.deleteYankedText
    have hrotated : PastesKnown { e.pushUndoSnapshot.deleteYankedText with
        killRing := Editor.rotated e.killRing } := hdel.same ⟨rfl, rfl, rfl, rfl, rfl⟩
    have hyanked := hrotated.insertYankedText fun u (hu : u ∈ e.yankedText .yankPop) =>
      show Known e.pushUndoSnapshot.deleteYankedText.record
        e.pushUndoSnapshot.deleteYankedText.pastes u from hpastes ▸ hrec ▸ hyank u hu
    dsimp only
    rw [hring]
    exact hyanked.same ⟨rfl, rfl, rfl, rfl, rfl⟩

lemma PastesKnown.handle (h : PastesKnown e) {input : EditorInput} (hyank : YanksKnown e input) :
    PastesKnown (e.handle input) := by
  cases input with
  | insertCharacter char => exact h.insertCharacter char
  | addNewLine => exact h.addNewLine
  | insertTextAtCursor text => exact h.insertTextAtCursor text
  | handlePaste pasted => exact h.handlePaste pasted
  | setText text => exact h.setText text
  | addToHistory text => exact h.addToHistory text
  | navigateHistory up => exact h.navigateHistory up
  | handleBackspace graphemeLength => exact h.handleBackspace graphemeLength
  | handleForwardDelete graphemeLength => exact h.handleForwardDelete graphemeLength
  | deleteToStartOfLine => exact h.deleteToStartOfLine
  | deleteToEndOfLine => exact h.deleteToEndOfLine
  | deleteWordBackwards deleteFrom => exact h.deleteWordBackwards deleteFrom
  | deleteWordForward deleteTo => exact h.deleteWordForward deleteTo
  | yank => exact h.yank hyank
  | yankPop => exact h.yankPop hyank
  | undo => exact h.undo
  | moveCursor cursorLine cursorCol => exact h.same ⟨rfl, rfl, rfl, rfl, rfl⟩
  | submitValue => exact h.submitValue

end Operations

/-! ## The items of the text -/

section Items

variable {record : List PasteRecord} {text : EditorText} {paste : PasteRecord} {skip : ℕ}

lemma codes_markerUnits (serial : ℕ) (marker : CodeUnits) :
    codes (markerUnits serial marker) = marker := by
  rw [codes, markerUnits, map_map]
  exact marker.zipIdx_map_fst 0

/-- A marker that a text begins with is one of the record, and stands there. -/
lemma of_markerAt (h : markerAt record text = some paste) : ∃ (serial : ℕ) (u : TextUnit)
    (rest : EditorText), text.head? = some u ∧ u.origin = some (serial, 0) ∧
      record[serial]? = some paste ∧ text = markerUnits serial paste.marker ++ rest := by
  rw [markerAt] at h
  split at h
  · rename_i serial hhead
    obtain ⟨u, hu, horigin⟩ := Option.bind_eq_some_iff.1 hhead
    split at h
    · rename_i found hfound
      split_ifs at h with hbegins
      cases h
      obtain ⟨rest, hrest⟩ := isPrefixOf_iff_prefix.1 hbegins
      exact ⟨serial, u, rest, hu, horigin, hfound, hrest.symm⟩
    · cases h
  · cases h

/-- The markers among the items are those of pastes that the editor knows. -/
lemma known_of_mem_textItems (htext : ∀ u ∈ text, Known record pastes u)
    (hmem : .marker paste ∈ textItems record skip text) :
    paste ∈ record ∧ pastes.get? paste.id = some paste.content := by
  induction text generalizing skip with
  | nil => cases skip <;> cases hmem
  | cons u text ih =>
    have htext' : ∀ u' ∈ text, Known record pastes u' :=
      fun u' hu' => htext u' (mem_cons_of_mem u hu')
    cases skip with
    | succ skip => exact ih htext' hmem
    | zero =>
      rw [textItems] at hmem
      split at hmem
      · rename_i found hfound
        rcases mem_cons.1 hmem with heq | hmem
        · obtain rfl := TextItem.marker.inj heq
          obtain ⟨serial, u', rest, hu', horigin, hpaste, -⟩ := of_markerAt hfound
          cases hu'
          obtain ⟨known, hknown, hcont⟩ := htext u mem_cons_self serial 0 horigin
          obtain rfl := Option.mem_unique hpaste hknown
          exact ⟨mem_of_getElem? hpaste, hcont⟩
        · exact ih htext' hmem
      · rcases mem_cons.1 hmem with heq | hmem
        · cases heq
        · exact ih htext' hmem

lemma codes_append (a b : List TextUnit) : codes (a ++ b) = codes a ++ codes b :=
  map_append

/-- The items make up the text. -/
lemma expandedUpTo_textItems (hmarkers : ∀ paste ∈ record, IsMarker paste) :
    expandedUpTo [] (textItems record skip text) = codes (text.drop skip) := by
  induction text generalizing skip with
  | nil =>
    cases skip <;> rfl
  | cons u text ih =>
    cases skip with
    | succ skip => exact ih
    | zero =>
      rw [textItems]
      split
      · rename_i paste hpaste
        obtain ⟨serial, u', rest, -, -, hrec, htext⟩ := of_markerAt hpaste
        obtain ⟨c, marker, hmarker⟩ := exists_cons_of_ne_nil
          (hmarkers paste (mem_of_getElem? hrec)).ne_nil
        have hlen : paste.marker.length = marker.length + 1 := by
          rw [hmarker, length_cons]
        have hunits : (markerUnits serial paste.marker).length = paste.marker.length := by
          rw [markerUnits, length_map, length_zipIdx]
        have hdrop : text.drop (paste.marker.length - 1) = rest := by
          have hdrop' : (u :: text).drop paste.marker.length = rest := by
            rw [htext, ← hunits, drop_left]
          rwa [hlen] at hdrop' ⊢
        rw [expandedUpTo_cons, ih, hdrop, drop_zero, htext, codes_append, codes_markerUnits,
          TextItem.text, if_neg not_mem_nil]
      · rw [expandedUpTo_cons, ih]
        rfl

end Items

/-! ## Runs -/

def Editor.items (e : Editor) : List TextItem :=
  textItems e.record 0 e.text

def editing : Machine Editor EditorInput where
  step e input e' := e' = e.handle input

section Runs

variable {e : Editor}

lemma mem_or_eq_of_mem_intersperse {α : Type} {sep x : α} :
    ∀ {l : List α}, x ∈ l.intersperse sep → x ∈ l ∨ x = sep
  | [], h => nomatch h
  | [_], h => .inl h
  | a :: b :: l, h => by
    rcases mem_cons.1 h with rfl | h
    · exact .inl mem_cons_self
    rcases mem_cons.1 h with rfl | h
    · exact .inr rfl
    · exact (mem_or_eq_of_mem_intersperse h).imp_left (mem_cons_of_mem _)

lemma PastesKnown.known_text (h : PastesKnown e) : ∀ u ∈ e.text, Known e.record e.pastes u := by
  intro u hu
  obtain ⟨line, hline, hu⟩ := mem_flatten.1 hu
  rcases mem_or_eq_of_mem_intersperse hline with hline | rfl
  · exact h.lines line hline u hu
  · obtain rfl := mem_singleton.1 hu
    intro serial place horigin
    cases horigin

lemma PastesKnown.getExpandedText (h : PastesKnown e)
    (hunmistakable : Unmistakable e.items [] e.pastes.entries) :
    e.getExpandedText = expected e.items := by
  rw [Editor.getExpandedText, Editor.expandPasteMarkers]
  have hcodes : codes e.text = expandedUpTo [] e.items := by
    rw [Editor.items, expandedUpTo_textItems h.markers]
    rfl
  rw [hcodes]
  refine expand_eq_expected ?_ hunmistakable fun paste hmem => ?_
  · exact e.pastes.nodup
  · obtain ⟨hrec, hcont⟩ := known_of_mem_textItems h.known_text hmem
    exact ⟨h.markers paste hrec, .inr (JsMap.mem_entries_iff.2 hcont)⟩

lemma pastesKnown_new (history : List CodeUnits) : PastesKnown { history } := by
  refine ⟨?_, ?_, ?_, ?_⟩
  · exact allUnits_singleton.2 fun u hu => nomatch hu
  · exact fun id content hid => nomatch hid
  · exact fun snapshot hmem => nomatch hmem
  · exact fun paste hmem => nomatch hmem

/-- **The text of an editor expands to what was pasted**, after any operations in which no yank
brings back the marker of a paste that has been forgotten, as long as nothing in it looks like the
marker of a paste but those that pastes have inserted. -/
theorem pasted_text_submitted {history : List CodeUnits} {inputs : List EditorInput}
    (hrun : (editing.guard YanksKnown).Run { history } inputs e)
    (hunmistakable : Unmistakable e.items [] e.pastes.entries) :
    e.getExpandedText = expected e.items ∧ e.submitValue.2 = trimUnits (expected e.items) := by
  have h : PastesKnown e := by
    refine hrun.invariant (pastesKnown_new history) ?_
    rintro e₁ input _ h₁ ⟨rfl, hyank⟩
    exact h₁.handle hyank
  have hexpanded := h.getExpandedText hunmistakable
  exact ⟨hexpanded, congrArg trimUnits hexpanded⟩

/-- A paste of more than ten lines. -/
def tall (s : String) : EditorInput :=
  .handlePaste (asciiUnits s ++ List.replicate 10 newlineCode)

lemma editing_run (inputs : List EditorInput) : editing.Run {} inputs (inputs.foldl handle {}) :=
  .of_foldl (fun _ _ => rfl) _ _

lemma editing_guard_run {inputs : List EditorInput}
    (hinputs : ∀ input ∈ inputs, ∀ e : Editor, e.yankedText input = []) :
    (editing.guard YanksKnown).Run {} inputs (inputs.foldl handle {}) := by
  refine (editing_run inputs).guard_of_forall fun input hinput e u hu => ?_
  rw [hinputs input hinput e] at hu
  exact nomatch hu

/-- What was pasted first looks like the marker of what is pasted next, and is replaced; and the
marker that was killed before a submit comes back as that of a paste made after it. -/
theorem pasted_text_submitted_mistaken : (∃ inputs e, (editing.guard YanksKnown).Run {} inputs e ∧
      e.getExpandedText ≠ expected e.items) ∧
    ∃ inputs e, editing.Run {} inputs e ∧ Unmistakable e.items [] e.pastes.entries ∧
      e.getExpandedText ≠ expected e.items := by
  refine ⟨⟨[tall "[paste #2]", tall "x"], _, editing_guard_run ?_, ?_⟩,
    [tall "old", .deleteToStartOfLine, .submitValue, tall "new", .yank], _, editing_run _, ?_, ?_⟩
  · intro input hinput e
    rcases mem_pair.1 hinput with rfl | rfl <;> rfl
  all_goals decide +kernel

/-- A marker that has been moved, and copied. -/
theorem pasted_text_submitted_copied : ∃ inputs e, (editing.guard YanksKnown).Run {} inputs e ∧
      e.getExpandedText = expected e.items ∧
      expected e.items = asciiUnits "ax" ++ List.replicate 10 newlineCode ++
        (asciiUnits "ax" ++ List.replicate 10 newlineCode) := by
  let inputs := [.insertCharacter (asciiUnits "a"), tall "x", .deleteToStartOfLine]
  let killed := inputs.foldl handle {}
  have hrun : (editing.guard YanksKnown).Run {} inputs killed := by
    refine editing_guard_run fun input hinput e => ?_
    simp only [inputs, mem_cons, not_mem_nil, or_false] at hinput
    rcases hinput with rfl | rfl | rfl <;> rfl
  have hknown : YanksKnown killed .yank := by decide +kernel
  have hknown' : YanksKnown killed.yank .yank := by decide +kernel
  have hrun := (hrun.snoc ⟨rfl, hknown⟩).snoc ⟨rfl, hknown'⟩
  exact ⟨_, _, hrun, (pasted_text_submitted hrun (by decide +kernel)).1, by decide +kernel⟩

end Runs

end Amide
