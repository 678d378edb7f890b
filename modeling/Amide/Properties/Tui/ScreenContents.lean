import Amide.Construction.Tui.Tui
import Amide.Framework.Machine

/-!
# The screen shows the newest frame

Seen as a window on the lines of a frame (`Terminal.Window`), the screen of a terminal moves on when
more lines are drawn than it has rows.  Each way to draw a frame leaves the window where the `TUI`
believes it to be (`Drawn`), whatever was there before when all is cleared, and starting from the
lines before when only some are written.

There are two exceptions (`StaysInStep`).  When lines at the end have been deleted, and no line is
left, the first row is not erased; and a cursor marker that is above the window takes the `TUI`'s
cursor there, but not the terminal's.
-/

namespace Amide

open TUI List

open Terminal (Window erasedNext writeLines eraseNext run_append run_cons run_nil)
open Terminal (col_run height_run)
open TUI (changedLines moveRows renderedLines)

/-! ## The lines of a frame -/

variable {start : ℕ}

section Lines

variable {Cell : Type} {shown : CodeUnits → List Cell} {lines newLines : List CodeUnits} {i row : ℕ}

/-- What the screen should show. -/
def canvas (shown : CodeUnits → List Cell) (lines : List CodeUnits) (i : ℕ) : List Cell :=
  match lines[i]? with
  | some line => shown line
  | none => []

lemma canvas_congr {lines' : List CodeUnits} (h : lines[i]? = lines'[i]?) :
    canvas shown lines i = canvas shown lines' i := by
  rw [canvas, canvas, h]

lemma canvas_of_le (h : lines.length ≤ i) : canvas shown lines i = [] := by
  rw [canvas, getElem?_eq_none h]

/-- Some of the lines are written over a canvas. -/
lemma written_slice (shown : CodeUnits → List Cell) (lines : List CodeUnits) (base : ℕ → List Cell)
    (count : ℕ) (hi : start ≤ i) :
    Terminal.written shown base start ((lines.drop start).take count) i =
      if i < start + count ∧ i < lines.length then canvas shown lines i else base i := by
  rw [Terminal.written, if_neg (Nat.not_lt.2 hi), canvas, getElem?_take, getElem?_drop,
    Nat.add_sub_cancel' hi]
  by_cases hcount : i < start + count
  · rw [if_pos (by omega)]
    by_cases hlen : i < lines.length
    · rw [if_pos ⟨hcount, hlen⟩, getElem?_eq_getElem hlen]
    · rw [if_neg (fun h => hlen h.2), getElem?_eq_none (Nat.not_lt.1 hlen)]
  · rw [if_neg (by omega), if_neg (fun h => hcount h.1)]

lemma written_drop (base : ℕ → List Cell) (hi : start ≤ i) :
    Terminal.written shown base start (lines.drop start) i =
      if i < lines.length then canvas shown lines i else base i := by
  have hslice := written_slice shown lines base lines.length hi
  rw [take_of_length_le (by rw [length_drop]; omega)] at hslice
  rw [hslice]
  by_cases hlen : i < lines.length
  · rw [if_pos ⟨by omega, hlen⟩, if_pos hlen]
  · rw [if_neg (fun h => hlen h.2), if_neg hlen]

end Lines

/-! ## Which lines have changed -/

section Changes

variable {previousLines newLines : List CodeUnits}

/-- A line ends in a reset, so it is not what an absent one is compared with. -/
def Drawable (lines : List CodeUnits) : Prop :=
  ∀ line ∈ lines, line ≠ []

lemma drawable_applyLineResets (lines : List CodeUnits) : Drawable (applyLineResets lines) := by
  intro line hline
  obtain ⟨text, -, rfl⟩ := List.mem_map.1 hline
  simp [SEGMENT_RESET]

lemma getD_eq_iff {lines lines' : List CodeUnits} (h : Drawable lines) (h' : Drawable lines')
    (i : ℕ) : (lines[i]?).getD [] = (lines'[i]?).getD [] ↔ lines[i]? = lines'[i]? := by
  constructor
  · intro heq
    rcases hline : lines[i]? with _ | line
    · rcases hline' : lines'[i]? with _ | line'
      · rfl
      · rw [hline, hline'] at heq
        exact absurd heq.symm (h' line' (mem_of_getElem? hline'))
    · rcases hline' : lines'[i]? with _ | line'
      · rw [hline, hline'] at heq
        exact absurd heq (h line (mem_of_getElem? hline))
      · rw [hline, hline'] at heq
        exact congrArg some heq
  · intro heq
    rw [heq]

/-- What is known of the first and the last line that differ. -/
structure Differ (previousLines newLines : List CodeUnits) (firstChanged lastChanged : ℕ) :
    Prop where
  before : ∀ i < firstChanged, previousLines[i]? = newLines[i]?
  after : ∀ i > lastChanged, previousLines[i]? = newLines[i]?
  le : firstChanged ≤ lastChanged
  first_le : firstChanged ≤ previousLines.length
  last : lastChanged + 1 ≤ max previousLines.length newLines.length
  last_eq : previousLines.length ≠ newLines.length →
    lastChanged + 1 = max previousLines.length newLines.length

/-- The places where the lines differ. -/
lemma mem_changed (hprev : Drawable previousLines) (hnew : Drawable newLines) {i : ℕ} :
    i ∈ (List.range (max newLines.length previousLines.length)).filter (fun i =>
        (previousLines[i]?).getD [] ≠ (newLines[i]?).getD []) ↔
      previousLines[i]? ≠ newLines[i]? := by
  rw [mem_filter, mem_range, decide_eq_true_eq, Ne, getD_eq_iff hprev hnew]
  refine and_iff_right_of_imp fun hne => ?_
  by_contra hlt
  refine hne ?_
  rw [getElem?_eq_none (by omega), getElem?_eq_none (by omega)]

lemma ne_of_length_lt {a b : List CodeUnits} {i : ℕ} (ha : a.length ≤ i) (hb : i < b.length) :
    a[i]? ≠ b[i]? := by
  rw [getElem?_eq_none ha, getElem?_eq_getElem hb]
  exact nofun

lemma changedLines_spec (hprev : Drawable previousLines) (hnew : Drawable newLines) :
    match changedLines previousLines newLines with
    | none => previousLines = newLines
    | some (firstChanged, lastChanged) =>
      Differ previousLines newLines firstChanged lastChanged := by
  have hmem := @mem_changed previousLines newLines hprev hnew
  have hsorted : ((List.range (max newLines.length previousLines.length)).filter fun i =>
      decide ((previousLines[i]?).getD [] ≠ (newLines[i]?).getD [])).Pairwise (· < ·) :=
    pairwise_lt_range.filter _
  rw [changedLines]
  generalize (List.range (max newLines.length previousLines.length)).filter (fun i =>
    decide ((previousLines[i]?).getD [] ≠ (newLines[i]?).getD [])) = changed at hmem hsorted ⊢
  have hfirst : ∀ f, changed.head? = some f → previousLines[f]? ≠ newLines[f]? ∧
      ∀ i < f, previousLines[i]? = newLines[i]? := by
    intro f hf
    obtain ⟨rest, rfl⟩ := head?_eq_some_iff.1 hf
    refine ⟨hmem.1 mem_cons_self, fun i hi => not_not.1 fun hne => ?_⟩
    rcases mem_cons.1 (hmem.2 hne) with rfl | hrest
    · exact lt_irrefl i hi
    · exact lt_asymm hi (rel_of_pairwise_cons hsorted hrest)
  have hlast : ∀ l, changed.getLast? = some l → previousLines[l]? ≠ newLines[l]? ∧
      ∀ i > l, previousLines[i]? = newLines[i]? := by
    intro l hl
    obtain ⟨rest, rfl⟩ := getLast?_eq_some_iff.1 hl
    refine ⟨hmem.1 (mem_append_right _ (mem_singleton_self l)),
      fun i hi => not_not.1 fun hne => ?_⟩
    rcases mem_append.1 (hmem.2 hne) with hrest | hl
    · exact lt_asymm hi
        ((pairwise_append.1 hsorted).2.2 i hrest l (mem_singleton_self l))
    · exact lt_irrefl _ (mem_singleton.1 hl ▸ hi)
  split_ifs with happended
  · obtain ⟨f, hf⟩ : ∃ f, changed.head? = some f := by
      refine Option.ne_none_iff_exists'.1 fun hnone => ?_
      have hin := hmem.2 (ne_of_length_lt (Nat.le_refl previousLines.length) happended)
      rw [head?_eq_none_iff.1 hnone] at hin
      exact nomatch hin
    obtain ⟨-, hbefore⟩ := hfirst f hf
    have hle : f ≤ previousLines.length := by
      by_contra hlt
      exact ne_of_length_lt (Nat.le_refl _) happended (hbefore _ (Nat.lt_of_not_le hlt))
    rw [hf, Option.getD_some]
    refine ⟨hbefore, fun i hi => ?_, by omega, hle, by omega, by omega⟩
    rw [getElem?_eq_none (by omega), getElem?_eq_none (by omega)]
  · rcases hhead : changed.head? with _ | f
    · rw [head?_eq_none_iff] at hhead
      subst hhead
      refine ext_getElem? fun i => not_not.1 fun hne => ?_
      exact nomatch hmem.2 hne
    · obtain ⟨l, hl⟩ : ∃ l, changed.getLast? = some l := by
        obtain ⟨rest, rfl⟩ := head?_eq_some_iff.1 hhead
        exact ⟨_, getLast?_eq_some_getLast (cons_ne_nil f rest)⟩
      rw [hl]
      obtain ⟨hfne, hbefore⟩ := hfirst f hhead
      obtain ⟨hlne, hafter⟩ := hlast l hl
      have hin : ∀ i, previousLines[i]? ≠ newLines[i]? → i < previousLines.length := by
        intro i hne
        by_contra hlt
        refine hne ?_
        rw [getElem?_eq_none (by omega), getElem?_eq_none (by omega)]
      have hfl : f ≤ l := by
        by_contra hlt
        exact hlne (hbefore l (Nat.lt_of_not_le hlt))
      have hl' := hin l hlne
      refine ⟨hbefore, hafter, hfl, (hin f hfne).le, by omega, fun hne => ?_⟩
      by_contra hlt
      exact ne_of_length_lt (i := previousLines.length - 1) (by omega) (by omega)
        (hafter _ (by omega)).symm

end Changes

/-! ## What is drawn -/

variable {newLines : List CodeUnits}

section Drawing

variable {Cell : Type} [Inhabited Cell] {shown : CodeUnits → List Cell} {e : TUI}
  {t : Terminal Cell} {frame : TuiFrame} {lines newLines : List CodeUnits}
  {cursorPos : Option (ℕ × ℕ)} {top row n : ℕ} {base : ℕ → List Cell}

/-- The screen shows the lines where the `TUI` believes it to, with the cursor among them. -/
structure Drawn (shown : CodeUnits → List Cell) (e : TUI) (t : Terminal Cell)
    (lines : List CodeUnits) : Prop where
  window : Window t e.previousViewportTop e.hardwareCursorRow (canvas shown lines)
  top : e.previousViewportTop ≤ lines.length - 1
  bottom : lines.length ≤ e.previousViewportTop + t.height
  cursor : e.hardwareCursorRow ≤ lines.length - 1
  col : lines = [] → t.col = 0

lemma moveRows_window (h : Window t top row base) (shown : CodeUnits → List Cell) {target : ℕ}
    (htop : top ≤ target) (hbottom : target < top + t.height) :
    Window (t.run shown (moveRows (target - row))) top target base := by
  rw [moveRows]
  split_ifs with hdown hup
  · have hmoved := h.down shown (target - row : ℤ).toNat
    have hmin : min (row + (target - row : ℤ).toNat) (top + t.height - 1) = target := by omega
    rwa [hmin] at hmoved
  · have hmoved := h.up shown (-(target - row : ℤ)).toNat
    have hmax : max top (row - (-(target - row : ℤ)).toNat) = target := by omega
    rwa [hmax] at hmoved
  · have heq : row = target := by omega
    rwa [← heq]

lemma moveRows_firstColumn (h : Window t top row base) (shown : CodeUnits → List Cell)
    {target : ℕ} (htop : top ≤ target) (hbottom : target < top + t.height) :
    Window (t.run shown (moveRows (target - row) ++ [.carriageReturn])) top target base := by
  rw [run_append]
  exact (moveRows_window h shown htop hbottom).carriageReturn shown

variable {ops : List (TerminalOp CodeUnits)}

/-- The cursor is positioned, at a marker that is not above the window. -/
lemma Drawn.andPosition (h : Drawn shown e (t.run shown ops) lines)
    (hcursor : ∀ p ∈ cursorPos, e.previousViewportTop ≤ p.1) :
    Drawn shown (e.andPosition ops cursorPos lines.length).1
      (t.run shown (e.andPosition ops cursorPos lines.length).2) lines := by
  unfold TUI.andPosition positionHardwareCursor
  dsimp only
  rcases cursorPos with _ | ⟨row, col⟩
  · rw [append_nil]
    exact h
  · split_ifs with hlen
    · rw [append_nil]
      exact h
    · have htop : e.previousViewportTop ≤ row := hcursor (row, col) rfl
      have htop' := h.top
      have hbottom := h.bottom
      have hmoved := moveRows_window h.window shown
        (show e.previousViewportTop ≤ min row (lines.length - 1) by omega) (by omega)
      rw [run_append, run_append]
      refine ⟨hmoved.column shown, htop', ?_, Nat.min_le_right _ _, fun hnil => ?_⟩
      · rwa [height_run, height_run]
      · rw [hnil] at hlen
        exact (hlen rfl).elim

/-! ## Full renders -/

/-- The bottom lines are written on an empty canvas. -/
lemma drawn_writeLines (shown : CodeUnits → List Cell) (newLines : List CodeUnits)
    (hwindow : Window t start start fun _ => []) (hcol : t.col = 0)
    (hstart : start = 0 ∨ start = newLines.length - t.height) :
    Window (t.run shown (writeLines false (newLines.drop start))) (newLines.length - t.height)
      (newLines.length - 1) (canvas shown newLines) := by
  have hinside := hwindow.inside
  rcases hlines : newLines.drop start with _ | ⟨line, rest⟩
  · have hlen := drop_eq_nil_iff.1 hlines
    have hnil : newLines.length = 0 := by omega
    have hzero : start = 0 := by omega
    subst hzero
    rw [hnil, Nat.zero_sub, Nat.zero_sub]
    exact hwindow.congr fun i _ => canvas_of_le (by omega)
  · have hwritten := hwindow.writeLines shown false hcol (fun _ _ _ => rfl) line rest
    have hlen : rest.length + 1 = newLines.length - start := by
      rw [← length_drop, hlines, length_cons]
    have htop : max start (start + rest.length + 1 - t.height) = newLines.length - t.height := by
      omega
    have hrow : start + rest.length = newLines.length - 1 := by omega
    rw [htop, hrow, ← hlines] at hwritten
    rw [← hlines]
    refine hwritten.congr fun i hi => ?_
    have hi' : start ≤ i := by omega
    rw [written_drop _ hi']
    split_ifs with hlt
    · rfl
    · exact canvas_of_le (Nat.not_lt.1 hlt)

/-- What a frame leaves behind, however it is drawn. -/
structure Remembers (e : TUI) (frame : TuiFrame) (lines : List CodeUnits) : Prop where
  previousLines : e.previousLines = lines
  previousWidth : e.previousWidth = frame.width
  previousHeight : e.previousHeight = frame.height

lemma remembers_andPosition (h : Remembers e frame lines) :
    Remembers (e.andPosition ops cursorPos n).1 frame lines := by
  unfold TUI.andPosition positionHardwareCursor
  split
  · exact h
  · split_ifs
    · exact h
    · exact ⟨h.previousLines, h.previousWidth, h.previousHeight⟩

/-- A full render, where nothing has been drawn or all is erased. -/
lemma drawn_fullRender {clear preserveViewport : Bool}
    (hpreserve : ¬ (preserveViewport = true ∧ e.previousLines.length > 0))
    (hheight : t.height = frame.height)
    (hblank : clear = false → t.col = 0 ∧ Window t 0 0 fun _ => [])
    (hcursor : ∀ p ∈ cursorPos, newLines.length - frame.height ≤ p.1) :
    Drawn shown (e.fullRender frame newLines cursorPos clear preserveViewport).1
        (t.run shown (e.fullRender frame newLines cursorPos clear preserveViewport).2) newLines ∧
      Remembers (e.fullRender frame newLines cursorPos clear preserveViewport).1 frame
        newLines := by
  have hpos := frame.height_pos
  have htop : max frame.height newLines.length - frame.height =
      newLines.length - frame.height := by omega
  rw [TUI.fullRender, if_neg hpreserve]
  refine ⟨Drawn.andPosition ?_ (htop ▸ hcursor), remembers_andPosition ⟨rfl, rfl, rfl⟩⟩
  have hwindow : Window (t.run shown ((if clear then [.eraseScreen, .home] else []) ++
      writeLines false (newLines.drop
        (if clear ∧ e.previousLines.length > 0 then newLines.length - frame.height else 0))))
      (newLines.length - frame.height) (newLines.length - 1) (canvas shown newLines) := by
    rw [run_append, ← hheight]
    cases clear with
    | false =>
      obtain ⟨hcol, hwindow⟩ := hblank rfl
      exact drawn_writeLines shown newLines hwindow hcol (.inl rfl)
    | true =>
      have herased := Window.erased (t := t) shown (by omega)
        (if true ∧ e.previousLines.length > 0 then newLines.length - t.height else 0)
      have hwritten := drawn_writeLines shown newLines herased rfl ?_
      · rwa [height_run] at hwritten
      · split_ifs
        · exact .inr rfl
        · exact .inl rfl
  refine ⟨htop ▸ hwindow, ?_, ?_, le_rfl, ?_⟩
  · change max frame.height newLines.length - frame.height ≤ newLines.length - 1
    omega
  · change newLines.length ≤ max frame.height newLines.length - frame.height +
      (Terminal.run shown t _).height
    rw [height_run]
    omega
  · rintro rfl
    rw [drop_nil, run_append]
    cases clear with
    | false => exact (hblank rfl).1
    | true => rfl

/-- The rows after the last line of a frame are erased, and the cursor goes back. -/
lemma erase_leftover {rows bottom : ℕ} (h : Window t top row base)
    (shown : CodeUnits → List Cell) (hrow : row = top + rows) (hbottom : bottom ≤ t.height) :
    Window (t.run shown (eraseNext [.carriageReturn, .lineFeed] (bottom - (rows + 1)) ++
        if bottom - (rows + 1) > 0 then [.up (bottom - (rows + 1))] else [])) top row
      (erasedNext base row (bottom - (rows + 1))) := by
  have hlt := h.lt_bottom
  have herased := h.eraseNext shown (fun h hrow => h.newLine shown hrow)
    (show row + (bottom - (rows + 1)) < top + t.height by omega)
  rw [run_append]
  split_ifs with hleft
  · have hup := herased.up shown (bottom - (rows + 1))
    have hmax : max top (row + (bottom - (rows + 1)) - (bottom - (rows + 1))) = row := by omega
    rwa [hmax] at hup
  · have hzero : bottom - (rows + 1) = 0 := by omega
    rw [hzero] at herased ⊢
    exact herased

/-- The cursor goes to the first row of the screen, whose rows get other numbers. -/
lemma to_firstRow (h : Window t top row base) (shown : CodeUnits → List Cell) (screenRow start : ℕ)
    (hrow : screenRow = row - top) :
    Window (t.run shown ((if screenRow > 0 then [.up screenRow] else []) ++ [.carriageReturn]))
      start start fun i => base (top + (i - start)) := by
  have htop := h.top_le
  have hup : Window (t.run shown (if screenRow > 0 then [.up screenRow] else [])) top top base := by
    split_ifs with hpos
    · have hmoved := h.up shown screenRow
      have hmax : max top (row - screenRow) = top := by omega
      rwa [hmax] at hmoved
    · have heq : row = top := by omega
      rwa [heq] at h
  rw [run_append]
  have hfirst := (hup.carriageReturn shown).renumber start
  rwa [Nat.sub_self, Nat.add_zero] at hfirst

/-- The visible lines are written; if there are none, the first row is erased. -/
lemma write_visible (h : Window t start start base) (hcol : t.col = 0)
    (hstart : start = newLines.length - t.height) (shown : CodeUnits → List Cell) :
    ∃ base', Window (t.run shown ((if newLines.length - start = 0 then [.eraseLine] else []) ++
        writeLines true (newLines.drop start))) start
        (start + (max (newLines.length - start) 1 - 1))
        base' ∧
      ∀ i, start ≤ i → base' i = if i < max newLines.length 1 then canvas shown newLines i
        else base i := by
  have hinside := h.inside
  rcases hlines : newLines.drop start with _ | ⟨line, rest⟩
  · have hlen := drop_eq_nil_iff.1 hlines
    have hnil : newLines.length = 0 := by omega
    have hzero : start = 0 := by omega
    subst hzero
    rw [if_pos (by omega), hnil]
    refine ⟨_, h.eraseLine shown, fun i _ => ?_⟩
    split_ifs with hi
    · obtain rfl : i = 0 := by omega
      rw [Function.update_self, canvas_of_le (by omega)]
    · rw [Function.update_of_ne (by omega)]
  · have hlen : rest.length + 1 = newLines.length - start := by
      rw [← length_drop, hlines, length_cons]
    rw [if_neg (by omega)]
    have hwritten := h.writeLines shown true hcol (fun hfalse => nomatch hfalse) line rest
    have htop : max start (start + rest.length + 1 - t.height) = start := by omega
    have hrow : start + rest.length = start + (max (newLines.length - start) 1 - 1) := by omega
    rw [htop, hrow, ← hlines] at hwritten
    rw [← hlines]
    refine ⟨_, hwritten, fun i hi => ?_⟩
    have hmax : max newLines.length 1 = newLines.length := by omega
    rw [written_drop _ hi, hmax]

lemma keepsFirstColumn_newLine {op : TerminalOp CodeUnits}
    (h : op ∈ eraseNext [.carriageReturn, .lineFeed] n) :
    Terminal.keepsFirstColumn op = true := by
  rcases Terminal.mem_eraseNext h with hmove | rfl
  · rcases mem_pair.1 hmove with rfl | rfl
    · rfl
    · rfl
  · rfl

/-- The visible lines are written over those before, and the rows below are erased. -/
theorem drawn_repaintViewport (h : Drawn shown e t e.previousLines)
    (hlines : e.previousLines.length > 0) (hheight : t.height = frame.height)
    (htop : e.prevViewportTop frame = e.previousViewportTop)
    (hcursor : ∀ p ∈ cursorPos, newLines.length - frame.height ≤ p.1) :
    Drawn shown (e.repaintViewport frame newLines cursorPos).1
        (t.run shown (e.repaintViewport frame newLines cursorPos).2) newLines ∧
      Remembers (e.repaintViewport frame newLines cursorPos).1 frame newLines := by
  have hrow := h.window.top_le
  have hcursor' := h.cursor
  have hbottom := h.bottom
  rw [repaintViewport, htop]
  refine ⟨Drawn.andPosition ⟨?_, ?_, ?_, le_rfl, ?_⟩ hcursor, remembers_andPosition ⟨rfl, rfl, rfl⟩⟩
  · have hfirst := to_firstRow h.window shown
      (min (min frame.height e.previousLines.length - 1)
        (e.hardwareCursorRow - e.previousViewportTop)) (newLines.length - frame.height) (by omega)
    obtain ⟨base, hvis, hbase⟩ := write_visible hfirst
      (by rw [run_append]; rfl) (by rw [height_run, hheight]) shown
    have herased := erase_leftover hvis shown rfl
      (show min frame.height e.previousLines.length ≤ _ by
        rw [height_run, height_run]; omega)
    have hcount : max (newLines.length - (newLines.length - frame.height)) 1 - 1 + 1 =
      max (newLines.length - (newLines.length - frame.height)) 1 := by omega
    have hlast : newLines.length - frame.height +
        (max (newLines.length - (newLines.length - frame.height)) 1 - 1) =
      newLines.length - 1 := by omega
    rw [hcount, hlast] at herased
    have hops : ∀ {visible rows : ℕ}, (if visible < rows then
        eraseNext [.carriageReturn, .lineFeed] (rows - max visible 1) ++
          (if rows - max visible 1 > 0 then [.up (rows - max visible 1)] else [])
        else ([] : List (TerminalOp CodeUnits))) =
        eraseNext [.carriageReturn, .lineFeed] (rows - max visible 1) ++
          if rows - max visible 1 > 0 then [.up (rows - max visible 1)] else [] := by
      intro visible rows
      split_ifs with hlt
      · rfl
      · rfl
      · omega
      · rw [show rows - max visible 1 = 0 by omega]
        rfl
    rw [hops]
    simp only [run_append] at herased ⊢
    refine herased.congr fun i hi => ?_
    rw [erasedNext, hbase i hi]
    split_ifs with hleft hvis
    · exact canvas_of_le (by omega)
    · rfl
    · rw [canvas_of_le (by omega)]
      exact (canvas_of_le (by omega)).symm
  · change newLines.length - frame.height ≤ newLines.length - 1
    omega
  · rw [height_run, hheight]
    exact Nat.le_add_of_sub_le (Nat.le_refl _)
  · rintro rfl
    rw [drop_nil, run_append, run_append, run_append]
    refine col_run (fun op hop => ?_) (col_run (fun op hop => absurd hop not_mem_nil)
      (col_run (fun op hop => ?_) ?_))
    · split_ifs at hop
      · rcases mem_append.1 hop with hop | hop
        · exact keepsFirstColumn_newLine hop
        · rw [mem_singleton.1 hop]
          rfl
      · exact keepsFirstColumn_newLine (append_nil _ ▸ hop)
      · cases hop
    · split_ifs at hop
      · rw [mem_singleton.1 hop]
        rfl
      · cases hop
    · rw [run_append]
      rfl

/-! ## Differential renders -/

/-- The deleted lines are erased, and the cursor goes back to the last one that is left. -/
lemma erase_deleted (count left : ℕ) (h : Window t top row (canvas shown lines))
    (hrow : row + 1 = left) (hcount : lines.length = left + count)
    (hbottom : lines.length ≤ top + t.height) :
    Window (t.run shown (eraseNext [.down 1, .carriageReturn] count ++ [.up count])) top row
      (erasedNext (canvas shown lines) row count) := by
  have htop := h.top_le
  have herased := h.eraseNext shown (fun h hrow => h.down_one shown hrow)
    (show row + count < top + t.height by omega)
  have hup := herased.up shown count
  have hmax : max top (row + count - count) = row := by omega
  rw [hmax] at hup
  rw [run_append]
  exact hup

/-- Where no line is left, the rows after the first are erased. -/
lemma erase_deleted_all {count : ℕ} (h : Window t 0 0 (canvas shown lines))
    (hcount : lines.length = count + 1) (hbottom : lines.length ≤ t.height)
    (hfirst : t.height = 1 ∨ ∀ line ∈ lines.head?, shown line = []) :
    Window (t.run shown (eraseNext [.down 1, .carriageReturn] (count + 1) ++ [.up (count + 1)]))
      0 0 fun _ => [] := by
  have herased := h.eraseNext shown (fun h hrow => h.down_one shown hrow)
    (show 0 + count < 0 + t.height by omega)
  have hlast := ((herased.down shown 1).carriageReturn shown).eraseLine shown
  have hup := hlast.up shown (count + 1)
  have hmax : max 0 (min (0 + count + 1)
      (0 + (t.run shown (eraseNext [.down 1, .carriageReturn] count)).height - 1) - (count + 1)) =
    0 := by omega
  rw [hmax] at hup
  rw [Terminal.eraseNext_succ, run_append, run_append]
  refine hup.congr fun i _ => ?_
  rw [height_run]
  by_cases hi : i = min (0 + count + 1) (0 + t.height - 1)
  · rw [hi, Function.update_self]
  · rw [Function.update_of_ne hi, erasedNext]
    split_ifs
    · rfl
    · by_cases hzero : i = 0
      · subst hzero
        have hfirst := hfirst.resolve_left (by omega)
        rcases hline : lines[0]? with _ | line
        · rw [canvas, hline]
        · rw [canvas, hline]
          exact (hfirst line (head?_eq_getElem? ▸ hline)).symm
      · exact (canvas_of_le (by omega)).symm

/-- Lines at the end have been deleted.  If no line is left, the first row has to be empty. -/
theorem drawn_eraseDeleted (h : Drawn shown e t e.previousLines)
    (hheight : t.height = frame.height)
    (htop : e.prevViewportTop frame = e.previousViewportTop)
    (hsame : ∀ i < newLines.length, e.previousLines[i]? = newLines[i]?)
    (hdel : newLines.length < e.previousLines.length)
    (hvis : e.previousViewportTop ≤ newLines.length - 1)
    (hempty : newLines = [] → frame.height = 1 ∨ ∀ line ∈ e.previousLines.head?, shown line = [])
    (hcursor : ∀ p ∈ cursorPos, e.previousViewportTop ≤ p.1) :
    Drawn shown (e.eraseDeleted frame newLines cursorPos).1
        (t.run shown (e.eraseDeleted frame newLines cursorPos).2) newLines ∧
      Remembers (e.eraseDeleted frame newLines cursorPos).1 frame newLines := by
  have hbottom := h.bottom
  rw [eraseDeleted, htop]
  refine ⟨Drawn.andPosition ⟨?_, hvis, ?_, le_rfl, ?_⟩ hcursor,
    remembers_andPosition ⟨rfl, rfl, rfl⟩⟩
  · have hmoved := moveRows_firstColumn h.window shown hvis (by omega)
    rw [append_assoc, run_append]
    by_cases hnil : newLines = []
    · subst hnil
      obtain ⟨count, hcount⟩ : ∃ count, e.previousLines.length = count + 1 :=
        ⟨e.previousLines.length - 1, by rw [length_nil] at hdel; omega⟩
      have htop' : e.previousViewportTop = 0 := Nat.le_zero.1 hvis
      rw [htop'] at hbottom hmoved ⊢
      have herased := erase_deleted_all hmoved hcount (by rw [height_run]; omega) (by
        rw [height_run, hheight]
        exact hempty rfl)
      rw [length_nil, Nat.sub_zero, hcount]
      exact herased.congr fun i _ => canvas_of_le (Nat.zero_le i)
    · have hlen : 0 < newLines.length := length_pos_iff.2 hnil
      have herased := erase_deleted (e.previousLines.length - newLines.length) newLines.length
        hmoved (by omega) (by omega) (by rw [height_run]; exact hbottom)
      refine herased.congr fun i _ => ?_
      rw [erasedNext]
      split_ifs with hdel'
      · exact canvas_of_le (by omega)
      · by_cases hi : i < newLines.length
        · exact canvas_congr (hsame i hi).symm
        · rw [canvas_of_le (by omega), canvas_of_le (by omega)]
  · rw [height_run]
    exact hdel.le.trans hbottom
  · rintro rfl
    rw [append_assoc, run_append]
    refine col_run (fun op hop => ?_) (by rw [run_append]; rfl)
    rcases mem_append.1 hop with hop | hop
    · rcases Terminal.mem_eraseNext hop with hmove | rfl
      · rcases mem_pair.1 hmove with rfl | rfl
        · rfl
        · rfl
      · rfl
    · rw [mem_singleton.1 hop]
      rfl

variable {firstChanged : ℕ} {appendStart : Prop}

/-- The cursor goes to the first line that has changed, which may be the next one to append. -/
lemma to_firstChanged (h : Window t top row base) (shown : CodeUnits → List Cell)
    (hlines : n ≤ top + t.height) (hvis : top ≤ firstChanged) (hfirst : firstChanged ≤ n)
    (hn : 0 < n) (htop : top ≤ n - 1) [Decidable appendStart]
    (hstart : firstChanged = n ↔ appendStart) :
    Window (t.run shown (moveRows
          (((if appendStart then firstChanged - 1 else firstChanged : ℕ) : ℤ) - row) ++
        if appendStart then [.carriageReturn, .lineFeed] else [.carriageReturn]))
      (max top (firstChanged + 1 - t.height)) firstChanged base := by
  rw [run_append]
  split_ifs with happend
  · have hfirst' := hstart.2 happend
    have hmoved := moveRows_window h shown (show top ≤ firstChanged - 1 by omega) (by omega)
    have hfed := (hmoved.carriageReturn shown).lineFeed shown
    rw [Terminal.height_perform, height_run] at hfed
    have htop' : max top (firstChanged - 1 + 2 - t.height) =
        max top (firstChanged + 1 - t.height) := by omega
    have hrow : firstChanged - 1 + 1 = firstChanged := by omega
    rw [htop', hrow] at hfed
    exact hfed
  · have hfirst' : firstChanged < n := lt_of_le_of_ne hfirst fun heq => happend (hstart.1 heq)
    have hmoved := (moveRows_window h shown hvis (by omega)).carriageReturn shown
    have htop' : max top (firstChanged + 1 - t.height) = top := by omega
    rw [htop']
    exact hmoved

lemma col_firstColumn [Decidable appendStart] :
    (t.run shown (ops ++ if appendStart then [.carriageReturn, .lineFeed]
      else [.carriageReturn])).col = 0 := by
  rw [run_append]
  split_ifs
  · rw [run_cons, run_cons, run_nil, Terminal.col_lineFeed]
    rfl
  · rfl

/-- Lines from the first that has changed on are written. -/
lemma write_slice (h : Window t top row base) (shown : CodeUnits → List Cell)
    (newLines : List CodeUnits) (renderEnd : ℕ) (hlines : n ≤ top + t.height)
    (hvis : top ≤ firstChanged) (hfirst : firstChanged ≤ n) (hn : 0 < n) (htop : top ≤ n - 1)
    (hle : firstChanged ≤ renderEnd) (hend : renderEnd < newLines.length) [Decidable appendStart]
    (hstart : firstChanged = n ↔ appendStart) :
    Window (t.run shown (moveRows
          (((if appendStart then firstChanged - 1 else firstChanged : ℕ) : ℤ) - row) ++
        (if appendStart then [.carriageReturn, .lineFeed] else [.carriageReturn]) ++
        writeLines true ((newLines.drop firstChanged).take (renderEnd + 1 - firstChanged))))
      (max top (renderEnd + 1 - t.height)) renderEnd (fun i =>
        if firstChanged ≤ i ∧ i ≤ renderEnd then canvas shown newLines i else base i) := by
  have hchanged := to_firstChanged h shown hlines hvis hfirst hn htop hstart
  have hlen : ((newLines.drop firstChanged).take (renderEnd + 1 - firstChanged)).length =
      renderEnd + 1 - firstChanged := by
    rw [length_take, length_drop]
    omega
  rw [run_append]
  rcases hslice : (newLines.drop firstChanged).take (renderEnd + 1 - firstChanged) with _ |
    ⟨line, rest⟩
  · rw [hslice, length_nil] at hlen
    omega
  · rw [hslice, length_cons] at hlen
    have hwritten := hchanged.writeLines shown true col_firstColumn (fun hfalse => nomatch hfalse)
      line rest
    rw [height_run] at hwritten
    have htop' : max (max top (firstChanged + 1 - t.height))
        (firstChanged + rest.length + 1 - t.height) = max top (renderEnd + 1 - t.height) := by
      omega
    have hrow : firstChanged + rest.length = renderEnd := by omega
    rw [htop', hrow] at hwritten
    refine hwritten.congr fun i _ => ?_
    by_cases hi : firstChanged ≤ i
    · rw [← hslice, written_slice _ _ _ _ hi]
      by_cases hin : i ≤ renderEnd
      · rw [if_pos ⟨hi, hin⟩, if_pos (by omega)]
      · rw [if_neg (by omega), if_neg (by omega)]
    · rw [if_neg (by omega), Terminal.written, if_pos (by omega)]

/-- The lines that have changed are written, down to the last one that is left. -/
theorem drawn_writeChanged {lastChanged : ℕ} (h : Drawn shown e t e.previousLines)
    (hheight : t.height = frame.height) (htop : e.prevViewportTop frame = e.previousViewportTop)
    (hdiffer : Differ e.previousLines newLines firstChanged lastChanged)
    (hlines : 0 < e.previousLines.length) (hfirst : firstChanged < newLines.length)
    (hvis : e.previousViewportTop ≤ firstChanged)
    (hcursor : ∀ p ∈ cursorPos, e.previousViewportTop ≤ p.1 ∧
      newLines.length - frame.height ≤ p.1) :
    Drawn shown (e.writeChanged frame newLines cursorPos firstChanged lastChanged).1
        (t.run shown (e.writeChanged frame newLines cursorPos firstChanged lastChanged).2)
        newLines ∧
      Remembers (e.writeChanged frame newLines cursorPos firstChanged lastChanged).1 frame
        newLines := by
  have hpos := frame.height_pos
  have hbottom := h.bottom
  have hlast' := hdiffer.last_eq
  have hle := hdiffer.le
  have hfirst_le := hdiffer.first_le
  have hscroll : (if newLines.length > e.previousLines.length ∧
      firstChanged = e.previousLines.length ∧ firstChanged > 0 then firstChanged - 1
      else firstChanged) - (e.previousViewportTop + frame.height - 1) = 0 := by
    split_ifs
    · omega
    · omega
  have hfinal : (if newLines.length < e.previousLines.length then
      max (min lastChanged (newLines.length - 1)) (newLines.length - 1)
      else min lastChanged (newLines.length - 1)) = min lastChanged (newLines.length - 1) := by
    split_ifs
    · omega
    · rfl
  have hdown : newLines.length < e.previousLines.length →
      ¬ 0 < newLines.length - 1 - min lastChanged (newLines.length - 1) := by omega
  rw [writeChanged, htop]
  simp only [hscroll, gt_iff_lt, lt_irrefl, if_false, nil_append, Nat.add_zero, hfinal]
  obtain ⟨renderEnd, hend⟩ : ∃ renderEnd, renderEnd = min lastChanged (newLines.length - 1) :=
    ⟨_, rfl⟩
  simp only [← hend] at hdown ⊢
  refine ⟨Drawn.andPosition ⟨?_, ?_, ?_, ?_, ?_⟩ ?_, remembers_andPosition ⟨rfl, rfl, rfl⟩⟩
  · have hwindow := write_slice h.window shown newLines renderEnd hbottom hvis hfirst_le
      hlines h.top (by omega) (by omega) (show firstChanged = e.previousLines.length ↔
        e.previousLines.length < newLines.length ∧ firstChanged = e.previousLines.length ∧
          0 < firstChanged from
        ⟨fun heq => ⟨heq ▸ hfirst, heq, heq ▸ hlines⟩, fun hand => hand.2.1⟩)
    rw [run_append]
    by_cases hdel : newLines.length < e.previousLines.length
    · rw [if_pos hdel, if_neg (hdown hdel), nil_append, run_append]
      have herased := hwindow.eraseNext shown (fun h hrow => h.newLine shown hrow)
        (show renderEnd + (e.previousLines.length - newLines.length) < _ by
          rw [height_run]; omega)
      have hup := herased.up shown (e.previousLines.length - newLines.length)
      have hrow : max (max e.previousViewportTop (renderEnd + 1 - t.height))
          (renderEnd + (e.previousLines.length - newLines.length) -
            (e.previousLines.length - newLines.length)) = renderEnd := by omega
      rw [hrow, hheight] at hup
      refine hup.congr fun i _ => ?_
      rw [erasedNext]
      split_ifs with hbelow hwritten
      · exact canvas_of_le (by omega)
      · rfl
      · by_cases hi : i < firstChanged
        · exact canvas_congr (hdiffer.before i hi).symm
        · rw [canvas_of_le (by omega), canvas_of_le (by omega)]
    · rw [if_neg hdel, run_nil, ← hheight]
      refine hwindow.congr fun i _ => ?_
      split_ifs with hwritten
      · rfl
      · by_cases hi : i < firstChanged
        · exact canvas_congr (hdiffer.before i hi).symm
        · by_cases hlen : i < newLines.length
          · exact canvas_congr (hdiffer.after i (by omega)).symm
          · rw [canvas_of_le (by omega), canvas_of_le (by omega)]
  · change max e.previousViewportTop (renderEnd + 1 - frame.height) ≤ newLines.length - 1
    omega
  · rw [height_run]
    change newLines.length ≤ max e.previousViewportTop (renderEnd + 1 - frame.height) + t.height
    omega
  · change renderEnd ≤ newLines.length - 1
    omega
  · rintro rfl
    exact (Nat.not_lt_zero _ hfirst).elim
  · intro p hp
    have hp := hcursor p hp
    change max e.previousViewportTop (renderEnd + 1 - frame.height) ≤ p.1
    omega

end Drawing

/-! ## A terminal that frames are drawn on -/

/-- A `TUI` and its terminal, with the size of the last frame. -/
structure DisplayState (Cell : Type) where
  tui : TUI
  terminal : Terminal Cell
  size : Option (ℕ × ℕ) := none

section Display

variable {Cell : Type} [Inhabited Cell] (visibleWidth : CodeUnits → ℕ)
  (shown : CodeUnits → List Cell)

/-- A frame is drawn on the terminal `t`. -/
def DisplayState.render (s : DisplayState Cell) (frame : TuiFrame) (t : Terminal Cell) :
    DisplayState Cell :=
  let rendered := s.tui.doRender visibleWidth frame
  { tui := rendered.1
    terminal := t.run shown rendered.2
    size := some (frame.width, frame.height) }

/-- The first frame is drawn on an empty screen.  A terminal that has been resized may look like
anything; in a Termux session its height does not change. -/
inductive DisplayStep : DisplayState Cell → TuiFrame → DisplayState Cell → Prop
  | first {s : DisplayState Cell} {frame : TuiFrame} (hsize : s.size = none) :
    DisplayStep s frame (s.render visibleWidth shown frame { height := frame.height })
  | next {s : DisplayState Cell} {frame : TuiFrame}
      (hsize : s.size = some (frame.width, frame.height)) :
    DisplayStep s frame (s.render visibleWidth shown frame s.terminal)
  | resized {s : DisplayState Cell} {frame : TuiFrame} {width height : ℕ} {t : Terminal Cell}
      (hsize : s.size = some (width, height)) (hresized : width ≠ frame.width ∨
        height ≠ frame.height ∧ s.tui.isTermuxSession = false)
      (hheight : t.height = frame.height) (hinside : t.row < t.height) :
    DisplayStep s frame (s.render visibleWidth shown frame t)

def displaying : Machine (DisplayState Cell) TuiFrame where
  step := DisplayStep visibleWidth shown

/-- Nothing has been drawn. -/
def Undrawn (s : DisplayState Cell) : Prop :=
  ∃ clearOnShrink isTermuxSession, s.tui = { clearOnShrink, isTermuxSession } ∧ s.size = none

/-- The `TUI` that draws a frame. -/
def requested (s : DisplayState Cell) (frame : TuiFrame) : TUI :=
  if frame.force then s.tui.forceRender else s.tui

/-- What the full renders do not ask for: when only lines at the end have been deleted, and none is
left, the first row was empty; and the cursor marker is not above the window. -/
def StaysInStep (s : DisplayState Cell) (frame : TuiFrame) : Prop :=
  let e := requested s frame
  let rendered := renderedLines visibleWidth frame
  match e.renderPath frame rendered.1 with
  | .full _ _ => True
  | .deletedTail =>
    (rendered.1 = [] → frame.height = 1 ∨ ∀ line ∈ e.previousLines.head?, shown line = []) ∧
      ∀ p ∈ rendered.2, e.previousViewportTop ≤ p.1
  | _ => ∀ p ∈ rendered.2, e.previousViewportTop ≤ p.1

/-- The screen shows the lines of a frame, and the cursor is where the `TUI` believes it to be. -/
def ShowsFrame (s : DisplayState Cell) (frame : TuiFrame) : Prop :=
  let lines := (renderedLines visibleWidth frame).1
  s.terminal.height = frame.height ∧
    (∀ r < frame.height, s.terminal.rows r = canvas shown lines (s.tui.previousViewportTop + r)) ∧
    s.tui.hardwareCursorRow = s.tui.previousViewportTop + s.terminal.row

/-- What holds after every frame. -/
structure InStep (s : DisplayState Cell) (width height : ℕ) : Prop where
  previousWidth : s.tui.previousWidth = width
  previousHeight : s.tui.previousHeight = height
  pos : 0 < width ∧ 0 < height
  height : s.terminal.height = height
  drawable : Drawable s.tui.previousLines
  drawn : Drawn shown s.tui s.terminal s.tui.previousLines

/-- Nothing has been drawn, or the last frame is still there. -/
def Following (s : DisplayState Cell) : Prop :=
  Undrawn s ∨ ∃ width height, s.size = some (width, height) ∧ InStep shown s width height

variable {visibleWidth shown} {s t : DisplayState Cell} {frame : TuiFrame}

lemma length_renderedLines : (renderedLines visibleWidth frame).1.length = frame.lines.length := by
  rw [renderedLines, applyLineResets, length_map, extractCursorPosition]
  split
  · rfl
  · rw [length_set]

lemma drawable_renderedLines (visibleWidth : CodeUnits → ℕ) (frame : TuiFrame) :
    Drawable (renderedLines visibleWidth frame).1 :=
  drawable_applyLineResets _

/-- A marker is looked for in the bottom lines alone. -/
lemma le_of_mem_cursorPos {p : ℕ × ℕ} (h : p ∈ (renderedLines visibleWidth frame).2) :
    (renderedLines visibleWidth frame).1.length - frame.height ≤ p.1 := by
  rw [length_renderedLines]
  rw [renderedLines, extractCursorPosition] at h
  split at h
  · cases h
  · rename_i row hfound
    cases h
    have hmem := mem_reverse.1 (mem_of_find?_eq_some hfound)
    exact (mem_range'_1.1 hmem).1

/-! ## Which way a frame is drawn -/

lemma renderPath_of_resized {e : TUI}
    (h : e.widthChanged frame = true ∨ e.heightChanged frame = true ∧ e.isTermuxSession = false) :
    e.renderPath frame newLines = .full true false := by
  rw [renderPath]
  rcases h with hwidth | ⟨hheight, htermux⟩
  · simp [hwidth]
  · simp [hheight, htermux]

/-- Where the terminal has kept its size. -/
lemma renderPath_spec {e : TUI} (newLines : List CodeUnits) (hwidth : e.widthChanged frame = false)
    (hheight : e.heightChanged frame = false) :
    match e.renderPath frame newLines with
    | .full clear preserveViewport =>
      clear = false → e.previousLines = [] ∧ preserveViewport = false
    | .unchanged => changedLines e.previousLines newLines = none
    | .deletedTail => 0 < e.previousLines.length ∧ e.prevViewportTop frame ≤ newLines.length - 1 ∧
      ∃ firstChanged lastChanged, newLines.length ≤ firstChanged ∧
        changedLines e.previousLines newLines = some (firstChanged, lastChanged)
    | .changed firstChanged lastChanged => 0 < e.previousLines.length ∧
      firstChanged < newLines.length ∧ e.prevViewportTop frame ≤ firstChanged ∧
        changedLines e.previousLines newLines = some (firstChanged, lastChanged) := by
  rw [renderPath]
  rw [hwidth, hheight]
  by_cases hlines : e.previousLines.length = 0
  · rw [if_pos ⟨hlines, rfl, rfl⟩]
    exact fun _ => ⟨length_eq_zero_iff.1 hlines, rfl⟩
  rw [if_neg (fun h => hlines h.1), if_neg Bool.false_ne_true,
    if_neg (fun h => Bool.false_ne_true h.1)]
  by_cases hshrunk : e.clearOnShrink = true ∧ newLines.length < e.maxLinesRendered
  · rw [if_pos hshrunk]
    exact nofun
  rw [if_neg hshrunk]
  rcases hchanged : changedLines e.previousLines newLines with _ | ⟨firstChanged, lastChanged⟩
  · exact rfl
  dsimp only
  by_cases hdel : newLines.length ≤ firstChanged
  · rw [if_pos hdel]
    split_ifs with hfar
    · exact nofun
    · exact ⟨Nat.pos_of_ne_zero hlines, Nat.le_of_not_lt fun h => hfar (.inl h), firstChanged,
        lastChanged, hdel, rfl⟩
  · rw [if_neg hdel]
    split_ifs with habove
    · exact nofun
    · exact ⟨Nat.pos_of_ne_zero hlines, Nat.lt_of_not_le hdel, Nat.le_of_not_lt habove, rfl⟩

/-! ## Runs -/

variable (visibleWidth shown s frame) in
/-- A frame leaves its lines on the terminal, and with the `TUI`. -/
def DrawsFrame (t : Terminal Cell) : Prop :=
  Drawn shown (s.tui.doRender visibleWidth frame).1
      (t.run shown (s.tui.doRender visibleWidth frame).2)
      (renderedLines visibleWidth frame).1 ∧
    Remembers (s.tui.doRender visibleWidth frame).1 frame
      (renderedLines visibleWidth frame).1

/-- What a frame leaves behind keeps the display in step. -/
lemma inStep_render {t : Terminal Cell} (hheight : t.height = frame.height)
    (h : DrawsFrame visibleWidth shown s frame t) :
    InStep shown (s.render visibleWidth shown frame t) frame.width frame.height ∧
      ShowsFrame visibleWidth shown (s.render visibleWidth shown frame t) frame := by
  obtain ⟨hdrawn, hlines, hwidth, hheight'⟩ := h
  have hterm : (s.render visibleWidth shown frame t).terminal.height = frame.height :=
    height_run.trans hheight
  refine ⟨⟨hwidth, hheight', ⟨frame.width_pos, frame.height_pos⟩, hterm, ?_, ?_⟩, hterm,
    ?_, hdrawn.window.row⟩
  · change Drawable (s.tui.doRender visibleWidth frame).1.previousLines
    rw [hlines]
    exact drawable_applyLineResets _
  · change Drawn shown (s.tui.doRender visibleWidth frame).1 _
      (s.tui.doRender visibleWidth frame).1.previousLines
    rw [hlines]
    exact hdrawn
  · exact fun r hr => hdrawn.window.rows r (by rw [height_run, hheight]; exact hr)

/-- A full render that erases the screen. -/
lemma drawn_of_cleared {t : Terminal Cell} (hheight : t.height = frame.height)
    (hpath : (requested s frame).renderPath frame (renderedLines visibleWidth frame).1 =
      .full true false) : DrawsFrame visibleWidth shown s frame t := by
  have hrender : s.tui.doRender visibleWidth frame = (requested s frame).fullRender frame
      (renderedLines visibleWidth frame).1 (renderedLines visibleWidth frame).2 true
      false := by
    rw [doRender, ← requested, hpath]
  rw [DrawsFrame, hrender]
  exact drawn_fullRender (fun h => Bool.false_ne_true h.1) hheight (fun h => nomatch h)
    fun p hp => le_of_mem_cursorPos hp

omit [Inhabited Cell] in
lemma widthChanged_of_force (hforce : frame.force = true) :
    (requested s frame).widthChanged frame = true := by
  rw [requested, if_pos hforce, widthChanged, forceRender]
  have hne : (-1 : ℤ) ≠ frame.width := by omega
  simp [hne]

omit [Inhabited Cell] in
lemma resized_requested {width height : ℕ} (h : InStep shown s width height)
    (hresized : width ≠ frame.width ∨ height ≠ frame.height ∧ s.tui.isTermuxSession = false) :
    (requested s frame).widthChanged frame = true ∨ (requested s frame).heightChanged frame = true ∧
        (requested s frame).isTermuxSession = false := by
  by_cases hforce : frame.force = true
  · exact .inl (widthChanged_of_force hforce)
  have hpos := h.pos
  rw [requested, if_neg hforce]
  rcases hresized with hwidth | ⟨hheight, htermux⟩
  · refine .inl ?_
    rw [widthChanged, h.previousWidth, Bool.and_eq_true, decide_eq_true_eq, decide_eq_true_eq]
    exact ⟨by omega, by exact_mod_cast hwidth⟩
  · refine .inr ⟨?_, htermux⟩
    rw [heightChanged, h.previousHeight, Bool.and_eq_true, decide_eq_true_eq, decide_eq_true_eq]
    exact ⟨by omega, hheight⟩

/-- The first frame. -/
lemma drawn_of_undrawn (h : Undrawn s) :
    DrawsFrame visibleWidth shown s frame { height := frame.height } := by
  obtain ⟨clearOnShrink, isTermuxSession, htui, -⟩ := h
  by_cases hforce : frame.force = true
  · exact drawn_of_cleared rfl (renderPath_of_resized (.inl (widthChanged_of_force hforce)))
  · have hrequested : requested s frame = { clearOnShrink, isTermuxSession } := by
      rw [requested, if_neg hforce, htui]
    have hrender : s.tui.doRender visibleWidth frame = (requested s frame).fullRender frame
        (renderedLines visibleWidth frame).1 (renderedLines visibleWidth frame).2 false
        false := by
      rw [doRender, ← requested, hrequested]
      rfl
    rw [DrawsFrame, hrender]
    refine drawn_fullRender (fun h => Bool.false_ne_true h.1) rfl (fun _ => ⟨rfl, ?_⟩)
      fun p hp => le_of_mem_cursorPos hp
    exact ⟨fun _ _ => rfl, fun _ _ => rfl, rfl, frame.height_pos⟩

/-- A frame that is drawn over the one before. -/
theorem drawn_of_inStep (h : InStep shown s frame.width frame.height)
    (hguard : StaysInStep visibleWidth shown s frame) :
    DrawsFrame visibleWidth shown s frame s.terminal := by
  by_cases hforce : frame.force = true
  · exact drawn_of_cleared h.height
      (renderPath_of_resized (.inl (widthChanged_of_force hforce)))
  have hrequested : requested s frame = s.tui := if_neg hforce
  have hwidth : s.tui.widthChanged frame = false := by
    simp [widthChanged, h.previousWidth]
  have hheight : s.tui.heightChanged frame = false := by
    simp [heightChanged, h.previousHeight]
  have htop : s.tui.prevViewportTop frame = s.tui.previousViewportTop := by
    rw [prevViewportTop, hheight, if_neg Bool.false_ne_true]
  have hspec := renderPath_spec (renderedLines visibleWidth frame).1 hwidth hheight
  have hchanges := changedLines_spec h.drawable (drawable_renderedLines visibleWidth frame)
  rw [StaysInStep, hrequested] at hguard
  rw [DrawsFrame, doRender, ← requested, hrequested]
  rcases hpath : s.tui.renderPath frame (renderedLines visibleWidth frame).1 with
    ⟨clear, preserveViewport⟩ | _ | _ | ⟨firstChanged, lastChanged⟩
  · rw [hpath] at hspec
    dsimp only at hspec ⊢
    by_cases hpreserve : preserveViewport = true ∧ s.tui.previousLines.length > 0
    · rw [TUI.fullRender, if_pos hpreserve]
      exact drawn_repaintViewport h.drawn hpreserve.2 h.height htop
        fun p hp => le_of_mem_cursorPos hp
    · refine drawn_fullRender hpreserve h.height (fun hclear => ?_)
        fun p hp => le_of_mem_cursorPos hp
      obtain ⟨hnil, -⟩ := hspec hclear
      have hdrawn := h.drawn
      rw [hnil] at hdrawn
      have htop' := Nat.le_zero.1 hdrawn.top
      have hcursor := Nat.le_zero.1 hdrawn.cursor
      have hwindow := hdrawn.window
      rw [htop', hcursor] at hwindow
      exact ⟨hdrawn.col rfl, hwindow⟩
  · rw [hpath] at hspec hguard
    rw [hspec] at hchanges
    have hdrawn := h.drawn
    rw [hchanges] at hdrawn
    refine ⟨Drawn.andPosition ?_ ?_, remembers_andPosition ⟨hchanges, h.previousWidth, rfl⟩⟩
    · rw [htop]
      exact ⟨hdrawn.window, hdrawn.top, hdrawn.bottom, hdrawn.cursor, hdrawn.col⟩
    · rw [htop]
      exact hguard
  · rw [hpath] at hspec hguard
    obtain ⟨hlines, hvis, firstChanged, lastChanged, hdel, hchanged⟩ := hspec
    rw [hchanged] at hchanges
    rw [htop] at hvis
    have hle := hchanges.le
    have hlast := hchanges.last
    exact drawn_eraseDeleted h.drawn h.height htop
      (fun i hi => hchanges.before i (hi.trans_le hdel)) (by omega) hvis hguard.1 hguard.2
  · rw [hpath] at hspec hguard
    obtain ⟨hlines, hfirst, hvis, hchanged⟩ := hspec
    rw [hchanged] at hchanges
    rw [htop] at hvis
    exact drawn_writeChanged h.drawn h.height htop hchanges hlines hfirst hvis
      fun p hp => ⟨hguard p hp, le_of_mem_cursorPos hp⟩

/-- A frame that meets the guard is shown, and keeps the display in step. -/
theorem inStep_step (h : Following shown s) (hstep : DisplayStep visibleWidth shown s frame t)
    (hguard : StaysInStep visibleWidth shown s frame) :
    (t.size = some (frame.width, frame.height) ∧ InStep shown t frame.width frame.height) ∧
      ShowsFrame visibleWidth shown t frame := by
  cases hstep with
  | first hsize =>
    rcases h with hundrawn | ⟨width, height, hsize', -⟩
    · obtain ⟨hinStep, hshows⟩ := inStep_render rfl (drawn_of_undrawn hundrawn)
      exact ⟨⟨rfl, hinStep⟩, hshows⟩
    · rw [hsize] at hsize'
      cases hsize'
  | next hsize =>
    rcases h with ⟨_, _, -, hsize'⟩ | ⟨width, height, hsize', hinStep⟩
    · rw [hsize] at hsize'
      cases hsize'
    · rw [hsize] at hsize'
      cases hsize'
      obtain ⟨hnext, hshows⟩ := inStep_render hinStep.height (drawn_of_inStep hinStep hguard)
      exact ⟨⟨rfl, hnext⟩, hshows⟩
  | resized hsize hresized hheight hinside =>
    rcases h with ⟨_, _, -, hsize'⟩ | ⟨width, height, hsize', hinStep⟩
    · rw [hsize] at hsize'
      cases hsize'
    · rw [hsize] at hsize'
      cases hsize'
      obtain ⟨hnext, hshows⟩ := inStep_render hheight
        (drawn_of_cleared hheight (renderPath_of_resized (resized_requested hinStep hresized)))
      exact ⟨⟨rfl, hnext⟩, hshows⟩

/-- **In a run whose frames all stay in step, the screen shows the newest frame after each.** -/
theorem screen_shows_newest_frame {s₀ s₁ s₂ : DisplayState Cell} {frames : List TuiFrame}
    (h₀ : Undrawn s₀)
    (hrun : ((displaying visibleWidth shown).guard (StaysInStep visibleWidth shown)).Run s₀ frames
      s₁)
    (hstep : ((displaying visibleWidth shown).guard (StaysInStep visibleWidth shown)).step s₁ frame
      s₂) :
    ShowsFrame visibleWidth shown s₂ frame := by
  have hinvariant : Following shown s₁ := by
    refine hrun.invariant (.inl h₀) fun s frame t h hstep => ?_
    obtain ⟨hnext, -⟩ := inStep_step h hstep.1 hstep.2
    exact .inr ⟨frame.width, frame.height, hnext⟩
  exact (inStep_step hinvariant hstep.1 hstep.2).2

end Display

/-! ## The two exceptions -/

/-- A line of plain text, without its reset. -/
def withoutReset (line : CodeUnits) : CodeUnits :=
  line.take (line.length - SEGMENT_RESET.length)

/-- A screen of two rows. -/
def twoRows (lines : List String) : TuiFrame where
  lines := lines.map asciiUnits
  width := 80
  height := 2

/-- The frame `a`, `b`, with a cursor marker at `a`. -/
def markedTwoRows : TuiFrame :=
  { twoRows [] with lines := [CURSOR_MARKER ++ asciiUnits "a", asciiUnits "b"] }

def twoRowsUndrawn : DisplayState UInt16 where
  tui := {}
  terminal := { height := 2 }

/-- When both lines of a frame are deleted, the first one stays on the screen; and a marker above
the window takes the cursor of the `TUI` to a row that is not on the screen. -/
theorem screen_not_in_step : ¬ (∀ s₁ s₂ : DisplayState UInt16,
      (displaying List.length withoutReset).Run twoRowsUndrawn [twoRows ["a", "b"]] s₁ →
      (displaying List.length withoutReset).step s₁ (twoRows []) s₂ →
      ShowsFrame List.length withoutReset s₂ (twoRows [])) ∧
    ¬ (∀ s₁ s₂ : DisplayState UInt16,
      (displaying List.length withoutReset).Run twoRowsUndrawn [twoRows ["a", "b", "c"]] s₁ →
      (displaying List.length withoutReset).step s₁ markedTwoRows s₂ →
      ShowsFrame List.length withoutReset s₂ markedTwoRows) := by
  constructor
  · intro h
    obtain ⟨-, hrows, -⟩ := h _ _ (.single (.first rfl)) (.next rfl)
    exact absurd (hrows 0 (by decide)) (by decide +kernel)
  · intro h
    obtain ⟨-, -, hcursor⟩ := h _ _ (.single (.first rfl)) (.next rfl)
    exact absurd hcursor (by decide +kernel)

/-- Two lines are followed by one. -/
theorem screen_shows_newest_frame_shrunk : ∃ s : DisplayState UInt16,
      (displaying List.length withoutReset).Run twoRowsUndrawn [twoRows ["a", "b"], twoRows ["b"]]
        s ∧
      ShowsFrame List.length withoutReset s (twoRows ["b"]) := by
  have hfirst : ((displaying List.length withoutReset).guard
      (StaysInStep List.length withoutReset)).step twoRowsUndrawn (twoRows ["a", "b"])
      (twoRowsUndrawn.render List.length withoutReset (twoRows ["a", "b"]) { height := 2 }) :=
    ⟨.first rfl, trivial⟩
  have hnone : (renderedLines List.length (twoRows ["b"])).2 = none := by decide +kernel
  have hnext : ((displaying List.length withoutReset).guard
      (StaysInStep List.length withoutReset)).step _ (twoRows ["b"])
      ((twoRowsUndrawn.render List.length withoutReset (twoRows ["a", "b"])
        { height := 2 }).render List.length withoutReset (twoRows ["b"]) _) :=
    ⟨.next rfl, fun p hp => nomatch hnone ▸ hp⟩
  refine ⟨_, ((Machine.Run.single hfirst.1).snoc hnext.1), ?_⟩
  exact screen_shows_newest_frame ⟨false, false, rfl, rfl⟩ (.single hfirst) hnext

end Amide
