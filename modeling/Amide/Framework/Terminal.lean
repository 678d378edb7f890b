import Mathlib.Data.Nat.Basic
import Mathlib.Tactic.Common

/-!
# Terminals

A terminal is a grid of rows with a cursor.  Programs that draw more lines than it has think of it
as a window on a canvas that is as long as it has to be (`Terminal.Window`): row `r` of the screen
is row `top + r` of the canvas, and nothing has been drawn below the window yet.  There is a rule
for each operation, so what a program has drawn can be read off the canvas; a line feed on the
bottom row moves the window on.

Lines do not wrap.
-/

/-- The rows below the bottom one have no meaning. -/
structure Terminal (Cell : Type*) where
  height : ℕ
  rows : ℕ → List Cell := fun _ => []
  row : ℕ := 0
  col : ℕ := 0

inductive TerminalOp (Line : Type*) where
  /-- `CSI n A` -/
  | up (n : ℕ)
  /-- `CSI n B` -/
  | down (n : ℕ)
  /-- `CSI n G`, where the first column is 0. -/
  | column (n : ℕ)
  | carriageReturn
  | lineFeed
  /-- `CSI 2 K` -/
  | eraseLine
  /-- `CSI 2 J` -/
  | eraseScreen
  /-- `CSI H` -/
  | home
  | print (line : Line)

namespace Terminal

open List

variable {Cell Line : Type*}

/-! ## Windows -/

section Windows

variable {t : Terminal Cell} {top row : ℕ} {canvas canvas' : ℕ → List Cell}

/-- The screen shows the canvas from row `top` on, and the cursor is in row `row` of it. -/
structure Window (t : Terminal Cell) (top row : ℕ) (canvas : ℕ → List Cell) : Prop where
  rows : ∀ r < t.height, t.rows r = canvas (top + r)
  below : ∀ i, top + t.height ≤ i → canvas i = []
  row : row = top + t.row
  inside : t.row < t.height

namespace Window

section
variable (h : Window t top row canvas)
include h

lemma congr (hcanvas : ∀ i, top ≤ i → canvas' i = canvas i) : Window t top row canvas' := by
  refine ⟨fun r hr => ?_, fun i hi => ?_, h.row, h.inside⟩
  · rw [h.rows r hr, hcanvas _ (Nat.le_add_right _ _)]
  · rw [hcanvas i (by omega), h.below i hi]

/-- The rows of the canvas are given other numbers. -/
lemma renumber (top' : ℕ) :
    Window t top' (top' + (row - top)) fun i => canvas (top + (i - top')) := by
  refine ⟨fun r hr => ?_, fun i hi => h.below _ (by omega), ?_, h.inside⟩
  · rw [h.rows r hr, Nat.add_sub_cancel_left]
  · have hrow := h.row
    omega

lemma lt_bottom : row < top + t.height := by
  have hrow := h.row
  have hinside := h.inside
  omega

lemma top_le : top ≤ row := by
  have hrow := h.row
  omega

end

end Window

end Windows

/-! ## Operations -/

/-- Cells of a row are overwritten from a column on. -/
def overwrite [Inhabited Cell] (old : List Cell) (col : ℕ) (text : List Cell) : List Cell :=
  old.takeD col default ++ text ++ old.drop (col + text.length)

section Operations

variable [Inhabited Cell] (shown : Line → List Cell) (t : Terminal Cell)

def perform : TerminalOp Line → Terminal Cell
  | .up n => { t with row := t.row - n }
  | .down n => { t with row := min (t.row + n) (t.height - 1) }
  | .column n => { t with col := n }
  | .carriageReturn => { t with col := 0 }
  | .lineFeed =>
    if t.row + 1 < t.height then { t with row := t.row + 1 }
    else { t with rows := fun r => if r + 1 < t.height then t.rows (r + 1) else [] }
  | .eraseLine => { t with rows := Function.update t.rows t.row [] }
  | .eraseScreen => { t with rows := fun _ => [] }
  | .home =>
    { t with
      row := 0
      col := 0 }
  | .print line =>
    { t with
      rows := Function.update t.rows t.row (overwrite (t.rows t.row) t.col (shown line))
      col := t.col + (shown line).length }

def run (ops : List (TerminalOp Line)) : Terminal Cell :=
  ops.foldl (perform shown) t

end Operations

variable [Inhabited Cell] {shown : Line → List Cell} {t : Terminal Cell} {top row n : ℕ}
  {canvas : ℕ → List Cell} {ops ops' : List (TerminalOp Line)}

@[simp]
lemma run_nil : t.run shown [] = t := rfl

@[simp]
lemma run_cons (op : TerminalOp Line) :
    t.run shown (op :: ops) = (t.perform shown op).run shown ops :=
  rfl

lemma run_append : t.run shown (ops ++ ops') = (t.run shown ops).run shown ops' :=
  foldl_append

@[simp]
lemma height_perform (op : TerminalOp Line) : (t.perform shown op).height = t.height := by
  cases op with
  | lineFeed =>
    rw [perform]
    split_ifs
    · rfl
    · rfl
  | _ => rfl

@[simp]
lemma height_run : (t.run shown ops).height = t.height := by
  induction ops generalizing t with
  | nil => rfl
  | cons op ops ih => rw [run_cons, ih, height_perform]

lemma col_lineFeed : (t.perform shown .lineFeed).col = t.col := by
  rw [perform]
  split_ifs
  · rfl
  · rfl

/-- The cursor of a terminal that prints nothing stays in the first column. -/
def keepsFirstColumn : TerminalOp Line → Bool
  | .column _ | .print _ => false
  | _ => true

lemma col_run (hops : ∀ op ∈ ops, keepsFirstColumn op = true) (hcol : t.col = 0) :
    (t.run shown ops).col = 0 := by
  induction ops generalizing t with
  | nil => exact hcol
  | cons op ops ih =>
    refine ih (fun op' hop' => hops op' (mem_cons_of_mem op hop')) ?_
    have hop := hops op mem_cons_self
    cases op with
    | column | print => exact nomatch hop
    | lineFeed => exact col_lineFeed.trans hcol
    | carriageReturn | home => rfl
    | _ => exact hcol

lemma overwrite_nil (text : List Cell) : overwrite [] 0 text = text := by
  rw [overwrite, drop_nil, append_nil]
  rfl

/-! ## Operations on windows -/

namespace Window

/-- The cursor stops at the top. -/
lemma up (h : Window t top row canvas) (shown : Line → List Cell) (n : ℕ) :
    Window (t.perform shown (.up n)) top (max top (row - n)) canvas := by
  have hrow := h.row
  have hinside := h.inside
  refine ⟨h.rows, h.below, ?_, ?_⟩
  · change max top (row - n) = top + (t.row - n)
    omega
  · change t.row - n < t.height
    omega

/-- The cursor stops at the bottom. -/
lemma down (h : Window t top row canvas) (shown : Line → List Cell) (n : ℕ) :
    Window (t.perform shown (.down n)) top (min (row + n) (top + t.height - 1)) canvas := by
  have hrow := h.row
  have hinside := h.inside
  refine ⟨h.rows, h.below, ?_, ?_⟩
  · change min (row + n) (top + t.height - 1) = top + min (t.row + n) (t.height - 1)
    omega
  · change min (t.row + n) (t.height - 1) < t.height
    omega

lemma column (h : Window t top row canvas) (shown : Line → List Cell) :
    Window (t.perform shown (.column n)) top row canvas :=
  ⟨h.rows, h.below, h.row, h.inside⟩

lemma carriageReturn (h : Window t top row canvas) (shown : Line → List Cell) :
    Window (t.perform shown .carriageReturn) top row canvas :=
  ⟨h.rows, h.below, h.row, h.inside⟩

/-- On the bottom row, a line feed moves the window on. -/
lemma lineFeed (h : Window t top row canvas) (shown : Line → List Cell) :
    Window (t.perform shown .lineFeed) (max top (row + 2 - t.height)) (row + 1) canvas := by
  have hrow := h.row
  have hinside := h.inside
  rw [perform]
  split_ifs with hbottom
  · have htop : max top (row + 2 - t.height) = top := by omega
    rw [htop]
    exact ⟨h.rows, h.below, by change row + 1 = top + (t.row + 1); omega, hbottom⟩
  · have htop : max top (row + 2 - t.height) = top + 1 := by omega
    rw [htop]
    refine ⟨fun r hr => ?_, fun i hi => h.below i ?_, ?_, hinside⟩
    · change (if r + 1 < t.height then t.rows (r + 1) else []) = canvas (top + 1 + r)
      split_ifs with hlt
      · rw [h.rows _ hlt]
        congr 1
        omega
      · exact (h.below _ (by omega)).symm
    · change top + 1 + t.height ≤ i at hi
      omega
    · change row + 1 = top + 1 + t.row
      omega

lemma eraseLine (h : Window t top row canvas) (shown : Line → List Cell) :
    Window (t.perform shown .eraseLine) top row (Function.update canvas row []) := by
  have hrow := h.row
  refine ⟨fun r hr => ?_, fun i hi => ?_, hrow, h.inside⟩
  · change Function.update t.rows t.row [] r = _
    by_cases heq : r = t.row
    · rw [heq, ← hrow, Function.update_self, Function.update_self]
    · rw [Function.update_of_ne heq, Function.update_of_ne (by omega)]
      exact h.rows r hr
  · have hbelow := h.lt_bottom
    change top + t.height ≤ i at hi
    rw [Function.update_of_ne (by omega), h.below i hi]

lemma print (h : Window t top row canvas) (shown : Line → List Cell) (hcol : t.col = 0)
    (hblank : canvas row = []) (line : Line) :
    Window (t.perform shown (.print line)) top row (Function.update canvas row (shown line)) := by
  have hrow := h.row
  refine ⟨fun r hr => ?_, fun i hi => ?_, hrow, h.inside⟩
  · change Function.update t.rows t.row (overwrite (t.rows t.row) t.col (shown line)) r = _
    by_cases heq : r = t.row
    · rw [heq, ← hrow, Function.update_self, Function.update_self, h.rows _ h.inside, ← hrow,
        hblank, hcol, overwrite_nil]
    · rw [Function.update_of_ne heq, Function.update_of_ne (by omega)]
      exact h.rows r hr
  · have hbelow := h.lt_bottom
    change top + t.height ≤ i at hi
    rw [Function.update_of_ne (by omega), h.below i hi]

/-- A screen that has been erased shows an empty canvas, from any row on. -/
lemma erased (shown : Line → List Cell) (hheight : 0 < t.height) (top : ℕ) :
    Window (t.run shown [.eraseScreen, .home]) top top fun _ => [] :=
  ⟨fun _ _ => rfl, fun _ _ => rfl, rfl, hheight⟩

end Window

/-! ## Lines -/

/-- A line is written where the cursor is, over an empty row or one that is erased first. -/
def writeLine (erase : Bool) (line : Line) : List (TerminalOp Line) :=
  (if erase then [.eraseLine] else []) ++ [.print line]

/-- Lines are written one below the other. -/
def writeLines (erase : Bool) : List Line → List (TerminalOp Line)
  | [] => []
  | line :: lines =>
    writeLine erase line ++
      lines.flatMap fun line => [.carriageReturn, .lineFeed] ++ writeLine erase line

/-- The next rows are erased, each reached by `move`. -/
def eraseNext (move : List (TerminalOp Line)) (n : ℕ) : List (TerminalOp Line) :=
  (List.replicate n (move ++ [.eraseLine])).flatten

lemma eraseNext_succ (move : List (TerminalOp Line)) (n : ℕ) :
    eraseNext move (n + 1) = eraseNext move n ++ (move ++ [.eraseLine]) := by
  rw [eraseNext, eraseNext, replicate_succ', flatten_append, flatten_singleton]

variable {move : List (TerminalOp Line)}

lemma mem_eraseNext {op : TerminalOp Line}
    (h : op ∈ eraseNext move n) : op ∈ move ∨ op = .eraseLine := by
  obtain ⟨ops, hops, hop⟩ := mem_flatten.1 h
  rw [eq_of_mem_replicate hops] at hop
  exact (mem_append.1 hop).imp_right mem_singleton.1

def erasedNext (canvas : ℕ → List Cell) (row n : ℕ) (i : ℕ) : List Cell :=
  if row < i ∧ i ≤ row + n then [] else canvas i

/-- A canvas on which lines have been written from a row on. -/
def written (shown : Line → List Cell) (canvas : ℕ → List Cell) (row : ℕ) (lines : List Line)
    (i : ℕ) : List Cell :=
  if i < row then canvas i
  else
    match lines[i - row]? with
    | some line => shown line
    | none => canvas i

section Lines

variable {line : Line} {lines : List Line} {erase : Bool}

omit [Inhabited Cell] in
lemma written_nil : written shown canvas row [] = canvas := by
  funext i
  rw [written]
  split_ifs
  · rfl
  · rfl

omit [Inhabited Cell] in
lemma written_cons : written shown canvas row (line :: lines) =
    written shown (Function.update canvas row (shown line)) (row + 1) lines := by
  funext i
  rw [written, written]
  rcases lt_trichotomy i row with hlt | rfl | hgt
  · rw [if_pos hlt, if_pos (by omega), Function.update_of_ne (Nat.ne_of_lt hlt)]
  · rw [if_neg (lt_irrefl i), if_pos (Nat.lt_succ_self i), Function.update_self, Nat.sub_self]
    rfl
  · obtain ⟨k, hk⟩ : ∃ k, i - row = k + 1 := ⟨i - row - 1, by omega⟩
    have hk' : i - (row + 1) = k := by omega
    rw [if_neg (by omega), if_neg (by omega), Function.update_of_ne (Nat.ne_of_gt hgt), hk, hk',
      getElem?_cons_succ]

omit [Inhabited Cell] in
lemma erasedNext_zero : erasedNext canvas row 0 = canvas := by
  funext i
  rw [erasedNext, if_neg (by omega)]

omit [Inhabited Cell] in
lemma erasedNext_succ : erasedNext canvas row (n + 1) =
    erasedNext (Function.update canvas (row + 1) []) (row + 1) n := by
  funext i
  rw [erasedNext, erasedNext]
  by_cases heq : i = row + 1
  · subst heq
    rw [if_pos (by omega), if_neg (by omega), Function.update_self]
  · rw [Function.update_of_ne heq]
    split_ifs
    · rfl
    · omega
    · omega
    · rfl

lemma writeLines_cons_cons (erase : Bool) (line next : Line) (lines : List Line) :
    writeLines erase (line :: next :: lines) =
      writeLine erase line ++ [.carriageReturn, .lineFeed] ++ writeLines erase (next :: lines) := by
  rw [writeLines, writeLines, flatMap_cons]
  simp only [append_assoc]

namespace Window

lemma writeLine (h : Window t top row canvas) (shown : Line → List Cell) (hcol : t.col = 0)
    (hblank : erase = false → canvas row = []) (line : Line) :
    Window (t.run shown (writeLine erase line)) top row
      (Function.update canvas row (shown line)) := by
  cases erase with
  | false => exact h.print shown hcol (hblank rfl) line
  | true =>
    have hprinted := (h.eraseLine shown).print shown hcol (Function.update_self ..) line
    rwa [Function.update_idem] at hprinted

lemma writeLines (h : Window t top row canvas) (shown : Line → List Cell) (erase : Bool)
    (hcol : t.col = 0) (hblank : erase = false → ∀ i, row ≤ i → canvas i = []) (line : Line)
    (lines : List Line) :
    Window (t.run shown (writeLines erase (line :: lines)))
      (max top (row + lines.length + 1 - t.height)) (row + lines.length)
      (written shown canvas row (line :: lines)) := by
  induction lines generalizing t top row canvas line with
  | nil =>
    have hbottom := h.lt_bottom
    have htop : max top (row + 0 + 1 - t.height) = top := by omega
    rw [written_cons, written_nil, length_nil, htop, Nat.add_zero, Terminal.writeLines,
      flatMap_nil, append_nil]
    exact h.writeLine shown hcol (fun herase => hblank herase row (Nat.le_refl row)) line
  | cons next lines ih =>
    have hline := h.writeLine shown hcol (fun herase => hblank herase row (Nat.le_refl row)) line
    have hnext : Window (t.run shown (Terminal.writeLine erase line ++
        [.carriageReturn, .lineFeed])) (max top (row + 2 - t.height)) (row + 1)
        (Function.update canvas row (shown line)) := by
      rw [run_append]
      have hfed := (hline.carriageReturn shown).lineFeed shown
      rwa [height_perform, height_run] at hfed
    have hwritten := ih hnext ?_ ?_ next
    · have htop : max (max top (row + 2 - t.height)) (row + 1 + lines.length + 1 - t.height) =
          max top (row + (lines.length + 1) + 1 - t.height) := by omega
      rw [height_run, htop, Nat.add_right_comm row 1] at hwritten
      rw [written_cons, writeLines_cons_cons, run_append, length_cons]
      exact hwritten
    · rw [run_append, run_cons, run_cons, run_nil, col_lineFeed]
      rfl
    · intro herase i hi
      rw [Function.update_of_ne (by omega)]
      exact hblank herase i (by omega)

/-- The next rows are erased, and the bottom row is not left behind. -/
lemma eraseNext (h : Window t top row canvas) (shown : Line → List Cell)
    (hmove : ∀ {t : Terminal Cell} {row : ℕ} {canvas : ℕ → List Cell}, Window t top row canvas →
      row + 1 < top + t.height → Window (t.run shown move) top (row + 1) canvas)
    (hn : row + n < top + t.height) :
    Window (t.run shown (Terminal.eraseNext move n)) top (row + n) (erasedNext canvas row n) := by
  induction n generalizing t row canvas with
  | zero =>
    rw [erasedNext_zero]
    exact h
  | succ n ih =>
    have hnext := (hmove h (by omega)).eraseLine shown
    have herased := ih hnext (by rw [height_perform, height_run]; omega)
    rw [Nat.add_right_comm] at herased
    rw [erasedNext_succ, Terminal.eraseNext, replicate_succ, flatten_cons, run_append, run_append]
    exact herased

lemma down_one (h : Window t top row canvas) (shown : Line → List Cell)
    (hrow : row + 1 < top + t.height) :
    Window (t.run shown [.down 1, .carriageReturn]) top (row + 1) canvas := by
  have hdown := (h.down shown 1).carriageReturn shown
  have hmin : min (row + 1) (top + t.height - 1) = row + 1 := by omega
  rwa [hmin] at hdown

lemma newLine (h : Window t top row canvas) (shown : Line → List Cell)
    (hrow : row + 1 < top + t.height) :
    Window (t.run shown [.carriageReturn, .lineFeed]) top (row + 1) canvas := by
  have hfed := (h.carriageReturn shown).lineFeed shown
  have htop : max top (row + 2 - t.height) = top := by omega
  rwa [height_perform, htop] at hfed

end Window

end Lines

end Terminal
