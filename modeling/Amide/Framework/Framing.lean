import Mathlib.Data.List.Forall2

/-!
# Frames in a stream of bytes

A `Framing` reads one frame off the front of what has been received, asks for more, or rejects it;
more input changes none of its answers but the second.  `drain` takes off all frames there are.

A reader gets the stream in chunks.  `feed` is a reader that hands on the frames of a chunk once
all of the chunk has been looked at, and drops them when it then meets an error.  The error it ends
with does not depend on where the stream is cut (`feed_snd`), and without an error neither do the
frames (`feed_of_ok`); with one they do, unless there is no frame before it (`feed_eq_iff`).
-/

structure Framing (β ε α : Type) where
  next : List β → Except ε (Option (α × List β))
  next_nil : next [] = .ok none
  /-- A frame is a piece of the stream that stands for itself. -/
  next_some {s rest : List β} {a : α} : next s = .ok (some (a, rest)) →
    ∃ frame, frame ≠ [] ∧ s = frame ++ rest ∧ ∀ t, next (frame ++ t) = .ok (some (a, t))
  next_error {s : List β} {e : ε} : next s = .error e → ∀ t, next (s ++ t) = .error e

namespace Framing

open List

variable {β ε α : Type} (F : Framing β ε α) {s t rest : List β} {a : α} {e : ε}

lemma length_lt_of_next (h : F.next s = .ok (some (a, rest))) : rest.length < s.length := by
  obtain ⟨frame, hne, rfl, -⟩ := F.next_some h
  rw [length_append]
  have hpos := length_pos_of_ne_nil hne
  omega

/-- The frames a stream begins with, and what stands behind them. -/
def drain (s : List β) : List α × Except ε (List β) :=
  match _h : F.next s with
  | .error e => ([], .error e)
  | .ok none => ([], .ok s)
  | .ok (some (a, rest)) => (a :: (drain rest).1, (drain rest).2)
termination_by s.length
decreasing_by
  all_goals exact F.length_lt_of_next _h

lemma drain_step (s : List β) : F.drain s = match F.next s with
      | .error e => ([], .error e)
      | .ok none => ([], .ok s)
      | .ok (some (a, rest)) => (a :: (F.drain rest).1, (F.drain rest).2) := by
  rw [drain]
  split
  all_goals
    rename_i h
    rw [h]

lemma drain_of_error (h : F.next s = .error e) : F.drain s = ([], .error e) := by
  rw [drain_step, h]

lemma drain_of_none (h : F.next s = .ok none) : F.drain s = ([], .ok s) := by
  rw [drain_step, h]

lemma drain_of_some (h : F.next s = .ok (some (a, rest))) :
    F.drain s = (a :: (F.drain rest).1, (F.drain rest).2) := by
  rw [drain_step, h]

@[simp] lemma drain_nil : F.drain [] = ([], .ok []) := F.drain_of_none F.next_nil

/-- Behind a rejected beginning nothing is read. -/
theorem drain_append_of_error (h : (F.drain s).2 = .error e) (t : List β) :
    F.drain (s ++ t) = F.drain s := by
  induction s using drain.induct F with
  | case1 s e' hnext => rw [F.drain_of_error hnext, F.drain_of_error (F.next_error hnext t)]
  | case2 s hnext =>
    rw [F.drain_of_none hnext] at h
    cases h
  | case3 s a rest hnext ih =>
    rw [F.drain_of_some hnext] at h
    obtain ⟨frame, -, rfl, hframe⟩ := F.next_some hnext
    rw [append_assoc, F.drain_of_some (hframe (rest ++ t)), F.drain_of_some hnext, ih h]

/-- What is left over is read on with what comes next. -/
theorem drain_append_of_ok (h : (F.drain s).2 = .ok rest) (t : List β) :
    F.drain (s ++ t) = ((F.drain s).1 ++ (F.drain (rest ++ t)).1, (F.drain (rest ++ t)).2) := by
  induction s using drain.induct F with
  | case1 s e' hnext =>
    rw [F.drain_of_error hnext] at h
    cases h
  | case2 s hnext =>
    rw [F.drain_of_none hnext] at h ⊢
    cases h
    rfl
  | case3 s a rest' hnext ih =>
    rw [F.drain_of_some hnext] at h
    obtain ⟨frame, -, rfl, hframe⟩ := F.next_some hnext
    rw [append_assoc, F.drain_of_some (hframe (rest' ++ t)), F.drain_of_some hnext, ih h]
    rfl

/-- Nothing more can be read off what is left over. -/
theorem next_rest (h : (F.drain s).2 = .ok rest) : F.next rest = .ok none := by
  induction s using drain.induct F with
  | case1 s e' hnext =>
    rw [F.drain_of_error hnext] at h
    cases h
  | case2 s hnext =>
    rw [F.drain_of_none hnext] at h
    cases h
    exact hnext
  | case3 s a rest' hnext ih =>
    rw [F.drain_of_some hnext] at h
    exact ih h

lemma drain_rest (h : (F.drain s).2 = .ok rest) : F.drain rest = ([], .ok rest) :=
  F.drain_of_none (F.next_rest h)

/-! ## A stream in chunks -/

/-- The frames that a chunk completes, dropped when an error comes behind them. -/
def push (buffered chunk : List β) : Except ε (List α × List β) :=
  match F.drain (buffered ++ chunk) with
  | (frames, .ok rest) => .ok (frames, rest)
  | (_, .error e) => .error e

/-- A reader of the chunks: the frames it hands on, and what it ends with. -/
def feed (buffered : List β) : List (List β) → List α × Except ε (List β)
  | [] => ([], .ok buffered)
  | chunk :: chunks =>
    match F.push buffered chunk with
    | .error e => ([], .error e)
    | .ok (frames, rest) => (frames ++ (feed rest chunks).1, (feed rest chunks).2)

variable {buffered : List β}

section
variable (chunks : List (List β)) (hbuffered : F.drain buffered = ([], .ok buffered))
include chunks hbuffered

/-- The error shows wherever the stream is cut, and what is left over is the same. -/
theorem feed_snd : (F.feed buffered chunks).2 = (F.drain (buffered ++ chunks.flatten)).2 := by
  induction chunks generalizing buffered with
  | nil =>
    rw [flatten_nil, append_nil, hbuffered]
    rfl
  | cons chunk chunks ih =>
    rw [feed, push, flatten_cons, ← append_assoc]
    rcases hdrain : F.drain (buffered ++ chunk) with ⟨frames, e | rest⟩
    · rw [F.drain_append_of_error (congrArg Prod.snd hdrain), hdrain]
    · have hok := congrArg Prod.snd hdrain
      rw [F.drain_append_of_ok hok]
      exact ih (F.drain_rest hok)

/-- Without an error the frames are the same too. -/
theorem feed_of_ok (hok : (F.drain (buffered ++ chunks.flatten)).2 = .ok rest) :
    F.feed buffered chunks = F.drain (buffered ++ chunks.flatten) := by
  induction chunks generalizing buffered with
  | nil =>
    rw [flatten_nil, append_nil, hbuffered]
    rfl
  | cons chunk chunks ih =>
    rw [flatten_cons, ← append_assoc] at hok ⊢
    rw [feed, push]
    rcases hdrain : F.drain (buffered ++ chunk) with ⟨frames, e | rest'⟩
    · rw [F.drain_append_of_error (congrArg Prod.snd hdrain), hdrain] at hok
      cases hok
    · have hok' := congrArg Prod.snd hdrain
      rw [F.drain_append_of_ok hok'] at hok ⊢
      rw [hdrain, ← ih (F.drain_rest hok') hok]

/-- Every frame handed on is one of the stream, in order. -/
theorem feed_fst_prefix :
    (F.feed buffered chunks).1 <+: (F.drain (buffered ++ chunks.flatten)).1 := by
  induction chunks generalizing buffered with
  | nil => exact nil_prefix
  | cons chunk chunks ih =>
    rw [flatten_cons, ← append_assoc, feed, push]
    rcases hdrain : F.drain (buffered ++ chunk) with ⟨frames, e | rest⟩
    · exact nil_prefix
    · have hok := congrArg Prod.snd hdrain
      rw [F.drain_append_of_ok hok, hdrain]
      exact (prefix_append_right_inj frames).2 (ih (F.drain_rest hok))

end

/-- The chunks do not matter to the reader exactly when there is no error, or no frame before
it. -/
theorem feed_eq_iff (s : List β) :
    (∀ chunks chunks' : List (List β), chunks.flatten = s → chunks'.flatten = s →
      F.feed [] chunks = F.feed [] chunks') ↔
    (F.drain s).1 = [] ∨ ∃ rest, (F.drain s).2 = .ok rest := by
  constructor
  · intro hall
    rcases hdrain : (F.drain s).2 with e | rest
    · left
      rcases hnext : F.next s with e' | _ | ⟨a, rest⟩
      · rw [F.drain_of_error hnext]
      · rw [F.drain_of_none hnext]
      · -- the frame arrives in a chunk of its own, or in one with all the rest
        obtain ⟨frame, -, rfl, hframe⟩ := F.next_some hnext
        have hwhole := hall [frame, rest] [frame ++ rest] (by simp) (by simp)
        have hfirst : F.drain frame = ([a], .ok []) := by
          have hframe' := hframe []
          rw [append_nil] at hframe'
          rw [F.drain_of_some hframe', F.drain_nil]
        have hsplit : a ∈ (F.feed [] [frame, rest]).1 := by
          rw [feed, push, nil_append, hfirst]
          exact mem_cons_self
        have hdropped : (F.feed [] [frame ++ rest]).1 = [] := by
          rw [feed, push, nil_append]
          rcases hpair : F.drain (frame ++ rest) with ⟨frames, e' | rest'⟩
          · rfl
          · rw [hpair] at hdrain
            cases hdrain
        rw [hwhole, hdropped] at hsplit
        cases hsplit
    · exact .inr ⟨rest, rfl⟩
  · rintro (hnil | ⟨rest, hok⟩) chunks chunks' rfl hflat
    · apply Prod.ext
      · have h := F.feed_fst_prefix chunks F.drain_nil
        have h' := F.feed_fst_prefix chunks' F.drain_nil
        rw [nil_append] at h h'
        rw [hflat] at h'
        rw [hnil] at h h'
        rw [prefix_nil.1 h, prefix_nil.1 h']
      · rw [F.feed_snd chunks F.drain_nil, F.feed_snd chunks' F.drain_nil, hflat]
    · rw [F.feed_of_ok chunks F.drain_nil hok, F.feed_of_ok chunks' F.drain_nil, hflat]
      rw [hflat]
      exact hok

/-! ## Encoded frames -/

/-- The bytes are a whole frame. -/
def Encodes (frame : List β) (a : α) : Prop :=
  frame ≠ [] ∧ ∀ t, F.next (frame ++ t) = .ok (some (a, t))

/-- What is taken off and what is left over make up the stream. -/
theorem exists_encodes_of_drain (h : (F.drain s).2 = .ok rest) :
    ∃ frames, List.Forall₂ F.Encodes frames (F.drain s).1 ∧ s = frames.flatten ++ rest := by
  induction s using drain.induct F with
  | case1 s e hnext =>
    rw [F.drain_of_error hnext] at h
    cases h
  | case2 s hnext =>
    rw [F.drain_of_none hnext] at h ⊢
    cases h
    exact ⟨[], .nil, rfl⟩
  | case3 s a rest' hnext ih =>
    rw [F.drain_of_some hnext] at h ⊢
    obtain ⟨frames, hframes, hflat⟩ := ih h
    obtain ⟨frame, hne, rfl, hframe⟩ := F.next_some hnext
    refine ⟨frame :: frames, .cons ⟨hne, hframe⟩ hframes, ?_⟩
    rw [flatten_cons, append_assoc, ← hflat]

/-- The beginning of a frame is no frame, and no error. -/
lemma next_of_encodes_append {t : List β} (h : F.Encodes (s ++ t) a) (hne : t ≠ []) :
    F.next s = .ok none := by
  rcases hnext : F.next s with e | _ | ⟨b, rest⟩
  · have herror := F.next_error hnext t
    have hframe := h.2 []
    rw [append_nil, herror] at hframe
    cases hframe
  · rfl
  · obtain ⟨frame, -, rfl, hframe⟩ := F.next_some hnext
    have hwhole := h.2 []
    rw [append_nil, append_assoc, hframe] at hwhole
    cases t with
    | nil => exact absurd rfl hne
    | cons b' t =>
      simp at hwhole

variable {frames : List (List β)}

lemma drain_flatten_of_encodes {as : List α}
    (h : List.Forall₂ F.Encodes frames as) : F.drain frames.flatten = (as, .ok []) := by
  induction h with
  | nil => exact F.drain_nil
  | cons hframe _ ih => rw [flatten_cons, F.drain_of_some (hframe.2 _), ih]

/-- Of some frames in a row any beginning holds the first ones and a piece left over. -/
theorem drain_of_encodes {as : List α}
    (h : List.Forall₂ F.Encodes frames as) (hs : s ++ t = frames.flatten) :
    ∃ n rest, F.drain s = (as.take n, .ok rest) ∧ s = (frames.take n).flatten ++ rest := by
  induction h generalizing s with
  | nil =>
    obtain ⟨rfl, -⟩ := append_eq_nil_iff.1 hs
    exact ⟨0, [], F.drain_nil, rfl⟩
  | @cons frame a frames as hframe _ ih =>
    rcases append_eq_append_iff.1 hs with ⟨u, hu, hrest⟩ | ⟨u, rfl, hrest⟩
    · -- `s` ends inside the first frame
      rcases eq_or_ne u [] with rfl | hne
      · have hwhole := hframe.2 []
        rw [hu, append_nil] at hwhole
        rw [append_nil] at hwhole
        refine ⟨1, [], ?_, ?_⟩
        · rw [F.drain_of_some hwhole, F.drain_nil]
          rfl
        · simp [hu]
      · subst hu
        exact ⟨0, s, F.drain_of_none (F.next_of_encodes_append hframe hne), rfl⟩
    · obtain ⟨n, rest, hdrain, rfl⟩ := ih hrest.symm
      refine ⟨n + 1, rest, ?_, ?_⟩
      · rw [F.drain_of_some (hframe.2 _), hdrain, take_succ_cons]
      · rw [take_succ_cons, flatten_cons, append_assoc]

end Framing
