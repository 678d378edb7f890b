import Amide.Framework.JsMap
import Mathlib.Data.List.Perm.Basic
import Mathlib.Order.Nat

/-!
# Lanes of tasks

Tasks with one key run one after the other.  A task that is queued waits for the task that was the
tail of its lane then, and becomes the tail itself (`Lanes.queue`); a tail that has settled may be
forgotten at any time afterwards (`Lanes.forget`).

However these steps are interleaved with the tasks' own, a task that is ready has no earlier task of
its key left (`Chained.settled_of_ready`), so that at most one runs for each key
(`Chained.eq_of_running`), and as long as a task is left, one is ready or running
(`Chained.exists_active`).
-/

/-- A task that runs holds what it runs on. -/
inductive TaskPhase (β : Type*) where
  | waiting
  | running (b : β)
  | settled
  deriving DecidableEq

def TaskPhase.isSettled {β : Type*} : TaskPhase β → Bool
  | .settled => true
  | _ => false

/-- The steps a task has in front of it at most. -/
def TaskPhase.remaining {β : Type*} : TaskPhase β → ℕ
  | .waiting => 2
  | .running _ => 1
  | .settled => 0

structure LaneTask (κ α β : Type*) where
  key : κ
  item : α
  previous : Option ℕ
  phase : TaskPhase β
  deriving DecidableEq

/-- The tasks in the order they were queued, and the tails of the lanes. -/
structure Lanes (κ α β : Type*) where
  tasks : List (LaneTask κ α β)
  tails : JsMap κ ℕ

namespace Lanes

open List

variable {κ α β : Type*} [DecidableEq κ] {l : Lanes κ α β} {i j : ℕ} {t u : LaneTask κ α β}

def empty : Lanes κ α β := ⟨[], .empty⟩

def items (l : Lanes κ α β) : List α := l.tasks.map LaneTask.item

def queue (l : Lanes κ α β) (key : κ) (item : α) : Lanes κ α β where
  tasks := l.tasks ++ [⟨key, item, l.tails.get? key, .waiting⟩]
  tails := l.tails.set key l.tasks.length

def setPhase (l : Lanes κ α β) (i : ℕ) (phase : TaskPhase β) : Lanes κ α β where
  tasks := l.tasks.modify i fun task => { task with phase }
  tails := l.tails

/-- The tail is forgotten unless another task has become it. -/
def forget (l : Lanes κ α β) (i : ℕ) (key : κ) : Lanes κ α β :=
  if l.tails.get? key = some i then { l with tails := l.tails.delete key } else l

/-- What it waits for has settled. -/
def Ready (l : Lanes κ α β) (t : LaneTask κ α β) : Prop :=
  t.phase = .waiting ∧ ∀ p, t.previous = some p → ∃ u, l.tasks[p]? = some u ∧ u.phase = .settled

/-- The items of the tasks that have not settled. -/
def pending (l : Lanes κ α β) : List α :=
  (l.tasks.filter fun task => !task.phase.isSettled).map LaneTask.item

/-- The tail of a lane is the last task of its key, unless all of them have settled; each task waits
for the one before it in this sense; and none has begun with an earlier one left. -/
structure Chained (l : Lanes κ α β) : Prop where
  key_of_tail : ∀ (key : κ) (p : ℕ), l.tails.get? key = some p →
    ∃ t : LaneTask κ α β, l.tasks[p]? = some t ∧ t.key = key
  tail : ∀ (i : ℕ) (t : LaneTask κ α β), l.tasks[i]? = some t → t.phase ≠ .settled →
    ∃ p, l.tails.get? t.key = some p ∧ i ≤ p
  key_of_previous : ∀ (i p : ℕ) (t : LaneTask κ α β), l.tasks[i]? = some t → t.previous = some p →
    p < i ∧ ∃ u : LaneTask κ α β, l.tasks[p]? = some u ∧ u.key = t.key
  previous : ∀ (i j : ℕ) (t u : LaneTask κ α β), l.tasks[i]? = some t → l.tasks[j]? = some u →
    i < j → t.key = u.key → t.phase ≠ .settled → ∃ p, u.previous = some p ∧ i ≤ p
  begun : ∀ (i j : ℕ) (t u : LaneTask κ α β), l.tasks[i]? = some t → l.tasks[j]? = some u →
    i < j → t.key = u.key → u.phase ≠ .waiting → t.phase = .settled

lemma chained_empty : (empty : Lanes κ α β).Chained where
  key_of_tail _ _ h := by cases h
  tail _ _ h := by cases h
  key_of_previous _ _ _ h := by cases h
  previous _ _ _ _ h := by cases h
  begun _ _ _ _ h := by cases h

namespace Chained

section
variable (h : l.Chained) (ht : l.tasks[i]? = some t)
include h ht

/-- A task that is ready is the first of its key that is left. -/
theorem settled_of_ready (hu : l.tasks[j]? = some u) (hready : l.Ready u) (hlt : i < j)
    (hkey : t.key = u.key) : t.phase = .settled := by
  by_contra hleft
  obtain ⟨p, hprev, hle⟩ := h.previous i j t u ht hu hlt hkey hleft
  obtain ⟨v, hv, hsettled⟩ := hready.2 p hprev
  obtain ⟨-, v', hv', hkey'⟩ := h.key_of_previous j p u hu hprev
  obtain rfl : v = v' := Option.mem_unique hv hv'
  rcases hle.eq_or_lt with rfl | hlt'
  · rw [Option.mem_unique ht hv] at hleft
    exact hleft hsettled
  · refine hleft (h.begun i p t v ht hv hlt' (hkey.trans hkey'.symm) ?_)
    rw [hsettled]
    nofun

/-- At most one task runs for each key. -/
theorem eq_of_running {b c : β} (hu : l.tasks[j]? = some u) (hkey : t.key = u.key)
    (hb : t.phase = .running b) (hc : u.phase = .running c) : i = j := by
  rcases lt_trichotomy i j with hlt | heq | hlt
  · have hsettled := h.begun i j t u ht hu hlt hkey (by rw [hc]; nofun)
    rw [hb] at hsettled
    cases hsettled
  · exact heq
  · have hsettled := h.begun j i u t hu ht hlt hkey.symm (by rw [hb]; nofun)
    rw [hc] at hsettled
    cases hsettled

/-- As long as a task is left, the first one left is ready or runs. -/
theorem exists_active (hleft : t.phase ≠ .settled) : ∃ (j : ℕ) (u : LaneTask κ α β),
      l.tasks[j]? = some u ∧ (l.Ready u ∨ ∃ b, u.phase = .running b) := by
  induction i using Nat.strong_induction_on generalizing t with
  | _ i ih =>
    cases hphase : t.phase with
    | settled => exact absurd hphase hleft
    | running b => exact ⟨i, t, ht, .inr ⟨b, hphase⟩⟩
    | waiting =>
      by_cases hready : l.Ready t
      · exact ⟨i, t, ht, .inl hready⟩
      · simp only [Ready, hphase, true_and, not_forall, not_exists, not_and] at hready
        obtain ⟨p, hprev, hunset⟩ := hready
        obtain ⟨hlt, u, hu, -⟩ := h.key_of_previous i p t ht hprev
        exact ih p hlt hu (hunset u hu)

end

end Chained

/-! ## Steps -/

variable (key : κ)

lemma getElem?_queue (item : α) : (l.queue key item).tasks[i]? = some t ↔ l.tasks[i]? = some t ∨
      (i = l.tasks.length ∧ t = ⟨key, item, l.tails.get? key, .waiting⟩) := by
  rw [queue, getElem?_append]
  split_ifs with hlt
  · simp [hlt.ne]
  · rw [getElem?_eq_none (not_lt.mp hlt), getElem?_singleton]
    split_ifs with hzero
    · simp only [Option.some.injEq, false_or]
      exact ⟨fun h => ⟨by omega, h.symm⟩, fun h => h.2.symm⟩
    · simp only [false_or, false_iff, not_and]
      omega

omit [DecidableEq κ] in
lemma lt_length_of_getElem? (h : l.tasks[i]? = some t) : i < l.tasks.length :=
  (List.getElem?_eq_some_iff.mp h).1

lemma Chained.queue (h : l.Chained) (key : κ) (item : α) : (l.queue key item).Chained where
  key_of_tail := by
    intro k p hp
    rw [Lanes.queue, JsMap.get?_set] at hp
    split_ifs at hp with hk
    · cases hp
      exact ⟨_, (getElem?_queue key item).mpr (.inr ⟨rfl, rfl⟩), hk⟩
    · obtain ⟨t, ht, hkey⟩ := h.key_of_tail k p hp
      exact ⟨t, (getElem?_queue key item).mpr (.inl ht), hkey⟩
  tail := by
    intro i t ht hleft
    rw [Lanes.queue, JsMap.get?_set]
    rcases (getElem?_queue key item).mp ht with hold | ⟨rfl, rfl⟩
    · split_ifs with hkey
      · exact ⟨_, rfl, (lt_length_of_getElem? hold).le⟩
      · exact h.tail i t hold hleft
    · exact ⟨_, if_pos rfl, le_rfl⟩
  key_of_previous := by
    intro i p t ht hp
    rcases (getElem?_queue key item).mp ht with hold | ⟨rfl, rfl⟩
    · obtain ⟨hlt, u, hu, hkey⟩ := h.key_of_previous i p t hold hp
      exact ⟨hlt, u, (getElem?_queue key item).mpr (.inl hu), hkey⟩
    · obtain ⟨u, hu, hkey⟩ := h.key_of_tail key p hp
      exact ⟨lt_length_of_getElem? hu, u, (getElem?_queue key item).mpr (.inl hu), hkey⟩
  previous := by
    intro i j t u ht hu hlt hkey hleft
    rcases (getElem?_queue key item).mp ht with hold | ⟨rfl, rfl⟩
    · rcases (getElem?_queue key item).mp hu with hold' | ⟨rfl, rfl⟩
      · exact h.previous i j t u hold hold' hlt hkey hleft
      · obtain ⟨p, hp, hle⟩ := h.tail i t hold hleft
        exact ⟨p, (congrArg l.tails.get? hkey).symm.trans hp, hle⟩
    · rcases (getElem?_queue key item).mp hu with hold' | ⟨rfl, rfl⟩
      · exact absurd (lt_length_of_getElem? hold') (by omega)
      · exact absurd hlt (lt_irrefl _)
  begun := by
    intro i j t u ht hu hlt hkey hbegun
    rcases (getElem?_queue key item).mp hu with hold' | ⟨rfl, rfl⟩
    · rcases (getElem?_queue key item).mp ht with hold | ⟨rfl, rfl⟩
      · exact h.begun i j t u hold hold' hlt hkey hbegun
      · exact absurd (lt_length_of_getElem? hold') (by omega)
    · exact absurd rfl hbegun

omit [DecidableEq κ] in
lemma getElem?_setPhase (phase : TaskPhase β) (j : ℕ) : (l.setPhase i phase).tasks[j]? =
      l.tasks[j]?.map fun task => if i = j then { task with phase } else task := by
  rw [setPhase, getElem?_modify]
  cases l.tasks[j]? <;> simp only [Option.map_none, Option.map_some] <;> split_ifs <;> rfl

variable {phase : TaskPhase β}

omit [DecidableEq κ] in
lemma exists_of_getElem?_setPhase
    (h : (l.setPhase i phase).tasks[j]? = some u) :
    ∃ t, l.tasks[j]? = some t ∧ u.key = t.key ∧ u.previous = t.previous ∧ u.item = t.item ∧
      ((i = j ∧ u.phase = phase) ∨ (i ≠ j ∧ u = t)) := by
  rw [getElem?_setPhase] at h
  obtain ⟨t, ht, hu⟩ := Option.map_eq_some_iff.mp h
  refine ⟨t, ht, ?_⟩
  split_ifs at hu with hij <;> subst hu <;> simp [hij]

omit [DecidableEq κ] in
lemma exists_of_mem_setPhase (h : u ∈ (l.setPhase i phase).tasks) :
    ∃ t ∈ l.tasks, u.key = t.key ∧ u.item = t.item ∧
      (u.phase = t.phase ∨ (l.tasks[i]? = some t ∧ u.phase = phase)) := by
  obtain ⟨j, hj⟩ := mem_iff_getElem?.mp h
  obtain ⟨t, ht, hkey, -, hitem, ⟨rfl, hphase⟩ | ⟨-, rfl⟩⟩ := exists_of_getElem?_setPhase hj
  · exact ⟨t, mem_of_getElem? ht, hkey, hitem, .inr ⟨ht, hphase⟩⟩
  · exact ⟨u, mem_of_getElem? ht, rfl, rfl, .inl rfl⟩

/-- The first task left of its key moves on. -/
theorem Chained.setPhase (h : l.Chained) (ht : l.tasks[i]? = some t)
    (hleft : t.phase ≠ .settled)
    (hfirst : ∀ j u, l.tasks[j]? = some u → j < i → u.key = t.key → u.phase = .settled) :
    (l.setPhase i phase).Chained := by
  have hold {j : ℕ} {u : LaneTask κ α β} (hu : (l.setPhase i phase).tasks[j]? = some u)
      (hunset : u.phase ≠ .settled) :
      ∃ t, l.tasks[j]? = some t ∧ t.phase ≠ .settled ∧ u.key = t.key := by
    obtain ⟨v, hv, hkey, -, -, ⟨rfl, -⟩ | ⟨-, rfl⟩⟩ := exists_of_getElem?_setPhase hu
    · rw [← Option.mem_unique ht hv] at hkey
      exact ⟨t, ht, hleft, hkey⟩
    · exact ⟨u, hv, hunset, rfl⟩
  have hmoved {j : ℕ} {u : LaneTask κ α β} (hu : l.tasks[j]? = some u) :
      ∃ v, (l.setPhase i phase).tasks[j]? = some v ∧ v.key = u.key := by
    rw [getElem?_setPhase, hu]
    exact ⟨_, rfl, by split_ifs <;> rfl⟩
  exact {
    key_of_tail := by
      intro key p hp
      obtain ⟨u, hu, hkey⟩ := h.key_of_tail key p hp
      obtain ⟨v, hv, hkey'⟩ := hmoved hu
      exact ⟨v, hv, hkey'.trans hkey⟩
    tail := by
      intro j u hu hunset
      obtain ⟨v, hv, hunset', hkey⟩ := hold hu hunset
      rw [hkey]
      exact h.tail j v hv hunset'
    key_of_previous := by
      intro j p u hu hp
      obtain ⟨v, hv, hkey, hprev, -⟩ := exists_of_getElem?_setPhase hu
      obtain ⟨hlt, w, hw, hkey'⟩ := h.key_of_previous j p v hv (hprev ▸ hp)
      obtain ⟨w', hw', hkey''⟩ := hmoved hw
      exact ⟨hlt, w', hw', by rw [hkey'', hkey', hkey]⟩
    previous := by
      intro a b u v hu hv hlt hkey hunset
      obtain ⟨u', hu', hunset', hkey'⟩ := hold hu hunset
      obtain ⟨v', hv', hkey'', hprev, -⟩ := exists_of_getElem?_setPhase hv
      rw [hprev]
      exact h.previous a b u' v' hu' hv' hlt (by rw [← hkey', hkey, hkey'']) hunset'
    begun := by
      intro a b u v hu hv hlt hkey hbegun
      by_contra hunset
      obtain ⟨u', hu', hunset', hkey'⟩ := hold hu hunset
      obtain ⟨v', hv', hkey'', -, -, ⟨rfl, -⟩ | ⟨-, rfl⟩⟩ := exists_of_getElem?_setPhase hv
      · rw [← Option.mem_unique ht hv'] at hkey''
        exact hunset' (hfirst a u' hu' hlt (by rw [← hkey', hkey, hkey'']))
      · exact hunset' (h.begun a b u' v hu' hv' hlt (by rw [← hkey', hkey]) hbegun) }

lemma Chained.start (h : l.Chained) (ht : l.tasks[i]? = some t)
    (hready : l.Ready t) : (l.setPhase i phase).Chained :=
  h.setPhase ht (by rw [hready.1]; nofun) fun _ _ hu hlt hkey =>
    h.settled_of_ready hu ht hready hlt hkey

lemma Chained.settle (h : l.Chained) {b : β} (ht : l.tasks[i]? = some t)
    (hb : t.phase = .running b) : (l.setPhase i phase).Chained :=
  h.setPhase ht (by rw [hb]; nofun) fun j u hu hlt hkey =>
    h.begun j i u t hu ht hlt hkey (by rw [hb]; nofun)

lemma Chained.forget (h : l.Chained) (ht : l.tasks[i]? = some t) (hsettled : t.phase = .settled) :
    (l.forget i t.key).Chained := by
  rw [Lanes.forget]
  split_ifs with htail
  · exact {
      key_of_tail := by
        intro key p hp
        rw [JsMap.get?_delete] at hp
        split_ifs at hp
        exact h.key_of_tail key p hp
      tail := by
        intro j u hu hleft
        obtain ⟨p, hp, hle⟩ := h.tail j u hu hleft
        rw [JsMap.get?_delete]
        split_ifs with hkey
        · rw [← hkey, htail] at hp
          cases hp
          rcases hle.eq_or_lt with rfl | hlt
          · rw [Option.mem_unique hu ht] at hleft
            exact absurd hsettled hleft
          · -- the tail has settled, and so have the tasks in front of it
            refine absurd (h.begun j i u t hu ht hlt hkey.symm ?_) hleft
            rw [hsettled]
            rintro ⟨⟩
        · exact ⟨p, hp, hle⟩
      key_of_previous := h.key_of_previous
      previous := h.previous
      begun := h.begun }
  · exact h

/-! ## The items, and what is left -/

omit [DecidableEq κ] in
@[simp] lemma items_setPhase (phase : TaskPhase β) : (l.setPhase i phase).items = l.items := by
  refine ext_getElem? fun j => ?_
  rw [items, items, getElem?_map, getElem?_map, getElem?_setPhase, Option.map_map]
  cases l.tasks[j]? with
  | none => rfl
  | some t =>
    simp only [Option.map_some, Function.comp_apply]
    split_ifs <;> rfl

lemma items_queue (item : α) : (l.queue key item).items = l.items ++ [item] := by
  rw [items, queue, map_append]
  rfl

@[simp] lemma tasks_forget : (l.forget i key).tasks = l.tasks := by
  rw [forget]
  split_ifs <;> rfl

lemma pending_queue (item : α) : (l.queue key item).pending = l.pending ++ [item] := by
  rw [pending, queue, filter_append, map_append]
  rfl

@[simp] lemma pending_forget : (l.forget i key).pending = l.pending := by
  rw [pending, tasks_forget, pending]

omit [DecidableEq κ] in
lemma exists_split_setPhase (ht : l.tasks[i]? = some t) :
    ∃ pre post, l.tasks = pre ++ t :: post ∧ ∀ phase,
      (l.setPhase i phase).tasks = pre ++ { t with phase } :: post := by
  obtain ⟨hlt, rfl⟩ := List.getElem?_eq_some_iff.mp ht
  refine ⟨l.tasks.take i, l.tasks.drop (i + 1), ?_, fun phase => ?_⟩
  · rw [getElem_cons_drop, take_append_drop]
  · exact modify_eq_take_cons_drop hlt

omit [DecidableEq κ] in
lemma pending_setPhase (ht : l.tasks[i]? = some t)
    (hleft : t.phase.isSettled = false) (hphase : phase.isSettled = false) :
    (l.setPhase i phase).pending = l.pending := by
  obtain ⟨pre, post, htasks, hset⟩ := exists_split_setPhase ht
  rw [pending, pending, hset, htasks]
  simp [hleft, hphase]

omit [DecidableEq κ] in
lemma pending_settle (ht : l.tasks[i]? = some t) (hleft : t.phase.isSettled = false) :
    l.pending.Perm (t.item :: (l.setPhase i .settled).pending) := by
  obtain ⟨pre, post, htasks, hset⟩ := exists_split_setPhase ht
  have hsettled : (TaskPhase.settled : TaskPhase β).isSettled = true := rfl
  rw [pending, pending, hset, htasks]
  simp only [filter_append, filter_cons, hleft, hsettled, Bool.not_false, Bool.not_true,
    if_true, Bool.false_eq_true, if_false, map_append, map_cons]
  exact perm_middle

/-- How far the tasks are from the end. -/
def remaining (l : Lanes κ α β) : ℕ := (l.tasks.map fun task => task.phase.remaining).sum

omit [DecidableEq κ] in
lemma remaining_setPhase (phase : TaskPhase β) (ht : l.tasks[i]? = some t) :
    (l.setPhase i phase).remaining + t.phase.remaining = l.remaining + phase.remaining := by
  obtain ⟨pre, post, htasks, hset⟩ := exists_split_setPhase ht
  rw [remaining, remaining, hset, htasks]
  simp only [map_append, map_cons, sum_append, sum_cons]
  omega

end Lanes
