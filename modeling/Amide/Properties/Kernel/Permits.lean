import Amide.Construction.Kernel.Semaphore
import Amide.Framework.Positions
import Mathlib.Data.List.Nodup
import Mathlib.Data.List.Range

/-!
# Permits are neither lost nor exceeded

However calls, aborts and releases are interleaved, the calls that hold a permit and the permits
that are free add up to what the semaphore was created with, and permits are obtained in the order
of the calls: those that have obtained one and those that wait are, in this order, the calls that
have not been rejected (`permits_kept`).  A call that waits and is not aborted has obtained a permit
after as many releases as there are calls in front of it, and one more. -/

namespace Amide

open Positions List

/-- The call has a permit that it will release. -/
def RunPhase.holds : RunPhase → Bool
  | .acquired | .running => true
  | _ => false

def SemaphoreStep.isRelease : SemaphoreStep → Bool
  | .finish _ => true
  | _ => false

namespace SemaphoreSystem

variable {s s' : SemaphoreSystem} {i permits : ℕ} {call : RunCall}
  {p q : RunPhase}

def holders (s : SemaphoreSystem) : ℕ := s.calls.countP fun call => call.phase.holds

def isRejected (s : SemaphoreSystem) (i : ℕ) : Bool := s.phase? i = some .rejected

/-- The calls that have not been rejected, in the order they were made. -/
def accepted (s : SemaphoreSystem) : List ℕ :=
  (List.range s.calls.length).filter fun i => !s.isRejected i

structure Kept (permits : ℕ) (s : SemaphoreSystem) : Prop where
  conserved : s.holders + s.semaphore.available = permits
  order : s.obtained ++ s.semaphore.waiters = s.accepted
  waiting : ∀ i, i ∈ s.semaphore.waiters ↔ s.phase? i = some .waiting
  free : s.semaphore.waiters ≠ [] → s.semaphore.available = 0
  aborted : ∀ call ∈ s.calls, call.phase = .rejected → ∃ signal ∈ s.aborted, call.signal = signal

/-! ## A change of one call -/

/-- The call `i` goes from one phase to another. -/
def Changed (s s' : SemaphoreSystem) (i : ℕ) (p q : RunPhase) : Prop :=
  ∃ (f : RunCall → RunCall) (call : RunCall), s'.calls = s.calls.modify i f ∧
    s.calls[i]? = some call ∧ call.phase = p ∧ (f call).phase = q ∧ (f call).signal = call.signal

namespace Changed

variable (hc : Changed s s' i p q)
include hc

lemma phase?_eq (j : ℕ) : s'.phase? j = if i = j then some q else s.phase? j := by
  obtain ⟨f, call, hcalls, hcall, -, hq, -⟩ := hc
  rw [phase?, hcalls, getElem?_modify]
  split_ifs with hij
  · subst hij
    rw [hcall]
    exact congrArg some hq
  · rw [phase?, id_map']

lemma phase?_self : s.phase? i = some p := by
  obtain ⟨f, call, -, hcall, hp, -⟩ := hc
  rw [phase?, hcall, ← hp]
  rfl

lemma holders_add : s'.holders + p.holds.toNat = s.holders + q.holds.toNat := by
  obtain ⟨f, call, hcalls, hcall, rfl, rfl, -⟩ := hc
  rw [holders, hcalls]
  exact countP_modify _ hcall f

lemma accepted_eq_filter : s'.accepted = (List.range s.calls.length).filter
    fun j => !decide ((if i = j then some q else s.phase? j) = some .rejected) := by
  have hlength : s'.calls.length = s.calls.length := by
    obtain ⟨f, call, hcalls, -⟩ := hc
    rw [hcalls, length_modify]
  rw [accepted, hlength]
  simp only [isRejected, hc.phase?_eq]

lemma accepted_eq (hiff : p = .rejected ↔ q = .rejected) : s'.accepted = s.accepted := by
  rw [hc.accepted_eq_filter, accepted]
  refine filter_congr fun j _ => ?_
  split_ifs with hij
  · subst hij
    simp [isRejected, hc.phase?_self, hiff]
  · rfl

lemma aborted_of (hsub : s.aborted ⊆ s'.aborted)
    (h : ∀ call ∈ s.calls, call.phase = .rejected → ∃ signal ∈ s.aborted, call.signal = signal)
    (hq : q = .rejected → ∀ call, s.calls[i]? = some call →
      ∃ signal ∈ s'.aborted, call.signal = signal) :
    ∀ call ∈ s'.calls, call.phase = .rejected → ∃ signal ∈ s'.aborted, call.signal = signal := by
  obtain ⟨f, call, hcalls, hcall, -, hphase, hsignal⟩ := hc
  intro call' hmem hrejected
  obtain ⟨j, hj⟩ := getElem?_of_mem hmem
  rw [hcalls, getElem?_modify] at hj
  split_ifs at hj with hij
  · subst hij
    rw [hcall] at hj
    cases hj
    rw [hsignal]
    exact hq (hphase.symm.trans hrejected) call hcall
  · rw [id_map'] at hj
    obtain ⟨signal, haborted, heq⟩ := h call' (mem_of_getElem? hj) hrejected
    exact ⟨signal, hsub haborted, heq⟩

end Changed

/-! ## A new call -/

section
variable (hcalls : s'.calls = s.calls ++ [call])
include hcalls

lemma phase?_concat (i : ℕ) :
    s'.phase? i = if i = s.calls.length then some call.phase else s.phase? i := by
  rw [phase?, phase?, hcalls, getElem?_append]
  split_ifs with hlt heq heq
  · omega
  · rfl
  · simp [heq]
  · rw [getElem?_eq_none (by simp; omega), getElem?_eq_none (by omega)]

lemma holders_concat : s'.holders = s.holders + call.phase.holds.toNat := by
  rw [holders, hcalls, countP_append, countP_singleton]
  cases call.phase.holds <;> rfl

lemma accepted_concat :
    s'.accepted = s.accepted ++ if call.phase = .rejected then [] else [s.calls.length] := by
  rw [accepted, hcalls, length_append, length_singleton, range_succ, filter_append, accepted]
  congr 1
  · refine filter_congr fun i hi => ?_
    have hne : i ≠ s.calls.length := (mem_range.mp hi).ne
    rw [isRejected, phase?_concat hcalls, if_neg hne, isRejected]
  · rw [filter_singleton]
    rw [isRejected, phase?_concat hcalls, if_pos rfl]
    by_cases hrejected : call.phase = .rejected <;> simp [hrejected]

end

lemma phase?_length : s.phase? s.calls.length = none := by
  simp [phase?]

/-! ## Steps -/

variable {n : ℕ}

namespace Kept

lemma nodup (h : s.Kept permits) : (s.obtained ++ s.semaphore.waiters).Nodup := by
  rw [h.order]
  exact nodup_range.filter _

/-- A change that concerns neither the queue nor the rejected calls. -/
lemma changed (h : s.Kept permits) (hc : Changed s s' i p q)
    (hsemaphore : s'.semaphore = s.semaphore) (hobtained : s'.obtained = s.obtained)
    (haborted : s'.aborted = s.aborted) (hwaiting : p = .waiting ↔ q = .waiting)
    (hrejected : p = .rejected ↔ q = .rejected)
    (hn : n + p.holds.toNat = permits + q.holds.toNat) : s'.Kept n where
  conserved := by
    have hholders := hc.holders_add
    have hcons := h.conserved
    rw [hsemaphore]
    omega
  order := by rw [hobtained, hsemaphore, h.order, hc.accepted_eq hrejected]
  waiting j := by
    rw [hsemaphore, h.waiting, hc.phase?_eq]
    split_ifs with hij
    · rw [← hij, hc.phase?_self, Option.some_inj, Option.some_inj, hwaiting]
    · rfl
  free := by
    rw [hsemaphore]
    exact h.free
  aborted := by
    refine hc.aborted_of (haborted ▸ Subset.refl _) h.aborted fun hq call hcall => ?_
    have hphase := hc.phase?_self
    rw [phase?, hcall] at hphase
    rw [haborted]
    exact h.aborted call (mem_of_getElem? hcall)
      ((Option.some.inj hphase).trans (hrejected.mpr hq))

lemma acquire (h : s.Kept permits) (signal : Option ℕ) : (s.acquire signal).Kept permits := by
  have hcons := h.conserved
  have hwaiting (s' : SemaphoreSystem) (call : RunCall) (hcalls : s'.calls = s.calls ++ [call])
      (i : ℕ) : i ∈ s.semaphore.waiters ∨ (i = s.calls.length ∧ call.phase = .waiting) ↔
        s'.phase? i = some .waiting := by
    rw [h.waiting, phase?_concat hcalls]
    split_ifs with heq
    · simp [heq, phase?_length]
    · simp [heq]
  unfold SemaphoreSystem.acquire
  split_ifs with haborted havailable
  · refine ⟨?_, ?_, fun i => .trans (by simp) (hwaiting _ _ rfl i), h.free, ?_⟩
    · rw [holders_concat rfl]
      exact hcons
    · rw [accepted_concat rfl, if_pos rfl, append_nil]
      exact h.order
    · refine List.forall_mem_append.mpr ⟨h.aborted, forall_mem_singleton.mpr fun _ => ?_⟩
      obtain ⟨a, hsignal, ha⟩ := Option.any_eq_true _ _ |>.mp haborted
      exact ⟨a, of_decide_eq_true ha, hsignal⟩
  · have hnil : s.semaphore.waiters = [] := not_ne_iff.mp fun hne => havailable.ne' (h.free hne)
    refine ⟨?_, ?_, fun i => .trans (by simp) (hwaiting _ _ rfl i), fun hne => absurd hnil hne, ?_⟩
    · rw [holders_concat rfl]
      change s.holders + 1 + (s.semaphore.available - 1) = permits
      omega
    · rw [accepted_concat rfl, if_neg (by simp), ← h.order]
      change s.obtained ++ [s.calls.length] ++ s.semaphore.waiters = _
      rw [hnil, append_nil, append_nil]
    · exact List.forall_mem_append.mpr ⟨h.aborted, by simp⟩
  · refine ⟨?_, ?_, fun i => .trans (by simp) (hwaiting _ _ rfl i),
      fun _ => by simpa using havailable, ?_⟩
    · rw [holders_concat rfl]
      exact hcons
    · rw [accepted_concat rfl, if_neg (by simp), ← h.order, append_assoc]
    · exact List.forall_mem_append.mpr ⟨h.aborted, by simp⟩

lemma release (h : s.Kept permits) : s.release.Kept (permits + 1) := by
  have hcons := h.conserved
  unfold SemaphoreSystem.release
  split
  · rename_i next waiters hwait
    have hnext : s.phase? next = some .waiting := (h.waiting next).mp (hwait ▸ mem_cons_self)
    obtain ⟨call, hcall, hphase⟩ := Option.map_eq_some_iff.mp hnext
    have hc : Changed s { s with
        semaphore := { s.semaphore with waiters }
        calls := s.calls.modify next (·.settle .acquired)
        obtained := s.obtained ++ [next] } next .waiting .acquired :=
      ⟨_, call, rfl, hcall, hphase, if_pos hphase, rfl⟩
    have hnodup := h.nodup.of_append_right
    rw [hwait] at hnodup
    refine ⟨?_, ?_, fun i => ?_, fun _ => h.free (by simp [hwait]), ?_⟩
    · have hholders : _ = s.holders + 1 := hc.holders_add
      rw [← hcons, Nat.add_right_comm, ← hholders]
      rfl
    · rw [hc.accepted_eq (by simp), ← h.order, hwait, append_assoc]
      rfl
    · have hiff := h.waiting i
      rw [hwait, mem_cons] at hiff
      rw [hc.phase?_eq]
      split_ifs with heq
      · simp [← heq, (nodup_cons.mp hnodup).1]
      · rw [← hiff]
        simp [Ne.symm heq]
    · exact hc.aborted_of (Subset.refl _) h.aborted (by simp)
  · rename_i hwait
    exact ⟨by rw [← hcons]; rfl, h.order, h.waiting, fun hne => absurd hwait hne, h.aborted⟩

lemma onAbort (h : s.Kept permits) (hhears : s.hears i = true) : (s.onAbort i).Kept permits := by
  obtain ⟨call, hcall, hlistening⟩ := (Option.any_eq_true _ _).mp hhears
  obtain ⟨-, hsignal⟩ := Bool.and_eq_true_iff.mp hlistening
  obtain ⟨signal, hsignal, haborted⟩ := (Option.any_eq_true _ _).mp hsignal
  have hc : Changed s (s.onAbort i) i call.phase (call.settle .rejected).phase :=
    ⟨_, call, rfl, hcall, rfl, rfl, rfl⟩
  by_cases hphase : call.phase = .waiting
  · have hsettled : (call.settle .rejected).phase = .rejected := if_pos hphase
    rw [hphase, hsettled] at hc
    have hmem : i ∈ s.semaphore.waiters := (h.waiting i).mpr hc.phase?_self
    have hnodup := h.nodup
    have hobtained : i ∉ s.obtained := fun hi => (disjoint_of_nodup_append hnodup) hi hmem
    refine ⟨?_, ?_, fun j => ?_, fun _ => h.free (ne_nil_of_mem hmem), ?_⟩
    · rw [← h.conserved]
      exact congrArg (· + _) hc.holders_add
    · change s.obtained ++ s.semaphore.waiters.erase i = _
      rw [← erase_append_right _ hobtained, hnodup.erase_eq_filter, h.order, accepted,
        filter_filter, hc.accepted_eq_filter]
      refine filter_congr fun j _ => ?_
      by_cases hij : i = j
      · simp [hij]
      · have hne : (j != i) = true := bne_iff_ne.mpr (Ne.symm hij)
        simp [hij, hne, isRejected]
    · change j ∈ s.semaphore.waiters.erase i ↔ _
      rw [(hnodup.of_append_right).mem_erase_iff, h.waiting, hc.phase?_eq]
      split_ifs with hij
      · simp [hij]
      · simp [Ne.symm hij]
    · refine hc.aborted_of (Subset.refl _) h.aborted fun _ call' hcall' => ?_
      obtain rfl := Option.mem_unique hcall hcall'
      exact ⟨signal, of_decide_eq_true haborted, hsignal⟩
  · have hsettled : (call.settle .rejected).phase = call.phase := if_neg hphase
    rw [hsettled] at hc
    have hmem : i ∉ s.semaphore.waiters := by
      rw [h.waiting, hc.phase?_self]
      exact fun heq => hphase (Option.some.inj heq)
    refine h.changed hc ?_ rfl rfl Iff.rfl Iff.rfl rfl
    change Semaphore.mk _ (s.semaphore.waiters.erase i) = _
    rw [erase_of_not_mem hmem]

end Kept

lemma changed_setPhase (h : s.phase? i = some p) : Changed s (s.setPhase i q) i p q := by
  obtain ⟨call, hcall, hphase⟩ := Option.map_eq_some_iff.mp h
  exact ⟨_, call, rfl, hcall, hphase, rfl, rfl⟩

lemma Kept.next (h : s.Kept permits) {l : SemaphoreStep} (hl : s.next l = some s') :
    s'.Kept permits := by
  cases l with
  | run signal =>
    cases hl
    exact h.acquire signal
  | abort signal =>
    cases hl
    refine ⟨h.conserved, h.order, h.waiting, h.free, fun call hcall hrejected => ?_⟩
    obtain ⟨signal', haborted, heq⟩ := h.aborted call hcall hrejected
    exact ⟨signal', mem_cons_of_mem _ haborted, heq⟩
  | onAbort i =>
    obtain ⟨hhears, ⟨⟩⟩ := Option.ite_none_right_eq_some.mp hl
    exact h.onAbort hhears
  | resume i =>
    obtain ⟨hphase, ⟨⟩⟩ := Option.ite_none_right_eq_some.mp hl
    exact h.changed (changed_setPhase hphase) rfl rfl rfl (by simp) (by simp) rfl
  | finish i =>
    obtain ⟨hphase, ⟨⟩⟩ := Option.ite_none_right_eq_some.mp hl
    have hc : Changed s (s.setPhase i .settled) i .running .settled := changed_setPhase hphase
    -- until the release, one permit less is accounted for
    have hpermits : permits = permits - 1 + 1 := by
      have hholders : _ + 1 = s.holders := hc.holders_add
      have hcons := h.conserved
      omega
    rw [hpermits]
    exact (h.changed hc rfl rfl rfl (by simp) (by simp) hpermits.symm).release

/-! ## Runs -/

/-- The call `i` has obtained a permit, or will with the `n`th release from now. -/
def InTurn (i n : ℕ) (s : SemaphoreSystem) : Prop :=
  i ∈ s.obtained ∨ ∃ before after, s.semaphore.waiters = before ++ i :: after ∧ before.length < n

lemma InTurn.release (h : s.InTurn i n) : s.release.InTurn i (n - 1) := by
  unfold SemaphoreSystem.release
  rcases h with hobtained | ⟨before, after, hwait, hlt⟩
  · left
    split
    · exact mem_append_left _ hobtained
    · exact hobtained
  · cases before with
    | nil =>
      rw [hwait]
      exact .inl (by simp)
    | cons next before =>
      rw [hwait]
      exact .inr ⟨before, after, rfl, Nat.lt_sub_of_add_lt hlt⟩

/-- A release moves the queue on, and a call is taken out of it by its own listener only. -/
lemma InTurn.next (h : s.InTurn i n) {l : SemaphoreStep} (hl : s.next l = some s')
    (hother : l ≠ .onAbort i) : s'.InTurn i (n - if l.isRelease then 1 else 0) := by
  cases l with
  | run signal =>
    cases hl
    change (s.acquire signal).InTurn i n
    unfold acquire
    split_ifs
    · exact h
    · exact h.imp_left (mem_append_left _)
    · refine h.imp_right fun ⟨before, after, hwait, hlt⟩ =>
        ⟨before, after ++ [s.calls.length], ?_, hlt⟩
      simp [hwait]
  | abort signal =>
    cases hl
    exact h
  | onAbort j =>
    obtain ⟨-, ⟨⟩⟩ := Option.ite_none_right_eq_some.mp hl
    refine h.imp_right fun ⟨before, after, hwait, hlt⟩ => ?_
    have hne : i ≠ j := fun heq => hother (heq ▸ rfl)
    by_cases hj : j ∈ before
    · refine ⟨before.erase j, after, ?_, (length_erase_le).trans_lt hlt⟩
      rw [← erase_append_left _ hj, ← hwait]
      rfl
    · refine ⟨before, after.erase j, ?_, hlt⟩
      rw [← erase_cons_tail (by simpa using hne), ← erase_append_right _ hj, ← hwait]
      rfl
  | resume j =>
    obtain ⟨-, ⟨⟩⟩ := Option.ite_none_right_eq_some.mp hl
    exact h
  | finish j =>
    obtain ⟨-, ⟨⟩⟩ := Option.ite_none_right_eq_some.mp hl
    exact InTurn.release (s := s.setPhase j .settled) h

variable {ls : List SemaphoreStep}

lemma InTurn.run (h : s.InTurn i n) (hrun : machine.Run s ls s')
    (hother : .onAbort i ∉ ls) : s'.InTurn i (n - ls.countP SemaphoreStep.isRelease) := by
  induction hrun with
  | nil => exact h
  | snoc _ hl ih =>
    rw [mem_append, mem_singleton, not_or] at hother
    rw [countP_append, countP_singleton, ← Nat.sub_sub]
    exact (ih hother.1).next hl (Ne.symm hother.2)

/-- **Permits are neither lost nor exceeded**, and are obtained in the order of the calls. -/
theorem permits_kept {permits : ℤ} {semaphore : Semaphore} {ls : List SemaphoreStep}
    (hnew : Semaphore.create permits = .ok semaphore) (hrun : machine.Run (start semaphore) ls s) :
    s.holders ≤ permits ∧ s.holders + s.semaphore.available = permits ∧
      s.obtained ++ s.semaphore.waiters = s.accepted ∧
      (∀ call ∈ s.calls, call.phase = .rejected → ∃ signal ∈ s.aborted, call.signal = some signal) ∧
      ∀ before i after, s.semaphore.waiters = before ++ i :: after → ∀ ls' s',
        machine.Run s ls' s' → .onAbort i ∉ ls' →
          before.length < ls'.countP SemaphoreStep.isRelease → i ∈ s'.obtained := by
  obtain ⟨n, rfl, rfl⟩ : ∃ n : ℕ, permits = n ∧ semaphore = ⟨n, []⟩ := by
    unfold Semaphore.create at hnew
    split_ifs at hnew
    cases hnew
    exact ⟨permits.toNat, by omega, rfl⟩
  have hstart : (start ⟨n, []⟩).Kept n :=
    ⟨Nat.zero_add n, rfl, by simp [start, phase?], by simp [start], by simp [start]⟩
  have hkept : s.Kept n := hrun.invariant hstart fun _ _ _ h hl => h.next hl
  have hconserved := hkept.conserved
  refine ⟨by omega, by omega, hkept.order, hkept.aborted, ?_⟩
  intro before i after hwaiters ls' s' hrun' hother hlt
  have hturn : s.InTurn i _ := .inr ⟨before, after, hwaiters, hlt⟩
  have hlast := hturn.run hrun' hother
  rw [Nat.sub_self] at hlast
  rcases hlast with hobtained | ⟨_, _, -, hlt'⟩
  · exact hobtained
  · exact absurd hlt' (Nat.not_lt_zero _)

/-- Of three calls for one permit, the second has been aborted while it waited. -/
def handedOver : SemaphoreSystem where
  semaphore := ⟨0, []⟩
  calls := [⟨none, .settled, false⟩, ⟨some 7, .rejected, false⟩, ⟨none, .acquired, false⟩]
  aborted := [7]
  obtained := [0, 2]

theorem permits_kept_handedOver : (handedOver.holders : ℤ) ≤ 1 ∧
    handedOver.obtained ++ handedOver.semaphore.waiters = handedOver.accepted := by
  obtain ⟨hle, -, horder, -⟩ := @permits_kept handedOver 1 ⟨1, []⟩ [.run none, .run (some 7),
    .run none, .abort 7, .onAbort 1, .resume 0, .finish 0] (by decide)
    (.of_foldlM (fun _ _ _ h => h) (by decide))
  exact ⟨hle, horder⟩

/-- **Nobody waits in vain**: a call that is pending is in the queue, and every permit is held. -/
theorem waits_while_held
    (hrun : machine.Run (start ⟨permits, []⟩) ls s) : s.obtained.Nodup ∧
      ∀ i, s.phase? i = some .waiting → i ∈ s.semaphore.waiters ∧ s.holders = permits := by
  have hkept : s.Kept permits := by
    refine hrun.invariant ?_ fun _ _ _ h hl => h.next hl
    constructor <;> simp [start, holders, accepted, phase?]
  refine ⟨hkept.nodup.of_append_left, fun i hi => ?_⟩
  have hmem := (hkept.waiting i).mpr hi
  have hcons := hkept.conserved
  rw [hkept.free (ne_nil_of_mem hmem)] at hcons
  exact ⟨hmem, hcons⟩

theorem waits_while_held_two : (((start ⟨1, []⟩).acquire none).acquire none).holders = 1 :=
  ((@waits_while_held _ 1 [.run none, .run none] (.of_foldlM (fun _ _ _ h => h) rfl)).2 1 rfl).2

end SemaphoreSystem

end Amide
