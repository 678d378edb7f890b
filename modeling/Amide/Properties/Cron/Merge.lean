import Mathlib.Data.List.Pairwise
import Amide.Properties.Cron.Stores

/-!
# Merging by freshness

A written job takes the place of the one with its id unless that one is fresher, whatever their
status (`mem_mergeFreshJobs_fresh`).  So a write opens a finished job again just when it brings an
open copy that is no older, or, between the lanes of an artifact store, one that is bound to
another session: a lane drops what is written elsewhere without a look at its age
(`CronStore.Reopens`).
-/

namespace Amide

section Fresh

variable {job job₁ job₂ job₃ : AgentCronJob} {currentJobs nextJobs : List AgentCronJob}
  {merged : JsMap String AgentCronJob} {k : String}

lemma isAtLeastAsFresh_iff : isAtLeastAsFresh job₁ job₂ = true ↔ job₂.updatedAt ≤ job₁.updatedAt :=
  decide_eq_true_iff

lemma isAtLeastAsFresh_trans (h : isAtLeastAsFresh job₁ job₂ = true)
    (h' : isAtLeastAsFresh job₂ job₃ = true) : isAtLeastAsFresh job₁ job₃ = true := by
  rw [isAtLeastAsFresh_iff] at h h' ⊢
  exact h'.trans h

lemma get?_mergeJob_of_ne (h : job.id ≠ k) : (mergeJob merged job).get? k = merged.get? k := by
  rcases mergeJob_eq_or merged job with heq | heq
  · rw [heq, JsMap.get?_set, if_neg h]
  · rw [heq]

/-- What one job does under its own id. -/
lemma get?_mergeJob_self (merged : JsMap String AgentCronJob) (job : AgentCronJob) :
    ((mergeJob merged job).get? job.id = some job ∧
        ∀ current, merged.get? job.id = some current → isAtLeastAsFresh job current = true) ∨
      ∃ current, merged.get? job.id = some current ∧ isAtLeastAsFresh job current = false ∧
        mergeJob merged job = merged := by
  rw [mergeJob]
  cases hcur : merged.get? job.id with
  | none => exact .inl ⟨JsMap.get?_set_self .., fun current h => by cases h⟩
  | some current =>
    by_cases hfresh : isAtLeastAsFresh job current = true
    · left
      simp only [if_pos hfresh]
      refine ⟨JsMap.get?_set_self .., ?_⟩
      rintro current' ⟨⟩
      exact hfresh
    · right
      simp only [if_neg hfresh]
      exact ⟨current, rfl, Bool.eq_false_of_not_eq_true hfresh, trivial⟩

/-- What is there stays, or gives way to a written job that is no older. -/
lemma get?_foldl_mergeJob_fresh (h : (nextJobs.foldl mergeJob merged).get? k = some job) :
    merged.get? k = some job ∨ (job ∈ nextJobs ∧
      ∀ current, merged.get? k = some current → isAtLeastAsFresh job current = true) := by
  induction nextJobs generalizing merged with
  | nil => exact .inl h
  | cons next nextJobs ih =>
    rcases ih h with hmerged | ⟨hmem, hfresh⟩
    · by_cases hk : next.id = k
      · subst hk
        rcases get?_mergeJob_self merged next with ⟨hset, hfresh⟩ | ⟨_, -, -, heq⟩
        · cases hset.symm.trans hmerged
          exact .inr ⟨List.mem_cons_self, hfresh⟩
        · exact .inl (heq ▸ hmerged)
      · exact .inl ((get?_mergeJob_of_ne hk).symm.trans hmerged)
    · refine .inr ⟨List.mem_cons_of_mem _ hmem, ?_⟩
      intro current hcur
      by_cases hk : next.id = k
      · subst hk
        rcases get?_mergeJob_self merged next with
          ⟨hset, hfresh'⟩ | ⟨_, -, -, heq⟩
        · exact isAtLeastAsFresh_trans (hfresh next hset) (hfresh' current hcur)
        · exact hfresh current (by rwa [heq])
      · exact hfresh current ((get?_mergeJob_of_ne hk).trans hcur)

/-- No id is lost. -/
lemma has_foldl_mergeJob
    (h : (∃ current, merged.get? k = some current) ∨ ∃ job ∈ nextJobs, job.id = k) :
    ∃ job, (nextJobs.foldl mergeJob merged).get? k = some job := by
  induction nextJobs generalizing merged with
  | nil =>
    rcases h with h | ⟨job, hmem, -⟩
    · exact h
    · cases hmem
  | cons next nextJobs ih =>
    apply ih
    by_cases hk : next.id = k
    · subst hk
      rcases get?_mergeJob_self merged next with
        ⟨hset, -⟩ | ⟨current, hcur, -, heq⟩
      · exact .inl ⟨next, hset⟩
      · exact .inl ⟨current, by rwa [heq]⟩
    · rw [get?_mergeJob_of_ne hk]
      refine h.imp_right ?_
      rintro ⟨job, hmem, hid⟩
      rcases List.mem_cons.mp hmem with rfl | hmem
      · exact absurd hid hk
      · exact ⟨job, hmem, hid⟩

/-! ### Jobs that are merged -/

/-- **What a merge leaves**: a job that was there, or a written one that is no older. -/
lemma mem_mergeFreshJobs_fresh (hids : (currentJobs.map AgentCronJob.id).Nodup)
    (h : job ∈ mergeFreshJobs currentJobs nextJobs) :
    job ∈ currentJobs ∨ (job ∈ nextJobs ∧
      ∀ current ∈ currentJobs, current.id = job.id → isAtLeastAsFresh job current = true) := by
  obtain ⟨k, hk⟩ := JsMap.mem_values_iff.mp h
  have hid := (get?_mergeFreshJobs hk).2
  rcases get?_foldl_mergeJob_fresh hk with hcur | ⟨hnext, hfresh⟩
  · exact .inl (JsMap.mem_of_get?_index _ hcur).1
  · refine .inr ⟨hnext, ?_⟩
    intro current hmem hsame
    apply hfresh current
    rw [← hid, ← hsame]
    exact JsMap.get?_index_of_mem AgentCronJob.id hids hmem

lemma exists_mem_mergeFreshJobs (h : job ∈ currentJobs ∨ job ∈ nextJobs) :
    ∃ job' ∈ mergeFreshJobs currentJobs nextJobs, job'.id = job.id := by
  have hhas : ∃ job', (nextJobs.foldl mergeJob
      (JsMap.index AgentCronJob.id currentJobs)).get? job.id = some job' := by
    apply has_foldl_mergeJob
    rcases h with hcur | hnext
    · left
      apply Option.ne_none_iff_exists'.mp
      intro hnone
      exact (JsMap.get?_index_eq_none_iff AgentCronJob.id).mp hnone job hcur rfl
    · exact .inr ⟨job, hnext, rfl⟩
  obtain ⟨job', hjob'⟩ := hhas
  exact ⟨job', JsMap.mem_values_iff.mpr ⟨job.id, hjob'⟩, (get?_mergeFreshJobs hjob').2⟩

/-- After a merge no id is there twice. -/
lemma nodup_mergeFreshJobs (currentJobs nextJobs : List AgentCronJob) :
    ((mergeFreshJobs currentJobs nextJobs).map AgentCronJob.id).Nodup := by
  let merged := nextJobs.foldl mergeJob (JsMap.index AgentCronJob.id currentJobs)
  have hkeys : (mergeFreshJobs currentJobs nextJobs).map AgentCronJob.id =
      merged.entries.map Prod.fst := by
    show (merged.entries.map Prod.snd).map AgentCronJob.id = _
    rw [List.map_map]
    refine List.map_congr_left ?_
    rintro ⟨k, job⟩ hmem
    exact (get?_mergeFreshJobs (JsMap.mem_entries_iff.mp hmem)).2
  rw [hkeys]
  exact merged.nodup

end Fresh

/-! ## Lanes -/

namespace CronStore

/-- Writing the jobs opens a finished job again. -/
def Reopens (jobs : List AgentCronJob) : CronStore → Prop
  | file state => ∃ current ∈ state.jobs, current.isOpen = false ∧
      ∃ job ∈ jobs, job.id = current.id ∧ job.isOpen = true ∧ isAtLeastAsFresh job current = true
  | artifacts lanes => (∀ job ∈ jobs, lanes.has job.sessionId = true) ∧
      ∃ lane ∈ lanes.entries, ∃ current ∈ lane.2.jobs, current.isOpen = false ∧
        ∃ job ∈ jobs, job.id = current.id ∧ job.isOpen = true ∧
          (job.sessionId ≠ lane.1 ∨ isAtLeastAsFresh job current = true)

instance (jobs : List AgentCronJob) (store : CronStore) : Decidable (store.Reopens jobs) :=
  match store with
  | file _ => List.decidableBEx _ _
  | artifacts _ => instDecidableAnd

/-- No id is there twice. -/
def UniqueIds (store : CronStore) : Prop := (store.readJobs.map AgentCronJob.id).Nodup

section Lanes

variable {lanes : JsMap String CronJobsState} {lane lane' : String × CronJobsState}
  {jobs : List AgentCronJob} {job job' : AgentCronJob} {store store' : CronStore}
  {sessionId : String} {current : CronJobsState}

lemma readJobs_file {state : CronJobsState} : (file state).readJobs = state.jobs :=
  List.append_nil _

lemma mem_readJobs_artifacts :
    job ∈ (artifacts lanes).readJobs ↔ ∃ lane ∈ lanes.entries, job ∈ lane.2.jobs := by
  rw [mem_readJobs, states, JsMap.values]
  simp only [List.mem_map, exists_exists_and_eq_and]

lemma uniqueIds_artifacts : (artifacts lanes).UniqueIds ↔
    (∀ lane ∈ lanes.entries, (lane.2.jobs.map AgentCronJob.id).Nodup) ∧
      lanes.entries.Pairwise fun lane lane' => List.Disjoint (lane.2.jobs.map AgentCronJob.id)
        (lane'.2.jobs.map AgentCronJob.id) := by
  rw [UniqueIds, readJobs, states, JsMap.values, List.flatMap_map, List.map_flatMap,
    List.nodup_flatMap]

/-- With unique ids a job is in one lane only. -/
lemma lane_eq_of_id (h : (artifacts lanes).UniqueIds) (hlane : lane ∈ lanes.entries)
    (hlane' : lane' ∈ lanes.entries) (hjob : job ∈ lane.2.jobs) (hjob' : job' ∈ lane'.2.jobs)
    (hid : job.id = job'.id) : lane = lane' := by
  by_contra hne
  have : Std.Symm fun lane lane' : String × CronJobsState =>
      List.Disjoint (lane.2.jobs.map AgentCronJob.id) (lane'.2.jobs.map AgentCronJob.id) :=
    ⟨fun _ _ => List.disjoint_symm⟩
  have hdisj : List.Disjoint (lane.2.jobs.map AgentCronJob.id)
      (lane'.2.jobs.map AgentCronJob.id) :=
    (uniqueIds_artifacts.mp h).2.forall hlane hlane' hne
  exact hdisj (List.mem_map_of_mem hjob) (hid ▸ List.mem_map_of_mem hjob')

lemma eq_of_id {as : List AgentCronJob} (h : (as.map AgentCronJob.id).Nodup) (hjob : job ∈ as)
    (hjob' : job' ∈ as) (hid : job.id = job'.id) : job = job' :=
  List.inj_on_of_nodup_map h hjob hjob' hid

lemma mem_retainedJobs (hids : (jobs.map AgentCronJob.id).Nodup) :
    job ∈ retainedJobs jobs sessionId current ↔ job ∈ current.jobs ∧
      ∀ incoming ∈ jobs, incoming.id = job.id → incoming.sessionId = sessionId := by
  rw [retainedJobs, List.mem_filter]
  apply and_congr_right
  intro _
  cases hincoming : (JsMap.index AgentCronJob.id jobs).get? job.id with
  | none =>
    have hnone := (JsMap.get?_index_eq_none_iff AgentCronJob.id).mp hincoming
    exact ⟨fun _ incoming hmem hid => absurd hid (hnone incoming hmem), fun _ => rfl⟩
  | some incoming =>
    obtain ⟨hmem, hid⟩ := JsMap.mem_of_get?_index _ hincoming
    simp only [beq_iff_eq]
    refine ⟨fun h incoming' hmem' hid' => ?_, fun h => h incoming hmem hid⟩
    rwa [eq_of_id hids hmem' hmem (hid'.trans hid.symm)]

/-- A job in a merged lane was there and is not written to another lane, or is written there. -/
lemma mem_mergedLane_session (hids : (jobs.map AgentCronJob.id).Nodup)
    (h : job ∈ mergedLane jobs sessionId current) :
    ∀ incoming ∈ jobs, incoming.id = job.id → incoming.sessionId = sessionId := by
  rcases mem_mergeFreshJobs h with hretained | hwritten
  · exact ((mem_retainedJobs hids).mp hretained).2
  · intro incoming hmem hid
    rw [List.mem_filter, beq_iff_eq] at hwritten
    rw [eq_of_id hids hmem hwritten.1 hid]
    exact hwritten.2

lemma writeJobs_artifacts : (artifacts lanes).writeJobs jobs = .ok store' ↔
    (∀ job ∈ jobs, lanes.has job.sessionId = true) ∧
      store' = artifacts (mapLanes (nextLane lanes.entries jobs) lanes) := by
  rw [writeJobs]
  cases hfind : jobs.find? (fun job => !lanes.has job.sessionId) with
  | none =>
    have hall := List.find?_eq_none.mp hfind
    simp only [Bool.not_eq_true', Bool.not_eq_false] at hall
    simp only [Except.ok.injEq]
    exact ⟨fun h => ⟨hall, h.symm⟩, fun h => h.2.symm⟩
  | some unregistered =>
    have hmissing := List.find?_some hfind
    simp only [Bool.not_eq_true'] at hmissing
    refine ⟨fun h => (by cases h), ?_⟩
    rintro ⟨hall, -⟩
    have hreg := hall _ (List.mem_of_find?_eq_some hfind)
    rw [hmissing] at hreg
    cases hreg

lemma mem_readJobs_mapLanes :
    job ∈ (artifacts (mapLanes (nextLane lanes.entries jobs) lanes)).readJobs ↔
      ∃ lane ∈ lanes.entries, job ∈ mergedLane jobs lane.1 lane.2 := by
  rw [mem_readJobs_artifacts, mapLanes]
  simp only [List.mem_map, exists_exists_and_eq_and]
  rfl

/-! ### Writing -/

/-- Ids stay unique. -/
lemma uniqueIds_writeJobs (hstore : store.UniqueIds) (hids : (jobs.map AgentCronJob.id).Nodup)
    (h : store.writeJobs jobs = .ok store') : store'.UniqueIds := by
  cases store with
  | file state =>
    cases h
    rw [UniqueIds, readJobs_file]
    exact nodup_mergeFreshJobs state.jobs jobs
  | artifacts lanes =>
    obtain ⟨-, rfl⟩ := writeJobs_artifacts.mp h
    rw [uniqueIds_artifacts, mapLanes]
    simp only [List.forall_mem_map, List.pairwise_map]
    refine ⟨fun lane _ => nodup_mergeFreshJobs _ _, ?_⟩
    have hkeys : lanes.entries.Pairwise fun lane lane' => lane.1 ≠ lane'.1 :=
      List.pairwise_map.mp lanes.nodup
    refine hkeys.imp_of_mem ?_
    intro lane lane' hlane hlane' hne id hid hid'
    obtain ⟨job, hjob, rfl⟩ := List.mem_map.mp hid
    obtain ⟨job', hjob', hsame⟩ := List.mem_map.mp hid'
    have hsess := mem_mergedLane_session hids hjob
    have hsess' := mem_mergedLane_session hids hjob'
    rw [hsame] at hsess'
    -- a job that is written goes to one lane, and one that is not stays in the lane it was in
    rcases mem_mergedLane hjob with hcur | hwritten
    · rcases mem_mergedLane hjob' with hcur' | hwritten'
      · exact hne (congrArg Prod.fst
          (lane_eq_of_id hstore hlane hlane' hcur hcur' hsame.symm))
      · exact hne ((hsess job' hwritten' hsame).symm.trans (hsess' job' hwritten' hsame))
    · exact hne ((hsess job hwritten rfl).symm.trans (hsess' job hwritten rfl))

/-- No id is lost. -/
lemma exists_mem_writeJobs (hids : (jobs.map AgentCronJob.id).Nodup)
    (h : store.writeJobs jobs = .ok store') (hjob : job ∈ store.readJobs) :
    ∃ job' ∈ store'.readJobs, job'.id = job.id := by
  cases store with
  | file state =>
    cases h
    rw [readJobs_file] at hjob ⊢
    exact exists_mem_mergeFreshJobs (.inl hjob)
  | artifacts lanes =>
    obtain ⟨hreg, rfl⟩ := writeJobs_artifacts.mp h
    obtain ⟨lane, hlane, hcur⟩ := mem_readJobs_artifacts.mp hjob
    simp only [mem_readJobs_mapLanes]
    by_cases hwritten : ∃ incoming ∈ jobs, incoming.id = job.id
    · obtain ⟨incoming, hmem, hid⟩ := hwritten
      obtain ⟨state, hstate⟩ := JsMap.has_iff.mp (hreg incoming hmem)
      obtain ⟨job', hjob', hid'⟩ : ∃ job' ∈ mergedLane jobs incoming.sessionId state,
          job'.id = incoming.id :=
        exists_mem_mergeFreshJobs (.inr (List.mem_filter.mpr ⟨hmem, beq_self_eq_true _⟩))
      exact ⟨job', ⟨_, JsMap.mem_entries_iff.mpr hstate, hjob'⟩, hid'.trans hid⟩
    · have hretained : job ∈ retainedJobs jobs lane.1 lane.2 := by
        refine (mem_retainedJobs hids).mpr ⟨hcur, ?_⟩
        intro incoming hmem hid
        exact absurd ⟨incoming, hmem, hid⟩ hwritten
      obtain ⟨job', hjob', hid⟩ : ∃ job' ∈ mergedLane jobs lane.1 lane.2, job'.id = job.id :=
        exists_mem_mergeFreshJobs (.inl hretained)
      exact ⟨job', ⟨lane, hlane, hjob'⟩, hid⟩

/-- **A write that reopens nothing** leaves finished jobs finished. -/
lemma isOpen_eq_false_of_writeJobs (hstore : store.UniqueIds)
    (hids : (jobs.map AgentCronJob.id).Nodup) (h : store.writeJobs jobs = .ok store')
    (hkeeps : ¬store.Reopens jobs) (hjob : job ∈ store.readJobs) (hfin : job.isOpen = false)
    (hjob' : job' ∈ store'.readJobs) (hid : job'.id = job.id) : job'.isOpen = false := by
  apply Bool.eq_false_of_not_eq_true
  intro hopen
  apply hkeeps
  cases store with
  | file state =>
    cases h
    rw [readJobs_file] at hjob hjob'
    rw [UniqueIds, readJobs_file] at hstore
    rcases mem_mergeFreshJobs_fresh hstore hjob' with hcur | ⟨hwritten, hfresh⟩
    · rw [eq_of_id hstore hcur hjob hid, hfin] at hopen
      cases hopen
    · exact ⟨job, hjob, hfin, job', hwritten, hid, hopen, hfresh job hjob hid.symm⟩
  | artifacts lanes =>
    obtain ⟨hreg, rfl⟩ := writeJobs_artifacts.mp h
    obtain ⟨lane, hlane, hmem⟩ := mem_readJobs_artifacts.mp hjob
    obtain ⟨lane', hlane', hmem'⟩ := mem_readJobs_mapLanes.mp hjob'
    have hretainedIds : ((retainedJobs jobs lane'.1 lane'.2).map AgentCronJob.id).Nodup :=
      ((uniqueIds_artifacts.mp hstore).1 lane' hlane').sublist (List.filter_sublist.map _)
    rcases mem_mergeFreshJobs_fresh hretainedIds hmem' with hcur | ⟨hwritten, hfresh⟩
    · have hcur := ((mem_retainedJobs hids).mp hcur).1
      obtain rfl := lane_eq_of_id hstore hlane' hlane hcur hmem hid
      rw [eq_of_id ((uniqueIds_artifacts.mp hstore).1 _ hlane') hcur hmem hid, hfin]
        at hopen
      cases hopen
    · have hsess := mem_mergedLane_session hids hmem'
      rw [List.mem_filter, beq_iff_eq] at hwritten
      refine ⟨hreg, lane, hlane, job, hmem, hfin, job', hwritten.1, hid, hopen, ?_⟩
      by_cases hsame : job'.sessionId = lane.1
      · right
        have hlanes : lane' = lane :=
          List.inj_on_of_nodup_map lanes.nodup hlane' hlane (hwritten.2.symm.trans hsame)
        subst hlanes
        apply hfresh job _ hid.symm
        refine (mem_retainedJobs hids).mpr ⟨hmem, ?_⟩
        rwa [hid] at hsess
      · exact .inl hsame

end Lanes

end CronStore

end Amide
