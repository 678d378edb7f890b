import Amide.Construction.Cron.Schedules

/-!
# The search for the next run

The minutes the search looks at (`candidateMinute`) are later and later instants, so it never runs
out of passes (`searchCron_fuel`), and it finds a run just when one of the minutes within 366 days
matches (`MatchesWithinYear`).  The minutes follow the local clock, which may show a time twice:
the first of them need not be later than the instant the search begins at.
-/

namespace Amide

variable {zone : TimeZone} {after deadline t : ℤ} {fields : CronFields}

/-- The minutes the search looks at, one after the other. -/
def candidateMinute (zone : TimeZone) (after : ℤ) : ℕ → Date
  | 0 => firstCandidate zone after
  | k + 1 => (candidateMinute zone after k).bind (nextMinute zone)

/-- The search comes to an instant that matches, no later than 366 days from its first one. -/
def MatchesWithinYear (zone : TimeZone) (after : ℤ) (fields : CronFields) (t : ℤ) : Prop :=
  ∃ k, candidateMinute zone after k = some t ∧ t ≤ (firstCandidate zone after).getD 0 + searchSpan ∧
    matchesCronFields (zone.localTime t) fields = true

variable {k j : ℕ} {c : ℤ}

section Candidates

open LocalTime

lemma timeClip_eq_some {t t' : ℤ} (h : timeClip t = some t') : t = t' := by
  rw [timeClip] at h
  split_ifs at h
  exact Option.some.inj h

/-- Every minute looked at is one that the clock was set to. -/
lemma candidateMinute_eq_utc (h : candidateMinute zone after k = some c) : ∃ t, c = zone.utc t := by
  cases k with
  | zero | succ k =>
    obtain ⟨c', -, hnext⟩ := Option.bind_eq_some_iff.mp h
    exact ⟨_, (timeClip_eq_some hnext).symm⟩

lemma candidateMinute_succ_lt {c' : ℤ} (h : candidateMinute zone after k = some c)
    (h' : candidateMinute zone after (k + 1) = some c') : c < c' := by
  obtain ⟨t, rfl⟩ := candidateMinute_eq_utc h
  rw [candidateMinute, h, Option.bind_some] at h'
  rw [← timeClip_eq_some h']
  exact zone.utc_lt_utc_add t (by decide)

/-- The minutes before one that was reached were reached, and each took a millisecond at least. -/
lemma candidateMinute_add_le {d : ℕ} (h : candidateMinute zone after (j + d) = some c) :
    ∃ c₀, candidateMinute zone after j = some c₀ ∧ c₀ + d ≤ c := by
  induction d generalizing c with
  | zero => exact ⟨c, h, by simp⟩
  | succ d ih =>
    obtain ⟨c', hc', hnext⟩ := Option.bind_eq_some_iff.mp h
    obtain ⟨c₀, hc₀, hle⟩ := ih hc'
    have hlt := candidateMinute_succ_lt hc' h
    exact ⟨c₀, hc₀, by push_cast; omega⟩

lemma candidateMinute_le {c' : ℤ} (hjk : j ≤ k) (h : candidateMinute zone after j = some c)
    (h' : candidateMinute zone after k = some c') : c ≤ c' := by
  obtain ⟨d, rfl⟩ := Nat.exists_eq_add_of_le hjk
  obtain ⟨c₀, hc₀, hle⟩ := candidateMinute_add_le h'
  have heq : c₀ = c := Option.mem_unique hc₀ h
  omega

end Candidates

/-! ## The loop -/

/-- A pass that has not found its minute yet, nor come to the end. -/
lemma searchCron_of_not_matches {fuel : ℕ} (hle : c ≤ deadline)
    (hmatch : ¬matchesCronFields (zone.localTime c) fields = true) :
    searchCron zone fields deadline (fuel + 1) (some c) =
      searchCron zone fields deadline fuel (nextMinute zone c) := by
  rw [searchCron, if_pos hle, if_neg hmatch]

/-- **What the loop finds**: the first minute that matches, if it is within the deadline and the
bound on the passes. -/
lemma searchCron_eq_some_iff {fuel : ℕ} :
    searchCron zone fields deadline fuel (candidateMinute zone after j) = some t ↔
      ∃ d < fuel, candidateMinute zone after (j + d) = some t ∧ t ≤ deadline ∧
        matchesCronFields (zone.localTime t) fields = true ∧
        ∀ i < d, ∀ c, candidateMinute zone after (j + i) = some c →
          ¬matchesCronFields (zone.localTime c) fields = true := by
  induction fuel generalizing j with
  | zero => simp [searchCron]
  | succ fuel ih =>
    cases hc : candidateMinute zone after j with
    | none =>
      refine ⟨nofun, ?_⟩
      rintro ⟨d, -, ht, -⟩
      obtain ⟨c₀, hc₀, -⟩ := candidateMinute_add_le ht
      cases hc.symm.trans hc₀
    | some c =>
      have hnext : nextMinute zone c = candidateMinute zone after (j + 1) := by
        rw [candidateMinute, hc, Option.bind_some]
      by_cases hle : c ≤ deadline
      · by_cases hmatch : matchesCronFields (zone.localTime c) fields = true
        · rw [searchCron, if_pos hle, if_pos hmatch]
          refine ⟨?_, ?_⟩
          · rintro ⟨⟩
            exact ⟨0, by omega, hc, hle, hmatch, by simp⟩
          · rintro ⟨d, -, ht, -, -, hfirst⟩
            cases d with
            | zero => exact hc.symm.trans ht
            | succ d => exact absurd hmatch (hfirst 0 (by omega) c hc)
        · rw [searchCron_of_not_matches hle hmatch, hnext, ih]
          refine ⟨?_, ?_⟩
          · rintro ⟨d, hd, ht, hdeadline, htmatch, hfirst⟩
            refine ⟨d + 1, by omega, by rw [← ht]; congr 1; omega, hdeadline, htmatch, ?_⟩
            intro i hi c' hc'
            cases i with
            | zero =>
              cases hc.symm.trans hc'
              exact hmatch
            | succ i => exact hfirst i (by omega) c' (by rw [← hc']; congr 1; omega)
          · rintro ⟨d, hd, ht, hdeadline, htmatch, hfirst⟩
            cases d with
            | zero =>
              cases hc.symm.trans ht
              exact absurd htmatch hmatch
            | succ d =>
              refine ⟨d, by omega, by rw [← ht]; congr 1; omega, hdeadline, htmatch, ?_⟩
              intro i hi c' hc'
              exact hfirst (i + 1) (by omega) c' (by rw [← hc']; congr 1; omega)
      · rw [searchCron, if_neg hle]
        refine ⟨nofun, ?_⟩
        rintro ⟨d, -, ht, hdeadline, -⟩
        have hct := candidateMinute_le (Nat.le_add_right j d) hc ht
        omega

/-- Within the deadline the search never needs more passes than milliseconds. -/
lemma candidateMinute_fuel (h : candidateMinute zone after k = some t)
    (ht : t ≤ (firstCandidate zone after).getD 0 + searchSpan) : k < searchSpan + 1 := by
  obtain ⟨c₀, hc₀, hle⟩ := candidateMinute_add_le (j := 0) (d := k) (by rwa [Nat.zero_add])
  rw [show firstCandidate zone after = some c₀ from hc₀] at ht
  simp only [Option.getD_some] at ht
  omega

/-- By the last pass the deadline is over, so what the loop returns is never for want of passes. -/
lemma lt_candidateMinute (h : candidateMinute zone after (searchSpan + 1) = some c) :
    (firstCandidate zone after).getD 0 + searchSpan < c := by
  by_contra hle
  have hlt := candidateMinute_fuel h (not_lt.mp hle)
  omega

/-- What `nextCronRunAfter` runs. -/
def cronSearch (zone : TimeZone) (after : ℤ) (fields : CronFields) (fuel : ℕ) : Option ℤ :=
  searchCron zone fields ((firstCandidate zone after).getD 0 + searchSpan) fuel
    (firstCandidate zone after)

lemma cronSearch_eq_some_iff (more : ℕ) :
    cronSearch zone after fields (searchSpan + 1 + more) = some t ↔
      ∃ k, candidateMinute zone after k = some t ∧
        t ≤ (firstCandidate zone after).getD 0 + searchSpan ∧
        matchesCronFields (zone.localTime t) fields = true ∧
        ∀ i < k, ∀ c, candidateMinute zone after i = some c →
          ¬matchesCronFields (zone.localTime c) fields = true := by
  rw [cronSearch, show firstCandidate zone after = candidateMinute zone after 0 from rfl,
    searchCron_eq_some_iff]
  simp only [Nat.zero_add]
  refine ⟨?_, ?_⟩
  · rintro ⟨k, -, h⟩
    exact ⟨k, h⟩
  · rintro ⟨k, h⟩
    have hk := candidateMinute_fuel h.1 h.2.1
    exact ⟨k, by omega, h⟩

/-- **The loop ends by itself**: more passes change nothing. -/
theorem searchCron_fuel (more : ℕ) : cronSearch zone after fields (searchSpan + 1 + more) =
      cronSearch zone after fields (searchSpan + 1) := by
  refine Option.ext fun t => ?_
  rw [cronSearch_eq_some_iff more, ← cronSearch_eq_some_iff 0]

/-! ## The next run -/

variable {expression : String}

lemma nextCronRunAfter_eq (zone : TimeZone) (after : ℤ)
    (hparse : parseCronExpression expression = .ok fields) :
    nextCronRunAfter zone expression after =
      match cronSearch zone after fields (searchSpan + 1) with
      | some run => .ok run
      | none => .error s!"Cron schedule did not match within one year: {expression}" := by
  rw [nextCronRunAfter, hparse]
  rfl

/-- **When a cron schedule has a next run**, later than a given instant: some minute of the search
matches, and every one that does is later. -/
theorem nextCronRunAfter_later_iff {bound : ℤ}
    (hparse : parseCronExpression expression = .ok fields) :
    (∃ run, nextCronRunAfter zone expression after = .ok run ∧ bound < run) ↔
      (∃ t, MatchesWithinYear zone after fields t) ∧
        ∀ t, MatchesWithinYear zone after fields t → bound < t := by
  rw [nextCronRunAfter_eq zone after hparse]
  refine ⟨?_, ?_⟩
  · rintro ⟨run, hrun, hlt⟩
    cases hsearch : cronSearch zone after fields (searchSpan + 1) with
    | none => simp [hsearch] at hrun
    | some found =>
      rw [hsearch] at hrun
      cases hrun
      obtain ⟨k, hk, hspan, hmatch, hfirst⟩ := (cronSearch_eq_some_iff 0).mp hsearch
      refine ⟨⟨run, k, hk, hspan, hmatch⟩, ?_⟩
      rintro t ⟨k', hk', -, hmatch'⟩
      have hkk' : k ≤ k' := by
        by_contra hlt'
        exact hfirst k' (by omega) t hk' hmatch'
      exact hlt.trans_le (candidateMinute_le hkk' hk hk')
  · rintro ⟨⟨t, k, hk, hspan, hmatch⟩, hlater⟩
    -- the first minute that matches
    have hex : ∃ i c, candidateMinute zone after i = some c ∧
        matchesCronFields (zone.localTime c) fields = true := ⟨k, t, hk, hmatch⟩
    obtain ⟨c, hc, hcmatch⟩ := Nat.find_spec hex
    have hspan' : c ≤ (firstCandidate zone after).getD 0 + searchSpan :=
      (candidateMinute_le (Nat.find_min' hex ⟨t, hk, hmatch⟩) hc hk).trans hspan
    have hsearch : cronSearch zone after fields (searchSpan + 1) = some c :=
      (cronSearch_eq_some_iff 0).mpr ⟨Nat.find hex, hc, hspan', hcmatch,
        fun i hi c' hc' hmatch' => Nat.find_min hex hi ⟨c', hc', hmatch'⟩⟩
    rw [hsearch]
    exact ⟨c, rfl, hlater c ⟨Nat.find hex, hc, hspan', hcmatch⟩⟩

end Amide
