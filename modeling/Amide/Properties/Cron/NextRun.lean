import Amide.Properties.Cron.Claims

/-!
# The next run of a cron expression

In a zone of whole minutes (`TimeZone.Regular`) the minutes that the search looks at are the ones
that begin for the first time: none of them is passed over (`candidateMinute_iff`).  So it finds the
first of them that satisfies the fields, if there is one within 366 days (`nextCronRunAfter_finds`).

A minute that the clock shows for the second time, after it has been set back, is not looked at.
-/

namespace Amide

open LocalTime
open TimeZone (IsWhole isFirst_utc le_localTime_utc localTime universal)

variable {zone : TimeZone} {after t : ℤ} {fields : CronFields}

/-- A minute later than `after` that begins for the first time. -/
structure MinuteAfter (zone : TimeZone) (after t : ℤ) : Prop where
  later : after < t
  valid : t ≤ maxTime
  isFirst : zone.IsFirst t
  isWhole : zone.IsWhole t

/-- The first minute later than `after` that satisfies the fields. -/
structure NextRun (zone : TimeZone) (fields : CronFields) (after run : ℤ) : Prop where
  minute : MinuteAfter zone after run
  fits : matchesCronFields (zone.localTime run) fields = true
  first : ∀ t, MinuteAfter zone after t → t < run →
    ¬ matchesCronFields (zone.localTime t) fields = true

/-! ## The minutes looked at -/

section Minutes

/-- The beginning of the minute an instant lies in. -/
def minuteOf (zone : TimeZone) (after : ℤ) : ℤ := zone.utc (startOfMinute (zone.localTime after))

variable (hzone : zone.Regular)

include hzone

lemma minuteOf_isWhole (after : ℤ) : zone.IsWhole (minuteOf zone after) :=
  hzone.isWhole_utc (Int.mul_emod_left _ _)

lemma minuteOf_le (after : ℤ) : minuteOf zone after ≤ after := hzone.utc_startOfMinute_le after

variable {c : ℤ}

lemma isWhole_next (hc : zone.IsWhole c) :
    zone.IsWhole (zone.utc (zone.localTime c + msPerMinute)) := by
  refine hzone.isWhole_utc ?_
  rw [Int.add_emod_right]
  exact hc

omit hzone in
/-- An instant that the clock shows for the first time lies before the next minute. -/
lemma lt_next_minuteOf (hafter : zone.IsFirst after) :
    after < zone.utc (zone.localTime (minuteOf zone after) + msPerMinute) := by
  by_contra hle
  have hshown : _ ≤ zone.localTime (zone.utc _) :=
    le_localTime_utc (zone.localTime (minuteOf zone after) + msPerMinute)
  have hstart : startOfMinute (zone.localTime after) ≤ zone.localTime (minuteOf zone after) :=
    le_localTime_utc _
  have hbound : zone.localTime after < startOfMinute (zone.localTime after) + msPerMinute := by
    rw [startOfMinute, msPerMinute]
    omega
  rcases (not_lt.mp hle).eq_or_lt with heq | hlt
  · rw [heq] at hshown
    omega
  · have hlocal := (isFirst_utc _).localTime_lt hafter hlt
    omega

/-- It is the beginning of the same minute of the epoch's clock. -/
lemma minuteOf_eq (hafter : zone.IsFirst after) :
    minuteOf zone after = after - after % msPerMinute := by
  have hle := minuteOf_le hzone after
  have hwhole := minuteOf_isWhole hzone after
  have hmod : minuteOf zone after % msPerMinute = 0 := by
    rw [minuteOf, TimeZone.utc, TimeZone.utcFrom_mod hzone]
    exact Int.mul_emod_left _ _
  have hstart : startOfMinute (zone.localTime after) ≤ zone.localTime (minuteOf zone after) :=
    le_localTime_utc _
  rcases hstart.eq_or_lt with hshown | hlater
  · -- shown at the beginning of the minute, and so `after % msPerMinute` later
    have hrest := TimeZone.offsetFrom_sub_mod hzone (minuteOf zone after + after % msPerMinute)
    have hoffset := TimeZone.offsetFrom_mod hzone after
    have hback : zone.utc (zone.localTime _) ≤ _ :=
      TimeZone.utc_localTime_le (minuteOf zone after + after % msPerMinute)
    have hsame : zone.localTime (minuteOf zone after + after % msPerMinute) =
        zone.localTime after := by
      have hmin : minuteOf zone after + after % msPerMinute -
          (minuteOf zone after + after % msPerMinute) % msPerMinute = minuteOf zone after := by
        rw [msPerMinute] at *
        omega
      rw [hmin] at hrest
      rw [startOfMinute, localTime, localTime] at hshown
      rw [localTime, localTime]
      rw [msPerMinute] at *
      omega
    rw [hsame, hafter] at hback
    rw [msPerMinute] at *
    omega
  · have hbefore : after < minuteOf zone after := by
      by_contra hnot
      have hlocal : zone.localTime after < zone.localTime (minuteOf zone after) := by
        rw [IsWhole] at hwhole
        rw [startOfMinute] at hlater
        rw [msPerMinute] at *
        omega
      rcases (not_lt.mp hnot).eq_or_lt with heq | hlt
      · rw [heq] at hlocal
        exact lt_irrefl _ hlocal
      · exact lt_asymm hlocal ((isFirst_utc _).localTime_lt hafter hlt)
    omega

omit hzone in
lemma timeClip_eq_some_iff {t t' : ℤ} :
    timeClip t = some t' ↔ t = t' ∧ -maxTime ≤ t ∧ t ≤ maxTime := by
  rw [timeClip]
  split_ifs with hrange
  · rw [Option.some_inj]
    exact ⟨fun h => ⟨h, hrange⟩, fun h => h.1⟩
  · simp [hrange]

omit hzone in
lemma firstCandidate_eq_some_iff : firstCandidate zone after = some c ↔
      (-maxTime ≤ minuteOf zone after ∧ minuteOf zone after ≤ maxTime) ∧
        nextMinute zone (minuteOf zone after) = some c := by
  rw [firstCandidate, Option.bind_eq_some_iff]
  constructor
  · rintro ⟨b, hb, hnext⟩
    obtain ⟨rfl, hrange⟩ := timeClip_eq_some_iff.1 hb
    exact ⟨hrange, hnext⟩
  · rintro ⟨hrange, hnext⟩
    exact ⟨_, timeClip_eq_some_iff.2 ⟨rfl, hrange⟩, hnext⟩

/-- From a minute that begins for the first time the search goes on to the next one. -/
lemma nextMinute_of_le (hc : zone.IsFirst c) (hcw : zone.IsWhole c) (hvalid : -maxTime ≤ c)
    (ht : t ≤ maxTime) (htf : zone.IsFirst t) (htw : zone.IsWhole t) (hlt : c < t) :
    ∃ c', nextMinute zone c = some c' ∧ c < c' ∧ c' ≤ t := by
  have hle := hzone.utc_add_minute_le hc hcw htf htw hlt
  have hforward := zone.utc_lt_utc_add (zone.localTime c) (show 0 < msPerMinute by decide)
  rw [hc] at hforward
  exact ⟨_, timeClip_eq_some_iff.2 ⟨rfl, hvalid.trans hforward.le, hle.trans ht⟩, hforward, hle⟩

section
variable (hafter : zone.IsFirst after)
include hafter

lemma minuteAfter_of_candidate {k : ℕ} (h : candidateMinute zone after k = some t) :
    MinuteAfter zone after t := by
  induction k generalizing t with
  | zero =>
    obtain ⟨-, hnext⟩ := firstCandidate_eq_some_iff.1 h
    obtain ⟨rfl, -, hvalid⟩ := timeClip_eq_some_iff.1 hnext
    exact ⟨lt_next_minuteOf hafter, hvalid, isFirst_utc _,
      isWhole_next hzone (minuteOf_isWhole hzone after)⟩
  | succ k ih =>
    obtain ⟨c, hc, hnext⟩ := Option.bind_eq_some_iff.mp h
    obtain ⟨rfl, -, hvalid⟩ := timeClip_eq_some_iff.1 hnext
    have hminute := ih hc
    exact ⟨hminute.later.trans (candidateMinute_succ_lt hc h), hvalid, isFirst_utc _,
      isWhole_next hzone hminute.isWhole⟩

/-- From a minute looked at, all later ones are. -/
lemma candidate_of_le (hdate : -maxTime ≤ after) (ht : MinuteAfter zone after t) (n : ℕ) {k : ℕ}
    (hc : candidateMinute zone after k = some c) (hle : c ≤ t) (hn : t - c ≤ n) :
    ∃ k', candidateMinute zone after k' = some t := by
  induction n generalizing k c with
  | zero =>
    obtain rfl : c = t := by omega
    exact ⟨k, hc⟩
  | succ n ih =>
    rcases hle.eq_or_lt with rfl | hlt
    · exact ⟨k, hc⟩
    have hminute := minuteAfter_of_candidate hzone hafter hc
    obtain ⟨c', hnext, hforward, hle'⟩ := nextMinute_of_le hzone hminute.isFirst hminute.isWhole
      (hdate.trans hminute.later.le) ht.valid ht.isFirst ht.isWhole hlt
    refine ih (k := k + 1) ?_ hle' (by omega)
    rw [candidateMinute, hc]
    exact hnext

/-- **The minutes looked at** are the later ones that begin for the first time. -/
theorem candidateMinute_iff (hdate : -maxTime ≤ after) :
    (∃ k, candidateMinute zone after k = some t) ↔ MinuteAfter zone after t := by
  refine ⟨fun ⟨k, hk⟩ => minuteAfter_of_candidate hzone hafter hk, fun ht => ?_⟩
  have hle := minuteOf_le hzone after
  have heq := minuteOf_eq hzone hafter
  have hvalid : -maxTime ≤ minuteOf zone after := by
    rw [maxTime] at *
    rw [msPerMinute] at heq
    omega
  obtain ⟨c, hnext, -, hct⟩ := nextMinute_of_le hzone (isFirst_utc _)
    (minuteOf_isWhole hzone after) hvalid ht.valid ht.isFirst ht.isWhole (hle.trans_lt ht.later)
  have hfirst : candidateMinute zone after 0 = some c :=
    firstCandidate_eq_some_iff.2 ⟨⟨hvalid, hle.trans (ht.later.le.trans ht.valid)⟩, hnext⟩
  exact candidate_of_le hzone hafter hdate ht (t - c).toNat hfirst hct (by omega)

/-- The first of them is where the search begins. -/
lemma firstCandidate_of_isLeast (hdate : -maxTime ≤ after) {first : ℤ}
    (hleast : IsLeast {t | MinuteAfter zone after t} first) :
    firstCandidate zone after = some first := by
  obtain ⟨k, hk⟩ := (candidateMinute_iff hzone hafter hdate).2 hleast.1
  obtain ⟨c, hc, hle⟩ := candidateMinute_add_le (j := 0) (d := k) (by rwa [Nat.zero_add])
  have hmin := hleast.2 ((candidateMinute_iff hzone hafter hdate).1 ⟨0, hc⟩)
  have heq : c = first := by omega
  rw [← heq]
  exact hc

end

end Minutes

/-! ## The run that is found -/

/-- **The search finds the next run**: what is returned is the first later minute that satisfies the
fields, of those that begin for the first time; it is returned if one within 366 days of the first
of them does; and the loop ends by itself, its test failing after the last pass that the bound
allows at the latest. -/
theorem nextCronRunAfter_finds (hzone : zone.Regular) {expression : String}
    (hparse : parseCronExpression expression = .ok fields) (hafter : zone.IsFirst after)
    (hdate : -maxTime ≤ after) :
    (∀ run, nextCronRunAfter zone expression after = .ok run → NextRun zone fields after run) ∧
      (∀ first, IsLeast {t | MinuteAfter zone after t} first →
        (∃ t ≤ first + searchSpan, MinuteAfter zone after t ∧
          matchesCronFields (zone.localTime t) fields = true) →
        ∃ run, nextCronRunAfter zone expression after = .ok run) ∧
      (∀ more, cronSearch zone after fields (searchSpan + 1 + more) =
        cronSearch zone after fields (searchSpan + 1)) ∧
      ∀ c, candidateMinute zone after (searchSpan + 1) = some c →
        (firstCandidate zone after).getD 0 + searchSpan < c := by
  refine ⟨fun run hrun => ?_, fun first hleast => ?_, searchCron_fuel, fun _ => lt_candidateMinute⟩
  · rw [nextCronRunAfter_eq zone after hparse] at hrun
    rcases hsearch : cronSearch zone after fields (searchSpan + 1) with _ | found
    · rw [hsearch] at hrun
      cases hrun
    · rw [hsearch] at hrun
      cases hrun
      obtain ⟨k, hk, -, hfits, hfirst⟩ := (cronSearch_eq_some_iff 0).mp hsearch
      refine ⟨(candidateMinute_iff hzone hafter hdate).1 ⟨k, hk⟩, hfits, fun t ht hlt => ?_⟩
      obtain ⟨j, hj⟩ := (candidateMinute_iff hzone hafter hdate).2 ht
      refine hfirst j ?_ t hj
      by_contra hle
      have hlater := candidateMinute_le (Nat.le_of_not_lt hle) hk hj
      omega
  · rintro ⟨t, hspan, ht, hfits⟩
    obtain ⟨k, hk⟩ := (candidateMinute_iff hzone hafter hdate).2 ht
    have hwithin : MatchesWithinYear zone after fields t := by
      refine ⟨k, hk, ?_, hfits⟩
      rw [firstCandidate_of_isLeast hzone hafter hdate hleast]
      exact hspan
    have hlater : ∀ t, MatchesWithinYear zone after fields t → after < t := by
      rintro t ⟨k, hk, -⟩
      exact ((candidateMinute_iff hzone hafter hdate).1 ⟨k, hk⟩).later
    obtain ⟨run, hrun, -⟩ := (nextCronRunAfter_later_iff hparse).2 ⟨⟨t, hwithin⟩, hlater⟩
    exact ⟨run, hrun⟩

/-- Central European time in 2026. -/
def centralEurope : TimeZone where
  offset := 3600000
  transitions := [(1774746000000, 7200000), (1792890000000, 3600000)]
  spaced := by simp [TimeZone.Spaced]

-- from half past two, shown for the second time, the search goes back an hour
example : nextCronRunAfter centralEurope "* * * * *" 1792891800000 = .ok 1792888260000 := by
  decide +kernel

def halfPastTwo : CronFields :=
  ⟨[30], [2], List.range' 1 31, List.range' 1 12, List.range 8⟩

theorem nextCronRunAfter_finds_centralEurope :
    (∀ run, nextCronRunAfter centralEurope "30 2 * * *" 1792887000000 = .ok run →
        NextRun centralEurope halfPastTwo 1792887000000 run) ∧
      (∀ first, IsLeast {t | MinuteAfter centralEurope 1792887000000 t} first →
        (∃ t ≤ first + searchSpan, MinuteAfter centralEurope 1792887000000 t ∧
          matchesCronFields (centralEurope.localTime t) halfPastTwo = true) →
        ∃ run, nextCronRunAfter centralEurope "30 2 * * *" 1792887000000 = .ok run) ∧
      (∀ more, cronSearch centralEurope 1792887000000 halfPastTwo (searchSpan + 1 + more) =
        cronSearch centralEurope 1792887000000 halfPastTwo (searchSpan + 1)) ∧
      ∀ c, candidateMinute centralEurope 1792887000000 (searchSpan + 1) = some c →
        (firstCandidate centralEurope 1792887000000).getD 0 + searchSpan < c :=
  nextCronRunAfter_finds
    (by simp [TimeZone.Regular, TimeZone.RegularFrom, centralEurope, msPerMinute])
    (by decide +kernel) (by unfold TimeZone.IsFirst; decide +kernel) (by decide)

/-- Four years before the next 29th of February the search gives up. -/
theorem nextCronRunAfter_gives_up : parseCronExpression "0 0 29 2 *" = .ok leapFields ∧
      nextCronRunAfter .universal "0 0 29 2 *" leapDay =
        .error "Cron schedule did not match within one year: 0 0 29 2 *" ∧
      ∃ t > leapDay, universal.IsWhole t ∧
        matchesCronFields (universal.localTime t) leapFields = true := by
  refine ⟨parse_leap, nextCronRunAfter_leap, 1835395200000, by decide, ?_, by decide +kernel⟩
  rw [IsWhole, TimeZone.localTime_universal]
  decide

end Amide
