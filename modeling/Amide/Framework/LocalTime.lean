import Mathlib.Algebra.Order.Group.Int
import Mathlib.Tactic.Common

/-!
# Instants, local time and the calendar

An instant is a number of milliseconds since the epoch, and so is a local time, of the local
clock.  A `TimeZone` has an offset for each stretch between its transitions: `TimeZone.localTime`
adds the offset in force, and `TimeZone.utc` goes back.  A local time that occurs twice means its
first occurrence, and one that is skipped is read with the offset before the transition; these
are the rules by which the setters of an ECMAScript date resolve local times.

`utc` is no inverse of `localTime`: it never reaches the second occurrence of a repeated time.
What a clock driven by the setters relies on holds of every instant that `utc` returns: it is the
instant of its own local time (`utc_localTime_utc`), and setting the clock forward from it leads
to a later instant (`utc_lt_utc_add`).
-/

/-! ## The calendar -/

namespace LocalTime

def msPerMinute : ℤ := 60000

def msPerDay : ℤ := 86400000

/-- The day a local time falls on, counted from the epoch's. -/
def day (t : ℤ) : ℤ := t / msPerDay

def minutes (t : ℤ) : ℤ := t / msPerMinute % 60

def hours (t : ℤ) : ℤ := t / (60 * msPerMinute) % 24

/-- Sunday is zero; the epoch was a Thursday. -/
def weekday (t : ℤ) : ℤ := (day t + 4) % 7

/-- The day of a year that begins with March, from the days since March 1 of the year 0 in
periods of 400 years. -/
def dayOfMarchYear (t : ℤ) : ℤ :=
  let dayOfEra := (day t + 719468) % 146097
  let yearOfEra := (dayOfEra - dayOfEra / 1460 + dayOfEra / 36524 - dayOfEra / 146096) / 365
  dayOfEra - (365 * yearOfEra + yearOfEra / 4 - yearOfEra / 100)

/-- The month, March being zero: five months always have 153 days. -/
def marchMonth (t : ℤ) : ℤ := (5 * dayOfMarchYear t + 2) / 153

/-- From one to twelve. -/
def month (t : ℤ) : ℤ := if marchMonth t < 10 then marchMonth t + 3 else marchMonth t - 9

/-- The day of the month, from one. -/
def date (t : ℤ) : ℤ := dayOfMarchYear t - (153 * marchMonth t + 2) / 5 + 1

/-- The beginning of the minute. -/
def startOfMinute (t : ℤ) : ℤ := t / msPerMinute * msPerMinute

def maxTime : ℤ := 8640000000000000

/-- The instants a date can hold. -/
def timeClip (t : ℤ) : Option ℤ := if -maxTime ≤ t ∧ t ≤ maxTime then some t else none

example : (month (19782 * msPerDay), date (19782 * msPerDay)) = (2, 29) := by decide

end LocalTime

/-! ## Time zones -/

namespace TimeZone

/-- The transitions follow each other, and none by less than the clock jumped forward. -/
def Spaced : ℤ → List (ℤ × ℤ) → Prop
  | _, [] => True
  | offset, (start, offset') :: rest =>
    (∀ next ∈ rest.head?, start < next.1 ∧ offset' - offset ≤ next.1 - start) ∧ Spaced offset' rest

def offsetFrom : ℤ → List (ℤ × ℤ) → ℤ → ℤ
  | offset, [], _ => offset
  | offset, (start, offset') :: rest, t =>
    if t < start then offset else offsetFrom offset' rest t

def utcFrom : ℤ → List (ℤ × ℤ) → ℤ → ℤ
  | offset, [], t => t - offset
  | offset, (start, offset') :: rest, t =>
    if t - offset < start then t - offset
    -- skipped by the clock: read with the offset before the transition
    else if t - offset' < start then t - offset
    else utcFrom offset' rest t

end TimeZone

/-- An offset to begin with, and the instants from which others are in force. -/
structure TimeZone where
  offset : ℤ
  transitions : List (ℤ × ℤ) := []
  spaced : TimeZone.Spaced offset transitions := by trivial

namespace TimeZone

def localTime (zone : TimeZone) (t : ℤ) : ℤ := t + offsetFrom zone.offset zone.transitions t

def utc (zone : TimeZone) (t : ℤ) : ℤ := utcFrom zone.offset zone.transitions t

/-- The zone of the epoch's own clock. -/
def universal : TimeZone where
  offset := 0

@[simp] lemma localTime_universal (t : ℤ) : universal.localTime t = t := add_zero t

section Stretches

variable {offset : ℤ} {transitions : List (ℤ × ℤ)}
variable {t : ℤ}

/-- A stretch's offset is in force up to the next transition. -/
theorem offsetFrom_of_lt (h : ∀ next ∈ transitions.head?, t < next.1) :
    offsetFrom offset transitions t = offset := by
  cases transitions with
  | nil => rfl
  | cons next rest => exact if_pos (h next rfl)

lemma utcFrom_of_lt (h : ∀ next ∈ transitions.head?, t - offset < next.1) :
    utcFrom offset transitions t = t - offset := by
  cases transitions with
  | nil => rfl
  | cons next rest => exact if_pos (h next rfl)

variable {start : ℤ}

lemma le_utcFrom (hs : Spaced offset transitions)
    (hnext : ∀ next ∈ transitions.head?, start < next.1) (h : start ≤ t - offset) :
    start ≤ utcFrom offset transitions t := by
  induction transitions generalizing offset start with
  | nil => exact h
  | cons next rest ih =>
    obtain ⟨start', offset'⟩ := next
    have hlt : start < start' := hnext _ rfl
    rw [utcFrom]
    split_ifs with hbefore hskipped
    · exact h
    · exact h
    · exact hlt.le.trans (ih hs.2 (fun next hmem => (hs.1 next hmem).1) (not_lt.mp hskipped))

variable {rest : List (ℤ × ℤ)}

/-- In a gap the clock is read with the new offset, which is still in force there. -/
theorem offsetFrom_of_gap {offset' : ℤ}
    (hs : Spaced offset ((start, offset') :: rest)) (hafter : start ≤ t - offset)
    (hgap : t - offset' < start) :
    offsetFrom offset ((start, offset') :: rest) (t - offset) = offset' ∧
      ∀ next ∈ rest.head?, t - offset < next.1 := by
  have hlt : ∀ next ∈ rest.head?, t - offset < next.1 := by
    intro next hmem
    have hspace := (hs.1 next hmem).2
    omega
  rw [offsetFrom, if_neg (not_lt.mpr hafter)]
  exact ⟨offsetFrom_of_lt hlt, hlt⟩

section
variable (hs : Spaced offset transitions)
include hs

/-- The clock shows the time it was set to, or, if that is skipped, a later one. -/
theorem le_localTime_utcFrom (t : ℤ) : t ≤ utcFrom offset transitions t +
      offsetFrom offset transitions (utcFrom offset transitions t) := by
  induction transitions generalizing offset with
  | nil => simp [utcFrom, offsetFrom]
  | cons next rest ih =>
    rw [utcFrom]
    split_ifs with hbefore hgap
    · rw [offsetFrom, if_pos hbefore]
      omega
    · rw [(offsetFrom_of_gap hs (not_lt.mp hbefore) hgap).1]
      omega
    · have hstart := le_utcFrom hs.2 (fun next hmem => (hs.1 next hmem).1) (not_lt.mp hgap)
      rw [offsetFrom, if_neg (not_lt.mpr hstart)]
      exact ih hs.2

lemma utcFrom_localTime_utcFrom (t : ℤ) :
    utcFrom offset transitions (utcFrom offset transitions t +
        offsetFrom offset transitions (utcFrom offset transitions t)) =
      utcFrom offset transitions t := by
  induction transitions generalizing offset with
  | nil => simp [utcFrom, offsetFrom]
  | cons next rest ih =>
    obtain ⟨start, offset'⟩ := next
    by_cases hbefore : t - offset < start
    · have hutc : utcFrom offset ((start, offset') :: rest) t = t - offset := by
        rw [utcFrom, if_pos hbefore]
      rw [hutc, offsetFrom, if_pos hbefore, sub_add_cancel, hutc]
    · by_cases hgap : t - offset' < start
      · obtain ⟨hoffset, hnext⟩ := offsetFrom_of_gap hs (not_lt.mp hbefore) hgap
        have hutc : utcFrom offset ((start, offset') :: rest) t = t - offset := by
          rw [utcFrom, if_neg hbefore, if_pos hgap]
        have hlast : utcFrom offset' rest (t - offset + offset') = t - offset := by
          rw [utcFrom_of_lt, add_sub_cancel_right]
          rwa [add_sub_cancel_right]
        rw [hutc, hoffset, utcFrom, if_neg (by omega), if_neg (by omega), hlast]
      · have hnext : ∀ next ∈ rest.head?, start < next.1 := fun next hmem => (hs.1 next hmem).1
        have hstart := le_utcFrom hs.2 hnext (not_lt.mp hgap)
        have hutc : utcFrom offset ((start, offset') :: rest) t = utcFrom offset' rest t := by
          rw [utcFrom, if_neg hbefore, if_neg hgap]
        have hle := le_localTime_utcFrom hs.2 t
        rw [hutc, offsetFrom, if_neg (not_lt.mpr hstart), utcFrom, if_neg (by omega),
          if_neg (by omega), ih hs.2]

/-- From a time the clock can show, a later time is a later instant. -/
theorem utcFrom_lt_add {d : ℤ} (hd : 0 < d)
    (ht : utcFrom offset transitions t +
      offsetFrom offset transitions (utcFrom offset transitions t) = t) :
    utcFrom offset transitions t < utcFrom offset transitions (t + d) := by
  induction transitions generalizing offset with
  | nil =>
    rw [utcFrom, utcFrom]
    omega
  | cons next rest ih =>
    obtain ⟨start, offset'⟩ := next
    have hnext : ∀ next ∈ rest.head?, start < next.1 := fun next hmem => (hs.1 next hmem).1
    by_cases hbefore : t - offset < start
    · rw [utcFrom, if_pos hbefore, utcFrom]
      split_ifs with hlater hgap
      · omega
      · omega
      · exact hbefore.trans_le (le_utcFrom hs.2 hnext (not_lt.mp hgap))
    · by_cases hgap : t - offset' < start
      · -- the clock never shows a skipped time
        have hoffset := (offsetFrom_of_gap hs (not_lt.mp hbefore) hgap).1
        rw [utcFrom, if_neg hbefore, if_pos hgap, hoffset] at ht
        omega
      · have hutc : utcFrom offset ((start, offset') :: rest) t = utcFrom offset' rest t := by
          rw [utcFrom, if_neg hbefore, if_neg hgap]
        have hstart := le_utcFrom hs.2 hnext (not_lt.mp hgap)
        rw [hutc, offsetFrom, if_neg (not_lt.mpr hstart)] at ht
        rw [hutc, utcFrom, if_neg (by omega), if_neg (by omega)]
        exact ih hs.2 ht

/-- A time the clock shows is read as its first occurrence. -/
theorem utcFrom_localTime_le (t : ℤ) :
    utcFrom offset transitions (t + offsetFrom offset transitions t) ≤ t := by
  induction transitions generalizing offset with
  | nil => simp [utcFrom, offsetFrom]
  | cons next rest ih =>
    rw [offsetFrom]
    split_ifs with hstart
    · rw [utcFrom, if_pos (by omega)]
      omega
    · rw [utcFrom]
      split_ifs with hbefore hgap
      · omega
      · -- the clock has not jumped yet, so it is set back later
        by_contra hlt
        have hnext : ∀ next ∈ rest.head?, t < next.1 := by
          intro next hmem
          have hspace := (hs.1 next hmem).2
          omega
        rw [offsetFrom_of_lt hnext] at hgap
        omega
      · exact ih hs.2

end

/-! ### Zones of whole minutes -/

open LocalTime

/-- Offsets and transitions are whole minutes, and a clock that is set back is left alone for longer
than it was set back. -/
def RegularFrom : ℤ → List (ℤ × ℤ) → Prop
  | offset, [] => offset % msPerMinute = 0
  | offset, (start, offset') :: rest =>
    offset % msPerMinute = 0 ∧ start % msPerMinute = 0 ∧
      (∀ next ∈ rest.head?, offset - offset' + msPerMinute ≤ next.1 - start) ∧
      RegularFrom offset' rest

section
variable (h : RegularFrom offset transitions)
include h

lemma RegularFrom.offset_mod : offset % msPerMinute = 0 := by
  cases transitions with
  | nil => exact h
  | cons next rest => exact h.1

lemma offsetFrom_mod (t : ℤ) : offsetFrom offset transitions t % msPerMinute = 0 := by
  induction transitions generalizing offset with
  | nil => exact h
  | cons next rest ih =>
    rw [offsetFrom]
    split_ifs
    · exact h.1
    · exact ih h.2.2.2

lemma utcFrom_mod (t : ℤ) : utcFrom offset transitions t % msPerMinute = t % msPerMinute := by
  induction transitions generalizing offset with
  | nil =>
    have hmod := h.offset_mod
    rw [utcFrom]
    rw [msPerMinute] at hmod ⊢
    omega
  | cons next rest ih =>
    have hmod := h.offset_mod
    rw [utcFrom]
    rw [msPerMinute] at hmod ⊢
    split_ifs
    · omega
    · omega
    · exact ih h.2.2.2

/-- The beginning of a minute lies in the stretch of the minute. -/
theorem offsetFrom_sub_mod (t : ℤ) :
    offsetFrom offset transitions (t - t % msPerMinute) = offsetFrom offset transitions t := by
  induction transitions generalizing offset with
  | nil => rfl
  | cons next rest ih =>
    obtain ⟨start, offset'⟩ := next
    have hstart := h.2.1
    have hiff : t - t % msPerMinute < start ↔ t < start := by
      rw [msPerMinute] at hstart ⊢
      omega
    rw [offsetFrom, offsetFrom, ih h.2.2.2]
    simp only [hiff]

end

/-- A time the clock shows is not skipped. -/
theorem le_sub_of_shown {offset' l : ℤ}
    (hs : Spaced offset ((start, offset') :: rest))
    (hl : utcFrom offset ((start, offset') :: rest) l + offsetFrom offset ((start, offset') :: rest)
        (utcFrom offset ((start, offset') :: rest) l) = l)
    (hafter : start ≤ l - offset) : start ≤ l - offset' := by
  by_contra hgap
  have hoffset := (offsetFrom_of_gap hs hafter (not_le.mp hgap)).1
  rw [utcFrom, if_neg (not_lt.mpr hafter), if_pos (not_le.mp hgap), hoffset] at hl
  omega

/-- **No minute is passed over**: between a minute and the one the clock is set to next, no other
begins for the first time. -/
theorem utcFrom_add_minute_le (hs : Spaced offset transitions) (hr : RegularFrom offset transitions)
    {l : ℤ}
    (hl : utcFrom offset transitions l +
      offsetFrom offset transitions (utcFrom offset transitions l) = l)
    (hlw : l % msPerMinute = 0)
    (ht : utcFrom offset transitions (t + offsetFrom offset transitions t) = t)
    (htw : (t + offsetFrom offset transitions t) % msPerMinute = 0)
    (hlt : utcFrom offset transitions l < t) :
    utcFrom offset transitions (l + msPerMinute) ≤ t := by
  induction transitions generalizing offset with
  | nil =>
    rw [utcFrom] at hlt ⊢
    rw [offsetFrom] at htw
    rw [msPerMinute] at *
    omega
  | cons next rest ih =>
    obtain ⟨start, offset'⟩ := next
    have hnext : ∀ next ∈ rest.head?, start < next.1 := fun next hmem => (hs.1 next hmem).1
    have hmod := hr.offset_mod
    have hmod' := hr.2.2.2.offset_mod
    by_cases hbefore : l - offset < start
    · rw [utcFrom, if_pos hbefore] at hlt
      -- before the transition the minutes are whole where they are in the stretch
      have hearly : t < start → l + msPerMinute - offset ≤ t := by
        intro hstart
        rw [offsetFrom, if_pos hstart] at htw
        rw [msPerMinute] at *
        omega
      rw [utcFrom]
      split_ifs with hsame hgap
      · by_cases hstart : t < start
        · exact hearly hstart
        · omega
      · by_cases hstart : t < start
        · exact hearly hstart
        · by_contra hle
          have hstretch : ∀ next ∈ rest.head?, t < next.1 := by
            intro next hmem
            have hspace := (offsetFrom_of_gap hs (not_lt.mp hsame) hgap).2 next hmem
            omega
          rw [offsetFrom, if_neg hstart, offsetFrom_of_lt hstretch] at htw
          rw [msPerMinute] at *
          omega
      · have hstretch : ∀ next ∈ rest.head?, l + msPerMinute - offset' < next.1 := by
          intro next hmem
          have hspace := hr.2.2.1 next hmem
          omega
        rw [utcFrom_of_lt hstretch]
        by_cases hstart : t < start
        · omega
        · by_contra hle
          have hsecond : ∀ next ∈ rest.head?, t < next.1 := by
            intro next hmem
            have hspace := hstretch next hmem
            omega
          rw [offsetFrom, if_neg hstart, offsetFrom_of_lt hsecond] at ht htw
          -- the clock shows a minute for the second time
          have hagain : t + offset' - offset < start := by
            rw [msPerMinute] at *
            omega
          rw [utcFrom, if_pos hagain] at ht
          omega
    · rw [not_lt] at hbefore
      have hshown := le_sub_of_shown hs hl hbefore
      have hutc : utcFrom offset ((start, offset') :: rest) l = utcFrom offset' rest l := by
        rw [utcFrom, if_neg (not_lt.mpr hbefore), if_neg (not_lt.mpr hshown)]
      have hstart := le_utcFrom hs.2 hnext hshown
      rw [hutc] at hl hlt
      rw [offsetFrom, if_neg (by omega)] at hl htw
      have htstart : start ≤ t := hstart.trans hlt.le
      have hoffset : offsetFrom offset ((start, offset') :: rest) t =
          offsetFrom offset' rest t := by
        rw [offsetFrom, if_neg (not_lt.mpr htstart)]
      rw [hoffset] at ht
      have htbefore : start ≤ t + offsetFrom offset' rest t - offset := by
        by_contra hearly
        rw [utcFrom, if_pos (not_le.mp hearly)] at ht
        omega
      have htshown := le_sub_of_shown hs (by rw [ht, hoffset]) htbefore
      rw [utcFrom, if_neg (not_lt.mpr htbefore), if_neg (not_lt.mpr htshown)] at ht
      have hminute : (0 : ℤ) < msPerMinute := by decide
      rw [utcFrom, if_neg (by omega), if_neg (by omega)]
      exact ih hs.2 hr.2.2.2 hl ht htw hlt

end Stretches

variable (zone : TimeZone)

lemma utc_localTime_utc (t : ℤ) : zone.utc (zone.localTime (zone.utc t)) = zone.utc t :=
  utcFrom_localTime_utcFrom zone.spaced t

/-- **The clock goes forward**: from an instant it was set to, setting it to a later time leads to
a later instant. -/
theorem utc_lt_utc_add (t : ℤ) {d : ℤ} (hd : 0 < d) :
    zone.utc t < zone.utc (zone.localTime (zone.utc t) + d) := by
  have hback := zone.utc_localTime_utc t
  have hlt := utcFrom_lt_add (t := zone.localTime (zone.utc t)) zone.spaced hd
    (by
      change zone.utc (zone.localTime (zone.utc t)) +
        offsetFrom zone.offset zone.transitions (zone.utc (zone.localTime (zone.utc t))) = _
      rw [hback]
      rfl)
  change zone.utc (zone.localTime (zone.utc t)) < _ at hlt
  rwa [hback] at hlt

/-- An instant at which the clock shows its time for the first time. -/
def IsFirst (t : ℤ) : Prop := zone.utc (zone.localTime t) = t

/-- A whole minute of the local clock. -/
def IsWhole (t : ℤ) : Prop := zone.localTime t % LocalTime.msPerMinute = 0

def Regular : Prop := RegularFrom zone.offset zone.transitions

variable {zone} {c t : ℤ}

lemma isFirst_utc (t : ℤ) : zone.IsFirst (zone.utc t) := zone.utc_localTime_utc t

lemma utc_localTime_le (t : ℤ) : zone.utc (zone.localTime t) ≤ t :=
  utcFrom_localTime_le zone.spaced t

lemma le_localTime_utc (t : ℤ) : t ≤ zone.localTime (zone.utc t) :=
  le_localTime_utcFrom zone.spaced t

lemma IsFirst.localTime_lt (hc : zone.IsFirst c) (ht : zone.IsFirst t) (hlt : c < t) :
    zone.localTime c < zone.localTime t := by
  by_contra hle
  rcases (not_lt.mp hle).eq_or_lt with heq | hlt'
  · have hsame := congrArg zone.utc heq
    rw [hc, ht] at hsame
    omega
  · have hforward := zone.utc_lt_utc_add (zone.localTime t) (Int.sub_pos_of_lt hlt')
    rw [ht, add_sub_cancel, hc] at hforward
    omega

lemma Regular.isWhole_utc (h : zone.Regular) (ht : t % LocalTime.msPerMinute = 0) :
    zone.IsWhole (zone.utc t) := by
  have hmod := utcFrom_mod h t
  have hoffset := offsetFrom_mod h (zone.utc t)
  change (zone.utc t + _) % LocalTime.msPerMinute = 0
  change zone.utc t % LocalTime.msPerMinute = _ at hmod
  rw [LocalTime.msPerMinute] at *
  omega

/-- The minute an instant lies in begins no later. -/
theorem Regular.utc_startOfMinute_le (h : zone.Regular) (t : ℤ) :
    zone.utc (LocalTime.startOfMinute (zone.localTime t)) ≤ t := by
  have hstretch := offsetFrom_sub_mod h t
  have hoffset := offsetFrom_mod h t
  have hstart : LocalTime.startOfMinute (zone.localTime t) =
      zone.localTime (t - t % LocalTime.msPerMinute) := by
    rw [localTime, localTime, hstretch, LocalTime.startOfMinute]
    rw [LocalTime.msPerMinute] at *
    omega
  have hle : zone.utc (zone.localTime _) ≤ _ := utc_localTime_le (t - t % LocalTime.msPerMinute)
  rw [hstart]
  rw [LocalTime.msPerMinute] at *
  omega

lemma Regular.utc_add_minute_le (h : zone.Regular) (hc : zone.IsFirst c) (hcw : zone.IsWhole c)
    (ht : zone.IsFirst t) (htw : zone.IsWhole t) (hlt : c < t) :
    zone.utc (zone.localTime c + LocalTime.msPerMinute) ≤ t := by
  refine utcFrom_add_minute_le zone.spaced h ?_ hcw ht htw ?_
  · exact congrArg zone.localTime hc
  · rw [← hc] at hlt
    exact hlt

end TimeZone
