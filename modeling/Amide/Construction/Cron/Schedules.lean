import Amide.Framework.LocalTime
import Amide.Framework.Trim

/-!
# Schedules of cron jobs (`core/cron-jobs.ts`)

The texts a schedule may be given as (`parseAgentCronSchedule`), the five fields of a cron
expression (`parseCronExpression`), and when a schedule runs next (`nextRunAtForSchedule`): never
again, an interval later, or at the first minute within 366 days that matches the fields.

Times are kept as instants, in place of their ISO texts, and a date that is no valid one is
`none`.  Reading a date from a text is the host's (`parseDate`).  The search is bounded by the
number of milliseconds it has to cover; `searchCron_fuel` in `Properties/Cron/Search.lean` shows
that it never needs more.
-/

namespace Amide

open LocalTime

inductive AgentCronScheduleKind where
  | once
  | cron
  | interval
  deriving DecidableEq

structure AgentCronSchedule where
  kind : AgentCronScheduleKind
  expression : String
  intervalMs : Option ℕ := none
  deriving DecidableEq

/-- A date; `none` is one that is not valid. -/
abbrev Date := Option ℤ

/-- Throws for a date that is not valid. -/
def toISOString : Date → Except String ℤ
  | none => .error "Invalid time value"
  | some t => .ok t

/-! ## Texts -/

def isDigit (c : Char) : Bool := 48 ≤ c.toNat && c.toNat ≤ 57

def digitsValue (digits : List Char) : ℕ :=
  digits.foldl (fun n c => 10 * n + (c.toNat - 48)) 0

/-! ## Cron expressions -/

/-- The values of each field. -/
structure CronFields where
  minute : List ℕ
  hour : List ℕ
  dayOfMonth : List ℕ
  month : List ℕ
  dayOfWeek : List ℕ
  deriving DecidableEq

def parseCronNumber (value : List Char) (min max : ℕ) : Except String ℕ :=
  if value = [] ∨ value.all isDigit = false then
    .error s!"Invalid cron number: {String.ofList value}"
  else if digitsValue value < min ∨ max < digitsValue value then
    .error s!"Cron number out of range: {String.ofList value}"
  else .ok (digitsValue value)

/-- The values from `start` to `stop` by `step`. -/
def steppedRange (start stop step : ℕ) : List ℕ :=
  List.range' start ((stop - start) / step + 1) step

def parseCronRange (rangeText : List Char) (min max : ℕ) : Except String (ℕ × ℕ) :=
  if rangeText = ['*'] then .ok (min, max)
  else
    match rangeText.splitOn '-' with
    | startText :: endText :: _ => do
      let start ← parseCronNumber startText min max
      let stop ← parseCronNumber endText min max
      if stop < start then .error s!"Invalid cron range: {String.ofList rangeText}"
      else .ok (start, stop)
    | _ => do
      let start ← parseCronNumber rangeText min max
      .ok (start, start)

def parseCronPart (field part : List Char) (min max : ℕ) : Except String (List ℕ) :=
  if part = [] then .error s!"Invalid cron field: {String.ofList field}"
  else do
    let pieces := part.splitOn '/'
    let step ← match pieces.tail.head? with
      | none => .ok 1
      | some stepText => parseCronNumber stepText 1 max
    let (start, stop) ← parseCronRange (pieces.headD []) min max
    .ok (steppedRange start stop step)

def parseCronField (field : List Char) (min max : ℕ) : Except String (List ℕ) := do
  let values ← (field.splitOn ',').mapM fun part => parseCronPart field part min max
  .ok values.flatten

def parseCronExpression (expression : String) : Except String CronFields :=
  match (expression.toList.splitOnP Chars.isSpace).filter (· ≠ []) with
  | [minute, hour, dayOfMonth, month, dayOfWeek] => do
    let minute ← parseCronField minute 0 59
    let hour ← parseCronField hour 0 23
    let dayOfMonth ← parseCronField dayOfMonth 1 31
    let month ← parseCronField month 1 12
    let dayOfWeek ← parseCronField dayOfWeek 0 7
    .ok { minute, hour, dayOfMonth, month, dayOfWeek }
  | _ => .error ("Unsupported cron schedule. Use 'in 10m', 'at <ISO date>', @hourly, or five " ++
      "fields: minute hour day month weekday")

/-- Sunday may be written as zero and as seven.  The date is a local one. -/
def matchesCronFields (t : ℤ) (fields : CronFields) : Bool :=
  fields.minute.contains (minutes t).toNat && fields.hour.contains (hours t).toNat &&
    fields.dayOfMonth.contains (date t).toNat && fields.month.contains (month t).toNat &&
      (fields.dayOfWeek.contains (weekday t).toNat ||
        (weekday t == 0 && fields.dayOfWeek.contains 7))

/-! ## The next run -/

section NextRun

variable (zone : TimeZone)

/-- `candidate.setMinutes(candidate.getMinutes() + 1)`. -/
def nextMinute (candidate : ℤ) : Date :=
  timeClip (zone.utc (zone.localTime candidate + msPerMinute))

/-- The first minute to look at. -/
def firstCandidate (after : ℤ) : Date :=
  (timeClip (zone.utc (startOfMinute (zone.localTime after)))).bind (nextMinute zone)

def searchSpan : ℕ := 366 * 24 * 60 * 60000

/-- The loop, with a bound on its passes; it ends at the deadline or at a date that is not
valid. -/
def searchCron (fields : CronFields) (deadline : ℤ) : ℕ → Date → Option ℤ
  | 0, _ => none
  | _ + 1, none => none
  | fuel + 1, some candidate =>
    if candidate ≤ deadline then
      if matchesCronFields (zone.localTime candidate) fields then some candidate
      else searchCron fields deadline fuel (nextMinute zone candidate)
    else none

def nextCronRunAfter (expression : String) (after : ℤ) : Except String ℤ := do
  let fields ← parseCronExpression expression
  let candidate := firstCandidate zone after
  match searchCron zone fields (candidate.getD 0 + searchSpan) (searchSpan + 1) candidate with
  | some run => .ok run
  | none => .error s!"Cron schedule did not match within one year: {expression}"

/-- `undefined` for a schedule that does not recur. -/
def nextRunAtForSchedule (schedule : AgentCronSchedule) (after : ℤ) : Except String (Option Date) :=
  match schedule.kind with
  | .once => .ok none
  | .interval =>
    match schedule.intervalMs with
    | none | some 0 => .error s!"Invalid interval schedule: {schedule.expression}"
    | some intervalMs => .ok (some (timeClip (after + intervalMs)))
  | .cron => do
    let run ← nextCronRunAfter zone schedule.expression after
    .ok (some (some run))

end NextRun

/-! ## Texts of schedules -/

def minuteUnits : List String := ["m", "min", "mins", "minute", "minutes"]

def hourUnits : List String := ["h", "hr", "hrs", "hour", "hours"]

def dayUnits : List String := ["d", "day", "days"]

def secondUnits : List String := ["s", "sec", "secs", "second", "seconds"]

/-- ASCII letters are compared without regard to case. -/
def lower (text : List Char) : List Char := text.map Char.toLower

/-- A text of a keyword, spaces, an amount and a unit: the amount and the unit's length. -/
def matchAmount (keywords : List String) (units : List (List String × ℕ)) (text : List Char) :
    Option (ℕ × ℕ) :=
  keywords.findSome? fun keyword =>
    let rest := text.drop keyword.length
    let digits := (rest.dropWhile Chars.isSpace).takeWhile isDigit
    let unitText := ((rest.dropWhile Chars.isSpace).dropWhile isDigit).dropWhile Chars.isSpace
    if lower (text.take keyword.length) = keyword.toList ∧ (rest.takeWhile Chars.isSpace) ≠ [] ∧
        digits ≠ [] then
      (units.find? fun u => u.1.any fun name => name.toList = lower unitText).map fun u =>
        (digitsValue digits, u.2)
    else none

def normalizeCronAlias (text : String) : String :=
  match text with
  | "@hourly" => "0 * * * *"
  | "@daily" => "0 0 * * *"
  | "@weekly" => "0 0 * * 0"
  | "@monthly" => "0 0 1 * *"
  | text => text

def stripMatchingQuotes (value : List Char) : List Char :=
  match value with
  | [] | [_] => value
  | first :: rest =>
    if (first = '"' ∨ first = '\'') ∧ rest.getLast? = some first then rest.dropLast else value

/-- The schedule a text stands for, and its first run. -/
def parseAgentCronSchedule (zone : TimeZone) (parseDate : String → Date) (input : String)
    (now : ℤ) : Except String (AgentCronSchedule × Date) :=
  let chars := stripMatchingQuotes (Chars.trim input.toList)
  let text := String.ofList chars
  if chars = [] then .error "Cron schedule cannot be empty"
  else
    match matchAmount ["in"] [(minuteUnits, 60000), (hourUnits, 3600000), (dayUnits, 86400000)]
      chars with
    | some (amount, unitMs) =>
      .ok ({ kind := .once, expression := text }, timeClip (now + amount * unitMs))
    | none =>
      match matchAmount ["every", "each"]
        [(secondUnits, 1000), (minuteUnits, 60000), (hourUnits, 3600000)] chars with
      | some (amount, unitMs) =>
        if amount * unitMs < 10 * 1000 then
          .error "Recurring interval must be at least 10 seconds"
        else
          .ok ({ kind := .interval, expression := text, intervalMs := some (amount * unitMs) },
            timeClip (now + (amount * unitMs : ℕ)))
      | none =>
        if lower (chars.take 3) = ['a', 't', ' '] then
          match parseDate (String.ofList (Chars.trim (chars.drop 3))) with
          | none => .error "Invalid one-shot schedule. Use: at <ISO date>"
          | some whenAt =>
            if whenAt ≤ now then .error "One-shot schedule must be in the future"
            else .ok ({ kind := .once, expression := text }, some whenAt)
        else do
          let expression := normalizeCronAlias text
          let run ← nextCronRunAfter zone expression now
          .ok ({ kind := .cron, expression }, some run)

end Amide
