/-!
# Counters

What a session counts: compiler runs and their time, warnings, refused advances, bookings and
broadcast events.  The counters are natural numbers, so counting is exact and has no bound; a reader
sees them as 64-bit words (`Counters.word`), and that is where they wrap.
-/

namespace SolarBill

/-- What a session counts. -/
structure Counters where
  compilations : Nat := 0
  /-- Time of all compiler runs in whole microseconds. -/
  compileMicros : Nat := 0
  warningsEmitted : Nat := 0
  blockedAdvances : Nat := 0
  bookingsCommitted : Nat := 0
  bookingsRolledBack : Nat := 0
  broadcasts : Nat := 0
  deriving DecidableEq, Repr, Inhabited

namespace Counters

/-- A counter as a word. -/
def word (n : Nat) : UInt64 :=
  .ofNat n

/-- Count a compiler run of a duration in nanoseconds with a number of warnings. -/
def compiled (c : Counters) (nanoseconds warnings : Nat) : Counters :=
  { c with
    compilations := c.compilations + 1
    compileMicros := c.compileMicros + nanoseconds / 1000
    warningsEmitted := c.warningsEmitted + warnings }

/-- Count a refused advance. -/
def blocked (c : Counters) : Counters :=
  { c with blockedAdvances := c.blockedAdvances + 1 }

/-- Count a booking that went through. -/
def committed (c : Counters) : Counters :=
  { c with bookingsCommitted := c.bookingsCommitted + 1 }

/-- Count a booking that failed and was taken back. -/
def rolledBack (c : Counters) : Counters :=
  { c with bookingsRolledBack := c.bookingsRolledBack + 1 }

/-- Count events that were broadcast. -/
def broadcast (c : Counters) (events : Nat) : Counters :=
  { c with broadcasts := c.broadcasts + events }

/-- Mean time of a compiler run in milliseconds; zero before the first run. -/
def meanCompileMillis (c : Counters) : Float :=
  if word c.compilations = 0 then 0.0
  else (word c.compileMicros).toFloat / (word c.compilations).toFloat / 1000.0

end Counters

end SolarBill
