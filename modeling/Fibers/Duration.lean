/-!
Lengths of time and moments on the scale of the monotonic clock, both in whole nanoseconds, and the
text of a length of time: the largest unit of seconds, milliseconds, microseconds and nanoseconds in
which it is at least one, with as many decimals as it needs. The clock reads moments up to a last
one; a moment that is only computed may lie beyond it.
-/

namespace Fibers

/-- A length of time in nanoseconds. -/
abbrev Duration := Nat

/-- A moment on the scale of the monotonic clock, in nanoseconds. -/
abbrev Instant := Nat

namespace Duration

def nanosPerSecond : Nat := 1000000000

def nanosPerMilli : Nat := 1000000

def nanosPerMicro : Nat := 1000

/-- The length of `n` milliseconds. -/
def ofMillis (n : Nat) : Duration := n * nanosPerMilli

/-- The length of `secs` seconds and `nanos` nanoseconds. -/
def ofParts (secs nanos : Nat) : Duration := secs * nanosPerSecond + nanos

/-- Whole seconds. -/
def secs (d : Duration) : Nat := d / nanosPerSecond

/-- Nanoseconds past the last whole second. -/
def subsecNanos (d : Duration) : Nat := d % nanosPerSecond

/-- The decimals of `part / unit` for `part < unit` and `unit` a power of ten, without trailing
zeros. -/
def decimals (unit part : Nat) : List Char :=
  let digits := (Nat.toDigits 10 (unit + part)).drop 1
  (digits.reverse.dropWhile (· == '0')).reverse

/-- The number `d / unit` in decimal notation. -/
def inUnit (unit d : Nat) : String :=
  match decimals unit (d % unit) with
  | [] => toString (d / unit)
  | ds => toString (d / unit) ++ "." ++ String.ofList ds

/-- The text of a length of time. -/
def render (d : Duration) : String :=
  if nanosPerSecond ≤ d then inUnit nanosPerSecond d ++ "s"
  else if nanosPerMilli ≤ d then inUnit nanosPerMilli d ++ "ms"
  else if nanosPerMicro ≤ d then inUnit nanosPerMicro d ++ "µs"
  else toString d ++ "ns"

end Duration

namespace Instant

/-- The last whole second a moment can have. -/
def maxSecs : Nat := Nat.pow 2 63 - 1

/-- The last reading of the clock, which counts nanoseconds in 64 bits. -/
def last : Instant := Nat.pow 2 64 - 1

/-- What the clock reads `d` after it read `t`. After its last reading it starts again at zero. -/
def later (t : Instant) (d : Duration) : Instant := (t + d) % (last + 1)

/-- The moment `d` after another, unless its seconds pass `maxSecs`. -/
def add? (t : Instant) (d : Duration) : Option Instant :=
  if (t + d) / Duration.nanosPerSecond ≤ maxSecs then some (t + d) else none

/-- The time from `s` to `t`, zero if `s` is later. -/
def since (t s : Instant) : Duration := t - s

end Instant

end Fibers
