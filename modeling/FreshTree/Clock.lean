/-!
Instants and the deadlines computed from them. A clock has a last instant that
it can represent, its horizon; a deadline past it is replaced by one a day
ahead, so that a huge timeout still means "a long time from now".
-/

namespace FreshTree

/-- Nanoseconds since an arbitrary origin. -/
abbrev Instant := Nat

namespace Clock

def millis (count : Nat) : Nat := count * 1000000

def day : Nat := millis (24 * 60 * 60 * 1000)

/-- The instant `length` after `now`, or a day after `now` if the clock cannot
represent that instant. -/
def after (horizon now : Instant) (length : Nat) : Instant :=
  if now + length ≤ horizon then now + length else now + day

/-- The last instant of a clock of signed 64-bit seconds, which are 2^63 from zero on. -/
def farthest : Instant := 9223372036854775808 * 1000000000 - 1

theorem after_of_le {horizon now : Instant} {length : Nat} (fits : now + length ≤ horizon) :
    after horizon now length = now + length := by
  simp [after, fits]

theorem after_le_horizon {horizon now : Instant} {length : Nat} (dayFits : now + day ≤ horizon) :
    after horizon now length ≤ horizon := by
  unfold after
  split <;> assumption

end Clock

end FreshTree
