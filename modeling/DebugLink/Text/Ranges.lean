/-!
# Sets of characters

A set of characters is a list of closed ranges of code points, ascending and apart. The tables
that use it hold properties of Unicode 17.0.
-/

namespace DebugLink.Text

/-- Closed ranges of code points. -/
abbrev Ranges := List (Nat × Nat)

namespace Ranges

/-- Does some range hold the code point? -/
def holds (rs : Ranges) (n : Nat) : Bool :=
  rs.any fun r => r.1 ≤ n && n ≤ r.2

end Ranges

end DebugLink.Text
