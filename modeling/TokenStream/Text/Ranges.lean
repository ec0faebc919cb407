/-
Sets of characters, written as ranges of code points.

The properties of characters that a standard defines by listing are kept as ranges, first and last
code point of each.  A good list is *ascending*: its ranges are in order and leave gaps in between,
so that no range is said twice or could be joined with the next.

* `Ranges`, `Ranges.covers` — sets of characters and membership;
* `Ranges.ascending` — the form in which such a set is written.
-/

set_option relaxedAutoImplicit false
set_option autoImplicit false

namespace TokenStream

/-- Ranges of code points, first and last of each. -/
abbrev Ranges := List (Nat × Nat)

namespace Ranges

/-- Whether a character falls into one of the ranges. -/
def covers (ranges : Ranges) (c : Char) : Bool :=
  ranges.any fun range => range.1 ≤ c.toNat && c.toNat ≤ range.2

/-- Whether each range is in order and leaves a gap before the next. -/
def ascending : Ranges → Bool
  | (low, high) :: (low', high') :: rest =>
      low ≤ high && high + 1 < low' && ascending ((low', high') :: rest)
  | [(low, high)] => low ≤ high
  | [] => true

end Ranges

end TokenStream
