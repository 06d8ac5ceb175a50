/-! Character classes given by lists of code point ranges. -/
namespace Courier.Text

/-- The first and last code point of a run of characters of one class. -/
abbrev CodeRange := Nat × Nat

/-- A character belongs to a class when one of its ranges covers it. -/
def inRanges (ranges : List CodeRange) (c : Char) : Bool :=
  ranges.any fun r => r.1 ≤ c.toNat && c.toNat ≤ r.2

end Courier.Text
