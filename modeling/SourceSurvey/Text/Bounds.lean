/-!
Classes of characters given by the code points at which membership changes. A table is a strictly
increasing list: the first entry opens the class, the second closes it, and so on.
-/

namespace SourceSurvey.Text

/-- A code point belongs to a table when an odd number of its boundaries are at most that code
    point. The search stops at the first boundary beyond it. -/
def withinBounds : List Nat → Nat → Bool
  | [], _ => false
  | bound :: rest, code => if code < bound then false else !withinBounds rest code

end SourceSurvey.Text
