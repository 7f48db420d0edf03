/-!
The shortest decimal that stands for a binary number: the point of the coarsest decimal grid that is
still nearest to it. `Grid.search` looks through the grids from coarse to fine.
-/

namespace SourceSurvey.Decimal

/-- A positive number as a multiple of a power of two. At a boundary the next smaller number is only
    half as far away as the next larger one. -/
structure Binary where
  mantissa : Nat
  power : Int
  atBoundary : Bool

/-- The parts of a finite positive number. -/
def Binary.ofFloat (x : Float) : Binary :=
  let bits := x.toBits.toNat
  let exponent : Nat := bits / 0x10000000000000 % 2048
  let fraction := bits % 0x10000000000000
  if exponent = 0 then ⟨fraction, -1074, false⟩
  else ⟨fraction + 0x10000000000000, (exponent : Int) - 1075, fraction = 0 && exponent > 1⟩

namespace Grid

/-- Numbers over a common denominator: a point of a decimal grid, and a quarter of a step of the
    binary grid. -/
structure Scale where
  point : Nat
  quarter : Nat

/-- The scale on which points of the grid of tenths `10 ^ place` and quarters of `2 ^ power` are
    both whole. -/
def Scale.of (place power : Int) : Scale :=
  let quarters := power - 2
  ⟨Nat.pow 10 place.toNat * Nat.pow 2 (-quarters).toNat,
    Nat.pow 2 quarters.toNat * Nat.pow 10 (-place).toNat⟩

/-- Whether a point of the grid is nearer to the number than to its neighbours. The ends of the
    interval count for an even mantissa. -/
def reads (x : Binary) (scale : Scale) (n : Nat) : Bool :=
  let low := (4 * x.mantissa - if x.atBoundary then 1 else 2) * scale.quarter
  let high := (4 * x.mantissa + 2) * scale.quarter
  let here := n * scale.point
  if x.mantissa % 2 = 0 then low ≤ here && here ≤ high else low < here && here < high

/-- The point of a grid that reads back as the number; of two the nearer, and of two equally near
    the even one. -/
def hit? (x : Binary) (place : Int) : Option Nat :=
  let scale := Scale.of place x.power
  let value := 4 * x.mantissa * scale.quarter
  let below := value / scale.point
  let above := below + 1
  match 0 < below && reads x scale below, reads x scale above with
  | true, true =>
    let down := value - below * scale.point
    let up := above * scale.point - value
    if down < up || (down = up && below % 2 = 0) then some below else some above
  | true, false => some below
  | false, true => some above
  | false, false => none

/-- The first grid with a hit, going down from a place for a number of places. -/
def search (x : Binary) : Nat → Int → Nat × Int
  | 0, place => (x.mantissa, place)
  | n + 1, place =>
    match hit? x place with
    | some digits => (digits, place)
    | none => search x n (place - 1)

end Grid

/-- The digits of the shortest decimal for a finite positive number, and the place of the last one
    of them. -/
def shortest (x : Float) : Nat × Int := Grid.search (Binary.ofFloat x) 640 309

/-- The text of a finite number: positional from 10^-5 up to 10^16, with at least one digit behind
    the point, and otherwise with a signed exponent of at least two digits. -/
def text (x : Float) : List Char :=
  let sign := if x.toBits.toNat < 0x8000000000000000 then [] else ['-']
  let size := Float.ofBits (UInt64.ofNat (x.toBits.toNat % 0x8000000000000000))
  if size.toBits.toNat = 0 then sign ++ ['0', '.', '0'] else
  let (number, place) := shortest size
  let digits := Nat.toDigits 10 number
  let exponent : Int := digits.length - 1 + place
  if -5 ≤ exponent ∧ exponent ≤ 15 then
    if 0 ≤ place then sign ++ digits ++ List.replicate place.toNat '0' ++ ['.', '0']
    else if 0 ≤ exponent then
      sign ++ digits.take (exponent.toNat + 1) ++ '.' :: digits.drop (exponent.toNat + 1)
    else sign ++ ['0', '.'] ++ List.replicate (-exponent - 1).toNat '0' ++ digits
  else
    let tail := if digits.length = 1 then [] else '.' :: digits.drop 1
    let power := Nat.toDigits 10 exponent.natAbs
    let pad := if power.length = 1 then ['0'] else []
    sign ++ digits.take 1 ++ tail ++ ['e', if exponent < 0 then '-' else '+'] ++ pad ++ power

end SourceSurvey.Decimal
