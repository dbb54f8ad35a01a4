/-! The fewest decimal digits that read back to a given binary number.

A finite number stands for an interval of reals, those that round to it. Grids of decimals are tried
from coarse to fine; the first grid with a point in the interval gives the digits, and of two such
points the nearer one is taken, of two equally near ones the even one. -/

namespace BemOutline.Decimal

/-- A positive number `value / scale` and the ends of its rounding interval over the same scale. -/
structure Interval where
  low : Nat
  value : Nat
  high : Nat
  scale : Nat
  closed : Bool

/-- The interval of `significand * 2 ^ exponent`; below a power of two the gap is half as wide. -/
def Interval.ofBinary (significand : Nat) (exponent : Int) (narrowBelow : Bool) : Interval :=
  let up := Nat.pow 2 (exponent - 2).toNat
  { low := (4 * significand - if narrowBelow then 1 else 2) * up
    value := 4 * significand * up
    high := (4 * significand + 2) * up
    scale := Nat.pow 2 (2 - exponent).toNat
    closed := significand % 2 == 0 }

def Interval.ofBits (bits : UInt64) : Interval :=
  let e := ((bits >>> 52) &&& 0x7FF).toNat
  let f := (bits &&& 0xFFFFFFFFFFFFF).toNat
  if e = 0 then .ofBinary f (-1074) false
  else .ofBinary (Nat.pow 2 52 + f) ((e : Int) - 1075) (f == 0 && 1 < e)

structure Digits where
  digits : Nat
  exponent : Int
deriving DecidableEq, Repr

def Interval.holds (i : Interval) (n : Nat) : Bool :=
  (i.low < n && n < i.high) || (i.closed && (n == i.low || n == i.high))

def Interval.rescale (i : Interval) (exponent : Int) : Interval :=
  let up := Nat.pow 10 (-exponent).toNat
  { i with
    low := i.low * up
    value := i.value * up
    high := i.high * up
    scale := i.scale * Nat.pow 10 exponent.toNat }

def Interval.pointAt? (i : Interval) (exponent : Int) : Option Nat :=
  let j := i.rescale exponent
  let below := j.value / j.scale
  let above := below + 1
  match j.holds (below * j.scale), j.holds (above * j.scale) with
  | false, false => none
  | true, false => some below
  | false, true => some above
  | true, true =>
    match compare (2 * j.value) ((below + above) * j.scale) with
    | .lt => some below
    | .gt => some above
    | .eq => some (if below % 2 = 0 then below else above)

def digitCount (n : Nat) : Nat := (Nat.toDigits 10 n).length

def Interval.magnitude (i : Interval) : Int :=
  if i.scale ≤ i.value then digitCount (i.value / i.scale)
  else 1 - (digitCount ((i.scale - 1) / i.value) : Int)

def Digits.strip : Nat → Digits → Digits
  | 0, d => d
  | fuel + 1, d =>
    if d.digits % 10 = 0 then strip fuel ⟨d.digits / 10, d.exponent + 1⟩ else d

/-- The shortest digits for a positive number. Seventeen always suffice; if they did not, the exact
value on a finer grid would still be right. -/
def Interval.shortest (i : Interval) : Digits :=
  let k := i.magnitude
  let found := (List.range 17).findSome? fun (n : Nat) =>
    (i.pointAt? (k - 1 - n)).map fun d => Digits.mk d (k - 1 - n)
  let d := found.getD ⟨i.value * Nat.pow 5 1100 * Nat.pow 2 1100 / i.scale, -1100⟩
  d.strip (digitCount d.digits - 1)

end BemOutline.Decimal
