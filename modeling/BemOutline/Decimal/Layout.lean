import BemOutline.Decimal.Shortest

/-! How a float is written: the shortest digits, positionally when the number is neither huge nor
tiny. -/

namespace BemOutline.Decimal

structure Layout where
  plainFrom : Int
  plainTo : Int
  pointZero : Bool
  expPlus : Bool

def zeros (n : Nat) : List Char := List.replicate n '0'

def Layout.exponent (style : Layout) (e : Int) : List Char :=
  'e' :: (if e < 0 then ['-'] else if style.expPlus then ['+'] else []) ++ Nat.toDigits 10 e.natAbs

/-- The text of positive digits: the point stands after, inside or before them, or an exponent
follows. -/
def Layout.place (style : Layout) (d : Digits) : List Char :=
  let ds := Nat.toDigits 10 d.digits
  let lead := d.exponent + ds.length - 1
  if style.plainFrom ≤ lead ∧ lead ≤ style.plainTo then
    if 0 ≤ d.exponent then
      ds ++ zeros d.exponent.toNat ++ (if style.pointZero then ['.', '0'] else [])
    else if 0 ≤ lead then
      ds.take (lead + 1).toNat ++ '.' :: ds.drop (lead + 1).toNat
    else
      ['0', '.'] ++ zeros (-lead - 1).toNat ++ ds
  else
    match ds with
    | [] => []
    | [c] => c :: style.exponent lead
    | c :: cs => c :: '.' :: cs ++ style.exponent lead

def Layout.renderChars (style : Layout) (bits : UInt64) : List Char :=
  let sign := if bits >>> 63 = 1 then ['-'] else []
  let magnitude := bits &&& 0x7FFFFFFFFFFFFFFF
  if magnitude = 0 then sign ++ (if style.pointZero then ['0', '.', '0'] else ['0'])
  else sign ++ style.place (Interval.ofBits magnitude).shortest

end BemOutline.Decimal
