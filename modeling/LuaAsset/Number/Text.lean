import LuaAsset.Bytes
import LuaAsset.Number.Binary64

/-! # The text of floats

The decimal digits of a finite float: `Digits.nearest` rounds to a number of significant digits with
ties to even, and `Digits.shortest` takes the fewest digits that read back.  `Layout.scriptNumber`
and `Layout.document` are the formats of scripts and of JSON documents. -/

set_option autoImplicit false

namespace LuaAsset

/-- Significant digits, the first of which has the weight `10 ^ exponent`.  If `digits` is nonzero,
it has exactly `count` decimal digits. -/
structure Digits where
  digits : Nat
  count : Nat
  exponent : Int
  deriving DecidableEq, Repr

namespace Digits

def width (n : Nat) : Nat := (decimal n).length

def scaled (num den : Nat) (exponent : Int) : Nat × Nat :=
  match exponent with
  | .ofNat e => (num, den * 10 ^ e)
  | .negSucc e => (num * 10 ^ (e + 1), den)

def leading (num den : Nat) : Int :=
  let guess := Int.ofNat (width num) - Int.ofNat (width den)
  let (n, d) := scaled num den guess
  if d ≤ n then guess else guess - 1

/-- A quotient rounded to `count` significant digits. -/
def rounded (round : Nat → Nat → Nat) (num den count : Nat) : Digits :=
  let exponent := leading num den
  let (n, d) := scaled num den (exponent - Int.ofNat count + 1)
  let digits := round n d
  if digits = 10 ^ count then ⟨10 ^ (count - 1), count, exponent + 1⟩
  else ⟨digits, count, exponent⟩

def nearest (num den count : Nat) : Digits := rounded Binary64.roundToEven num den count

def quotient (d : Digits) : Nat × Nat :=
  match d.exponent - Int.ofNat d.count + 1 with
  | .ofNat e => (d.digits * 10 ^ e, 1)
  | .negSucc e => (d.digits, 10 ^ (e + 1))

def stripped (d : Digits) : Nat → Digits
  | 0 => d
  | fuel + 1 =>
      if 1 < d.count ∧ d.digits % 10 = 0 then
        stripped ⟨d.digits / 10, d.count - 1, d.exponent⟩ fuel
      else d

/-- The nearer neighbour with `count` digits that reads back. -/
def onGrid? (x : Binary64) (num den count : Nat) : Option Digits :=
  let readsBack (d : Digits) : Bool :=
    let (n, k) := d.quotient
    Binary64.ofQuotient x.negative n k == x
  let near := nearest num den count
  let low := rounded (fun n d => n / d) num den count
  let high := rounded (fun n d => n / d + 1) num den count
  if readsBack near then some near
  else if readsBack low then some low
  else if readsBack high then some high
  else none

/-- The fewest digits that read back as the float. -/
def shortest (x : Binary64) (num den : Nat) : Digits :=
  ((List.range 17).findSome? fun count => onGrid? x num den (count + 1)).getD
    (nearest num den 17)

end Digits

/-! ## Layouts -/

structure Layout where
  significant : Option Nat
  lowest : Int
  highest : Int

namespace Layout

/-- Fourteen digits, positional from `10 ^ -4` to below `10 ^ 14`. -/
def scriptNumber : Layout := ⟨some 14, -4, 14⟩

/-- The shortest digits, positional from `10 ^ -4` to below `10 ^ 15`. -/
def document : Layout := ⟨none, -4, 15⟩

def exponentText (exponent : Int) : Bytes :=
  let size := decimal exponent.natAbs
  text "e" ++ (if exponent < 0 then text "-" else text "+") ++
    (if size.length < 2 then Ascii.zero :: size else size)

def arrange (layout : Layout) (d : Digits) : Bytes :=
  let digits := decimal d.digits
  if layout.lowest ≤ d.exponent ∧ d.exponent < layout.highest then
    if d.exponent < 0 then
      text "0." ++ List.replicate (-d.exponent - 1).toNat Ascii.zero ++ digits
    else
      let whole := d.exponent.toNat + 1
      if digits.length ≤ whole then
        digits ++ List.replicate (whole - digits.length) Ascii.zero ++ text ".0"
      else digits.take whole ++ text "." ++ digits.drop whole
  else
    let tail := digits.drop 1
    digits.take 1 ++ (if tail.isEmpty then [] else text "." ++ tail) ++ exponentText d.exponent

def unsigned (layout : Layout) (x : Binary64) (mantissa : Nat) (exponent : Int) : Bytes :=
  if mantissa = 0 then text "0.0"
  else
    let (num, den) : Nat × Nat := match exponent with
      | .ofNat e => (mantissa * 2 ^ e, 1)
      | .negSucc e => (mantissa, 2 ^ (e + 1))
    let d := match layout.significant with
      | some count => Digits.nearest num den count
      | none => Digits.shortest x num den
    layout.arrange (d.stripped d.count)

end Layout

/-- A float as printed by scripts: fourteen digits, with `.0` if it would read as an integer. -/
def numberText (x : Binary64) : Bytes :=
  let sign (negative : Bool) : Bytes := if negative then text "-" else []
  match x.reading with
  | .notANumber negative => sign negative ++ text "nan"
  | .infinite negative => sign negative ++ text "inf"
  | .finite negative mantissa exponent =>
      sign negative ++ Layout.scriptNumber.unsigned x mantissa exponent

/-- A float in a document; `null` if it is not finite. -/
def documentNumberText (x : Binary64) : Bytes :=
  match x.reading with
  | .finite negative mantissa exponent =>
      (if negative then text "-" else []) ++ Layout.document.unsigned x mantissa exponent
  | _ => text "null"

end LuaAsset
