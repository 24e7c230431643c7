import LuaAsset.Host.Program.Formatted

/-! # Programs that generate lines

Sequences of numbers, and repeated lines. -/

set_option autoImplicit false

namespace LuaAsset

namespace Program

/-- A decimal number in units of its last place. -/
structure Decimal where
  units : Int
  places : Nat

def Decimal.ofBytes (s : Bytes) : Option Decimal := do
  let (negative, s) := match s.dropWhile Ascii.isBlank with
    | Ascii.minus :: rest => (true, rest)
    | Ascii.plus :: rest => (false, rest)
    | rest => (false, rest)
  let whole := s.takeWhile Ascii.isDigit
  let (places, rest) := match s.drop whole.length with
    | Ascii.dot :: rest => (rest.takeWhile Ascii.isDigit, rest.dropWhile Ascii.isDigit)
    | rest => ([], rest)
  if whole.isEmpty && places.isEmpty then none
  let (power, rest) := Formatted.power "eE" rest
  if !rest.isEmpty then none
  let n : Int := decimalValue (whole ++ places)
  let n := if negative then -n else n
  let places : Int := places.length - power
  return if places < 0 then ⟨n * 10 ^ (-places).toNat, 0⟩ else ⟨n, places.toNat⟩

def Decimal.unitsAt (d : Decimal) (places : Nat) : Int := d.units * 10 ^ (places - d.places)

def unitsText (places width : Nat) (n : Int) : Bytes :=
  let digits := Quotient.pointed (Quotient.padded (places + 1) n.natAbs) places false
  let sign := if n < 0 then [Ascii.minus] else []
  sign ++ List.replicate (width - sign.length - digits.length) Ascii.zero ++ digits

def countUp : Nat → Int → Int → Int → List Int
  | 0, _, _, _ => []
  | fuel + 1, n, step, last =>
      if (0 < step ∧ last < n) ∨ (step < 0 ∧ n < last) then []
      else n :: countUp fuel (n + step) step last

def longestCount : Nat := 1000000

/-- Whether options end at an argument: an operand or a negative number. -/
def isNumberOrOperand (argument : Bytes) : Bool :=
  match argument with
  | Ascii.minus :: c :: _ => Ascii.isDigit c || c == Ascii.dot
  | _ => true

def behindPercent : Bytes → Option Bytes
  | [] => none
  | Ascii.percent :: Ascii.percent :: rest => behindPercent rest
  | Ascii.percent :: rest => some rest
  | _ :: rest => behindPercent rest

/-- Checks that a format has exactly one directive, for a fraction. -/
def checkFormat (format : Bytes) : Program := do
  let shown := text "format " ++ cited format
  match behindPercent format with
  | none => fail (shown ++ text " has no % directive") 1
  | some rest =>
      let rest := (rest.dropWhile (text "-+#0 '").contains).dropWhile Ascii.isDigit
      let rest := match rest with
        | Ascii.dot :: rest => rest.dropWhile Ascii.isDigit
        | rest => rest
      let rest := if rest.head? = some (Char.toUInt8 'L') then rest.drop 1 else rest
      match rest with
      | [] => fail (shown ++ text " ends in %") 1
      | letter :: rest =>
          if !(text "efgaEFGA").contains letter then
            fail (shown ++ text " has unknown %" ++ letter :: text " directive") 1
          if (behindPercent rest).isSome then fail (shown ++ text " has too many % directives") 1

def seq : Program := do
  let g ← givenIn ⟨"w", "sf", [("equal-width", 'w'), ("separator", 's'), ("format", 'f')]⟩ 1
    isNumberOrOperand (← read).arguments
  if g.operands.isEmpty then misused (text "missing operand") 1
  if let _ :: _ :: _ :: extra :: _ := g.operands then
    misused (text "extra operand " ++ cited extra) 1
  if let some format := g.value? 'f' then
    checkFormat format
    if g.has 'w' then
      misused (text "format string may not be specified when printing equal width strings") 1
  let number (s : Bytes) : Step Decimal := do
    match Decimal.ofBytes s with
    | some d => return d
    | none => misused (text "invalid floating point argument: " ++ cited s) 1
  let one : Decimal := ⟨1, 0⟩
  let (first, step, last) ← match g.operands with
    | [first, last] => do
        let first ← number first
        pure (first, one, ← number last)
    | [first, step, last] => do
        let first ← number first
        let increment ← number step
        if increment.units = 0 then
          misused (text "invalid Zero increment value: " ++ cited step) 1
        pure (first, increment, ← number last)
    | operands => do pure (one, one, ← number (operands.headD []))
  let places := max first.places step.places
  let all := max places last.places
  let numbers := countUp longestCount (first.unitsAt all) (step.unitsAt all) (last.unitsAt all)
  let shortened (n : Int) : Int := n / 10 ^ (all - places)
  let width :=
    if g.has 'w' then
      max (unitsText places 0 (shortened (first.unitsAt all))).length
        (unitsText places 0 (shortened (last.unitsAt all))).length
    else 0
  let texts := numbers.map fun n => unitsText places width (shortened n)
  let texts := match g.value? 'f' with
    | some format => texts.map fun t =>
        ((Formatted.write .ofPrograms format [t]).filterMap Except.toOption).flatten
    | none => texts
  if !texts.isEmpty then
    writeLine (texts.intersperse ((g.value? 's').getD [Ascii.lineFeed])).flatten

def yes : Program := do
  let words := (← given ⟨"", "", [("help", 'h')]⟩ 1).operands
  let line := if words.isEmpty then text "y" else (words.intersperse [Ascii.space]).flatten
  writeStream (.endless (line ++ [Ascii.lineFeed]))

end Program

end LuaAsset
