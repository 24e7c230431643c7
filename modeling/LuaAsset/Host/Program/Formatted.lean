import LuaAsset.Host.Program
import LuaAsset.Number.Numeral
import LuaAsset.Number.Rounded
import LuaAsset.Number.Token

/-! # Formatted writing

`printf`: a format is applied repeatedly until no argument is left.  The dialects of scripts and of
the program differ in escapes and directives. -/

set_option autoImplicit false

namespace LuaAsset

namespace Formatted

inductive Complaint where
  | notNumeric (s : Bytes)
  | incomplete (s : Bytes)
  | outOfRange (s : Bytes)
  | formatMissing
  | invalid (directive : Bytes)
  | hexMissing
  | badCharacter (name : Bytes)
  | excess (first : Bytes)
  | ignored (rest : Bytes)
  deriving DecidableEq, Repr

def Complaint.isHarmless : Complaint → Bool
  | .excess _ | .ignored _ => true
  | _ => false

structure Dialect where
  rich : Bool
  mantissa : Nat
  deriving DecidableEq, Repr

def Dialect.ofScripts : Dialect := ⟨false, 53⟩

def Dialect.ofPrograms : Dialect := ⟨true, 64⟩

/-! ## Escapes -/

inductive Escape where
  | byte (c : UInt8)
  | shown (s : Bytes)
  | badCharacter (name : Bytes)
  | stop
  | hexMissing
  | none
  deriving DecidableEq, Repr

def isOctal (c : UInt8) : Bool := 0x30 ≤ c && c ≤ 0x37

def octalByte (digits : Bytes) : UInt8 :=
  UInt8.ofNat (digits.foldl (fun n c => n * 8 + (c.toNat - 48)) 0)

def letterEscape? (c : UInt8) : Option UInt8 :=
  [('a', 0x07), ('b', 0x08), ('e', 0x1b), ('f', Ascii.formFeed), ('n', Ascii.lineFeed),
    ('r', Ascii.carriageReturn), ('t', Ascii.tab), ('v', Ascii.verticalTab),
    ('\\', Ascii.backslash)].findSome? fun (letter, d) =>
      if Char.toUInt8 letter = c then some d else none

/-- A character given by its number in digits. -/
def character (letter : UInt8) (digits : Bytes) : Escape :=
  let n := hexadecimalValue digits
  let numeral := Numeral.inBase 16 n
  let padded (width : Nat) : Bytes :=
    List.replicate (width - numeral.length) Ascii.zero ++
      numeral.map fun c => if 0x61 ≤ c && c ≤ 0x7a then c - 0x20 else c
  if n < 0x80 then .byte (UInt8.ofNat n)
  else if 0xd800 ≤ n && n < 0xe000 then .badCharacter (Ascii.backslash :: letter :: digits)
  else if n < 0x10000 then .shown (text "\\u" ++ padded 4)
  else .shown (text "\\U" ++ padded 8)

/-- An escape and the rest.  `inArgument` allows three digits after a zero, and `\c`. -/
def escape (rich inArgument : Bool) (s : Bytes) : Escape × Bytes :=
  match s with
  | [] => (.none, [])
  | c :: rest =>
      if inArgument && c == Ascii.zero then
        let digits := (rest.take 3).takeWhile isOctal
        (.byte (octalByte digits), rest.drop digits.length)
      else if isOctal c then
        let digits := (s.take 3).takeWhile isOctal
        (.byte (octalByte digits), s.drop digits.length)
      else if c = Char.toUInt8 'c' && (inArgument || rich) then (.stop, rest)
      else if rich && c == Char.toUInt8 'x' then
        let digits := (rest.take 2).takeWhile Ascii.isHexDigit
        if digits.isEmpty then (.hexMissing, rest)
        else (.byte (UInt8.ofNat (hexadecimalValue digits)), rest.drop digits.length)
      else if rich && (c == Char.toUInt8 'u' || c == Char.toUInt8 'U') then
        let width := if c = Char.toUInt8 'u' then 4 else 8
        let digits := (rest.take width).takeWhile Ascii.isHexDigit
        if digits.length < width then (.hexMissing, rest)
        else (character c digits, rest.drop width)
      else if rich && c == Ascii.doubleQuote then (.byte c, rest)
      else match letterEscape? c with
        | some d => (.byte d, rest)
        | none => (.none, s)

/-- A text with its escapes replaced, up to one that stops the output; `fuel` bounds the bytes. -/
def unescaped (rich : Bool) : Nat → Bytes → Bytes × Bool
  | 0, s => (s, false)
  | _, [] => ([], false)
  | fuel + 1, c :: rest =>
      if c = Ascii.backslash then
        match escape rich true rest with
        | (.byte d, rest) =>
            let (t, stopped) := unescaped rich fuel rest
            (d :: t, stopped)
        | (.shown s, rest) =>
            let (t, stopped) := unescaped rich fuel rest
            (s ++ t, stopped)
        | (.stop, _) => ([], true)
        | _ =>
            let (t, stopped) := unescaped rich fuel rest
            (c :: t, stopped)
      else
        let (t, stopped) := unescaped rich fuel rest
        (c :: t, stopped)

/-! ## Layouts -/

structure Layout where
  leftAligned : Bool
  plus : Bool
  space : Bool
  alternate : Bool
  zeros : Bool
  width : Nat
  precision : Option Nat
  deriving DecidableEq, Repr

namespace Layout

def fill (l : Layout) (s : Bytes) : Bytes :=
  let missing := List.replicate (l.width - s.length) Ascii.space
  if l.leftAligned then s ++ missing else missing ++ s

/-- Digits after a sign or prefix, with zeros in between up to the width. -/
def signed (l : Layout) (lead digits : Bytes) (zeros : Bool) : Bytes :=
  let missing :=
    if zeros && !l.leftAligned then l.width - lead.length - digits.length else 0
  l.fill (lead ++ List.replicate missing Ascii.zero ++ digits)

def sign (l : Layout) (negative : Bool) : Bytes :=
  if negative then [Ascii.minus]
  else if l.plus then [Ascii.plus]
  else if l.space then [Ascii.space]
  else []

def digits (l : Layout) (s : Bytes) : Bytes :=
  match l.precision with
  | none => s
  | some 0 => if s = [Ascii.zero] then [] else s
  | some p => List.replicate (p - s.length) Ascii.zero ++ s

def decimalNumber (l : Layout) (n : Int) : Bytes :=
  l.signed (l.sign (n < 0)) (l.digits (decimal n.natAbs)) (l.zeros && l.precision.isNone)

def toUpper (s : Bytes) : Bytes :=
  s.map fun c => if 0x61 ≤ c && c ≤ 0x7a then c - 0x20 else c

def naturalNumber (l : Layout) (letter : UInt8) (n : Nat) : Bytes :=
  let zeros := l.zeros && l.precision.isNone
  if letter = Char.toUInt8 'o' then
    let digits := l.digits (Numeral.inBase 8 n)
    let digits :=
      if l.alternate && digits.head? != some Ascii.zero then Ascii.zero :: digits else digits
    l.signed [] digits zeros
  else if letter = Char.toUInt8 'x' then
    l.signed (if l.alternate && n != 0 then text "0x" else []) (l.digits (Numeral.inBase 16 n)) zeros
  else if letter = Char.toUInt8 'X' then
    l.signed (if l.alternate && n != 0 then text "0X" else [])
      (l.digits (toUpper (Numeral.inBase 16 n))) zeros
  else l.signed [] (l.digits (decimal n)) zeros

end Layout

/-! ## Fractions -/

inductive Fraction where
  | finite (negative : Bool) (q : Quotient)
  | infinite (negative : Bool)
  | notANumber (negative : Bool)
  deriving DecidableEq, Repr

def largestPower : Nat := 5000

/-- The exponent after a mantissa and the rest. -/
def power (marks : String) (s : Bytes) : Int × Bytes :=
  match s with
  | e :: rest =>
      if (text marks).contains e then
        let (negative, digits) := match rest with
          | Ascii.minus :: digits => (true, digits)
          | Ascii.plus :: digits => (false, digits)
          | digits => (false, digits)
        let known := digits.takeWhile Ascii.isDigit
        if known.isEmpty then (0, s)
        else
          let n := min (decimalValue known) largestPower
          (if negative then -(n : Int) else n, digits.drop known.length)
      else (0, s)
  | [] => (0, [])

def startsWord (s : Bytes) (word : String) : Bool :=
  (text word).isPrefixOf (s.map Ascii.toLower)

/-- Hexadecimal digits after `0x` with a binary exponent, and the rest. -/
def hexadecimal? (s : Bytes) : Option (Quotient × Bytes) := do
  let behind ← match s with
    | 0x30 :: 0x78 :: behind | 0x30 :: 0x58 :: behind => some behind
    | _ => none
  let (m, behind) ← Numeral.mantissa? Ascii.isHexDigit behind
  let (power, behind) := power "pP" behind
  let scale := power - 4 * m.places
  return (⟨hexadecimalValue m.digits * 2 ^ scale.toNat, 2 ^ (-scale).toNat⟩, behind)

def fraction? (s : Bytes) : Option (Fraction × Bytes) :=
  let s := s.dropWhile Ascii.isBlank
  let (negative, s) := match s with
    | Ascii.minus :: rest => (true, rest)
    | Ascii.plus :: rest => (false, rest)
    | rest => (false, rest)
  if startsWord s "infinity" then some (.infinite negative, s.drop 8)
  else if startsWord s "inf" then some (.infinite negative, s.drop 3)
  else if startsWord s "nan" then some (.notANumber negative, s.drop 3)
  else if let some (q, rest) := hexadecimal? s then some (.finite negative q, rest)
  else
    let whole := s.takeWhile Ascii.isDigit
    let behind := s.drop whole.length
    let (places, behind) := match behind with
      | Ascii.dot :: rest =>
          let digits := rest.takeWhile Ascii.isDigit
          if whole.isEmpty && digits.isEmpty then ([], behind) else (digits, rest.drop digits.length)
      | rest => ([], rest)
    if whole.isEmpty && places.isEmpty then none
    else
      let (power, behind) := power "eE" behind
      let scale := power - places.length
      let q : Quotient :=
        ⟨decimalValue (whole ++ places) * 10 ^ scale.toNat, 10 ^ (-scale).toNat⟩
      some (.finite negative q, behind)

/-- The number of mantissa bits before the point. -/
def leadingBits (mantissa : Nat) : Nat := if mantissa = 53 then 1 else 4

/-- The least exponent of a normal mantissa. -/
def leastPower (mantissa : Nat) : Int := if mantissa = 53 then -1022 else -16382

/-- A fraction in hexadecimal with its binary exponent. -/
def Layout.inBaseSixteen (l : Layout) (mantissa : Nat) (q : Quotient) : Bytes :=
  let first : Int := if q.numerator = 0 then leastPower mantissa
    else max (leastPower mantissa) ((q.numerator.log2 : Int) - q.denominator.log2)
  let scaled (power : Int) : Nat :=
    q.numerator * 2 ^ (mantissa - 1 - power).toNat / (q.denominator * 2 ^ (power - mantissa + 1).toNat)
  let first := if scaled first < 2 ^ (mantissa - 1) then max (leastPower mantissa) (first - 1) else first
  let all := scaled first
  let places := (mantissa - leadingBits mantissa) / 4
  let kept := l.precision.getD places
  let rounded := Quotient.roundEven all (16 ^ (places - kept)) * 16 ^ (kept - places)
  let (rounded, carried) :=
    if rounded / 16 ^ kept < 16 then (rounded, 0) else (rounded / 16, 4)
  let power : Int := if all = 0 then 0 else first - (leadingBits mantissa - 1) + carried
  let behind := Numeral.inBase 16 (16 ^ kept + rounded % 16 ^ kept) |>.drop 1
  let behind := if l.precision.isSome then behind
    else (behind.reverse.dropWhile (· == Ascii.zero)).reverse
  Numeral.inBase 16 (rounded / 16 ^ kept) ++
    (if behind.isEmpty && !l.alternate then [] else Ascii.dot :: behind) ++
    Char.toUInt8 'p' :: (if power < 0 then Ascii.minus else Ascii.plus) :: decimal power.natAbs

/-- A fraction in the format of a conversion letter. -/
def Layout.fraction (l : Layout) (letter : UInt8) (mantissa : Nat) (x : Fraction) : Bytes :=
  let lower := Ascii.toLower letter
  let cased (s : Bytes) : Bytes := if lower = letter then s else Layout.toUpper s
  match x with
  | .infinite negative => l.signed (l.sign negative) (cased (text "inf")) false
  | .notANumber negative => l.signed (l.sign negative) (cased (text "nan")) false
  | .finite negative q =>
      if lower = Char.toUInt8 'a' then
        l.signed (l.sign negative ++ cased (text "0x")) (cased (l.inBaseSixteen mantissa q)) l.zeros
      else
      let p := l.precision.getD 6
      let digits :=
        if lower = Char.toUInt8 'f' then q.fixed p l.alternate
        else if lower = Char.toUInt8 'e' then q.scientific p l.alternate lower
        else q.general p l.alternate (Char.toUInt8 'e')
      l.signed (l.sign negative) (cased digits) l.zeros

/-! ## Formats -/

/-- The output so far, last first, and the remaining arguments. -/
structure Draft where
  done : List (Except Complaint Bytes)
  arguments : List Bytes

abbrev Run := EStateM Unit Draft

namespace Run

def put (s : Bytes) : Run Unit := modify fun d => { d with done := .ok s :: d.done }

def complain (c : Complaint) : Run Unit := modify fun d => { d with done := .error c :: d.done }

def stop {α : Type} : Run α := throw ()

def argument : Run Bytes :=
  modifyGet fun d => (d.arguments.headD [], { d with arguments := d.arguments.drop 1 })

def checkRest (s rest : Bytes) (read fits : Bool) : Run Unit := do
  if !fits then complain (.outOfRange s)
  else if !rest.isEmpty then complain (if read then .incomplete s else .notNumeric s)

/-- The character code of an argument that starts with a quote. -/
def quotedByte? (dialect : Dialect) (s : Bytes) : Run (Option UInt8) := do
  match s with
  | c :: rest =>
      if c = Ascii.singleQuote ∨ c = Ascii.doubleQuote then
        match rest with
        | [] => return if dialect.rich then none else some 0
        | d :: more =>
            if dialect.rich && !more.isEmpty then complain (.ignored more)
            return some d
      else return none
  | [] => return none

def integer (dialect : Dialect) (least largest : Int) : Run Int := do
  let s ← argument
  match ← quotedByte? dialect s with
  | some c => return c.toNat
  | none =>
      match Numeral.integer? s with
      | none =>
          checkRest s s false true
          return 0
      | some (n, rest) =>
          checkRest s rest true (least ≤ n && n ≤ largest)
          return max least (min n largest)

def signedInteger (dialect : Dialect) : Run Int := integer dialect (-(2 ^ 63)) (2 ^ 63 - 1)

def unsignedInteger (dialect : Dialect) : Run Nat := do
  return ((← integer dialect (-(2 ^ 64 - 1)) (2 ^ 64 - 1)) % 2 ^ 64).toNat

def fraction (dialect : Dialect) : Run Fraction := do
  let s ← argument
  match ← quotedByte? dialect s with
  | some c => return .finite false ⟨c.toNat, 1⟩
  | none =>
      match fraction? s with
      | none =>
          checkRest s s false true
          return .finite false ⟨0, 1⟩
      | some (x, rest) =>
          match x with
          | .finite negative q =>
              if dialect.mantissa = 53 && 2 ^ 1024 * q.denominator ≤ q.numerator then
                checkRest s rest true false
                return .infinite negative
              else
                checkRest s rest true true
                return .finite negative (q.toMantissa dialect.mantissa)
          | x =>
              checkRest s rest true true
              return x

/-- A width or precision: digits, or the next argument for a star. -/
def measure (dialect : Dialect) (s : Bytes) : Run (Option Int × Bytes) := do
  match s with
  | Ascii.star :: rest => return (some (← signedInteger dialect), rest)
  | s =>
      let digits := s.takeWhile Ascii.isDigit
      return (if digits.isEmpty then none else some (decimalValue digits), s.drop digits.length)

def layout (dialect : Dialect) (s : Bytes) : Run (Layout × Bytes) := do
  let flags := s.takeWhile (text "#-+ 0").contains
  let (width, s) ← measure dialect (s.drop flags.length)
  let (precision, s) ← match s with
    | Ascii.dot :: rest => do
        let (p, rest) ← measure dialect rest
        pure (some (p.getD 0), rest)
    | s => pure (none, s)
  let width := width.getD 0
  return ({
    leftAligned := flags.contains Ascii.minus || width < 0
    plus := flags.contains Ascii.plus
    space := flags.contains Ascii.space
    alternate := flags.contains Ascii.hash
    zeros := flags.contains Ascii.zero
    width := width.natAbs
    precision := precision.bind fun p => if p < 0 then none else some p.toNat }, s)

/-- Formats the next argument; `false` for an unknown letter. -/
def directive (dialect : Dialect) (l : Layout) (letter : UInt8) : Run Bool := do
  let cut (s : Bytes) : Bytes := match l.precision with
    | some p => s.take p
    | none => s
  match Char.ofNat letter.toNat with
  | 's' =>
      put (l.fill (cut (← argument)))
      return true
  | 'b' =>
      let s ← argument
      let (t, stopped) := unescaped dialect.rich (s.length + 1) s
      put (l.fill (cut t))
      if stopped then stop
      return true
  | 'c' =>
      put (l.fill [(← argument).headD 0])
      return true
  | 'd' | 'i' =>
      put (l.decimalNumber (← signedInteger dialect))
      return true
  | 'o' | 'u' | 'x' | 'X' =>
      put (l.naturalNumber letter (← unsignedInteger dialect))
      return true
  | 'a' | 'A' | 'e' | 'E' | 'f' | 'F' | 'g' | 'G' =>
      put (l.fraction letter dialect.mantissa (← fraction dialect))
      return true
  | _ => return false

def pass (dialect : Dialect) : Nat → Bytes → Run Unit
  | 0, _ => return ()
  | _, [] => return ()
  | fuel + 1, c :: rest => do
      if c = Ascii.backslash then
        match escape dialect.rich false rest with
        | (.byte d, rest) =>
            put [d]
            pass dialect fuel rest
        | (.shown s, rest) =>
            put s
            pass dialect fuel rest
        | (.badCharacter name, _) =>
            complain (.badCharacter name)
            stop
        | (.stop, _) => stop
        | (.hexMissing, _) =>
            complain .hexMissing
            stop
        | (.none, rest) =>
            put ([c] ++ (if dialect.rich then rest.take 1 else []))
            pass dialect fuel (if dialect.rich then rest.drop 1 else rest)
      else if c = Ascii.percent then
        match rest with
        | Ascii.percent :: rest =>
            put [c]
            pass dialect fuel rest
        | rest =>
            if dialect.rich && rest.head? == some (Char.toUInt8 'q') then
              if !(← get).arguments.isEmpty then put (quotedName (← argument))
              pass dialect fuel (rest.drop 1)
            else
              let (l, behind) ← layout dialect rest
              let behind :=
                if dialect.rich then behind.dropWhile (text "hlLjtz").contains else behind
              match behind with
              | [] =>
                  complain (if dialect.rich then .invalid (c :: rest) else .formatMissing)
                  stop
              | letter :: behind =>
                  if !(← directive dialect l letter) then
                    complain (.invalid (c :: rest.take (rest.length - behind.length)))
                    stop
                  pass dialect fuel behind
      else
        let plain := (c :: rest).takeWhile fun d => d != Ascii.backslash && d != Ascii.percent
        put plain
        pass dialect fuel ((c :: rest).drop plain.length)

/-- Applies a format until no argument is left or a pass consumes none. -/
def passes (dialect : Dialect) (format : Bytes) : Nat → Run Unit
  | 0 => return ()
  | fuel + 1 => do
      let before := (← get).arguments.length
      pass dialect (format.length + 1) format
      match (← get).arguments with
      | [] => return ()
      | first :: rest =>
          if rest.length + 1 = before then
            if dialect.rich then complain (.excess first)
          else passes dialect format fuel

end Run

/-- The output of a format with its diagnostics. -/
def write (dialect : Dialect) (format : Bytes) (arguments : List Bytes) :
    List (Except Complaint Bytes) :=
  match Run.passes dialect format (arguments.length + 1) ⟨[], arguments⟩ with
  | .ok () d => d.done.reverse
  | .error () d => d.done.reverse

end Formatted

end LuaAsset
