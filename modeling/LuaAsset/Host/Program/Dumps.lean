import LuaAsset.Host.Program
import LuaAsset.Number.Numeral

/-! # Programs that show bytes

Programs that encode bytes in other alphabets, and one that compares two files. -/

set_option autoImplicit false

namespace LuaAsset

namespace Program

/-! ## Bytes as numbers -/

structure DumpFormat where
  kind : Char
  size : Nat
  withText : Bool

namespace DumpFormat

def width (f : DumpFormat) : Nat :=
  let bits := 8 * f.size
  match f.kind with
  | 'o' => (bits + 2) / 3
  | 'x' => bits / 4
  | 'd' => (decimal (2 ^ (bits - 1))).length + 1
  | 'u' => (decimal (2 ^ bits - 1)).length
  | _ => 3

def controlNames : List String :=
  ["nul", "soh", "stx", "etx", "eot", "enq", "ack", "bel", "bs", "ht", "nl", "vt", "ff", "cr", "so",
    "si", "dle", "dc1", "dc2", "dc3", "dc4", "nak", "syn", "etb", "can", "em", "sub", "esc", "fs",
    "gs", "rs", "us", "sp"]

def character (c : UInt8) : Bytes :=
  match c.toNat with
  | 0 => text "\\0"
  | 7 => text "\\a"
  | 8 => text "\\b"
  | 9 => text "\\t"
  | 10 => text "\\n"
  | 11 => text "\\v"
  | 12 => text "\\f"
  | 13 => text "\\r"
  | n => if isPrintable c then [c]
      else [n / 64, n / 8 % 8, n % 8].map fun d => UInt8.ofNat (48 + d)

/-- The number of little-endian bytes. -/
def item (f : DumpFormat) (bytes : Bytes) : Bytes :=
  let n := bytes.foldr (fun c n => n * 256 + c.toNat) 0
  let zeros (digits : Bytes) : Bytes :=
    List.replicate (f.width - digits.length) Ascii.zero ++ digits
  match f.kind with
  | 'o' => zeros (Numeral.inBase 8 n)
  | 'x' => zeros (Numeral.inBase 16 n)
  | 'u' => decimal n
  | 'd' =>
      let half := 2 ^ (8 * f.size - 1)
      decimalInt (if n < half then (n : Int) else (n : Int) - 2 * half)
  | 'a' =>
      let c := n % 128
      if c = 127 then text "del"
      else match controlNames[c]? with
        | some name => text name
        | none => [UInt8.ofNat c]
  | _ => character (bytes.headD 0)

def lineWidth (f : DumpFormat) (length : Nat) : Nat := (f.width + 1) * (length / f.size)

/-- Bytes in groups, the last one padded with zeros; `fuel` bounds their number. -/
def groups (size : Nat) : Nat → Bytes → List Bytes
  | 0, _ => []
  | _, [] => []
  | fuel + 1, s =>
      let group := s.take size
      (group ++ List.replicate (size - group.length) 0) :: groups size fuel (s.drop size)

/-- The items of a line at the width of the widest format. -/
def line (f : DumpFormat) (length widest : Nat) (bytes : Bytes) : Bytes :=
  let fields := length / f.size
  let slack := widest - f.lineWidth length
  let shown := groups f.size (bytes.length + 1) bytes
  let items := shown.zipIdx.flatMap fun (group, i) =>
    let before := slack * (fields - i) / fields
    let after := slack * (fields - i - 1) / fields
    Ascii.space :: padded (before - after + f.width) (f.item group)
  if f.withText then
    let missing := (length - bytes.length) / f.size
    items ++ List.replicate (missing * (f.width + 1) + slack * missing / fields) Ascii.space ++
      text "  >" ++ (bytes.map fun c => if isPrintable c then c else Ascii.dot) ++ text "<"
  else items

end DumpFormat

/-- A fault in a format specification. -/
inductive DumpFault where
  | letter (c : UInt8)
  | size (n : Nat)

/-- The formats of a specification; `fuel` bounds their number. -/
def dumpFormats : Nat → Bytes → Except DumpFault (List DumpFormat)
  | 0, _ => return []
  | _, [] => return []
  | fuel + 1, c :: rest => do
      let kind := Char.ofNat c.toNat
      let (size, behind) ←
        if kind = 'c' ∨ kind = 'a' then pure (1, rest)
        else if "doux".contains kind then
          let digits := rest.takeWhile Ascii.isDigit
          match digits, rest.drop digits.length with
          | [], 0x43 :: behind => pure (1, behind)
          | [], 0x53 :: behind => pure (2, behind)
          | [], 0x49 :: behind => pure (4, behind)
          | [], 0x4c :: behind => pure (8, behind)
          | [], behind => pure (4, behind)
          | digits, behind =>
              let n := decimalValue digits
              if [1, 2, 4, 8].contains n then pure (n, behind) else throw (.size n)
        else throw (.letter c)
      let withText := behind.head? == some (Char.toUInt8 'z')
      return ⟨kind, size, withText⟩ :: (← dumpFormats fuel (if withText then behind.drop 1 else behind))

def dumpAddress (radix : Char) (n : Nat) : Bytes :=
  let zeros (width : Nat) (digits : Bytes) : Bytes :=
    List.replicate (width - digits.length) Ascii.zero ++ digits
  match radix with
  | 'd' => zeros 7 (decimal n)
  | 'x' => zeros 6 (Numeral.inBase 16 n)
  | 'n' => []
  | _ => zeros 7 (Numeral.inBase 8 n)

/-- The number of an option, possibly octal or hexadecimal and with a unit. -/
def dumpCount (letter : Char) (s : Bytes) : Step Nat := do
  let what := text "-" ++ letter.toUInt8 :: text " argument " ++ cited s
  let unsigned := if s.head? = some Ascii.plus then s.drop 1 else s
  let isBare := letter == 'w'
  let (base, body) := match unsigned with
    | Ascii.zero :: c :: rest =>
        if isBare then (10, unsigned)
        else if (text "xX").contains c && rest.head?.any Ascii.isHexDigit then (16, rest)
        else (8, unsigned)
    | body => (10, body)
  let digits := body.takeWhile fun c => Ascii.isHexDigit c && Ascii.hexValue c < base
  if digits.isEmpty then fail (text "invalid " ++ what) 1
  let unit := body.drop digits.length
  match if isBare && !unit.isEmpty then none else unit? unit with
  | none => fail (text "invalid suffix in " ++ what) 1
  | some unit =>
      let n := (digits.foldl (fun n c => n * base + Ascii.hexValue c) 0) * unit
      if 2 ^ 64 ≤ n then fail (what ++ text " too large") 1 else return n

def od : Program := do
  let g ← given ⟨"abcdiloxsvw", "AtNjw", [("address-radix", 'A'), ("format", 't'),
    ("read-bytes", 'N'), ("skip-bytes", 'j'), ("output-duplicates", 'v'), ("width", 'w')]⟩ 1
  let formats ← g.options.filterMapM fun (letter, value) => do
    let format (kind : Char) (size : Nat) : Option (List DumpFormat) := some [⟨kind, size, false⟩]
    match Char.ofNat letter.toNat with
    | 'a' => return format 'a' 1
    | 'b' => return format 'o' 1
    | 'c' => return format 'c' 1
    | 'd' => return format 'u' 2
    | 'i' => return format 'd' 4
    | 'l' => return format 'd' 8
    | 'o' => return format 'o' 2
    | 's' => return format 'd' 2
    | 'x' => return format 'x' 2
    | 't' =>
        match dumpFormats (value.length + 1) value with
        | .ok formats => return some formats
        | .error (.letter c) =>
            fail (text "invalid character '" ++ c :: text "' in type string " ++ cited value) 1
        | .error (.size n) =>
            fail (text "invalid type string " ++ cited value ++
              text ";\nthis system doesn't provide a " ++ decimal n ++ text "-byte integral type") 1
    | _ => return none
  let formats := if formats.flatten.isEmpty then [⟨'o', 2, false⟩] else formats.flatten
  let unit := (formats.map DumpFormat.size).foldl max 1
  let wanted ← match g.value? 'w' with
    | none => pure none
    | some [] => pure (some 32)
    | some s => pure (some (← dumpCount 'w' s))
  let skipped := (← (g.value? 'j').mapM (dumpCount 'j')).getD 0
  let most ← (g.value? 'N').mapM (dumpCount 'N')
  let radix := ((g.value? 'A').getD (text "o")).headD 0
  if !(text "doxn").contains radix then
    fail (text "invalid output address radix '" ++ radix ::
      text "'; it must be one character from [doxn]") 1
  let radix := Char.ofNat radix.toNat
  let all ← concatenated g.operands refused
  if !all.isEndless && all.once.length < skipped then
    fail (text "cannot skip past end of combined input") 1
  let bytes := match most with
    | some n => (all.drop skipped).take n
    | none => (all.drop skipped).known
  let length ← match wanted with
    | none => pure 16
    | some n =>
        if n ≠ 0 ∧ n % unit = 0 then pure n
        else
          complain (text "warning: invalid width " ++ decimal n ++ text "; using " ++ decimal unit ++
            text " instead")
          pure unit
  let widest := (formats.map (DumpFormat.lineWidth · length)).foldl max 0
  let lines := DumpFormat.groups length (bytes.length + 1) bytes
  let _ ← lines.zipIdx.foldlM (fun (before : Option Bytes × Bool) (_, i) => do
    let start := i * length
    let line := (bytes.drop start).take length
    let isLast := bytes.length ≤ start + length
    if before.1 = some line ∧ !g.has 'v' ∧ !(isLast && line.length < length) then
      if !before.2 then write (text "*\n")
      return (some line, true)
    else
      let address := dumpAddress radix (skipped + start)
      formats.zipIdx.forM fun (f, k) =>
        writeLine ((if k = 0 then address else List.replicate address.length Ascii.space) ++
          f.line length widest line)
      return (some line, false)) (none, false)
  if radix ≠ 'n' then writeLine (dumpAddress radix (skipped + bytes.length))

/-! ## Sixty-four digits -/

def base64Digits : Bytes :=
  text "ABCDEFGHIJKLMNOPQRSTUVWXYZabcdefghijklmnopqrstuvwxyz0123456789+/"

def base64Text : Bytes → Bytes
  | [] => []
  | [a] => digits (a.toNat * 65536) 2 ++ text "=="
  | [a, b] => digits (a.toNat * 65536 + b.toNat * 256) 3 ++ text "="
  | a :: b :: c :: rest =>
      digits (a.toNat * 65536 + b.toNat * 256 + c.toNat) 4 ++ base64Text rest
where
  digits (n count : Nat) : Bytes :=
    (List.range count).map fun i => base64Digits.getD (n / 64 ^ (3 - i) % 64) 0

/-- The bytes of groups of four digits, up to the first invalid one. -/
def base64Bytes : Bytes → Bytes × Bool
  | [] => ([], true)
  | a :: b :: c :: d :: rest =>
      let value? (c : UInt8) : Option Nat :=
        let i := base64Digits.idxOf c
        if i < 64 then some i else none
      let bytesOf (n count : Nat) : Bytes :=
        (List.range count).map fun i => UInt8.ofNat (n / 256 ^ (2 - i))
      match value? a, value? b, value? c, value? d with
      | some i, some j, some k, some l =>
          let (s, isRight) := base64Bytes rest
          (bytesOf (((i * 64 + j) * 64 + k) * 64 + l) 3 ++ s, isRight)
      | some i, some j, some k, none =>
          (bytesOf (((i * 64 + j) * 64 + k) * 64) 2, d == Ascii.equals && rest.isEmpty)
      | some i, some j, none, none =>
          (bytesOf ((i * 64 + j) * 4096) 1,
            c == Ascii.equals && d == Ascii.equals && rest.isEmpty)
      | _, _, _, _ => ([], false)
  | _ => ([], false)

def inLines (width : Nat) : Nat → Bytes → Bytes
  | 0, _ => []
  | _, [] => []
  | fuel + 1, s => s.take width ++ Ascii.lineFeed :: inLines width fuel (s.drop width)

def base64 : Program := do
  let g ← given ⟨"di", "w", [("decode", 'd'), ("ignore-garbage", 'i'), ("wrap", 'w')]⟩ 1
  if let _ :: extra :: _ := g.operands then misused (text "extra operand " ++ cited extra) 1
  let width ← match g.value? 'w' with
    | none => pure 76
    | some s => match natural? s with
        | some n => pure n
        | none => fail (text "invalid wrap size: " ++ cited s) 1
  overFiles g.operands refused fun _ s => do
    if g.has 'd' then
      let digits := s.known.filter fun c =>
        c != Ascii.lineFeed && (!g.has 'i' || base64Digits.contains c || c == Ascii.equals)
      let (bytes, isRight) := base64Bytes digits
      write bytes
      if !isRight then fail (text "invalid input") 1
    else
      let digits := base64Text s.known
      write (if width = 0 then digits else inLines width (digits.length + 1) digits)

/-! ## Differences -/

/-- The first index at which two byte strings differ. -/
def firstDifference? (a b : Bytes) : Option Nat :=
  let same := ((a.zip b).takeWhile fun (c, d) => c == d).length
  if same < min a.length b.length then some same else none

def wrongFiles {α : Type} (what : Bytes) : Step α := do
  complain what
  fail (text "Try '" ++ (← read).name ++ text " --help' for more information.") 2

def cmp : Program := do
  let g ← given ⟨"bls", "n", [("print-bytes", 'b'), ("verbose", 'l'), ("silent", 's'),
    ("quiet", 's'), ("bytes", 'n')]⟩ 2
  let (first, second) ← match g.operands with
    | [] => wrongFiles (text "missing operand after '" ++ (← read).name ++ text "'")
    | [first] => pure (first, [Ascii.minus])
    | [first, second] => pure (first, second)
    | _ :: _ :: extra :: _ => wrongFiles (text "extra operand '" ++ extra ++ text "'")
  let source (name : Bytes) : Step Bytes := do
    match ← contentsOf name with
    | .ok s => return match (g.value? 'n').bind natural? with
        | some n => s.take n
        | none => s.known
    | .error refusal => fail (name ++ text ": " ++ refusal.wording) 2
  let a ← source first
  let b ← source second
  let shorter := if a.length < b.length then first else second
  let common := min a.length b.length
  let atEnd : Program := do
    if a.length ≠ b.length then
      if !g.has 's' then
        complain (text "EOF on " ++ shorter ++
          (if common = 0 then text " which is empty"
          else text " after byte " ++ decimal common ++
            if g.has 'l' then []
            else
              let before := a.take common
              let ends := before.count Ascii.lineFeed
              if before.getLast? = some Ascii.lineFeed then text ", line " ++ decimal ends
              else text ", in line " ++ decimal (ends + 1)))
      mark 1
  if g.has 'l' && !g.has 's' then
    let width := (decimal common).length
    ((a.zip b).zipIdx 1).forM fun ((c, d), i) => do
      if c ≠ d then
        writeLine (padded width (decimal i) ++ Ascii.space ::
          padded 3 (Numeral.inBase 8 c.toNat) ++ Ascii.space ::
          padded 3 (Numeral.inBase 8 d.toNat))
        mark 1
    atEnd
  else match firstDifference? a b with
    | none => atEnd
    | some i =>
        if !g.has 's' then
          let line := (a.take i).count Ascii.lineFeed + 1
          writeLine (first ++ Ascii.space :: second ++ text " differ: " ++
            text (if g.has 'b' then "byte " else "char ") ++ decimal (i + 1) ++ text ", line " ++
            decimal line ++
            (if g.has 'b' then
              let shown (c : UInt8) : Bytes :=
                padded 3 (Numeral.inBase 8 c.toNat) ++ Ascii.space :: [c]
              text " is " ++ shown (a.getD i 0) ++ Ascii.space :: shown (b.getD i 0)
            else []))
        mark 1

end Program

end LuaAsset
