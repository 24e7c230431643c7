import LuaAsset.Host.Program.Formatted
import LuaAsset.StableSort

/-! # Programs that order lines

Lines are compared by keys, and at last by all their bytes. -/

set_option autoImplicit false

namespace LuaAsset

namespace Program

/-! ## Comparing -/

def compareBytes (a b : Bytes) : Ordering :=
  if bytesLt a b then .lt else if bytesLt b a then .gt else .eq

def isGap (c : UInt8) : Bool := c == Ascii.space || c == Ascii.tab

def compareFractions (a b : Int × Nat) : Ordering := compare (a.1 * b.2) (b.1 * a.2)

/-- The number at the front of a byte string. -/
def leadingNumber (s : Bytes) : Int × Nat :=
  let s := s.dropWhile isGap
  let (negative, s) := match s with
    | Ascii.minus :: rest => (true, rest)
    | rest => (false, rest)
  let whole := s.takeWhile Ascii.isDigit
  let places := match s.drop whole.length with
    | Ascii.dot :: rest => rest.takeWhile Ascii.isDigit
    | _ => []
  let n : Int := decimalValue (whole ++ places)
  (if negative then -n else n, 10 ^ places.length)

/-- The rank of a unit suffix, with the sign of the number. -/
def unitRank (s : Bytes) : Int :=
  let s := s.dropWhile isGap
  let (negative, s) := match s with
    | Ascii.minus :: rest => (true, rest)
    | rest => (false, rest)
  let whole := s.takeWhile Ascii.isDigit
  let (places, behind) := match s.drop whole.length with
    | Ascii.dot :: rest => (rest.takeWhile Ascii.isDigit, rest.dropWhile Ascii.isDigit)
    | rest => ([], rest)
  if (whole ++ places).all (· == Ascii.zero) then 0
  else
    let letter := behind.headD 0
    let rank := if letter = Char.toUInt8 'k' then 1 else (text " KMGTPEZYRQ").idxOf letter
    let rank : Int := if rank ≤ 10 then rank else 0
    if negative then -rank else rank

/-- A numeric key: empty, not a number, or a number, in this order. -/
inductive Reading where
  | nothing
  | notANumber
  | negativeInfinity
  | number (n : Int) (d : Nat)
  | infinity

def Reading.ofBytes (s : Bytes) : Reading :=
  match Formatted.fraction? s with
  | none => .nothing
  | some (.notANumber _, _) => .notANumber
  | some (.infinite negative, _) => if negative then .negativeInfinity else .infinity
  | some (.finite negative q, _) =>
      .number (if negative then -(q.numerator : Int) else q.numerator) q.denominator

def Reading.rank : Reading → Nat
  | .nothing => 0
  | .notANumber => 1
  | .negativeInfinity => 2
  | .number _ _ => 3
  | .infinity => 4

def Reading.compare (a b : Reading) : Ordering :=
  match a, b with
  | .number n p, .number m q => compareFractions (n, p) (m, q)
  | a, b => Ord.compare a.rank b.rank

def month (s : Bytes) : Nat :=
  let name := ((s.dropWhile isGap).take 3).map Ascii.toLower
  let names := ["jan", "feb", "mar", "apr", "may", "jun", "jul", "aug", "sep", "oct", "nov",
    "dec"].map text
  if names.contains name then names.idxOf name + 1 else 0

/-! ## Versions -/

/-- The rank of a non-digit in a version; the end precedes all bytes but a tilde. -/
def versionRank : Bytes → Int
  | [] => -1
  | c :: _ =>
      if Ascii.isDigit c then 0
      else if Ascii.isLetter c then c.toNat
      else if c = Ascii.tilde then -2
      else c.toNat + 256

/-- Version comparison, where digits stand for numbers; `fuel` bounds the bytes. -/
def compareVersions : Nat → Bytes → Bytes → Ordering
  | 0, _, _ => .eq
  | fuel + 1, a, b =>
      let inText (s : Bytes) : Bool := s.head?.any fun c => !Ascii.isDigit c
      if a.isEmpty && b.isEmpty then .eq
      else if inText a || inText b then
        (compare (versionRank a) (versionRank b)).then
          (compareVersions fuel (a.drop 1) (b.drop 1))
      else
        let digits (s : Bytes) : Bytes := s.takeWhile Ascii.isDigit
        (compare (decimalValue (digits a)) (decimalValue (digits b))).then
          (compareVersions fuel (a.dropWhile Ascii.isDigit) (b.dropWhile Ascii.isDigit))

/-- The bytes after the leading file extensions, each a dot, a letter or tilde, and further letters,
digits and tildes; `fuel` bounds the extensions. -/
def behindEndings : Nat → Bytes → Bytes
  | 0, s => s
  | fuel + 1, s =>
      match s with
      | Ascii.dot :: c :: behind =>
          if Ascii.isLetter c || c == Ascii.tilde then
            behindEndings fuel (behind.dropWhile fun c =>
              Ascii.isLetter c || Ascii.isDigit c || c == Ascii.tilde)
          else s
      | s => s

/-- The extensions at the end of a name; `fuel` bounds the bytes. -/
def endings : Nat → Bytes → Bytes
  | 0, s => s
  | _, [] => []
  | fuel + 1, _ :: rest =>
      match behindEndings (rest.length + 1) rest with
      | [] => rest
      | behind => endings fuel behind

def compareNames (a b : Bytes) : Ordering :=
  let isHidden (s : Bytes) : Bool := s.head? == some Ascii.dot
  let special (s : Bytes) : Nat :=
    if s.isEmpty then 0
    else if s = Path.dotName then 1
    else if s = Path.dotDotName then 2
    else if isHidden s then 3
    else 4
  if special a ≠ special b ∨ special a < 3 then compare (special a) (special b)
  else
    let fuel := a.length + b.length + 1
    let stem (s : Bytes) : Bytes := s.take (s.length - (endings fuel s).length)
    (compareVersions fuel (stem a) (stem b)).then (compareVersions fuel a b)

/-! ## Keys -/

structure SortKey where
  fieldsBefore : Nat
  bytesBefore : Nat
  finish : Option (Nat × Nat)
  trimsStart : Bool
  trimsEnd : Bool
  flags : Bytes

/-- The bytes after the first fields, which end at a separator or before blanks. -/
def behindFields (separator : Option UInt8) : Nat → Bytes → Bytes
  | 0, s => s
  | n + 1, s => behindFields separator n (match separator with
      | some c => (s.dropWhile (· != c)).drop 1
      | none => (s.dropWhile isGap).dropWhile (!isGap ·))

def SortKey.part (k : SortKey) (separator : Option UInt8) (line : Bytes) : Bytes :=
  let trimmed (trims : Bool) (s : Bytes) : Bytes := if trims then s.dropWhile isGap else s
  let start := (trimmed k.trimsStart (behindFields separator k.fieldsBefore line)).drop k.bytesBefore
  match k.finish with
  | none => start
  | some (fields, 0) =>
      let behind := match separator with
        | some c => (behindFields separator (fields - 1) line).dropWhile (· != c)
        | none => behindFields none fields line
      start.take (start.length - behind.length)
  | some (fields, bytes) =>
      let behind := (trimmed k.trimsEnd (behindFields separator (fields - 1) line)).drop bytes
      start.take (start.length - behind.length)

def sortLetters : Bytes := text "bdfghiMnrV"

def keyCount (what : String) (s : Bytes) : Step (Nat × Bytes) := do
  let digits := s.takeWhile Ascii.isDigit
  if digits.isEmpty then
    fail (text what ++ text ": invalid count at start of " ++ cited s) 2
  return (decimalValue digits, s.drop digits.length)

def wrongKey {α : Type} (what : String) (key : Bytes) : Step α :=
  fail (text what ++ text ": invalid field specification " ++ cited key) 2

/-- A position in a key: a field number and an optional byte number. -/
def keyPlace (what : String) (key s : Bytes) : Step (Nat × Option Nat × Bytes × Bytes) := do
  let (field, rest) ← keyCount what s
  if field = 0 then wrongKey "field number is zero" key
  let (byte, rest) ← match rest with
    | Ascii.dot :: rest => do
        let (byte, rest) ← keyCount "invalid number after '.'" rest
        pure (some byte, rest)
    | rest => pure (none, rest)
  let flags := rest.takeWhile sortLetters.contains
  return (field, byte, flags, rest.drop flags.length)

def sortKey (s : Bytes) : Step SortKey := do
  let b := Char.toUInt8 'b'
  let (field, byte, flags, rest) ← keyPlace "invalid number at field start" s s
  if byte = some 0 then wrongKey "character offset is zero" s
  let start : SortKey := ⟨field - 1, byte.getD 1 - 1, none, flags.contains b, false, flags⟩
  match rest with
  | [] => return start
  | Ascii.comma :: rest =>
      let (last, byte, more, rest) ← keyPlace "invalid number after ','" s rest
      if !rest.isEmpty then wrongKey "stray character in field spec" s
      return { start with
        finish := some (last, byte.getD 0)
        trimsEnd := more.contains b
        flags := flags ++ more }
  | _ => wrongKey "stray character in field spec" s

def compareParts (flags a b : Bytes) : Ordering :=
  let has (c : Char) : Bool := flags.contains c.toUInt8
  let folded (s : Bytes) : Bytes :=
    let s := if has 'd' then
        s.filter fun c => Ascii.isLetter c || Ascii.isDigit c || isGap c
      else if has 'i' then s.filter isPrintable
      else s
    if has 'f' then Formatted.Layout.toUpper s else s
  let a := folded a
  let b := folded b
  let ordered :=
    if has 'n' then compareFractions (leadingNumber a) (leadingNumber b)
    else if has 'g' then (Reading.ofBytes a).compare (Reading.ofBytes b)
    else if has 'h' then
      (compare (unitRank a) (unitRank b)).then (compareFractions (leadingNumber a) (leadingNumber b))
    else if has 'M' then compare (month a) (month b)
    else if has 'V' then compareNames a b
    else compareBytes a b
  if has 'r' then ordered.swap else ordered

structure SortOrder where
  keys : List SortKey
  separator : Option UInt8
  reversed : Bool
  lastResort : Bool

def SortOrder.compare (o : SortOrder) (a b : Bytes) : Ordering :=
  let byKeys := o.keys.foldl (fun found k =>
    found.then (compareParts k.flags (k.part o.separator a) (k.part o.separator b))) .eq
  if o.lastResort || o.keys.isEmpty then
    byKeys.then (if o.reversed then compareBytes b a else compareBytes a b)
  else byKeys

/-- The order given by options; keys without letters take the global ones. -/
def SortOrder.ofGiven (g : Given) : Step SortOrder := do
  let flags := (g.options.map Prod.fst).filter sortLetters.contains
  let written ← g.options.filterMapM fun (letter, value) => do
    if letter = Char.toUInt8 'k' then return some (← sortKey value)
    else if letter = Char.toUInt8 't' then
      if value.isEmpty then fail (text "empty tab") 2
      if 1 < value.length && value != text "\\0" then
        fail (text "multi-character tab " ++ cited value) 2
      return none
    else return none
  let b := Char.toUInt8 'b'
  let whole : SortKey := ⟨0, 0, none, flags.contains b, flags.contains b, flags⟩
  let keys := if written.isEmpty && flags.any (· != Char.toUInt8 'r') then [whole]
    else written.map fun k =>
      if k.flags.isEmpty then
        { k with flags, trimsStart := whole.trimsStart, trimsEnd := whole.trimsEnd }
      else k
  keys.forM fun k => do
    let kinds := k.flags.eraseDups.filter (text "ghMn").contains
    let textual := k.flags.any (text "diV").contains
    if 1 < kinds.length + (if textual then 1 else 0) then
      let shown := (text "dfghiMnV").filter k.flags.contains
      fail (text "options '-" ++ shown ++ text "' are incompatible") 2
  let separators := (g.options.filter fun o => o.1 == Char.toUInt8 't').map Prod.snd
  if separators.any fun s => some s != separators.head? then fail (text "incompatible tabs") 2
  let separator := separators.head?.bind fun s => if s = text "\\0" then some 0 else s.head?
  return ⟨keys, separator, flags.contains (Char.toUInt8 'r'), !(g.has 's' || g.has 'u')⟩

/-! ## Sorting -/

def withoutRepeats (alike : Bytes → Bytes → Bool) : List Bytes → List Bytes
  | a :: b :: rest =>
      if alike a b then withoutRepeats alike (a :: rest) else a :: withoutRepeats alike (b :: rest)
  | rest => rest
termination_by lines => lines.length

/-- Merges sorted lists of lines, earlier lists first among equal lines; `fuel` bounds the lines. -/
def mergeLines (compare : Bytes → Bytes → Ordering) : Nat → List (List Bytes) → List Bytes
  | 0, _ => []
  | fuel + 1, lists =>
      let heads := lists.zipIdx.filterMap fun (lines, i) => lines.head?.map fun line => (line, i)
      match heads with
      | [] => []
      | first :: others =>
          let (least, i) := others.foldl (fun best head =>
            if compare head.1 best.1 = .lt then head else best) first
          least :: mergeLines compare fuel (lists.modify i (·.drop 1))

def sort : Program := do
  let g ← given ⟨"bdfghiMnrVsucmzC", "ktoST", [("reverse", 'r'), ("unique", 'u'),
    ("numeric-sort", 'n'), ("key", 'k'), ("field-separator", 't'), ("output", 'o'),
    ("ignore-case", 'f'), ("stable", 's'), ("check", 'c'), ("ignore-leading-blanks", 'b'),
    ("dictionary-order", 'd'), ("general-numeric-sort", 'g'), ("human-numeric-sort", 'h'),
    ("ignore-nonprinting", 'i'), ("month-sort", 'M'), ("version-sort", 'V'), ("merge", 'm'),
    ("zero-terminated", 'z')]⟩ 2
  let order ← SortOrder.ofGiven g
  let checks := g.has 'c' || g.has 'C'
  if g.has 'c' && g.has 'C' then fail (text "options '-cC' are incompatible") 2
  if checks && (g.value? 'o').isSome then
    fail (text "options '-" ++ text (if g.has 'c' then "c" else "C") ++ text "o' are incompatible") 2
  if checks then
    if let _ :: extra :: _ := g.operands then
      fail (text "extra operand " ++ cited extra ++ text " not allowed with -" ++
        text (if g.has 'c' then "c" else "C")) 2
  let lists ← (orInput g.operands).mapM fun name => do
    match ← contentsOf name with
    | .ok s => return bareRecords g.finish s.known
    | .error .isDirectory => fail (text "read failed: " ++ quotedName name ++ text ": " ++
        Refusal.isDirectory.wording) 2
    | .error .badDescriptor =>
        fail (text "stat failed: -: " ++ Refusal.badDescriptor.wording) 2
    | .error refusal =>
        fail (text "cannot read: " ++ quotedName name ++ text ": " ++ refusal.wording) 2
  let all := lists.flatten
  if checks then
    let strict := g.has 'u'
    let wrong := (all.zip (all.drop 1)).zipIdx.find? fun ((a, b), _) =>
      match order.compare a b with
      | .gt => true
      | .eq => strict
      | .lt => false
    match wrong with
    | some ((_, b), i) =>
        if g.has 'c' then
          complain (g.operands.headD [Ascii.minus] ++ text ":" ++ decimal (i + 2) ++
            text ": disorder: " ++ b)
        stop 1
    | none => return ()
  let sorted :=
    if g.has 'm' then mergeLines order.compare (all.length + 1) lists
    else stableSort (fun a b => order.compare a b == .lt) all
  let sorted :=
    if g.has 'u' then withoutRepeats (fun a b => order.compare a b == .eq) sorted else sorted
  let shown := sorted.flatMap fun line => line ++ [g.finish]
  match g.value? 'o' with
  | none => write shown
  | some name =>
      match (← get).files.store name shown with
      | some files => modify fun p => { p with files }
      | none => fail (text "open failed: " ++ quotedName name ++ text ": " ++
          Refusal.noEntry.wording) 2

end Program

end LuaAsset
