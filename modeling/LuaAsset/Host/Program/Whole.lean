import LuaAsset.Host.Program

/-! # Programs for whole files

Programs that copy or count files, or a part of them. -/

set_option autoImplicit false

namespace LuaAsset

namespace Program

/-! ## Copies -/

structure Display where
  numbered : Bool
  numberedFilled : Bool
  endsShown : Bool
  tabsShown : Bool
  unprintedShown : Bool
  squeezed : Bool

def Display.ofGiven (g : Given) : Display where
  numbered := g.has 'n'
  numberedFilled := g.has 'b'
  endsShown := g.has 'A' || g.has 'e' || g.has 'E'
  tabsShown := g.has 'A' || g.has 't' || g.has 'T'
  unprintedShown := g.has 'A' || g.has 'e' || g.has 't' || g.has 'v'
  squeezed := g.has 's'

def Display.isPlain (d : Display) : Bool :=
  !(d.numbered || d.numberedFilled || d.endsShown || d.tabsShown || d.unprintedShown || d.squeezed)

def visible (c : UInt8) : Bytes :=
  let low (c : UInt8) : Bytes :=
    if c < 0x20 then [Ascii.caret, c + 0x40]
    else if c = 0x7f then text "^?"
    else [c]
  if c < 0x80 then low c else text "M-" ++ low (c - 0x80)

def Display.byte (d : Display) (c : UInt8) : Bytes :=
  if c = Ascii.tab then if d.tabsShown then text "^I" else [c]
  else if c = Ascii.lineFeed then if d.endsShown then [Ascii.dollar, c] else [c]
  else if d.unprintedShown then visible c
  else [c]

def isEmptyLine (line : Bytes) : Bool := line == [Ascii.lineFeed]

def squeeze : List Bytes → List Bytes
  | a :: b :: rest =>
      if isEmptyLine a && isEmptyLine b then squeeze (b :: rest) else a :: squeeze (b :: rest)
  | rest => rest

def Display.lines (d : Display) (lines : List Bytes) : Bytes :=
  let lines := if d.squeezed then squeeze lines else lines
  (lines.foldl (fun (acc : Bytes × Nat) line =>
    let shown := line.flatMap d.byte
    if (d.numbered && !d.numberedFilled) || (d.numberedFilled && !isEmptyLine line) then
      (acc.1 ++ padded 6 (decimal acc.2) ++ [Ascii.tab] ++ shown, acc.2 + 1)
    else (acc.1 ++ shown, acc.2)) ([], 1)).1

def isInputClosed (g : Given) : Step Bool := do
  let isClosed := match (← get).input with
    | .error refusal => refusal == .badDescriptor
    | .ok _ => false
  return (orInput g.operands).contains [Ascii.minus] && isClosed

def cat : Program := do
  let g ← given ⟨"benstuvAET", "", [("number-nonblank", 'b'), ("number", 'n'),
    ("squeeze-blank", 's'), ("show-nonprinting", 'v'), ("show-ends", 'E'), ("show-tabs", 'T'),
    ("show-all", 'A')]⟩ 1
  let d := Display.ofGiven g
  if !(← read).outputOpen then
    fail (text "standard output: " ++ Refusal.badDescriptor.wording) 1
  let closed ← isInputClosed g
  if d.isPlain then overFiles g.operands refused fun _ s => writeStream s
  else
    let all ← concatenated g.operands refused
    if d.numbered || d.numberedFilled || d.squeezed then write (d.lines (linesOf all.known))
    else writeStream (all.flatMap d.byte)
  if closed then
    warn (text "closing standard input: " ++ Refusal.badDescriptor.wording) 1

/-- Splits bytes at a separator, which stays attached to the part before or after it; `fuel` bounds
the bytes. -/
def separated (separator : Bytes) (before : Bool) : Nat → Bytes → Bytes → List Bytes
  | 0, current, s => [current.reverse ++ s]
  | _, current, [] => if current.isEmpty then [] else [current.reverse]
  | fuel + 1, current, c :: rest =>
      if separator.isPrefixOf (c :: rest) then
        let behind := (c :: rest).drop separator.length
        if before then
          let others := separated separator before fuel separator.reverse behind
          if current.isEmpty then others else current.reverse :: others
        else (current.reverse ++ separator) :: separated separator before fuel [] behind
      else separated separator before fuel (c :: current) rest

/-- The records of every file, last first. -/
def tac : Program := do
  let g ← given ⟨"br", "s", [("before", 'b'), ("regex", 'r'), ("separator", 's')]⟩ 1
  let separator := (g.value? 's').getD [Ascii.lineFeed]
  if separator.isEmpty then fail (text "separator cannot be empty") 1
  overFiles g.operands
    (fun name refusal => warn (if refusal = .isDirectory
      then quotedName name ++ text ": read error: " ++ Refusal.invalidArgument.wording
      else text "failed to open " ++ alwaysQuoted name ++ text " for reading: " ++ refusal.wording)
      1)
    fun _ s =>
      let bytes := s.known
      write (separated separator (g.has 'b') (bytes.length + 1) [] bytes).reverse.flatten

def rev : Program := do
  let short := Path.fileName (← read).name
  let refuse (name : Bytes) (refusal : Refusal) : Program := do
    writeErrors (short ++ text ": cannot open " ++ name ++ text ": " ++ refusal.wording ++
      [Ascii.lineFeed])
    mark 1
  overFiles (← operands 1) refuse fun _ s => (linesOf s.known).forM fun line =>
      if line.getLast? = some Ascii.lineFeed then
        write (line.dropLast.reverse ++ [Ascii.lineFeed])
      else write line.reverse

def tee : Program := do
  let g ← given ⟨"ai", "", [("append", 'a'), ("ignore-interrupts", 'i')]⟩ 1
  match ← takeInput with
  | .error refusal => warn (text "'standard input': " ++ refusal.wording) 1
  | .ok s =>
      writeStream s
      g.operands.forM fun name => do
        let f := (← get).files
        match f.node name with
        | .ok (.device (.descriptor 1)) => writeStream s
        | .ok (.device (.descriptor 2)) => writeErrors s.known
        | _ => pure ()
        let before := match g.has 'a', f.node name with
          | true, .ok (.file contents _) => contents
          | _, _ => []
        match f.store name (before ++ s.known) with
        | some files => modify fun p => { p with files }
        | none =>
            let reason := match f.node name with
              | .ok _ => Refusal.isDirectory
              | .error refusal => refusal
            warn (quotedName name ++ text ": " ++ reason.wording) 1

/-! ## Parts -/

structure Extent where
  inBytes : Bool
  fromOther : Bool
  number : Nat

structure EndShown where
  sign : UInt8
  spelledOut : List Bytes → List Bytes
  misplaced : UInt8 → Program
  isLasting : Bool
  choose : UInt8 → Extent → Stream → Bytes

/-- The extent in the value of an option, without its sign. -/
def extentOf (sign : UInt8) (inBytes : Bool) (s : Bytes) : Step Extent := do
  let fromOther := s.head? = some sign
  let digits := if fromOther ∨ s.head? = some Ascii.minus then s.drop 1 else s
  let what := text "invalid number of " ++ text (if inBytes then "bytes" else "lines") ++
    text ": " ++ cited (if s.head? = some Ascii.plus then s else digits)
  match measured? digits with
  | some n =>
      if 2 ^ 64 ≤ n then fail (what ++ text ": Value too large for defined data type") 1
      else return ⟨inBytes, fromOther, n⟩
  | none => fail what 1

/-- Prints a part of every file, with headings if there are several. -/
def partly (shownEnd : EndShown) : Program := do
  let known : Options := ⟨"qvfFz0123456789", "nc", [("lines", 'n'), ("bytes", 'c'), ("quiet", 'q'),
    ("silent", 'q'), ("verbose", 'v'), ("follow", 'f'), ("zero-terminated", 'z')]⟩
  let g ← givenIn known 1 (fun _ => false) (shownEnd.spelledOut (← read).arguments)
  let e ← g.options.foldlM (fun (e : Extent) (letter, value) => do
    if Ascii.isDigit letter then
      shownEnd.misplaced letter
      return e
    else if letter = Char.toUInt8 'n' ∨ letter = Char.toUInt8 'c' then
      let next ← extentOf shownEnd.sign (letter == Char.toUInt8 'c') value
      return { next with fromOther := next.fromOther || (shownEnd.isLasting && e.fromOther) }
    else return e) ⟨false, false, 10⟩
  let headed := (1 < g.operands.length || g.has 'v') && !g.has 'q'
  let title (name : Bytes) : Program := do
    if headed then
      let before := (← get).writes.any fun w => w.1 == .output
      let shown := if name = [Ascii.minus] then text "standard input" else name
      write ((if before then [Ascii.lineFeed] else []) ++ text "==> " ++ shown ++ text " <==\n")
  (orInput g.operands).forM fun name => do
    match ← contentsOf name with
    | .ok s =>
        title name
        write (shownEnd.choose g.finish e s)
    | .error .isDirectory =>
        title name
        warn (text "error reading " ++ alwaysQuoted name ++ text ": " ++
          Refusal.isDirectory.wording) 1
    | .error .badDescriptor =>
        title name
        warn (text "error reading 'standard input': " ++ Refusal.badDescriptor.wording) 1
        warn (text "-: " ++ Refusal.badDescriptor.wording) 1
    | .error refusal =>
        warn (text "cannot open " ++ alwaysQuoted name ++ text " for reading: " ++
          refusal.wording) 1

/-- Expands an obsolete `-N` with letters after it. -/
def headSpelledOut : List Bytes → List Bytes
  | (Ascii.minus :: c :: rest) :: others =>
      if !Ascii.isDigit c then (Ascii.minus :: c :: rest) :: others
      else
        let number := (c :: rest).takeWhile Ascii.isDigit
        let letters := (c :: rest).drop number.length
        let units := letters.filter (text "cbkml").contains
        let unit := units.getLastD (Char.toUInt8 'l')
        let inBytes := unit != Char.toUInt8 'l'
        let factor := if (text "bkm").contains unit then [unit] else []
        let further := letters.filter fun d => !(text "cbkml").contains d
        (if further.isEmpty then [] else [Ascii.minus :: further]) ++
          [Ascii.minus, Char.toUInt8 (if inBytes then 'c' else 'n')] :: (number ++ factor) :: others
  | arguments => arguments

def head : Program :=
  partly
    { sign := Ascii.minus
      spelledOut := headSpelledOut
      misplaced := fun c => misused (text "invalid trailing option -- " ++ [c]) 1
      isLasting := false
      choose := fun finish e s =>
        if e.inBytes then
          if e.fromOther then s.known.take (s.known.length - e.number) else s.take e.number
        else
          let lines := records finish s.known
          (lines.take (if e.fromOther then lines.length - e.number else e.number)).flatten }

/-- Expands an obsolete `-N` or `+N` as the only argument or before one operand. -/
def tailSpelledOut (arguments : List Bytes) : List Bytes :=
  let alone (others : List Bytes) : Bool := match others with
    | [] => true
    | [other] => isOperand other || other == text "--"
    | [other, _] => other == text "--"
    | _ => false
  match arguments with
  | (sign :: rest) :: others =>
      let number := rest.takeWhile Ascii.isDigit
      let letters := rest.drop number.length
      let isSpelled := alone others &&
        ((sign == Ascii.plus) || (sign == Ascii.minus && !number.isEmpty)) &&
        (["", "b", "c", "l"].map text).contains letters
      if !isSpelled then (sign :: rest) :: others
      else
        let letter := if letters = text "b" ∨ letters = text "c" then 'c' else 'n'
        let number := if number.isEmpty then text "10" else number
        let factor := if letters = text "b" then letters else []
        [Ascii.minus, Char.toUInt8 letter] ::
          ((if sign = Ascii.plus then [sign] else []) ++ number ++ factor) :: others
  | arguments => arguments

def tail : Program :=
  partly
    { sign := Ascii.plus
      spelledOut := tailSpelledOut
      misplaced := fun c => fail (text "option used in invalid context -- " ++ [c]) 1
      isLasting := true
      choose := fun finish e s =>
        let last {α : Type} (xs : List α) : List α :=
          if e.fromOther then xs.drop (e.number - 1) else xs.drop (xs.length - e.number)
        if e.inBytes then last s.known else (last (records finish s.known)).flatten }

/-! ## Blocks -/

def blockNumber? (s : Bytes) : Option Nat :=
  let factor? (s : Bytes) : Option Nat :=
    let digits := s.takeWhile Ascii.isDigit
    match digits, s.drop digits.length with
    | [], _ => none
    | digits, [0x63] => some (decimalValue digits)
    | digits, [0x77] => some (decimalValue digits * 2)
    | _, _ => measured? s
  (splitOn (Char.toUInt8 'x') s).foldl (fun product part => do
    return (← product) * (← factor? part)) (some 1)

abbrev BlockRequest := List (Bytes × Bytes)

def blockNames : List Bytes :=
  ["if", "of", "bs", "ibs", "obs", "cbs", "count", "skip", "seek", "conv", "status", "iflag",
    "oflag"].map text

def blockRequest (operands : List Bytes) : Step BlockRequest :=
  operands.mapM fun operand => do
    let name := operand.takeWhile (· != Ascii.equals)
    if name.length = operand.length ∨ !blockNames.contains name then
      misused (text "unrecognized operand " ++ alwaysQuoted operand) 1
    return (name, operand.drop (name.length + 1))

def BlockRequest.number? (r : BlockRequest) (name : String) (isSize : Bool) : Step (Option Nat) := do
  match r.reverse.lookup (text name) with
  | none => return none
  | some s =>
      match blockNumber? s with
      | some 0 => if isSize then fail (text "invalid number: " ++ alwaysQuoted s) 1 else return some 0
      | some n => return some n
      | none => fail (text "invalid number: " ++ alwaysQuoted s) 1

def swapped : Bytes → Bytes
  | a :: b :: rest => b :: a :: swapped rest
  | rest => rest

def takeBlocks (source : Option Bytes) (skipped : Nat) (most : Option Nat) : Step Bytes := do
  let choose (s : Stream) : Bytes :=
    let s := s.drop skipped
    match most with
    | some n => s.take n
    | none => s.known
  match source with
  | some name =>
      match ← contentsOf name with
      | .ok s => return choose s
      | .error .isDirectory =>
          warn (text "error reading " ++ alwaysQuoted name ++ text ": " ++
            Refusal.isDirectory.wording) 1
          return []
      | .error refusal =>
          fail (text "failed to open " ++ alwaysQuoted name ++ text ": " ++ refusal.wording) 1
  | none =>
      match (← get).input with
      | .ok s =>
          let bytes := choose s
          modify fun p => { p with input := .ok (s.drop (skipped + bytes.length)) }
          return bytes
      | .error refusal =>
          warn (text "error reading 'standard input': " ++ refusal.wording) 1
          return []

/-- Writes bytes into a file at an offset, optionally keeping the bytes after them. -/
def putBlocks (name : Bytes) (skipped : Nat) (keeps : Bool) (bytes : Bytes) : Program := do
  let f := (← get).files
  let before := match f.node name with
    | .ok (.file contents _) => contents
    | _ => []
  let start := before.take skipped ++ List.replicate (skipped - before.length) 0
  let behind := if keeps then before.drop (skipped + bytes.length) else []
  match f.store name (start ++ bytes ++ behind) with
  | some files => modify fun p => { p with files }
  | none =>
      let reason := match f.node name with
        | .ok _ => Refusal.isDirectory
        | .error refusal => refusal
      fail (text "failed to open " ++ alwaysQuoted name ++ text ": " ++ reason.wording) 1

def dd : Program := do
  let r ← blockRequest (← operands 1)
  let both ← r.number? "bs" true
  let inSize := (both.or (← r.number? "ibs" true)).getD 512
  let outSize := (both.or (← r.number? "obs" true)).getD 512
  let count ← r.number? "count" false
  let skipped := (← r.number? "skip" false).getD 0
  let sought := (← r.number? "seek" false).getD 0
  let listed (name : String) : List Bytes :=
    (r.filter fun o => o.1 == text name).flatMap fun o => splitOn Ascii.comma o.2
  let changes := listed "conv"
  if let some s := changes.find? fun s => !(["ucase", "lcase", "swab", "sync", "notrunc", "fsync",
      "fdatasync", "noerror", "excl", "nocreat", "sparse"].map text).contains s then
    misused (text "invalid conversion: " ++ alwaysQuoted s) 1
  let status := (r.reverse.lookup (text "status")).getD (text "default")
  if !(["default", "none", "noxfer", "progress"].map text).contains status then
    misused (text "invalid status level: " ++ alwaysQuoted status) 1
  let inUnits (flag : String) : Nat := if (listed "iflag").contains (text flag) then 1 else inSize
  let source := r.reverse.lookup (text "if")
  let bytes ← takeBlocks source (skipped * inUnits "skip_bytes")
    (count.map (· * inUnits "count_bytes"))
  let does (name : String) : Bool := changes.contains (text name)
  let partly := if bytes.length % inSize = 0 then 0 else 1
  let missing := if does "sync" && partly = 1 then inSize - bytes.length % inSize else 0
  let new := (if does "swab" then swapped bytes else bytes) ++ List.replicate missing 0
  let upper (c : UInt8) : UInt8 := if 0x61 ≤ c && c ≤ 0x7a then c - 0x20 else c
  let new := if does "ucase" then new.map upper
    else if does "lcase" then new.map Ascii.toLower
    else new
  match r.reverse.lookup (text "of") with
  | some name => putBlocks name (sought * outSize) (does "notrunc") new
  | none => write new
  if status ≠ text "none" then
    let records (size : Nat) (s : Bytes) (way : String) : Bytes :=
      decimal (s.length / size) ++ Ascii.plus :: decimal (if s.length % size = 0 then 0 else 1) ++
        text " records " ++ text way ++ [Ascii.lineFeed]
    writeErrors (records inSize bytes "in" ++ records outSize new "out")
    if status ≠ text "noxfer" then writeErrors (decimal new.length ++ text " bytes copied\n")

/-! ## Counts -/

def wordCount (s : Bytes) : Nat :=
  (s.foldl (fun (acc : Nat × Bool) c =>
    if Ascii.isBlank c then (acc.1, false)
    else if acc.2 then acc else (acc.1 + 1, true)) (0, false)).1

/-- The display width of the longest line; tabs advance to a multiple of eight. -/
def longestLine (s : Bytes) : Nat :=
  let (longest, reached) := s.foldl (fun (acc : Nat × Nat) c =>
    if c = Ascii.lineFeed ∨ c = Ascii.carriageReturn ∨ c = Ascii.formFeed then (max acc.1 acc.2, 0)
    else if c = Ascii.tab then (acc.1, acc.2 + 8 - acc.2 % 8)
    else (acc.1, if isPrintable c then acc.2 + 1 else acc.2)) (0, 0)
  max longest reached

/-- Line feeds, words, characters, bytes, and the longest line. -/
structure Counts where
  lines : Nat
  words : Nat
  bytes : Nat
  longest : Nat

def Counts.ofBytes (s : Bytes) : Counts where
  lines := s.count Ascii.lineFeed
  words := wordCount s
  bytes := s.length
  longest := longestLine s

def Counts.add (a b : Counts) : Counts :=
  ⟨a.lines + b.lines, a.words + b.words, a.bytes + b.bytes, max a.longest b.longest⟩

def Counts.chosen (c : Counts) (g : Given) : List Nat :=
  let all := !(g.has 'l' || g.has 'w' || g.has 'c' || g.has 'm' || g.has 'L')
  (if all || g.has 'l' then [c.lines] else []) ++ (if all || g.has 'w' then [c.words] else []) ++
    (if g.has 'm' then [c.bytes] else []) ++ (if all || g.has 'c' then [c.bytes] else []) ++
    (if g.has 'L' then [c.longest] else [])

/-- The width of a printed count. -/
def countWidth (g : Given) : Step Nat := do
  if g.operands.length ≤ 1 && ((Counts.ofBytes []).chosen g).length = 1 then return 1
  else
    let f := (← get).files
    let setting ← read
    let inputSize := if ← isInputClosed g then none else some setting.inputSize
    let size (name : Bytes) : Option (Option Nat) :=
      if name = [Ascii.minus] then inputSize
      else match f.node name with
        | .ok (.file contents _) => some (some contents.length)
        | .ok _ => some none
        | .error _ => none
    let sizes := (orInput g.operands).filterMap size
    let total := (sizes.map fun s => s.getD 0).foldl (· + ·) 0
    let least := if sizes.any Option.isNone then 7 else 1
    return max least (decimal total).length

def wc : Program := do
  let g ← given ⟨"clmwL", "\x01", [("bytes", 'c'), ("chars", 'm'), ("lines", 'l'), ("words", 'w'),
    ("max-line-length", 'L'), ("total", '\x01')]⟩ 1
  let totals ← oneOf "total" [["auto"], ["always"], ["only"], ["never"]]
    ((g.value? '\x01').getD (text "auto"))
  let onlyTotal := totals == text "only"
  let width ← if onlyTotal then pure 1 else countWidth g
  let shown (c : Counts) (name : Bytes) : Program :=
    let numbers := (c.chosen g).map fun n => padded width (decimal n)
    writeLine ((numbers.intersperse [Ascii.space]).flatten ++
      (if name.isEmpty then [] else Ascii.space :: name))
  let shownPart (c : Counts) (name : Bytes) : Program := if onlyTotal then return () else shown c name
  let total ← (orInput g.operands).foldlM (fun (total : Counts) name => do
    let label := if g.operands.isEmpty then [] else name
    match ← contentsOf name with
    | .ok s =>
        let c := Counts.ofBytes s.known
        shownPart c label
        return total.add c
    | .error refusal =>
        if label.isEmpty then warn (text "'standard input': " ++ refusal.wording) 1
        else refused name refusal
        if refusal = .isDirectory ∨ refusal = .badDescriptor then shownPart (.ofBytes []) label
        return total) (.ofBytes [])
  if onlyTotal then shown total []
  else if totals = text "always" ∨ (totals = text "auto" ∧ 1 < g.operands.length) then
    shown total (text "total")
  if ← isInputClosed g then refused [Ascii.minus] .badDescriptor

end Program

end LuaAsset
