import LuaAsset.Host.Program.Formatted
import LuaAsset.Host.Program.Whole
import LuaAsset.Host.Regex

/-! # Programs for lines

Programs that drop repeated lines, and cut, paste, fold and number lines. -/

set_option autoImplicit false

namespace LuaAsset

namespace Program

/-! ## Repeats -/

def runsOf (alike : Bytes → Bytes → Bool) (lines : List Bytes) : List (List Bytes) :=
  let runs := lines.foldl (fun (runs : List (List Bytes)) line =>
    match runs with
    | (last :: before) :: rest =>
        if alike last line then (line :: last :: before) :: rest else [line] :: runs
    | runs => [line] :: runs) []
  (runs.map List.reverse).reverse

def withoutFields : Nat → Bytes → Bytes
  | 0, s => s
  | n + 1, s =>
      let isGap (c : UInt8) : Bool := c == Ascii.space || c == Ascii.tab || c == Ascii.lineFeed
      withoutFields n ((s.dropWhile isGap).dropWhile (!isGap ·))

structure RunReport where
  given : Given
  repeats : Option Bytes
  groups : Option Bytes

def RunReport.lines (r : RunReport) (run : List Bytes) : List Bytes :=
  let g := r.given
  let counted (line : Bytes) : Bytes :=
    if g.has 'c' then padded 7 (decimal run.length) ++ Ascii.space :: line else line
  if r.groups.isSome then run
  else if run.length = 1 then
    if g.has 'd' || r.repeats.isSome then [] else (run.map counted)
  else if r.repeats.isSome then if g.has 'u' then run.dropLast else run
  else if g.has 'u' then []
  else (run.take 1).map counted

def RunReport.shown (r : RunReport) (runs : List (List Bytes)) : Bytes :=
  let finish := r.given.finish
  let ended (lines : List Bytes) : Bytes := lines.flatMap fun line => line ++ [finish]
  let isMethod (method : Option Bytes) (words : List String) : Bool :=
    method.any fun m => words.any fun w => text w == m
  let first := runs.findIdx fun run => r.groups.isSome || run.length != 1
  let body := runs.zipIdx.flatMap fun (run, i) =>
    let isRepeated := run.length != 1
    let before :=
      isMethod r.groups ["prepend", "both"] ||
        (isMethod r.groups ["separate", "append"] && i != first) ||
        (isRepeated && isMethod r.repeats ["prepend"]) ||
        (isRepeated && isMethod r.repeats ["separate"] && i != first)
    (if before then [finish] else []) ++ ended (r.lines run)
  body ++ (if isMethod r.groups ["append", "both"] && !runs.isEmpty then [finish] else [])

def uniq : Program := do
  let g ← given ⟨"cduiDz0123456789\x01\x02", "fsw\x01\x02", [("count", 'c'), ("repeated", 'd'),
    ("unique", 'u'), ("ignore-case", 'i'), ("skip-fields", 'f'), ("skip-chars", 's'),
    ("check-chars", 'w'), ("zero-terminated", 'z'), ("all-repeated", '\x01'), ("group", '\x02')]⟩ 1
  let counts ← g.options.filterMapM fun (letter, value) => do
    let what? := [('f', "fields to skip"), ('s', "bytes to skip"), ('w', "bytes to compare")].find?
      fun w => Char.toUInt8 w.1 == letter
    match what?, natural? value with
    | none, _ => return none
    | some (c, _), some n => return some (c, n)
    | some (_, what), none => fail (value ++ text ": invalid number of " ++ text what) 1
  let number (letter : Char) : Option Nat := counts.reverse.lookup letter
  let method (letter : Char) (option usual : String) (words : List String) :
      Step (Option Bytes) := do
    match g.value? letter with
    | none => return none
    | some [] => return some (text usual)
    | some s => return some (← oneOf option (words.map ([·])) s)
  let repeats ← method '\x01' "all-repeated" "none" ["none", "prepend", "separate"]
  let repeats := repeats.or (if g.has 'D' then some (text "none") else none)
  let groups ← method '\x02' "group" "separate" ["prepend", "append", "separate", "both"]
  if groups.isSome && (repeats.isSome || g.has 'c' || g.has 'd' || g.has 'u') then
    misused (text "--group is mutually exclusive with -c/-d/-D/-u") 1
  if repeats.isSome && g.has 'c' then
    misused (text "printing all duplicated lines and repeat counts is meaningless") 1
  let digits := (g.options.map Prod.fst).filter Ascii.isDigit
  let compared (line : Bytes) : Bytes :=
    let line := withoutFields ((number 'f').getD (decimalValue digits)) line
    let line := line.drop ((number 's').getD 0)
    let line := match number 'w' with
      | some n => line.take n
      | none => line
    if g.has 'i' then line.map Ascii.toLower else line
  match g.operands with
  | _ :: _ :: extra :: _ => misused (text "extra operand " ++ cited extra) 1
  | operands =>
      match ← contentsOf (operands.headD [Ascii.minus]) with
      | .error refusal =>
          fail (quotedName (operands.headD []) ++ text ": " ++ refusal.wording) 1
      | .ok s =>
          let runs := runsOf (fun a b => compared a == compared b) (bareRecords g.finish s.known)
          let shown := RunReport.shown ⟨g, repeats, groups⟩ runs
          let target := (operands.drop 1).headD [Ascii.minus]
          if target = [Ascii.minus] then write shown
          else match (← get).files.store target shown with
            | some files => modify fun p => { p with files }
            | none => fail (quotedName target ++ text ": " ++ Refusal.noEntry.wording) 1

/-! ## Columns -/

/-- A range of numbers, possibly without an end. -/
abbrev Range := Nat × Option Nat

inductive RangeFault where
  | zero
  | decreasing
  | doubled
  | endless
  | notANumber (rest : Bytes)

/-- A range up to a separator, and the rest. -/
def rangeAt (s : Bytes) : Except RangeFault (Range × Option Bytes) := do
  let first := s.takeWhile Ascii.isDigit
  let behind := s.drop first.length
  let ends (s : Bytes) : Bool := s.head?.all (text ", \t").contains
  match behind with
  | Ascii.minus :: more =>
      let last := more.takeWhile Ascii.isDigit
      let behind := more.drop last.length
      let start := if first.isEmpty then 1 else decimalValue first
      if start = 0 then throw .zero
      if behind.head? = some Ascii.minus then throw .doubled
      if !ends behind then throw (.notANumber behind)
      if first.isEmpty && last.isEmpty then throw .endless
      if last.isEmpty then return ((start, none), behind.tail?)
      if decimalValue last < start then throw .decreasing
      return ((start, some (decimalValue last)), behind.tail?)
  | behind =>
      if !ends behind then throw (.notANumber behind)
      let n := decimalValue first
      if n = 0 then throw .zero
      return ((n, some n), behind.tail?)

def rangesOf : Nat → Bytes → Except RangeFault (List Range)
  | 0, _ => return []
  | fuel + 1, s => do
      let (range, rest) ← rangeAt s
      match rest with
      | some rest => return range :: (← rangesOf fuel rest)
      | none => return [range]

def mergedRanges (ranges : List Range) : List Range :=
  let sorted := stableSort (fun (a b : Range) => a.1 < b.1) ranges
  (sorted.foldl (fun (done : List Range) range =>
    match done with
    | (first, last) :: before =>
        if last.all (range.1 ≤ ·) then
          (first, last.bind fun n => range.2.map fun m => max n m) :: before
        else range :: done
    | [] => [range]) []).reverse

/-- The complement of ordered ranges. -/
def otherRanges : Nat → List Range → List Range
  | next, [] => [(next, none)]
  | next, (first, last) :: rest =>
      let gap : List Range := if next < first then [(next, some (first - 1))] else []
      match last with
      | some last => gap ++ otherRanges (last + 1) rest
      | none => gap

def inRanges (ranges : List Range) (n : Nat) : Bool :=
  ranges.any fun (least, most) => least ≤ n && most.all (n ≤ ·)

def chosen {α : Type} (wanted : Nat → Bool) (xs : List α) : List α :=
  (xs.zipIdx 1).filterMap fun (x, n) => if wanted n then some x else none

def chosenBytes (ranges : List Range) (between line : Bytes) : Bytes :=
  let parts := ranges.map fun (first, last) =>
    match last with
    | some last => (line.take last).drop (first - 1)
    | none => line.drop (first - 1)
  ((parts.filter (!·.isEmpty)).intersperse between).flatten

def rangeWording (byField : Bool) : RangeFault → Bytes
  | .zero => text (if byField then "fields are numbered from 1"
      else "byte/character positions are numbered from 1")
  | .decreasing => text "invalid decreasing range"
  | .doubled => text (if byField then "invalid field range" else "invalid byte or character range")
  | .endless => text "invalid range with no endpoint: -"
  | .notANumber rest =>
      text (if byField then "invalid field value " else "invalid byte/character position ") ++
        cited rest

def cut : Program := do
  let g ← given ⟨"snz\x01", "bcfd\x02", [("bytes", 'b'), ("characters", 'c'), ("fields", 'f'),
    ("delimiter", 'd'), ("only-delimited", 's'), ("output-delimiter", '\x02'),
    ("complement", '\x01'), ("zero-terminated", 'z')]⟩ 1
  let list ← g.options.foldlM (fun (list : Option (UInt8 × Bytes)) (letter, value) => do
    if (text "bcf").contains letter then
      if list.isSome then misused (text "only one list may be specified") 1
      return some (letter, value)
    else
      if letter = Char.toUInt8 'd' ∧ 1 < value.length then
        misused (text "the delimiter must be a single character") 1
      return list) none
  match list with
  | none => misused (text "you must specify a list of bytes, characters, or fields") 1
  | some (letter, s) =>
      let byField := letter == Char.toUInt8 'f'
      if (g.value? 'd').isSome && !byField then
        misused (text "an input delimiter may be specified only when operating on fields") 1
      if g.has 's' && !byField then
        misused (text "suppressing non-delimited lines makes sense\n\tonly when operating on fields")
          1
      let delimiter := ((g.value? 'd').getD [Ascii.tab]).headD 0
      match rangesOf (s.length + 1) s with
      | .error fault => misused (rangeWording byField fault) 1
      | .ok ranges =>
          let ranges := mergedRanges ranges
          let ranges := if g.has '\x01' then otherRanges 1 ranges else ranges
          let between := (g.value? '\x02').getD (if byField then [delimiter] else [])
          overFiles g.operands refused fun _ source =>
            write ((bareRecords g.finish source.known).flatMap fun line =>
              if !byField then chosenBytes ranges between line ++ [g.finish]
              else if line.contains delimiter then
                ((chosen (inRanges ranges) (splitOn delimiter line)).intersperse between).flatten ++
                  [g.finish]
              else if g.has 's' then []
              else line ++ [g.finish])

/-- The delimiters of columns, used cyclically; `\0` stands for none, and the result is `none` after
a trailing backslash. -/
def delimiters : Bytes → Option (List Bytes)
  | [] => some []
  | Ascii.backslash :: c :: rest =>
      let delimiter : Bytes :=
        if c = Ascii.zero then []
        else if (text "bfnrtv").contains c then [(Formatted.letterEscape? c).getD c]
        else [c]
      (delimiters rest).map (delimiter :: ·)
  | [Ascii.backslash] => none
  | c :: rest => (delimiters rest).map ([c] :: ·)

def cycled (delimiters : List Bytes) (i : Nat) : Bytes :=
  delimiters.getD (i % delimiters.length) []

def interleaved (delimiters : List Bytes) (texts : List Bytes) : Bytes :=
  texts.zipIdx.flatMap fun (t, i) =>
    (if i = 0 then [] else cycled delimiters (i - 1)) ++ t

/-- The transposition of lists; `fuel` bounds the length of the longest. -/
def rows : Nat → List (List Bytes) → List (List Bytes)
  | 0, _ => []
  | fuel + 1, columns =>
      if columns.all List.isEmpty then []
      else (columns.map fun c => c.headD []) :: rows fuel (columns.map (·.drop 1))

def everyOther (step : Nat) (lines : List Bytes) (start : Nat) : List Bytes :=
  lines.zipIdx.filterMap fun (line, i) =>
    if start ≤ i ∧ (i - start) % step = 0 then some line else none

/-- Columns in which repeated uses of the input take its lines in turn. -/
def sharedColumns (names : List Bytes) (columns : List (List Bytes)) : List (List Bytes) :=
  let isInput (name : Bytes) : Bool := name == [Ascii.minus]
  let turns := names.countP isInput
  let lines := ((names.zip columns).filter fun c => isInput c.1).flatMap Prod.snd
  (names.zip columns).zipIdx.map fun ((name, column), i) =>
    if isInput name then everyOther turns lines ((names.take i).countP isInput) else column

def paste : Program := do
  let g ← given ⟨"sz", "d", [("serial", 's'), ("delimiters", 'd'), ("zero-terminated", 'z')]⟩ 1
  let list := (g.value? 'd').getD [Ascii.tab]
  let between ← match delimiters list with
    | some [] => pure [[]]
    | some between => pure between
    | none => fail (text "delimiter list ends with an unescaped backslash: " ++ quotedName list) 1
  let names := orInput g.operands
  let columns ← names.mapM fun name => do
    match ← contentsOf name with
    | .ok s => return bareRecords g.finish s.known
    | .error refusal => fail (quotedName name ++ text ": " ++ refusal.wording) 1
  let shown :=
    if g.has 's' then columns
    else rows ((columns.map List.length).foldl (· + ·) 0) (sharedColumns names columns)
  write (shown.flatMap fun texts => interleaved between texts ++ [g.finish])

/-! ## Folding -/

/-- A line while it is folded: finished lines, the current one, and its width. -/
structure Folding where
  done : Bytes
  current : Bytes
  column : Nat

namespace Folding

def advanced (byBytes : Bool) (column : Nat) (c : UInt8) : Nat :=
  if byBytes then column + 1
  else if c = 8 then column - 1
  else if c = Ascii.carriageReturn then 0
  else if c = Ascii.tab then column + 8 - column % 8
  else column + 1

/-- Adds a byte, after a line feed if the line gets too wide; `fuel` bounds the line feeds. -/
def add (byBytes atBlanks : Bool) (width : Nat) : Nat → Folding → UInt8 → Folding
  | 0, f, _ => f
  | fuel + 1, f, c =>
      let column := advanced byBytes f.column c
      if c = Ascii.lineFeed then ⟨f.done ++ f.current ++ [c], [], 0⟩
      else if column ≤ width then { f with current := f.current ++ [c], column }
      else
        let isGap (c : UInt8) : Bool := c == Ascii.space || c == Ascii.tab
        let behind := (f.current.reverse.takeWhile (!isGap ·)).reverse
        if atBlanks && behind.length < f.current.length then
          let before := f.current.take (f.current.length - behind.length)
          add byBytes atBlanks width fuel
            ⟨f.done ++ before ++ [Ascii.lineFeed], behind, behind.foldl (advanced byBytes) 0⟩ c
        else if f.current.isEmpty then { f with current := [c], column }
        else add byBytes atBlanks width fuel ⟨f.done ++ f.current ++ [Ascii.lineFeed], [], 0⟩ c

end Folding

def fold : Program := do
  let g ← given ⟨"bs", "w", [("width", 'w'), ("bytes", 'b'), ("spaces", 's')]⟩ 1
  let widths ← (g.options.filter fun o => o.1 == Char.toUInt8 'w').mapM fun (_, s) => do
    let what := text "invalid number of columns: " ++ cited s
    match natural? s with
    | some 0 => fail (what ++ text ": Numerical result out of range") 1
    | some n => return n
    | none => fail what 1
  let width := widths.getLastD 80
  overFiles g.operands refused fun _ s =>
    write ((linesOf s.known).flatMap fun line =>
      let f := line.foldl (Folding.add (g.has 'b') (g.has 's') width (line.length + 2)) ⟨[], [], 0⟩
      f.done ++ f.current)

/-! ## Numbering -/

/-- Which lines of a section are numbered. -/
inductive NumberedLines where
  | all
  | full
  | none
  | matching (r : Regex)

def NumberedLines.ofBytes (what : String) (s : Bytes) : Step NumberedLines := do
  match s.map fun c => Char.ofNat c.toNat with
  | 'a' :: _ => return .all
  | 't' :: _ => return .full
  | 'n' :: _ => return .none
  | 'p' :: _ =>
      match Regex.ofBytes .plain (s.drop 1) with
      | .ok (r, _) => return .matching r
      | .error fault => fail fault.wording 1
  | _ => misused (text "invalid " ++ text what ++ text " numbering style: " ++ cited s) 1

def NumberedLines.includes (n : NumberedLines) (line : Bytes) : Bool :=
  match n with
  | .all => true
  | .full => !line.isEmpty
  | .none => false
  | .matching r => (r.search line.toArray false false 0).isSome

structure Numbering where
  shown : Bytes
  next : Int
  part : NumberedLines

def integerOption (g : Given) (letter : Char) (what : String) (least : Option Int) (usual : Int) :
    Step Int := do
  match g.value? letter with
  | none => return usual
  | some s =>
      let complaint := text "invalid " ++ text what ++ text ": " ++ cited s
      match integer? s with
      | none => fail complaint 1
      | some n =>
          if least.any (n < ·) then fail (complaint ++ text ": Numerical result out of range") 1
          return n

/-- Numbers lines section by section; a line of one, two or three marks starts a footer, body or
header. -/
def nl : Program := do
  let g ← given ⟨"p", "bdfhilnsvw", [("body-numbering", 'b'), ("header-numbering", 'h'),
    ("footer-numbering", 'f'), ("number-separator", 's'), ("line-increment", 'i'),
    ("number-format", 'n'), ("no-renumber", 'p'), ("starting-line-number", 'v'),
    ("number-width", 'w'), ("section-delimiter", 'd'), ("join-blank-lines", 'l')]⟩ 1
  let body ← NumberedLines.ofBytes "body" ((g.value? 'b').getD (text "t"))
  let header ← NumberedLines.ofBytes "header" ((g.value? 'h').getD (text "n"))
  let footer ← NumberedLines.ofBytes "footer" ((g.value? 'f').getD (text "n"))
  let width := (← integerOption g 'w' "line number field width" (some 1) 6).toNat
  let between := (g.value? 's').getD [Ascii.tab]
  let first ← integerOption g 'v' "starting line number" none 1
  let step ← integerOption g 'i' "line number increment" none 1
  let layout := (g.value? 'n').getD (text "rn")
  if !(["ln", "rn", "rz"].map text).contains layout then
    misused (text "invalid line numbering format: " ++ cited layout) 1
  let mark := match g.value? 'd' with
    | some [c] => [c, Ascii.colon]
    | some s => s
    | none => text "\\:"
  let shownNumber (n : Int) : Bytes :=
    let digits := decimalInt n
    if layout = text "ln" then digits ++ List.replicate (width - digits.length) Ascii.space
    else if layout = text "rz" then
      let bare := decimal n.natAbs
      let sign : Bytes := if n < 0 then [Ascii.minus] else []
      sign ++ List.replicate (width - sign.length - bare.length) Ascii.zero ++ bare
    else padded width digits
  let marks (n : Nat) : Bytes := (List.replicate n mark).flatten
  let enter (a : Numbering) (part : NumberedLines) : Numbering :=
    ⟨a.shown ++ [Ascii.lineFeed], if g.has 'p' then a.next else first, part⟩
  let lines := bareLines (← concatenated g.operands refused).known
  let all := lines.foldl (fun (a : Numbering) line =>
    if !mark.isEmpty && line == marks 3 then enter a header
    else if !mark.isEmpty && line == marks 2 then enter a body
    else if !mark.isEmpty && line == marks 1 then enter a footer
    else if a.part.includes line then
      { a with
        shown := a.shown ++ shownNumber a.next ++ between ++ line ++ [Ascii.lineFeed]
        next := a.next + step }
    else
      { a with shown := a.shown ++ List.replicate (width + between.length) Ascii.space ++ line ++
          [Ascii.lineFeed] }) ⟨[], first, body⟩
  write all.shown

end Program

end LuaAsset
