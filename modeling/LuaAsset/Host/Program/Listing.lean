import LuaAsset.Host.Pattern
import LuaAsset.Host.Program.Order

/-! # Directory listings

Names one per line, separated by commas, or in columns. -/

set_option autoImplicit false

namespace LuaAsset

namespace Program

/-! ## Layouts -/

inductive Arrangement where
  | singly
  | commas
  | down
  | across
  deriving DecidableEq, Repr

def places (name : Bytes) : Nat := (name.filter fun c => 0x20 ≤ c && c != 0x7f).length

/-- Tabs and spaces up to a column; `fuel` bounds the places. -/
def filling : Nat → Nat → Nat → Bytes
  | 0, _, _ => []
  | fuel + 1, reached, goal =>
      if goal ≤ reached then []
      else if (reached + 1) / 8 < goal / 8 then
        Ascii.tab :: filling fuel (reached + 8 - reached % 8) goal
      else Ascii.space :: filling fuel (reached + 1) goal

/-- The widths of columns: two spaces after each name, and at least three places. -/
def columnWidths (columns : Nat) (columnOf : Nat → Nat) (names : List Bytes) : List Nat :=
  (List.range columns).map fun column =>
    let widths := (names.zipIdx.filter fun (_, i) => columnOf i == column).map fun (name, _) =>
      places name + (if column + 1 = columns then 0 else 2)
    widths.foldl max 3

/-- The column of a name by its index. -/
def Arrangement.columnOf (a : Arrangement) (count columns i : Nat) : Nat :=
  if a = .across then i % columns else i / ((count + columns - 1) / columns)

def Arrangement.fitting (a : Arrangement) (width : Nat) (names : List Bytes) : List Nat :=
  let most := min ((width + 2) / 3) names.length
  let choices := (List.range most).reverse.map fun i =>
    columnWidths (i + 1) (a.columnOf names.length (i + 1)) names
  (choices.find? fun widths => widths.foldl (· + ·) 0 < width).getD
    (columnWidths 1 (fun _ => 0) names)

def tabulated (widths : List Nat) (names : List Bytes) : Bytes :=
  ((names.zip widths).zipIdx.foldl (fun (line : Bytes × Nat) ((name, width), i) =>
    let last := i + 1 == names.length
    let goal := line.2 + width
    (line.1 ++ name ++
      (if last then [] else filling width (line.2 + places name) goal), goal)) ([], 0)).1

/-- Names separated by a byte and a space, wrapped to the width of the line. -/
def running (width : Nat) (between : UInt8) (names : List Bytes) : Bytes :=
  (names.zipIdx.foldl (fun (acc : Bytes × Nat) (name, i) =>
    if i = 0 then (name, places name)
    else if width = 0 || acc.2 + places name + 2 < width then
      (acc.1 ++ between :: Ascii.space :: name, acc.2 + 2 + places name)
    else (acc.1 ++ between :: Ascii.lineFeed :: name, places name)) ([], 0)).1

/-- Names laid out in lines of a width; zero stands for unlimited lines. -/
def Arrangement.layout (a : Arrangement) (width : Nat) (finish : UInt8) (names : List Bytes) :
    Bytes :=
  let ended (lines : List Bytes) : Bytes := lines.flatMap (· ++ [finish])
  if names.isEmpty then []
  else match a with
    | .singly => ended names
    | .commas => ended [running width Ascii.comma names]
    | a =>
        if width = 0 then ended [running 0 Ascii.space names]
        else
          let widths := a.fitting width names
          let columns := widths.length
          let rows := (names.length + columns - 1) / columns
          let rowOf (i : Nat) : Nat := if a = .across then i / columns else i % rows
          ended <| (List.range rows).map fun row =>
            tabulated widths ((names.zipIdx.filter fun (_, i) => rowOf i == row).map Prod.fst)

/-! ## Names -/

/-- A name in double quotes with escapes. -/
def doubleQuoted (name : Bytes) : Bytes :=
  Ascii.doubleQuote :: (name.flatMap fun c =>
    if c = Ascii.doubleQuote ∨ c = Ascii.backslash then [Ascii.backslash, c]
    else if isPrintable c then [c]
    else Ascii.backslash :: escapeOf c) ++ [Ascii.doubleQuote]

def escaped (name : Bytes) : Bytes :=
  name.flatMap fun c =>
    if c = Ascii.space ∨ c = Ascii.backslash then [Ascii.backslash, c]
    else if isPrintable c then [c]
    else Ascii.backslash :: escapeOf c

structure ListRequest where
  given : Given
  arrangement : Arrangement
  width : Nat
  quoting : Option UInt8
  marking : Bytes
  order : Bytes

namespace ListRequest

def shownName (r : ListRequest) (name : Bytes) : Bytes :=
  if r.quoting = some (Char.toUInt8 'Q') then doubleQuoted name
  else if r.quoting = some (Char.toUInt8 'b') then escaped name
  else if r.given.has 'q' then name.map fun c => if isPrintable c then c else Ascii.question
  else name

/-- The heading of a directory, where a colon in its name is escaped. -/
def title (r : ListRequest) (path : Bytes) : Bytes :=
  let shown := r.shownName path
  (if r.quoting = some (Char.toUInt8 'Q') ∨ r.quoting = some (Char.toUInt8 'b') then
    shown.flatMap fun c => if c = Ascii.colon then [Ascii.backslash, c] else [c]
  else shown) ++ text ":\n"

def indicator (r : ListRequest) (node : Node) : Bytes :=
  if r.marking = text "none" then []
  else if node.isDirectory then [Ascii.slash]
  else match r.marking == text "classify", node with
    | true, .file _ true | true, .program _ => [Ascii.star]
    | _, _ => []

def sizeOf : Node → Nat
  | .file contents _ => contents.length
  | .directory _ => 4096
  | _ => 0

def sorted (r : ListRequest) (entries : List (Bytes × Node)) : List (Bytes × Node) :=
  let behindDot (name : Bytes) : Bytes :=
    if name.contains Ascii.dot then (name.reverse.takeWhile (· != Ascii.dot)).reverse else []
  let hasDot (name : Bytes) : Nat := if name.contains Ascii.dot then 1 else 0
  let compared (a b : Bytes × Node) : Ordering :=
    if r.order = text "size" then compare (sizeOf b.2) (sizeOf a.2)
    else if r.order = text "version" then compareNames a.1 b.1
    else if r.order = text "width" then
      compare (places (r.shownName a.1)) (places (r.shownName b.1))
    else if r.order = text "extension" then
      (compare (hasDot a.1) (hasDot b.1)).then (compareBytes (behindDot a.1) (behindDot b.1))
    else .eq
  let less (a b : Bytes × Node) : Bool := (compared a b).then (compareBytes a.1 b.1) == .lt
  let all := if r.order = text "none" then entries
    else
      let up := stableSort less entries
      if r.given.has 'r' then up.reverse else up
  if r.given.has '\x05' then
    all.filter (fun e => e.2.isDirectory) ++ all.filter (fun e => !e.2.isDirectory)
  else all

def lines (r : ListRequest) (entries : List (Bytes × Node)) : Bytes :=
  let finish := if r.given.has '\x06' then 0 else Ascii.lineFeed
  r.arrangement.layout r.width finish
    (entries.map fun (name, node) => r.shownName name ++ r.indicator node)

def leavesOut (r : ListRequest) (name : Bytes) : Bool :=
  let all := r.given.has 'a' || r.given.has 'A' || r.given.has 'f'
  let isHidden := name.head? == some Ascii.dot
  let matchesAny (letter : Char) : Bool := r.given.options.any fun (c, pattern) =>
    c == letter.toUInt8 && (!isHidden || pattern.head? == some Ascii.dot) &&
      (Pattern.ofMarked (Marked.ofBytes pattern false)).isMatch name
  (isHidden && !all) || (!all && matchesAny '\x04') || matchesAny 'I' ||
    (r.given.has 'B' && name.getLast? == some Ascii.tilde)

def shown (r : ListRequest) (node : Node) (entries : List (Bytes × Node)) :
    List (Bytes × Node) :=
  let own := if r.given.has 'a' || r.given.has 'f' then
    [(Path.dotName, node), (Path.dotDotName, node)] else []
  r.sorted ((own ++ entries).filter fun e => !r.leavesOut e.1)

/-- The listing of a directory and of its subdirectories; `fuel` bounds the depth. -/
def below (r : ListRequest) : Nat → Bytes → Node → Bytes
  | 0, _, _ => []
  | fuel + 1, path, node =>
      match node with
      | .directory entries =>
          let shown := r.shown node entries
          r.lines shown ++
            (if r.given.has 'R' then
              shown.flatMap fun (name, child) =>
                let inner := Path.join path name
                if child.isDirectory && name != Path.dotName && name != Path.dotDotName then
                  Ascii.lineFeed :: r.title inner ++ below r fuel inner child
                else []
            else [])
      | _ => []

/-- The last option among some letters, with its value. -/
def lastOf (g : Given) (letters : String) : Option (UInt8 × Bytes) :=
  g.options.reverse.find? fun o => (text letters).contains o.1

/-- The arrangement of the options; one name per line by default. -/
def arrangementOf (g : Given) : Step Arrangement := do
  match lastOf g "1Cmx\x01\x06" with
  | none => return .singly
  | some (letter, value) =>
      if letter = Char.toUInt8 'C' then return .down
      else if letter = Char.toUInt8 'm' then return .commas
      else if letter = Char.toUInt8 'x' then return .across
      else if letter = 1 then
        let word ← oneOf "format" [["verbose", "long"], ["commas"], ["horizontal", "across"],
          ["vertical"], ["single-column"]] value
        return (if word = text "commas" then .commas
          else if word = text "horizontal" then .across
          else if word = text "vertical" then .down
          else .singly)
      else return .singly

def orderOf (g : Given) : Step Bytes := do
  match lastOf g "fStUvX\x02" with
  | none => return text "name"
  | some (letter, value) =>
      if letter = 2 then
        oneOf "sort" [["none"], ["time"], ["size"], ["extension"], ["version"], ["width"]] value
      else return ((text "fStUvX").zip (["none", "size", "time", "none", "version", "extension"].map
        text)).lookup letter |>.getD (text "name")

def markingOf (g : Given) : Step Bytes := do
  match lastOf g "Fp\x03\x07" with
  | none => return text "none"
  | some (letter, value) =>
      if letter = Char.toUInt8 'F' then return text "classify"
      else if letter = Char.toUInt8 'p' then return text "slash"
      else if letter = 7 then return text "file-type"
      else oneOf "indicator-style" [["none"], ["slash"], ["file-type"], ["classify"]] value

def ofGiven (g : Given) : Step ListRequest := do
  let width ← match g.value? 'w' with
    | none => match (← read).environment.value? (text "COLUMNS") with
      | none => pure 80
      | some s => match natural? s with
        | some n => pure n
        | none =>
            complain (text "ignoring invalid width in environment variable COLUMNS: " ++ cited s)
            pure 80
    | some s => match natural? s with
      | some n => pure n
      | none => fail (text "invalid line width: " ++ cited s) 2
  return {
    given := g
    arrangement := ← arrangementOf g
    width
    quoting := (lastOf g "QbN").map Prod.fst
    marking := ← markingOf g
    order := ← orderOf g }

end ListRequest

def ls : Program := do
  let g ← given ⟨"1aAbBcCdfFGHkLmNpqQrRStuUvxX\x05\x06\x07\x08", "Iw\x01\x02\x03\x04\x08",
    [("all", 'a'), ("almost-all", 'A'), ("classify", 'F'), ("color", '\x08'), ("directory", 'd'), ("escape", 'b'),
      ("file-type", '\x07'), ("format", '\x01'), ("group-directories-first", '\x05'),
      ("hide", '\x04'), ("hide-control-chars", 'q'), ("ignore", 'I'), ("ignore-backups", 'B'),
      ("indicator-style", '\x03'), ("literal", 'N'), ("quote-name", 'Q'), ("recursive", 'R'),
      ("reverse", 'r'), ("sort", '\x02'), ("width", 'w'), ("zero", '\x06')]⟩ 2
  let _ ← ((g.value? '\x08').filter (· ≠ [])).mapM (oneOf "color" [["always", "yes", "force"],
    ["never", "no", "none"], ["auto", "tty", "if-tty"]])
  let r ← ListRequest.ofGiven g
  let names := if g.operands.isEmpty then [Path.dotName] else g.operands
  let f := (← get).files
  let found ← names.filterMapM fun name => do
    match f.node name with
    | .ok node => return some (name, node)
    | .error refusal =>
        warn (text "cannot access " ++ alwaysQuoted name ++ text ": " ++ refusal.wording) 2
        return none
  let isOpened (e : Bytes × Node) : Bool := e.2.isDirectory && !g.has 'd'
  let plain := r.sorted (found.filter fun e => !isOpened e)
  let opened := r.sorted (found.filter isOpened)
  write (r.lines plain)
  let _ ← opened.foldlM (fun first (name, node) => do
    let headed := 1 < names.length || g.has 'R'
    write ((if first then [] else [Ascii.lineFeed]) ++ (if headed then r.title name else []) ++
      r.below 64 name node)
    return false) plain.isEmpty

end Program

end LuaAsset
