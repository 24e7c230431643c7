import LuaAsset.Host.Program.Formatted
import LuaAsset.Host.Program.Whole
import LuaAsset.Host.Regex

/-! # Filters

`tr` and `grep`. -/

set_option autoImplicit false

namespace LuaAsset

namespace Program

/-! ## Sets of bytes -/

def allBytes : Bytes := (List.range 256).map UInt8.ofNat

def byteRange (first last : UInt8) : Bytes := allBytes.filter fun c => first ≤ c && c ≤ last

/-- The bytes of a set, with a mark on escaped ones. -/
def unescapedSet : Nat → Bytes → List (UInt8 × Bool)
  | 0, _ => []
  | _, [] => []
  | fuel + 1, c :: rest =>
      if c = Ascii.backslash then
        match Formatted.escape false false rest with
        | (.byte d, rest) => (d, true) :: unescapedSet fuel rest
        | (_, d :: rest) => (d, true) :: unescapedSet fuel rest
        | (_, []) => [(c, false)]
      else (c, false) :: unescapedSet fuel rest

inductive SetFault where
  | reversed (first last : UInt8)
  | unknownClass (name : Bytes)

inductive SetPart where
  | bytes (s : Bytes)
  | named (name s : Bytes)
  | like (c : UInt8)
  | filling (c : UInt8) (count : Option Nat)

def setParts : Nat → List (UInt8 × Bool) → Except SetFault (List SetPart)
  | 0, _ => .ok []
  | _, [] => .ok []
  | fuel + 1, (c, quoted) :: rest => do
      let bare := (rest.map Prod.fst).takeWhile (· != Ascii.closeBracket)
      let opens := c = Ascii.openBracket && !quoted
      if opens && rest.head? == some (Ascii.colon, false) && 2 ≤ bare.length &&
          bare.getLast? == some Ascii.colon then
        let name := (bare.drop 1).dropLast
        match characterClass? name with
        | some isIn =>
            return .named name (allBytes.filter isIn) ::
              (← setParts fuel (rest.drop (bare.length + 1)))
        | none => .error (.unknownClass name)
      else
        match opens, rest with
        | true, (Ascii.equals, false) :: (d, _) :: (Ascii.equals, false) ::
            (Ascii.closeBracket, false) :: behind =>
            return .like d :: (← setParts fuel behind)
        | true, (d, _) :: (Ascii.star, false) :: behind =>
            let number := (behind.map Prod.fst).takeWhile (· != Ascii.closeBracket)
            if number.all Ascii.isDigit && number.length < behind.length then
              let n := if number.head? = some Ascii.zero then octalValue number
                else decimalValue number
              return .filling d (if n = 0 then none else some n) ::
                (← setParts fuel (behind.drop (number.length + 1)))
            else return .bytes [c] :: (← setParts fuel rest)
        | _, (Ascii.minus, false) :: (last, _) :: behind =>
            if last < c then .error (.reversed c last)
            else return .bytes (byteRange c last) :: (← setParts fuel behind)
        | _, rest => return .bytes [c] :: (← setParts fuel rest)
where
  octalValue (digits : Bytes) : Nat := digits.foldl (fun n c => n * 8 + (c.toNat - 48)) 0

namespace SetPart

def size : SetPart → Nat
  | .bytes s | .named _ s => s.length
  | .like _ => 1
  | .filling _ count => count.getD 0

def isEndless : SetPart → Bool
  | .filling _ none => true
  | _ => false

def contents (room : Nat) : SetPart → Bytes
  | .bytes s | .named _ s => s
  | .like c => [c]
  | .filling c count => List.replicate (count.getD room) c

def isCase : SetPart → Bool
  | .named name _ => name == text "upper" || name == text "lower"
  | _ => false

end SetPart

def knownSize (parts : List SetPart) : Nat := (parts.map SetPart.size).foldl (· + ·) 0

/-- The bytes of a set, extended to the length of another set. -/
def setOfParts (length : Nat) (parts : List SetPart) : Bytes :=
  parts.flatMap (SetPart.contents (length - knownSize parts))

def readSet (s : Bytes) : Step (List SetPart) := do
  match setParts (s.length + 1) (unescapedSet (s.length + 1) s) with
  | .ok parts => return parts
  | .error (.reversed first last) =>
      fail (text "range-endpoints of '" ++ [first, Ascii.minus, last] ++
        text "' are in reverse collating sequence order") 1
  | .error (.unknownClass name) =>
      fail (text "invalid character class " ++ cited name) 1

def caseElements (room : Nat) (parts : List SetPart) : List Bytes :=
  parts.flatMap fun part =>
    if part.isCase then [part.contents room] else (part.contents room).map fun c => [c]

/-- Whether case classes in the second set have a counterpart in the first; `fuel` bounds the
elements. -/
def casesMatch : Nat → List Bytes → List Bytes → Bool
  | 0, _, _ => true
  | fuel + 1, before, behind =>
      match before, behind with
      | _, [] => true
      | (_ :: _ :: _) :: before, (_ :: _ :: _) :: behind => casesMatch fuel before behind
      | _, (_ :: _ :: _) :: _ => false
      | [], _ => true
      | (_ :: c :: more) :: before, _ :: behind => casesMatch fuel ((c :: more) :: before) behind
      | _ :: before, _ :: behind => casesMatch fuel before behind

def checkReplacement (complemented truncated : Bool) (set : Bytes) (before behind : List SetPart) :
    Program := do
  let isLike (p : SetPart) : Bool := match p with
    | .like _ => true
    | _ => false
  let isNamed (p : SetPart) : Bool := match p with
    | .named _ _ => true
    | _ => false
  if behind.any isLike then
    fail (text "[=c=] expressions may not appear in string2 when translating") 1
  if behind.any fun p => isNamed p && !p.isCase then
    fail (text "when translating, the only character classes that may appear in\n" ++
      text "string2 are 'upper' and 'lower'") 1
  let room := set.length - knownSize behind
  let replacement := setOfParts set.length behind
  if !complemented && !casesMatch (set.length + replacement.length + 1) (caseElements 0 before)
      (caseElements room behind) then
    fail (text "misaligned [:upper:] and/or [:lower:] construct") 1
  if replacement.length < set.length && !truncated then
    if replacement.isEmpty then
      fail (text "when not truncating set1, string2 must be non-empty") 1
    if behind.getLast?.any isNamed then
      fail (text "when translating with string1 longer than string2,\n" ++
        text "the latter string must not end with a character class") 1
  let length := if truncated then replacement.length else max set.length replacement.length
  let isUniform := replacement.all fun c => some c == replacement.head?
  if complemented && before.any isNamed && !(length == set.length && isUniform) then
    fail (text "when translating with complemented character classes,\n" ++
      text "string2 must map all characters in the domain to one") 1

def squeezed (set : Bytes) : Bytes → Bytes
  | a :: b :: rest =>
      if a = b ∧ set.contains a then squeezed set (b :: rest) else a :: squeezed set (b :: rest)
  | rest => rest

def wrongOperands {α : Type} (what : Bytes) (why : String) : Step α := do
  complain what
  if !why.isEmpty then writeErrors (text why ++ [Ascii.lineFeed])
  writeErrors (text "Try '" ++ (← read).name ++ text " --help' for more information.\n")
  stop 1

def tr : Program := do
  let g ← givenIn ⟨"cCdst", "", [("complement", 'c'), ("delete", 'd'), ("squeeze-repeats", 's'),
    ("truncate-set1", 't')]⟩ 1 isOperand (← read).arguments
  let deletes := g.has 'd'
  let squeezes := g.has 's'
  let onlyOne := deletes != squeezes
  match g.operands with
  | [] => wrongOperands (text "missing operand") ""
  | first :: others =>
      if others.isEmpty && !onlyOne then
        wrongOperands (text "missing operand after " ++ cited first)
          (if deletes then "Two strings must be given when both deleting and squeezing repeats."
            else "Two strings must be given when translating.")
      let most := if deletes && !squeezes then 0 else 1
      if most < others.length then
        wrongOperands (text "extra operand " ++ cited (others.getD most []))
          (if most = 0 then
            "Only one string may be given when deleting without squeezing repeats." else "")
      let before ← readSet first
      if before.any SetPart.isEndless then
        fail (text "the [c*] repeat construct may not appear in string1") 1
      let complemented := g.has 'c' || g.has 'C'
      let bytes := setOfParts 0 before
      let set := if complemented then allBytes.filter (!bytes.contains ·) else bytes
      let behind ← match others with
        | [] => pure none
        | second :: _ => do
            let parts ← readSet second
            if 1 < parts.countP SetPart.isEndless then
              fail (text "only one [c*] repeat construct may appear in string2") 1
            if !deletes then checkReplacement complemented (g.has 't') set before parts
            else if parts.any SetPart.isEndless then
              fail (text "the [c*] construct may appear in string2 only when translating") 1
            pure (some (setOfParts set.length parts))
      let source ← match ← takeInput with
        | .ok s => pure s
        | .error refusal => fail (text "read error: " ++ refusal.wording) 1
      match deletes, behind with
      | true, behind =>
          let kept := source.flatMap fun c => if set.contains c then [] else [c]
          match squeezes, behind with
          | true, some behind => write (squeezed behind kept.known)
          | _, _ => writeStream kept
      | false, none => write (squeezed set source.known)
      | false, some behind =>
          let pairs := (if g.has 't' then set.take behind.length else set).zipIdx
          -- Of a byte that is named twice the last place counts.
          let table : Array UInt8 := pairs.foldl (fun (table : Array UInt8) (c, i) =>
            table.setIfInBounds c.toNat (behind.getD i (behind.getLastD c))) allBytes.toArray
          let translated := source.flatMap fun c => [table.getD c.toNat c]
          if squeezes then write (squeezed behind translated.known) else writeStream translated

/-! ## Lines that match -/

structure LineTest where
  patterns : List Regex
  fold : Bool
  wholeWord : Bool
  wholeLine : Bool

/-- The first and longest match that is a whole word; `fuel` bounds the attempts. -/
def wordMatch? (r : Regex) (s : Array UInt8) (fold : Bool) : Nat → Nat → Option Regex.Found
  | 0, _ => none
  | fuel + 1, start => do
      let found ← r.search s fold false start
      let isWord (i : Nat) : Bool := s[i]?.any Regex.isWordByte
      if (found.start = 0 || !isWord (found.start - 1)) && !isWord found.finish then some found
      else wordMatch? r s fold fuel (found.start + 1)

def LineTest.match? (t : LineTest) (line : Array UInt8) (start : Nat) : Option Regex.Found :=
  let founds := t.patterns.filterMap fun r =>
    if t.wholeLine then
      ((r.ends line t.fold false ⟨0, []⟩).find? fun p => p.index == line.size).map fun _ =>
        ⟨0, line.size, []⟩
    else if t.wholeWord then wordMatch? r line t.fold (line.size + 1) start
    else r.search line t.fold false start
  founds.foldl (fun (best : Option Regex.Found) found =>
    match best with
    | none => some found
    | some b =>
        if found.start < b.start ∨ (found.start = b.start ∧ b.finish < found.finish) then some found
        else some b) none

/-- All nonempty matches in a line; `fuel` bounds their number. -/
def LineTest.matches (t : LineTest) (line : Array UInt8) : Nat → Nat → List Bytes
  | 0, _ => []
  | fuel + 1, start =>
      match t.match? line start with
      | none => []
      | some found =>
          if found.start = found.finish then
            if found.finish < line.size then t.matches line fuel (found.finish + 1) else []
          else (line.extract found.start found.finish).toList :: t.matches line fuel found.finish

structure LineReport where
  given : Given
  test : LineTest
  named : Bool
  most : Option Nat

/-- The context lines of a match, unless set separately for each side. -/
def LineReport.context? (r : LineReport) : Option Bytes :=
  let digits := (r.given.options.map Prod.fst).filter Ascii.isDigit
  if digits.isEmpty then r.given.value? 'C' else some digits

/-- The lines within a distance after a match. -/
def reached (width : Nat) (chosen : List Bool) : List Bool :=
  (chosen.foldl (fun (acc : List Bool × Nat) isChosen =>
    let left := if isChosen then width + 1 else acc.2
    ((0 < left) :: acc.1, left - 1)) ([], 0)).1.reverse

/-- The lines shown with context before and after. -/
def withContext (before behind : Nat) (chosen : List Bool) : List Bool :=
  List.zipWith (· || ·) (reached behind chosen) (reached before chosen.reverse).reverse

/-- Reports the matching lines of a file, and whether there are any. -/
def LineReport.file (r : LineReport) (name : Bytes) (source : Stream) : Step Bool := do
  let g := r.given
  let isLater := (← get).writes.any fun w => w.1 == .output
  let bytes := source.known
  let lines := bareRecords g.finish bytes
  let chosen := lines.map fun line =>
    (r.test.match? line.toArray 0).isSome != g.has 'v'
  let numbered := (lines.zip chosen).zipIdx 1
  let hits := numbered.filter fun ((_, isHit), _) => isHit
  let hits := match r.most with
    | some n => hits.take n
    | none => hits
  let shownName := if name = [Ascii.minus] then text "(standard input)" else name
  let label (separator : UInt8) : Bytes := if r.named then shownName ++ [separator] else []
  let number (n : Nat) (separator : UInt8) : Bytes :=
    if g.has 'n' then decimal n ++ [separator] else []
  if g.has 'q' then return !hits.isEmpty
  else if g.has 'l' then
    if !hits.isEmpty then writeLine shownName
  else if g.has 'L' then
    if hits.isEmpty then writeLine shownName
  else if g.has 'c' then writeLine (label Ascii.colon ++ decimal hits.length)
  else if bytes.contains 0 && !g.has 'a' && !g.has 'z' && !hits.isEmpty then
    complain (shownName ++ text ": binary file matches")
  else if g.has 'o' then
    if !g.has 'v' then
      hits.forM fun ((line, _), n) =>
        (r.test.matches line.toArray (line.length + 1) 0).forM fun found =>
          write (label Ascii.colon ++ number n Ascii.colon ++ found ++ [g.finish])
  else
    let width (letter : Char) : Nat :=
      (((g.value? letter).or r.context?).bind natural?).getD 0
    let last := (hits.getLast?.map Prod.snd).getD 0
    let asHits := numbered.map fun ((_, isHit), n) => isHit && n ≤ last
    let around := withContext (width 'B') (width 'A') asHits
    let shown := ((lines.zip asHits).zip around).zipIdx 1 |>.filter fun ((_, isShown), _) => isShown
    let inParts := r.context?.isSome || g.has 'A' || g.has 'B'
    let _ ← shown.foldlM (fun (before : Option Nat) (((line, isHit), _), n) => do
      let apart := match before with
        | some b => b + 1 < n
        | none => isLater
      if inParts && apart then writeLine (text "--")
      let separator := if isHit then Ascii.colon else Ascii.minus
      write (label separator ++ number n separator ++ line ++ [g.finish])
      return some n) none
  return !hits.isEmpty

/-- The plain files below a directory by path; a file stands for itself. -/
def filesUnder (path : Bytes) : Step (List Bytes) := do
  match (← get).files.node path with
  | .ok (.directory _) => return ((← get).files.allBelow path).map Prod.fst
  | _ => return [path]

/-- Line selection with a default notation. -/
def grepWith (usual : Option Char) : Program := do
  let g ← given ⟨"0123456789EFGPivcqsnolLxwhHraUybz", "efmABC", [("ignore-case", 'i'), ("invert-match", 'v'),
    ("count", 'c'), ("quiet", 'q'), ("silent", 'q'), ("no-messages", 's'), ("line-number", 'n'),
    ("only-matching", 'o'), ("files-with-matches", 'l'), ("files-without-match", 'L'),
    ("line-regexp", 'x'), ("word-regexp", 'w'), ("no-filename", 'h'), ("with-filename", 'H'),
    ("recursive", 'r'), ("text", 'a'), ("extended-regexp", 'E'), ("fixed-strings", 'F'),
    ("basic-regexp", 'G'), ("regexp", 'e'), ("file", 'f'), ("max-count", 'm'), ("after-context", 'A'),
    ("before-context", 'B'), ("context", 'C')]⟩ 2
  g.options.forM fun (letter, value) => do
    if (text "ABC").contains letter && (natural? value).isNone then
      fail (value ++ text ": invalid context length argument") 2
    if letter = Char.toUInt8 'm' && (integer? value).isNone then fail (text "invalid max count") 2
  let written := (g.options.filter fun o => o.1 == Char.toUInt8 'e').map Prod.snd
  let listed ← (g.options.filter fun o => o.1 == Char.toUInt8 'f').mapM fun (_, name) => do
    match ← contentsOf name with
    | .ok s => return bareLines s.known
    | .error refusal => fail (name ++ text ": " ++ refusal.wording) 2
  let byOption := written.isEmpty && listed.isEmpty
  let (patterns, names) ← match byOption, g.operands with
    | false, names => pure (written.flatMap (splitOn Ascii.lineFeed) ++ listed.flatten, names)
    | true, pattern :: names => pure (splitOn Ascii.lineFeed pattern, names)
    | true, [] => advise 2
  if (g.value? 'm').bind natural? = some 0 then stop 1
  let kind := ((g.options.reverse.find? fun o => (text "EFGP").contains o.1).map Prod.fst).or
    (usual.map Char.toUInt8)
  let extended := kind == some (Char.toUInt8 'E') || kind == some (Char.toUInt8 'P')
  let regexes ← patterns.mapM fun pattern => do
    if kind == some (Char.toUInt8 'F') then return Regex.literal pattern
    else match Regex.ofBytes (if extended then .extended else .plain) pattern with
      | .ok (r, _) => return r
      | .error fault => fail fault.wording 2
  let test : LineTest := ⟨regexes, g.has 'i' || g.has 'y', g.has 'w', g.has 'x'⟩
  let deep := g.has 'r'
  let names ← if deep then do
      pure (← (if names.isEmpty then [Path.dotName] else names).mapM filesUnder).flatten
    else pure names
  let report : LineReport :=
    { given := g, test
      named := (1 < names.length || deep || g.has 'H') && !g.has 'h'
      most := (g.value? 'm').bind natural? }
  let (found, failed) ← (orInput names).foldlM (fun (state : Bool × Bool) name => do
    match ← contentsOf name with
    | .ok source => return ((← report.file name source) || state.1, state.2)
    | .error refusal =>
        let shown := if name = [Ascii.minus] then text "(standard input)" else name
        if !g.has 's' then complain (shown ++ text ": " ++ refusal.wording)
        return (state.1, true)) (false, false)
  mark (if failed && !(found && g.has 'q') then 2 else if found then 0 else 1)

/-- Line selection under one of its names. -/
def grep (usual : Option Char) : Program :=
  let advice := text "Usage: grep [OPTION]... PATTERNS [FILE]...\n" ++
    text "Try 'grep --help' for more information.\n"
  withReader (fun s =>
      { s with advice := some advice, name := if usual.isSome then text "grep" else s.name })
    (grepWith usual)

end Program

end LuaAsset
