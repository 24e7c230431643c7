import LuaAsset.Host.Condition
import LuaAsset.Host.Program
import LuaAsset.Host.Program.Formatted
import LuaAsset.Host.Regex
import LuaAsset.Host.Search

/-! # Programs without input

Programs that write, compare or compute with their arguments. -/

set_option autoImplicit false

namespace LuaAsset

namespace Program

def succeed : Program := return ()

def failPlainly : Program := stop 1

/-! ## Writing arguments -/

def isEchoOption (argument : Bytes) : Bool :=
  match argument with
  | Ascii.minus :: c :: letters => (c :: letters).all (text "neE").contains
  | _ => false

def echo : Program := do
  let arguments := (← read).arguments
  let options := (arguments.takeWhile isEchoOption).flatten
  let words := (arguments.dropWhile isEchoOption).intersperse [Ascii.space] |>.flatten
  let last := (options.filter (text "eE").contains).getLast?
  let (said, stopped) :=
    if last = some (Char.toUInt8 'e') then Formatted.unescaped true (words.length + 1) words
    else (words, false)
  write said
  if !stopped && !options.contains (Char.toUInt8 'n') then write [Ascii.lineFeed]

def formatComplaint (c : Formatted.Complaint) : Bytes :=
  match c with
  | .notNumeric s => cited s ++ text ": expected a numeric value"
  | .incomplete s => cited s ++ text ": value not completely converted"
  | .outOfRange s => cited s ++ text ": Numerical result out of range"
  | .formatMissing => text "%: invalid conversion specification"
  | .invalid directive => directive ++ text ": invalid conversion specification"
  | .hexMissing => text "missing hexadecimal number in escape"
  | .badCharacter name => text "invalid universal character name " ++ name
  | .excess first =>
      text "warning: ignoring excess arguments, starting with " ++ cited first
  | .ignored rest => text "warning: " ++ rest ++
      text ": character(s) following character constant have been ignored"

def printf : Program := do
  let arguments := (← read).arguments
  let arguments := if arguments.head? = some (text "--") then arguments.drop 1 else arguments
  match arguments with
  | [] => misused (text "missing operand") 1
  | format :: rest =>
      (Formatted.write .ofPrograms format rest).forM fun part => match part with
        | .ok s => write s
        | .error c => do
            complain (formatComplaint c)
            if !c.isHarmless then mark 1

def printenv : Program := do
  let g ← given ⟨"0", "", [("null", '0')]⟩ 2
  let finish : Bytes := if g.has '0' then [0] else [Ascii.lineFeed]
  let environment := (← read).environment
  if g.operands.isEmpty then
    environment.forM fun (name, value) => write (name ++ Ascii.equals :: value ++ finish)
  else
    g.operands.forM fun name => do
      match environment.lookup name with
      | some value => write (value ++ finish)
      | none => mark 1

/-! ## The machine -/

def uname : Program := do
  let g ← given ⟨"so", "", [("kernel-name", 's'), ("operating-system", 'o')]⟩ 1
  match g.operands with
  | [] =>
      let kernel := if g.has 's' || !g.has 'o' then [text "Linux"] else []
      let system := if g.has 'o' then [text "GNU/Linux"] else []
      writeLine ((kernel ++ system).intersperse [Ascii.space]).flatten
  | first :: _ => misused (text "extra operand " ++ cited first) 1

def tty : Program := do
  let g ← given ⟨"s", "", [("silent", 's'), ("quiet", 's')]⟩ 2
  match g.operands with
  | [] =>
      if !g.has 's' then writeLine (text "not a tty")
      mark 1
  | first :: _ => misused (text "extra operand " ++ cited first) 2

def which : Program := do
  let g ← given ⟨"as", "", []⟩ 2
  let path := ((← read).environment.lookup (text "PATH")).getD []
  let files := (← get).files
  if g.operands.isEmpty then mark 1
  g.operands.forM fun name => do
    let candidates := if name.contains Ascii.slash then [name]
      else (splitOn Ascii.colon path).map fun directory =>
        Path.join (if directory.isEmpty then Path.dotName else directory) name
    let found := candidates.filter fun path => (Search.runnable files path).toBool
    let shown := if g.has 'a' then found else found.take 1
    if !g.has 's' then shown.forM writeLine
    if found.isEmpty then mark 1

/-! ## Waiting -/

/-- A time in microseconds with an optional unit. -/
def interval? (s : Bytes) : Option Nat := do
  match Formatted.fraction? s with
  | some (.finite negative q, rest) =>
      let unit ← match rest with
        | [] | [0x73] => some 1
        | [0x6d] => some 60
        | [0x68] => some 3600
        | [0x64] => some 86400
        | _ => none
      if negative && 0 < q.numerator then none
      else some (q.numerator * unit * 1000000 / q.denominator)
  | some (.infinite false, []) => some (10 ^ 15)
  | _ => none

def sleep : Program := do
  match ← operands 1 with
  | [] => misused (text "missing operand") 1
  | times =>
      let wrong := times.filter fun s => (interval? s).isNone
      wrong.dropLast.forM fun s => complain (text "invalid time interval " ++ cited s)
      if let some s := wrong.getLast? then
        misused (text "invalid time interval " ++ cited s) 1
      let all := (times.filterMap interval?).foldl (· + ·) 0
      modify fun p => { p with waited := p.waited + all }

/-! ## Conditions -/

def condition (words : List Bytes) : Program := do
  match Condition.InProgram.holds (← get).files words with
  | .ok holds => mark (if holds then 0 else 1)
  | .error what => fail what 2

def test : Program := do condition (← read).arguments

def bracket : Program := do
  let arguments := (← read).arguments
  if arguments.getLast? = some (text "]") then condition arguments.dropLast
  else fail (text "missing ']'") 2

/-! ## Expressions -/

namespace Calculation

structure Rest where
  before : Bytes
  words : List Bytes

abbrev Outcome := Except Bytes (Bytes × Rest)

def missing {α : Type} (r : Rest) : Except Bytes α :=
  .error (text "syntax error: missing argument after " ++ cited r.before)

def integer? (s : Bytes) : Option Int :=
  match s with
  | Ascii.minus :: digits =>
      if !digits.isEmpty && digits.all Ascii.isDigit then some (-(decimalValue digits : Int))
      else none
  | digits =>
      if !digits.isEmpty && digits.all Ascii.isDigit then some (decimalValue digits) else none

def isNull (s : Bytes) : Bool :=
  let digits := if s.head? = some Ascii.minus then s.drop 1 else s
  s.isEmpty || (!digits.isEmpty && digits.all (· == Ascii.zero))

def ofBool (b : Bool) : Bytes := text (if b then "1" else "0")

/-- The group of a match at the start, or else its length. -/
def matched (s pattern : Bytes) : Except Bytes Bytes :=
  match Regex.ofBytes .plain pattern with
  | .error fault => .error (fault.wording)
  | .ok (r, groups) =>
      match r.matchAt s.toArray false false 0 with
      | some found =>
          if 0 < groups then
            .ok (match found.groups.lookup 1 with
              | some (i, j) => (s.drop i).take (j - i)
              | none => [])
          else .ok (decimal found.finish)
      | none => .ok (if 0 < groups then [] else text "0")

def levels : List (List String) :=
  [["|"], ["&"], ["<", "<=", "=", "==", "!=", ">=", ">"], ["+", "-"], ["*", "/", "%"], [":"]]

def computed (operator a b : Bytes) : Except Bytes Bytes := do
  let named (s : String) : Bool := operator == text s
  if named ":" then matched a b
  else if ["<", "<=", "=", "==", "!=", ">=", ">"].any named then
    let o := match integer? a, integer? b with
      | some m, some n => compare m n
      | _, _ => compareOfLessAndEq a b
    return ofBool (if named "<" then o.isLT else if named "<=" then o.isLE
      else if named ">" then o.isGT else if named ">=" then o.isGE
      else if named "!=" then o.isNe else o.isEq)
  else
    match integer? a, integer? b with
    | some m, some n =>
        if named "+" then return decimalInt (m + n)
        else if named "-" then return decimalInt (m - n)
        else if named "*" then return decimalInt (m * n)
        else if n = 0 then .error (text "division by zero")
        else if named "/" then return decimalInt (m.tdiv n)
        else return decimalInt (m.tmod n)
    | _, _ => .error (text "non-integer argument")

mutual

/-- A chain of operators of one level; nothing is computed unless `live`. -/
def chain : Nat → List (List String) → Bool → Rest → Outcome
  | 0, _, _, r => missing r
  | fuel + 1, [], live, r => function fuel live r
  | fuel + 1, operators :: tighter, live, r => do
      let (a, r) ← chain fuel tighter live r
      links fuel operators tighter live a r

def links : Nat → List String → List (List String) → Bool → Bytes → Rest → Outcome
  | 0, _, _, _, _, r => missing r
  | fuel + 1, operators, tighter, live, a, r =>
      match r.words with
      | operator :: words =>
          if operators.any fun s => operator == text s then do
            let isOr := operator == text "|"
            let isAnd := operator == text "&"
            let lives := live && !(isOr && !isNull a) && !(isAnd && isNull a)
            let (b, r) ← chain fuel tighter lives ⟨operator, words⟩
            let value ←
              if !live then pure []
              else if isOr then pure (if !isNull a then a else if isNull b then text "0" else b)
              else if isAnd then pure (if isNull a || isNull b then text "0" else a)
              else computed operator a b
            links fuel operators tighter live value r
          else return (a, r)
      | [] => return (a, r)

def function : Nat → Bool → Rest → Outcome
  | 0, _, r => missing r
  | fuel + 1, live, r => do
      match r.words with
      | [] => missing r
      | word :: words =>
          let r' : Rest := ⟨word, words⟩
          if word = text "+" then
            match words with
            | [] => missing r'
            | s :: words => return (s, ⟨s, words⟩)
          else if word = text "length" then
            let (s, r) ← function fuel live r'
            return (decimal s.length, r)
          else if word = text "match" then
            let (s, r) ← function fuel live r'
            let (pattern, r) ← function fuel live r
            return (← if live then matched s pattern else pure [], r)
          else if word = text "index" then
            let (s, r) ← function fuel live r'
            let (set, r) ← function fuel live r
            let before := s.takeWhile (!set.contains ·)
            return (decimal (if before.length < s.length then before.length + 1 else 0), r)
          else if word = text "substr" then
            let (s, r) ← function fuel live r'
            let (start, r) ← function fuel live r
            let (count, r) ← function fuel live r
            let part := match integer? start, integer? count with
              | some i, some n =>
                  if 0 < i ∧ 0 < n then (s.drop (i.toNat - 1)).take n.toNat else []
              | _, _ => []
            return (part, r)
          else if word = text "(" then
            let (a, r) ← chain fuel levels live r'
            match r.words with
            | [] => .error (text "syntax error: expecting ')' after " ++ cited r.before)
            | found :: words =>
                if found = text ")" then return (a, ⟨found, words⟩)
                else .error (text "syntax error: expecting ')' instead of " ++ cited found)
          else if word = text ")" then .error (text "syntax error: unexpected ')'")
          else return (word, r')

end

def value (words : List Bytes) : Except Bytes Bytes := do
  let (a, r) ← chain (16 * words.length + 16) levels true ⟨[], words⟩
  match r.words with
  | [] => return a
  | extra :: _ => .error (text "syntax error: unexpected argument " ++ cited extra)

end Calculation

def expr : Program := do
  let words := (← read).arguments
  let words := if words.head? = some (text "--") then words.drop 1 else words
  if words.isEmpty then misused (text "missing operand") 2
  match Calculation.value words with
  | .ok s =>
      writeLine s
      mark (if Calculation.isNull s then 1 else 0)
  | .error what => fail what 2

end Program

end LuaAsset
