import LuaAsset.Host.Program.Names

/-! # Programs that change entries

Programs that create, remove, copy and move directory entries. -/

set_option autoImplicit false

namespace LuaAsset

namespace Program

/-- Changes the files, or reports the refusal. -/
def changedOr (what : Bytes) (f : Files → Except Refusal Files) : Step Bool := do
  match ← change f with
  | none => return true
  | some refusal =>
      warn (what ++ text ": " ++ refusal.wording) 1
      return false

def changeOr (what : Bytes) (f : Files → Except Refusal Files) : Program := do
  let _ ← changedOr what f

def told (g : Given) (what : Bytes) : Program := do if g.has 'v' then writeLine what

def Given.prevails (g : Given) (letter : Char) (others : String) : Bool :=
  (g.options.reverse.find? fun o => o.1 == letter.toUInt8 || (text others).contains o.1).any
    fun o => o.1 == letter.toUInt8

/-! ## Modes -/

/-- Whether a mode makes a file executable, if it says so. -/
def modeRuns? (mode : Bytes) : Option Bool :=
  if !mode.isEmpty && mode.all Ascii.isDigit then
    some (mode.any fun c => c.toNat % 2 = 1)
  else if mode.contains Ascii.plus ∧ mode.contains (Char.toUInt8 'x') then some true
  else if mode.contains Ascii.minus ∧ mode.contains (Char.toUInt8 'x') then some false
  else if mode.contains Ascii.equals then some (mode.contains (Char.toUInt8 'x'))
  else none

def isMode (mode : Bytes) : Bool :=
  if mode.head?.any Ascii.isDigit then
    mode.all (fun c => 0x30 ≤ c && c ≤ 0x37) && decimalValue mode ≤ 7777
  else
    mode.any (text "+-=").contains && mode.all (text "ugoarwxXst+-=,").contains

def chmod : Program := do
  -- A mode that takes something away starts as an option does.
  let isTaken (argument : Bytes) : Bool :=
    !isOperand argument && !(argument.drop 1).all (text "ugoarwxXst+-=,").contains
  let arguments := (← read).arguments
  let g ← givenIn ⟨"Rcvf", "", [("recursive", 'R'), ("changes", 'c'), ("verbose", 'v'),
    ("silent", 'f'), ("quiet", 'f')]⟩ 1 (fun _ => false) (arguments.filter isTaken)
  match arguments.filter fun a => !isTaken a && a != text "--" with
  | [] => missing (text "operand")
  | [mode] => missing (text "operand after " ++ cited mode)
  | mode :: paths =>
      if !isMode mode then misused (text "invalid mode: " ++ cited mode) 1
      paths.forM fun path => do
        match (← get).files.node path with
        | .error refusal =>
            if g.has 'f' then mark 1
            else warn (text "cannot access " ++ alwaysQuoted path ++ text ": " ++ refusal.wording) 1
        | .ok node =>
            let aims := if g.has 'R' then (node.entriesBelow path).map Prod.fst else [path]
            match modeRuns? mode with
            | some runs => aims.forM fun path => changeOr [] fun f => f.setExecutable path runs
            | none => return ()

/-! ## Directories -/

def mkdir : Program := do
  let g ← given ⟨"pv", "m", [("parents", 'p'), ("mode", 'm'), ("verbose", 'v')]⟩ 1
  if g.operands.isEmpty then missing (text "operand")
  match (g.value? 'm').filter fun mode => !isMode mode with
  | some mode => fail (text "invalid mode " ++ cited mode) 1
  | none => pure ()
  let name := (← read).name
  let toldOf (path : Bytes) : Program :=
    told g (name ++ text ": created directory " ++ alwaysQuoted path)
  g.operands.forM fun path => do
    let f := (← get).files
    let above := (pathsAbove (withoutSlashes path)).reverse
    if g.has 'p' then
      let (outcome, files) := f.makeDirectories path
      modify fun p => { p with files }
      let isMade (path : Bytes) : Bool :=
        !f.pathExists path && files.pathExists path && Path.fileName path != Path.dotName
      (above ++ [path]).forM fun path => do if isMade path then toldOf path
      match outcome with
      | .ok () => return ()
      | .error refusal =>
          let isThere := (files.node? path).isSome
          let obstacle := above.find? fun path => (files.node? path).any (!·.isDirectory)
          warn (text "cannot create directory " ++
            cited (if isThere then path else obstacle.getD path) ++ text ": " ++
            (if isThere then Refusal.fileExists else refusal).wording) 1
    else
      let isMade ← changedOr (text "cannot create directory " ++ cited path) fun f =>
        if f.pathExists path then .error .fileExists else f.makeOne path
      if isMade then toldOf path

def rmdir : Program := do
  let g ← given ⟨"pv\x01", "", [("parents", 'p'), ("verbose", 'v'),
    ("ignore-fail-on-non-empty", '\x01')]⟩ 1
  if g.operands.isEmpty then missing (text "operand")
  let name := (← read).name
  let isRemoved (kind : String) (path : Bytes) : Step Bool := do
    told g (name ++ text ": removing directory, " ++ alwaysQuoted path)
    match ← change fun f => f.removeDirectory path with
    | none => return true
    | some refusal =>
        if !(refusal == .notEmpty && g.has '\x01') then
          warn (text "failed to remove " ++ text kind ++ alwaysQuoted path ++ text ": " ++
            refusal.wording) 1
        return false
  g.operands.forM fun path => do
    if (← isRemoved "" path) && g.has 'p' then
      let _ ← (pathsAbove (withoutSlashes path)).foldlM (fun goes above => do
        if goes then isRemoved "directory " above else return false) true

/-! ## Files -/

def touch : Program := do
  let g ← given ⟨"acmh", "drt", [("no-create", 'c'), ("date", 'd'), ("reference", 'r')]⟩ 1
  if g.operands.isEmpty then missing (text "file operand")
  g.operands.forM fun path => do
    let f := (← get).files
    let what :=
      if path.getLast? = some Ascii.slash ∧ f.isDirectory (Files.holder (Files.asked path)) then
        text "setting times of " ++ alwaysQuoted path
      else text "cannot touch " ++ alwaysQuoted path
    match f.node path with
    | .ok _ => return ()
    | .error .noEntry =>
        if !g.has 'c' then
          changeOr what fun f =>
            if (Path.fileName path).isEmpty then .error .noEntry
            else f.putEntry path (.file [] false)
    | .error refusal => warn (what ++ text ": " ++ refusal.wording) 1

def unlink : Program := do
  match ← operands 1 with
  | [] => missing (text "operand")
  | [path] => changeOr (text "cannot unlink " ++ alwaysQuoted path) fun f => f.removeFile path
  | _ :: extra :: _ => misused (text "extra operand " ++ cited extra) 1

/-- Removes an entry, unless the user declines. -/
def removeEntry (g : Given) (path : Bytes) (node : Node) : Step Bool := do
  let kind := match node with
    | .directory _ => "directory "
    | .file [] _ => "regular empty file "
    | .file _ _ | .program _ => "regular file "
    | .device _ => "character special file "
  if g.prevails 'i' "f" then
    if !(← agreed (text "remove " ++ text kind ++ alwaysQuoted path)) then return false
  let isGone ← changedOr (text "cannot remove " ++ alwaysQuoted path) fun f => do
    return { f with root := f.root.remove (← f.locate path) }
  if isGone then
    told g (text "removed " ++ (if node.isDirectory then text kind else []) ++ alwaysQuoted path)
  return isGone

mutual

def removeTree (g : Given) (path : Bytes) : Node → Step Bool
  | .directory entries => do
      if !entries.isEmpty && g.prevails 'i' "f" then
        if !(← agreed (text "descend into directory " ++ alwaysQuoted path)) then return false
      if ← removeAmong g path entries then removeEntry g path (.directory [])
      else return false
  | node => removeEntry g path node

def removeAmong (g : Given) (path : Bytes) : List (Bytes × Node) → Step Bool
  | [] => return true
  | (name, node) :: rest => do
      let isGone ← removeTree g (Path.join path name) node
      return (← removeAmong g path rest) && isGone

end

def rm : Program := do
  let g ← given ⟨"rRfivd", "", [("recursive", 'r'), ("force", 'f'), ("dir", 'd'),
    ("verbose", 'v')]⟩ 1
  if g.operands.isEmpty && !g.has 'f' then missing (text "operand")
  let deep := g.has 'r' || g.has 'R'
  g.operands.forM fun path => do
    let refusedWith (refusal : Refusal) : Program :=
      warn (text "cannot remove " ++ alwaysQuoted path ++ text ": " ++ refusal.wording) 1
    let name := Path.fileName (Files.asked path)
    let f := (← get).files
    match f.entryNames path with
    | .ok (names, node) =>
        let isBare := match node with
          | .directory entries => entries.isEmpty
          | _ => true
        if node.isDirectory && !deep && !(g.has 'd' && isBare) then
          refusedWith (if g.has 'd' then .notEmpty else .isDirectory)
        else if name = Path.dotName ∨ name = Path.dotDotName then
          warn (text "refusing to remove '.' or '..' directory: skipping " ++ alwaysQuoted path) 1
        else if names.isEmpty then
          warn (text "it is dangerous to operate recursively on " ++ alwaysQuoted path) 1
          complain (text "use --no-preserve-root to override this failsafe")
        else
          let _ ← removeTree g path node
    | .error refusal =>
        if !(g.has 'f' && (refusal == .noEntry || refusal == .notDirectory)) then
          refusedWith refusal

/-! ## Copying and moving -/

structure Errand where
  sources : List Bytes
  target : Bytes
  isInto : Bool

def errand (g : Given) : Step Errand := do
  let f := (← get).files
  let reason (target : Bytes) : Bytes := match f.node target with
    | .ok _ => Refusal.notDirectory.wording
    | .error refusal => refusal.wording
  match g.value? 't', g.operands with
  | _, [] => missing (text "file operand")
  | some target, sources =>
      if g.has 'T' then
        fail (text "cannot combine --target-directory (-t) and --no-target-directory (-T)") 1
      if !f.isDirectory target then
        fail (text "target directory " ++ alwaysQuoted target ++ text ": " ++ reason target) 1
      return ⟨sources, target, true⟩
  | none, [source] => missing (text "destination file operand after " ++ alwaysQuoted source)
  | none, source :: target :: others =>
      if g.has 'T' then
        match others with
        | extra :: _ => misused (text "extra operand " ++ alwaysQuoted extra) 1
        | [] => return ⟨[source], target, false⟩
      let target := (target :: others).getLastD target
      let sources := g.operands.dropLast
      let isInto := f.isDirectory target
      if 1 < sources.length && !isInto then
        fail (text "target " ++ alwaysQuoted target ++ text ": " ++ reason target) 1
      return ⟨sources, target, isInto⟩

/-- Processes the sources with their target paths; no source is taken twice or overwrites an earlier
target. -/
def Errand.forEach (e : Errand) (place : Bytes → Bytes) (f : Bytes → Bytes → Program) : Program := do
  let _ ← e.sources.foldlM (fun (done : List (Bytes × Bytes)) source => do
    let aim :=
      if e.isInto then Path.join e.target (place (Path.fileName (Files.asked source)))
      else e.target
    let files := (← get).files
    let kind := if files.isDirectory source then "directory" else "file"
    if files.pathExists source && done.any (·.1 == source) then
      complain (text "warning: source " ++ text kind ++ [Ascii.space] ++ alwaysQuoted source ++
        text " specified more than once")
    else if files.pathExists source && !files.isDirectory source && done.any (·.2 == aim) then
      warn (text "will not overwrite just-created " ++ alwaysQuoted aim ++ text " with " ++
        alwaysQuoted source) 1
    else f source aim
    return (source, aim) :: done) []

def mayReplace (g : Given) (aim : Bytes) : Step Bool := do
  if !g.prevails 'i' "fn" then return true
  let isAgreed ← agreed (text "overwrite " ++ alwaysQuoted aim)
  if !isAgreed then mark 1
  return isAgreed

def toAim (source aim : Bytes) : Bytes :=
  alwaysQuoted source ++ text " -> " ++ alwaysQuoted aim

def copyFile (g : Given) (source aim : Bytes) (node : Node) : Program := do
  let f := (← get).files
  let what := text "cannot create regular file " ++ alwaysQuoted aim
  match f.node aim with
  | .ok (.directory _) =>
      warn (text "cannot overwrite directory " ++ alwaysQuoted aim ++ text " with non-directory") 1
  | .ok there =>
      if !(g.prevails 'n' "fi" || g.has 'u') then
        if ← mayReplace g aim then
          told g (toAim source aim)
          match there, node with
          | .device _, _ => return ()
          | .file _ executable, .file contents _ =>
              changeOr what fun f => f.putEntry aim (.file contents executable)
          | _, node => changeOr what fun f => f.putEntry aim node
  | .error .noEntry =>
      told g (toAim source aim)
      changeOr what fun f =>
        if !aim.isEmpty && (Path.fileName aim).isEmpty then .error .notDirectory
        else f.putEntry aim node
  | .error refusal => warn (text "cannot stat " ++ alwaysQuoted aim ++ text ": " ++ refusal.wording) 1

mutual

def copyTree (g : Given) (source aim : Bytes) : Node → Program
  | .directory entries => do
      match (← get).files.node? aim with
      | some (.directory _) => copyAmong g source aim entries
      | some _ =>
          warn (text "cannot overwrite non-directory " ++ alwaysQuoted aim ++
            text " with directory " ++ alwaysQuoted source) 1
      | none =>
          let isMade ← changedOr (text "cannot create directory " ++ alwaysQuoted aim) fun f =>
            f.putEntry aim (.directory [])
          if isMade then
            told g (toAim source aim)
            copyAmong g source aim entries
  | node => copyFile g source aim node

def copyAmong (g : Given) (source aim : Bytes) : List (Bytes × Node) → Program
  | [] => return ()
  | (name, node) :: rest => do
      copyTree g (Path.join source name) (Path.join aim name) node
      copyAmong g source aim rest

end

/-- The copy of a node; a device is copied by its contents. -/
def copied (source : Bytes) (node : Node) : Step Node := do
  match node with
  | .device _ => match ← contentsOf source with
    | .ok s => return .file s.known false
    | .error _ => return .file [] false
  | node => return node

def cp : Program := do
  let g ← given ⟨"adfHilLnprRTuvxP", "t", [("archive", 'a'), ("force", 'f'), ("interactive", 'i'),
    ("no-clobber", 'n'), ("recursive", 'r'), ("no-target-directory", 'T'), ("verbose", 'v'),
    ("target-directory", 't')]⟩ 1
  if g.has 'n' then
    complain (text "warning: behavior of -n is non-portable and may change in future; use " ++
      text "--update=none instead")
  let e ← errand g
  let deep := g.has 'r' || g.has 'R' || g.has 'a'
  e.forEach (fun name => if name = Path.dotDotName then [] else name) fun source aim => do
    let f := (← get).files
    match f.entryNames source with
    | .error refusal =>
        warn (text "cannot stat " ++ alwaysQuoted source ++ text ": " ++ refusal.wording) 1
    | .ok (names, node) =>
        if node.isDirectory && !deep then
          warn (text "-r not specified; omitting directory " ++ alwaysQuoted source) 1
        else if (f.locate aim).toOption = some names then
          warn (alwaysQuoted source ++ text " and " ++ alwaysQuoted aim ++
            text " are the same file") 1
        else
          copyTree g source aim (← copied source node)
          if node.isDirectory && (f.placeFor aim).toOption.any names.isPrefixOf then
            warn (text "cannot copy a directory, " ++ alwaysQuoted source ++
              text ", into itself, " ++ alwaysQuoted aim) 1

/-- Moves a node to a path, unless something is in the way. -/
def moveNode (g : Given) (source aim : Bytes) (names : List Bytes) (node : Node) : Program := do
  let what := text "cannot move " ++ alwaysQuoted source ++ text " to " ++ alwaysQuoted aim
  let isRenamed ← changedOr what fun f => do
    if !aim.isEmpty && (Path.fileName aim).isEmpty && !node.isDirectory then .error .notDirectory
    else
      let place ← f.placeFor aim
      return { f with root := (f.root.remove names).put place node }
  if isRenamed then told g (text "renamed " ++ toAim source aim)

def mv : Program := do
  let g ← given ⟨"finuvT", "t", [("force", 'f'), ("interactive", 'i'), ("no-clobber", 'n'),
    ("update", 'u'), ("verbose", 'v'), ("no-target-directory", 'T'), ("target-directory", 't')]⟩ 1
  (← errand g).forEach id fun source aim => do
    let f := (← get).files
    let name := Path.fileName (Files.asked source)
    match f.entryNames source, f.node aim with
    | .error refusal, _ =>
        warn (text "cannot stat " ++ alwaysQuoted source ++ text ": " ++ refusal.wording) 1
    | .ok (names, node), there =>
        if there.toBool && g.prevails 'n' "fi" then
          warn (text "not replacing " ++ alwaysQuoted aim) 1
        else if name = Path.dotName ∨ name = Path.dotDotName ∨ names.isEmpty then
          warn (text "cannot move " ++ alwaysQuoted source ++ text " to " ++ alwaysQuoted aim ++
            text ": " ++ Refusal.busy.wording) 1
        else if (f.locate aim).toOption = some names then
          warn (alwaysQuoted source ++ text " and " ++ alwaysQuoted aim ++
            text " are the same file") 1
        else if node.isDirectory && (f.placeFor aim).toOption.any names.isPrefixOf then
          warn (text "cannot move " ++ alwaysQuoted source ++ text " to a subdirectory of itself, " ++
            alwaysQuoted aim) 1
        else match node.isDirectory, there with
          | false, .ok (.directory _) =>
              warn (text "cannot overwrite directory " ++ alwaysQuoted aim ++
                text " with non-directory") 1
          | true, .ok (.directory (_ :: _)) =>
              warn (text "cannot overwrite " ++ alwaysQuoted aim ++ text ": " ++
                Refusal.notEmpty.wording) 1
          | true, .ok (.directory []) => moveNode g source aim names node
          | true, .ok _ =>
              warn (text "cannot overwrite non-directory " ++ alwaysQuoted aim ++
                text " with directory " ++ alwaysQuoted source) 1
          | false, .ok _ =>
              if !g.has 'u' then
                if ← mayReplace g aim then moveNode g source aim names node
          | _, .error .noEntry => moveNode g source aim names node
          | _, .error refusal =>
              warn (text "cannot stat " ++ alwaysQuoted aim ++ text ": " ++ refusal.wording) 1

end Program

end LuaAsset
