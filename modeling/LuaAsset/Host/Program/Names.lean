import LuaAsset.Host.Program

/-! # Programs for names

Programs that split and resolve paths. -/

set_option autoImplicit false

namespace LuaAsset

namespace Program

def withoutSlashes (path : Bytes) : Bytes :=
  let bare := (path.reverse.dropWhile (· == Ascii.slash)).reverse
  if bare.isEmpty then path.take 1 else bare

def pathsAbove (path : Bytes) : List Bytes :=
  let ends (i : Nat) : Bool :=
    path[i]? == some Ascii.slash && (i == 0 || path[i - 1]? != some Ascii.slash)
  ((List.range path.length).reverse.filter ends).map fun i => path.take (max i 1)

def lastName (path ending : Bytes) : Bytes :=
  let bare := withoutSlashes path
  let name := if bare = Path.rootName then bare else Path.fileName bare
  if ending.isSuffixOf name && ending.length < name.length then
    name.take (name.length - ending.length)
  else name

def basename : Program := do
  let g ← given ⟨"az", "s", [("multiple", 'a'), ("suffix", 's'), ("zero", 'z')]⟩ 1
  let finish : Bytes := if g.has 'z' then [0] else [Ascii.lineFeed]
  match g.operands with
  | [] => missing (text "operand")
  | paths =>
      if g.has 'a' || g.has 's' then
        paths.forM fun path => write (lastName path ((g.value? 's').getD []) ++ finish)
      else match paths with
        | path :: ending :: extra :: _ =>
            let _ := (path, ending)
            misused (text "extra operand " ++ cited extra) 1
        | path :: rest => write (lastName path (rest.headD []) ++ finish)
        | [] => return ()

def dirname : Program := do
  let g ← given ⟨"z", "", [("zero", 'z')]⟩ 1
  if g.operands.isEmpty then missing (text "operand")
  g.operands.forM fun path =>
    let bare := withoutSlashes path
    let above := withoutSlashes (Path.parent bare)
    write ((if bare = Path.rootName then bare
      else if above.isEmpty then Path.dotName else above) ++ [g.finish])

def pwd : Program := do
  if !(← operands 1).isEmpty then complain (text "ignoring non-option arguments")
  writeLine (Files.absoluteOf (← get).files.working)

def realpath : Program := do
  let g ← given ⟨"emqsz", "", [("canonicalize-existing", 'e'), ("canonicalize-missing", 'm'),
    ("quiet", 'q')]⟩ 1
  if g.operands.isEmpty then missing (text "operand")
  g.operands.forM fun path => do
    let f := (← get).files
    match f.locate path with
    | .ok names => writeLine (Files.absoluteOf names)
    | .error refusal =>
        match f.locate (Files.holder (Files.asked path)) with
        | .ok names =>
            if g.has 'e' then refused path refusal
            else writeLine (Files.absoluteOf (names ++ [Path.fileName (Files.asked path)]))
        | .error refusal => refused path refusal

end Program

end LuaAsset
