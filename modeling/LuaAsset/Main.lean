import LuaAsset.CommandLine

/-! # The program

The outer layer of the command line: it copies the files that a run may read into a tree, runs
`CommandLine.run` on that tree, prints the lines and writes the files of the resulting tree. -/

set_option autoImplicit false

namespace LuaAsset

def variableNames : List String :=
  ["SLUA_LIB", "SLUA_DLL", "ROMC_UNLUAC_JAR", "ROMC_JAVA", "ROMC_LUA_PATH"]

def readEnvironment : IO Environment :=
  variableNames.filterMapM fun name => do
    return (← IO.getEnv name).map fun value => (text name, text value)

def stringOf (s : Bytes) : String := (String.fromUTF8? ⟨s.toArray⟩).getD ""

/-- Copies the entry at a path into a tree, leaving out what cannot be read.  A file whose first
line names a program counts as executable. -/
partial def copyIn (f : Files) (path : String) : IO Files := do
  let place := (← IO.currentDir) / path
  if ← place.isDir then
    (← place.readDir).foldlM (fun f entry => copyIn f (path ++ "/" ++ entry.fileName))
      (f.installDirectory (text path))
  else match ← (IO.FS.readBinFile place).toBaseIO with
    | .ok contents =>
        let bytes := contents.data.toList
        return f.install (text path) bytes (Search.interpreterLine? bytes).isSome
    | .error _ => return f

/-- The tree of a run that reads the entries at these paths. -/
def readMachine (paths : List String) : IO Machine := do
  let working := text (← IO.currentDir).toString
  let empty : Files := ⟨.directory Commands.system, []⟩
  let start : Files :=
    { empty.installDirectory working with working := (Path.names working) }
  let files ← (paths.filter fun path => !path.isEmpty).foldlM copyIn start
  return ⟨files, (← IO.monoMsNow) % 16 ^ 6⟩

def printLine (line : Log.Line) : IO Unit := do
  let stream ← if line.level = .info then IO.getStdout else IO.getStderr
  stream.write ⟨line.toBytes.toArray⟩
  stream.flush

/-- No native library is loaded. -/
def withoutLibraries : Interpreter.Loader where
  find files path :=
    if files.pathExists path then .refused (path ++ text ": not loaded") else .missing
  behaviour _ _ := default
  after _ files := files

def runProgram (arguments : List String) : IO UInt32 := do
  let environment ← readEnvironment
  let here := Path.parent (text (← IO.appPath).toString)
  let workplace : Workplace := ⟨here, Commands.run, withoutLibraries⟩
  let usual := [text "libslua.so", text "unluac.jar"].map (Path.join here)
  let machine ← readMachine (arguments ++ (environment.map Prod.snd ++ usual).map stringOf)
  let report := CommandLine.run workplace environment (arguments.map text) machine
  report.lines.forM printLine
  (report.machine.files.allBelow (CommandLine.outputDirectory workplace)).forM
    fun (path, contents) => do
      IO.FS.createDirAll (stringOf (Path.parent path))
      IO.FS.writeBinFile (stringOf path) ⟨contents.toArray⟩
  return UInt32.ofNat report.exit

end LuaAsset

def main (arguments : List String) : IO UInt32 := LuaAsset.runProgram arguments
