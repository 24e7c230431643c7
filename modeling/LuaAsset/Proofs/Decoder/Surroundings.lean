import LuaAsset.Decoder.World
import LuaAsset.Proofs.Decoder.Dumping
import LuaAsset.Proofs.Host.Temporary

/-! # What decoding leaves unchanged

A property kept by every call of the collaborators is kept by decoding (`Invariant`).  On a machine
the tools write into a fresh temporary directory, so the entry at a path survives if the commands
(`Tools.Sparing`) and the native runs (`Loader.Sparing`) spare it (`invariant_spared`). -/

set_option autoImplicit false

namespace LuaAsset

/-- No run in a native library changes the entry at a path. -/
structure Interpreter.Loader.Sparing (l : Interpreter.Loader) (path : Bytes) : Prop where
  keeps : ∀ calls files contents executable,
    files.node path = .ok (.file contents executable) →
    (l.after calls files).node path = .ok (.file contents executable)

/-! ## Tools -/

namespace Tools

def luaFor (o : ToolOptions) : Bytes := o.lua.getD (text "lua5.3")

inductive Command (o : ToolOptions) : List Bytes → Prop
  | custom (chunk : Bytes) : o.decompilerCommand ≠ [] → Command o (o.decompilerCommand ++ [chunk])
  | decompiler (jar chunk : Bytes) : Command o [o.java, text "-jar", jar, chunk]
  | interpreter (program chunk name : Bytes) : Command o [luaFor o, program, chunk, name]

structure Fit (o : ToolOptions) (t : Tools) : Prop where
  options : t.options = o
  lua : ∀ path, t.luaPath.value? = some path → path = luaFor o

theorem fit_ofOptions (o : ToolOptions) : Fit o (ofOptions o) := by
  refine ⟨rfl, ?_⟩
  rintro path ⟨⟩

variable {o : ToolOptions} {t : Tools} {w : Workplace}

theorem fit_lua (fit : Fit o t) : t.lua.1 = luaFor o ∧ Fit o t.lua.2 := by
  obtain ⟨options, jarPath, ⟨held⟩⟩ := t
  obtain ⟨rfl, known⟩ := fit
  cases held with
  | none =>
      refine ⟨rfl, rfl, ?_⟩
      rintro path ⟨⟩
      rfl
  | some path =>
      have same : path = luaFor options := known path rfl
      exact ⟨same, rfl, known⟩

theorem fit_jar (fit : Fit o t) : Fit o (t.jar w).2 := by
  obtain ⟨options, ⟨held⟩, luaPath⟩ := t
  cases held with
  | none => exact ⟨fit.options, fit.lua⟩
  | some path => exact ⟨fit.options, fit.lua⟩

theorem fit_decompilerArguments (fit : Fit o t) (files : Files) :
    Fit o (t.decompilerArguments w files).2 ∧
      ∀ arguments chunk, (t.decompilerArguments w files).1 = .ok arguments →
        Command o (arguments ++ [chunk]) := by
  have next := fit_jar (w := w) fit
  rw [decompilerArguments, fit.options]
  split
  · rename_i custom
    refine ⟨fit, ?_⟩
    rintro arguments chunk ⟨⟩
    exact .custom chunk (by simpa using custom)
  · cases found : t.jar w with
    | mk answer after =>
        rw [found] at next
        cases answer with
        | error failure => exact ⟨next, by rintro _ _ ⟨⟩⟩
        | ok path =>
            dsimp only
            split
            · refine ⟨next, ?_⟩
              rintro arguments chunk ⟨⟩
              rw [next.options]
              exact .decompiler path chunk
            · exact ⟨next, by rintro _ _ ⟨⟩⟩

/-- No command of the tools changes the entry at a path or the working directory. -/
structure Sparing (run : Commands.Runner) (o : ToolOptions) (path : Bytes) : Prop where
  working : ∀ arguments files, (run arguments files).2.working = files.working
  keeps : ∀ arguments files contents executable, Command o arguments →
    files.node path = .ok (.file contents executable) →
    (run arguments files).2.node path = .ok (.file contents executable)

variable {path contents : Bytes} {executable : Bool}

theorem runWithFiles_beside (sparing : Sparing w.run o path) (zeroless : (0 : UInt8) ∉ path)
    (beginning : Bytes) (slashless : Ascii.slash ∉ beginning) (clean : (0 : UInt8) ∉ beginning)
    {m : Machine} (known : m.files.node path = .ok (.file contents executable))
    (entries : List (Bytes × Bytes)) (all : ∀ entry ∈ entries, Path.Proper entry.1)
    (command : Bytes → List Bytes) (ours : ∀ directory, Command o (command directory)) :
    Scratch.Beside m.files path contents executable
      (runWithFiles w beginning m entries command).2.files := by
  refine Scratch.within_beside slashless clean zeroless known fun name files made => ?_
  have beside := made.beside zeroless known
  have written := Scratch.writeEach_beside zeroless known made.free made.proper entries all beside
    made.isDirectory
  split
  · rename_i failure after refused
    rw [refused] at written
    exact written
  · rename_i after done
    rw [done] at written
    exact ⟨(sparing.working _ _).trans written.working,
      sparing.keeps _ _ _ _ (ours _) written.held⟩

theorem proper_chunkName : Path.Proper chunkName := by
  constructor <;> decide

theorem proper_programName : Path.Proper programName := by
  constructor <;> decide

theorem decompile_fit (fit : Fit o t) (m : Machine) (chunk : Bytes) :
    Fit o (t.decompile w m chunk).tools := by
  have next := (fit_decompilerArguments (w := w) fit m.files).1
  rw [decompile]
  split
  · rename_i failure after refused
    rw [refused] at next
    exact next
  · rename_i arguments after found
    rw [found] at next
    dsimp only
    split
    · exact next
    · exact next

theorem dumpTable_fit (fit : Fit o t) (m : Machine) (chunk name : Bytes) :
    Fit o (t.dumpTable w m chunk name).tools := by
  have next := (fit_lua fit).2
  rw [dumpTable]
  dsimp only
  split
  · exact next
  · split
    · exact next
    · exact next

theorem decompile_beside (sparing : Sparing w.run o path) (zeroless : (0 : UInt8) ∉ path)
    (fit : Fit o t) {m : Machine} (known : m.files.node path = .ok (.file contents executable))
    (chunk : Bytes) :
    Scratch.Beside m.files path contents executable (t.decompile w m chunk).machine.files := by
  have ours := (fit_decompilerArguments (w := w) fit m.files).2
  rw [decompile]
  split
  · exact ⟨rfl, known⟩
  · rename_i arguments after found
    rw [found] at ours
    have beside := runWithFiles_beside sparing zeroless (text "romc_unluac_") (by decide)
      (by decide) known [(chunkName, chunk)] (by simpa using proper_chunkName)
      (fun directory => arguments ++ [Path.join directory chunkName])
      (fun directory => ours arguments _ rfl)
    dsimp only
    split
    · rename_i failure m refused
      rw [refused] at beside
      exact beside
    · rename_i result m done
      rw [done] at beside
      exact beside

theorem dumpTable_beside (sparing : Sparing w.run o path) (zeroless : (0 : UInt8) ∉ path)
    (fit : Fit o t) {m : Machine} (known : m.files.node path = .ok (.file contents executable))
    (chunk name : Bytes) :
    Scratch.Beside m.files path contents executable
      (t.dumpTable w m chunk name).machine.files := by
  have beside := runWithFiles_beside sparing zeroless (text "romc_lua_") (by decide)
    (by decide) known [(chunkName, chunk), (programName, TableDump.program)]
    (by simpa using ⟨proper_chunkName, proper_programName⟩)
    (fun directory => [luaFor o, Path.join directory programName, Path.join directory chunkName,
      name])
    (fun directory => .interpreter _ _ _)
  rw [dumpTable]
  dsimp only
  rw [(fit_lua fit).1]
  split
  · exact ⟨rfl, known⟩
  · split
    · rename_i failure m refused
      rw [refused] at beside
      exact beside
    · rename_i result m done
      rw [done] at beside
      exact beside

end Tools

/-! ## Decoding -/

namespace Decoder

section Invariant

variable {σ : Type} {c : Collaborators σ} {I : σ → Prop}

structure Invariant (c : Collaborators σ) (I : σ → Prop) : Prop where
  compile : ∀ blob w, I w → I (c.compile blob w).world
  extract : ∀ blob name w, I w → I (c.extract blob name w).world
  decompile : ∀ chunk w, I w → I (c.decompile chunk w).world
  dump : ∀ chunk name w, I w → I (c.dump chunk name w).world

theorem Invariant.answered (invariant : Invariant c I) {w after : σ} {levels : List Level}
    (answered : Answered c w levels after) (holds : I w) : I after := by
  induction answered with
  | nil w => exact holds
  | cons first _ ih =>
      cases first with
      | compiled blob w => exact ih (invariant.compile blob _ holds)
      | decompiled blob chunk w =>
          exact ih (invariant.decompile chunk _ (invariant.compile blob _ holds))

theorem Invariant.decodeToText (invariant : Invariant c I) (debug : Bool) (blob companion : Bytes)
    {s : Session σ} (holds : I s.world) :
    I (decodeToText c debug blob companion s).2.world := by
  obtain ⟨levels, run, _⟩ := decodeLevel_runs c debug maxDepth blob companion s
  exact invariant.answered run.answered holds

theorem Invariant.textFromAsset (invariant : Invariant c I) (debug : Bool)
    (blob companion : Bytes) {s : Session σ} (holds : I s.world) :
    I (textFromAsset c debug blob companion s).2.world := by
  have decoded := invariant.decodeToText debug blob companion holds
  rw [Decoder.textFromAsset]
  split
  · split
    · rename_i source after found
      rw [found] at decoded
      exact decoded
    · rename_i failure after found
      rw [found] at decoded
      split
      · rwa [Session.debug_world]
      · exact decoded
  · exact holds

theorem Invariant.parseRecords (invariant : Invariant c I) (debug : Bool)
    (blob companion : Bytes) {s : Session σ} (holds : I s.world) :
    I (parseRecords c debug blob companion s).2.world :=
  invariant.textFromAsset debug blob companion holds

theorem Invariant.dumpTable (invariant : Invariant c I) (debug : Bool) (blob name : Bytes)
    {s : Session σ} (holds : I s.world) : I (dumpTable c debug blob name s).2.world := by
  by_cases empty : blob = []
  · subst empty
    exact holds
  · obtain ⟨d, dumps, _⟩ := exists_dumps c debug name s empty
    have extracted := invariant.extract blob name _ holds
    have answered := dumps.answered
    generalize (Decoder.dumpTable c debug blob name s).2.world = after at answered ⊢
    cases answered with
    | extracted => exact extracted
    | compiled => exact invariant.compile blob _ extracted
    | dumped chunk => exact invariant.dump chunk name _ (invariant.compile blob _ extracted)

end Invariant

/-! ## On a machine -/

variable {w : Workplace} {o : ToolOptions} {path contents : Bytes} {executable : Bool}

theorem invariant_fit (w : Workplace) (o : ToolOptions) :
    Invariant (onMachine w) fun world => world.tools.Fit o where
  compile _ _ fit := fit
  extract _ _ _ fit := fit
  decompile _ world fit := Tools.decompile_fit fit world.machine _
  dump _ _ world fit := Tools.dumpTable_fit fit world.machine _ _

/-- The entry at a path that the tools and the native library spare survives any decoding. -/
theorem invariant_spared (sparing : Tools.Sparing w.run o path) (native : w.loader.Sparing path)
    (zeroless : (0 : UInt8) ∉ path) (contents : Bytes) (executable : Bool) :
    Invariant (onMachine w) fun world => world.tools.Fit o ∧
      world.machine.files.node path = .ok (.file contents executable) where
  compile _ _ held := ⟨held.1, native.keeps _ _ _ _ held.2⟩
  extract _ _ _ held := ⟨held.1, native.keeps _ _ _ _ held.2⟩
  decompile chunk _ held :=
    ⟨Tools.decompile_fit held.1 _ chunk,
      (Tools.decompile_beside sparing zeroless held.1 held.2 chunk).held⟩
  dump chunk name _ held :=
    ⟨Tools.dumpTable_fit held.1 _ chunk name,
      (Tools.dumpTable_beside sparing zeroless held.1 held.2 chunk name).held⟩

end Decoder

end LuaAsset
