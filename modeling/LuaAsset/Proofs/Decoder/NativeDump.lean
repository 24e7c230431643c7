import LuaAsset.Decoder.World
import LuaAsset.Proofs.Decoder.Dumping
import LuaAsset.Proofs.Interpreter.Usability

/-! # Dumps over a native interpreter

Collaborators over a runtime with a library, whose behaviour may differ from call to call
(`Native`).  Compiling and running are unavailable together, so a dump never passes a compiled chunk
to the external interpreter (`dump_without_compilation`). -/

set_option autoImplicit false

namespace LuaAsset

namespace Decoder

open Interpreter
open Interpreter.Runtime (stock cramped)

variable {σ : Type} {c : Collaborators σ} {runtime : σ → Runtime}

structure Native (c : Collaborators σ) (runtime : σ → Runtime) : Prop where
  compiles : ∀ blob w, ∃ place b,
    (c.compile blob w).outcome = ((runtime w).compile place b blob).1.result ∧
      runtime (c.compile blob w).world = ((runtime w).compile place b blob).2
  extracts : ∀ blob name w, ∃ place b,
    (c.extract blob name w).outcome = ((runtime w).extractTable place b blob name).1.result ∧
      runtime (c.extract blob name w).world = ((runtime w).extractTable place b blob name).2

theorem native_onMachine (w : Workplace) : Native (onMachine w) World.runtime where
  compiles blob world := ⟨world.place w, world.behaviour w blob, rfl, rfl⟩
  extracts blob _ world := ⟨world.place w, world.behaviour w blob, rfl, rfl⟩

variable {blob : Bytes}

theorem Native.no_compilation (native : Native c runtime) (nonempty : blob ≠ []) (name : Bytes)
    (w : σ) (unavailable : Unavailable (c.extract blob name w).outcome) (made : Bytes) :
    (c.compile blob (c.extract blob name w).world).outcome ≠ .ok made := by
  obtain ⟨place, b, extraction, world⟩ := native.extracts blob name w
  obtain ⟨elsewhere, later, compilation, _⟩ :=
    native.compiles blob (c.extract blob name w).world
  obtain ⟨failure, refused, kind⟩ := unavailable
  rw [extraction] at refused
  obtain ⟨reason, failed⟩ :=
    Runtime.compile_after_unavailable nonempty refused kind elsewhere later
  rw [compilation, world, failed]
  exact nofun

theorem Native.uncompiled (native : Native c runtime) (nonempty : blob ≠ []) {name : Bytes}
    {w after : σ} {d : Dump} {outcome : Except Failure Value}
    (dumps : Dumps c blob name w d outcome after) (made : Bytes) :
    d.compilation ≠ some (.ok made) := by
  have compiles := dumps.compiles
  cases dumps.answered with
  | extracted => exact nofun
  | compiled =>
      have unavailable := compiles.mp ⟨_, rfl⟩
      intro compiled
      exact native.no_compilation nonempty name w unavailable made (Option.some.inj compiled)
  | dumped =>
      have unavailable := compiles.mp ⟨_, rfl⟩
      intro compiled
      exact native.no_compilation nonempty name w unavailable made (Option.some.inj compiled)

theorem Native.given (native : Native c runtime) (nonempty : blob ≠ []) {name chunk : Bytes}
    {w after : σ} {d : Dump} {outcome answer : Except Failure Value}
    (dumps : Dumps c blob name w d outcome after) (external : d.external = some (chunk, answer)) :
    (Chunk.hasMarker blob = false ∧ chunk = blob) ∨
      (Chunk.hasMarker blob = true ∧ Chunk.synthesize blob = .ok chunk) := by
  obtain ⟨compilation, compiled, rfl | ⟨_, given⟩⟩ := (dumps.gives chunk).mp ⟨answer, external⟩
  · exact absurd compiled (native.uncompiled nonempty dumps chunk)
  · exact given

/-- Compiling and running agree on unavailability and on the faults before a script runs.  So a dump
that has to compile obtains no chunk, and no compiled chunk reaches the external interpreter. -/
theorem dump_without_compilation (native : Native c runtime) (r : Runtime) (place : Runtime.Place)
    (b : Behaviour) (blob name : Bytes) (debug : Bool) (s : Session σ) :
    (blob = [] → dumpTable c debug blob name s = (.ok (.object []), s)) ∧
    (blob ≠ [] →
      (∀ failure, failure.kind = .unavailable →
        ((r.compile place b blob).1.result = .error failure ↔
          (r.extractTable place b blob name).1.result = .error failure)) ∧
      (∀ binding, (r.obtain place).1 = .ok binding →
        (b.opens = false ∨
          b.loadCode ≠ 0 ∧ (binding.loadsEncoded = true ∨ Chunk.hasMarker blob = false)) →
        ∃ failure, failure.kind = .fault ∧
          (r.compile place b blob).1.result = .error failure ∧
          (r.extractTable place b blob name).1.result = .error failure) ∧
      ∃ d : Dump,
        Dumps c blob name s.world d (dumpTable c debug blob name s).1
          (dumpTable c debug blob name s).2.world ∧
        (dumpTable c debug blob name s).2.calls = s.calls ++ (d.asked blob name).map Prod.fst ∧
        (∀ made, d.compilation ≠ some (.ok made)) ∧
        ∀ chunk answer, d.external = some (chunk, answer) →
          (Chunk.hasMarker blob = false ∧ chunk = blob) ∨
            (Chunk.hasMarker blob = true ∧ Chunk.synthesize blob = .ok chunk)) := by
  refine ⟨by rintro rfl; rfl, fun nonempty => ?_⟩
  rw [Runtime.compile_nonempty nonempty, Runtime.extractTable_nonempty nonempty]
  refine ⟨fun failure kind => ?_, fun binding found fails => ?_, ?_⟩
  · rw [Runtime.result_unavailable_iff r place b (fun _ => kind_of_dump) kind,
      Runtime.result_unavailable_iff r place b (fun _ => kind_of_extract) kind]
  · obtain ⟨failure, kind, refused⟩ := Runtime.entered_faulty found fails
    exact ⟨failure, kind, Runtime.result_of_refused r place b refused _,
      Runtime.result_of_refused r place b refused _⟩
  · obtain ⟨d, dumps, calls⟩ := exists_dumps c debug name s nonempty
    exact ⟨d, dumps, calls, native.uncompiled nonempty dumps,
      fun chunk answer external => native.given nonempty dumps external⟩

/-- A runtime with a library that loads plain scripts only, and external tools that return nothing.
-/
def stocked : Collaborators Runtime where
  compile blob r :=
    let (answer, r) := r.compile stock cramped blob
    ⟨answer.result, r, answer.lines⟩
  extract blob name r :=
    let (answer, r) := r.extractTable stock cramped blob name
    ⟨answer.result, r, answer.lines⟩
  decompile _ r := ⟨.error (.notConfigured Interpreter.defaultReason), r, []⟩
  dump _ _ r := ⟨.ok (.object []), r, []⟩

def sealedScript : Bytes :=
  Chunk.marker :: List.replicate Chunk.opaqueSize 0xff ++ text "s.lua" ++ [0, 0x24]

theorem dump_without_compilation_sealed :
    Native stocked id ∧ sealedScript ≠ [] ∧
      ((Runtime.ofPath none).compile stock cramped sealedScript).1.result =
        .error .encodedChunkRefused ∧
      ((Runtime.ofPath none).extractTable stock cramped sealedScript (text "t")).1.result =
        .error .encodedChunkRefused ∧
      (dumpTable stocked false sealedScript (text "t") (.ofWorld (.ofPath none))).2.calls =
        [.extract sealedScript (text "t"), .compile sealedScript,
          .dump (Chunk.Header.toBytes {} ++ [0x24]) (text "t")] ∧
      ∃ d : Dump,
        Dumps stocked sealedScript (text "t") (.ofPath none) d
          (dumpTable stocked false sealedScript (text "t") (.ofWorld (.ofPath none))).1
          (dumpTable stocked false sealedScript (text "t") (.ofWorld (.ofPath none))).2.world ∧
        ∀ made, d.compilation ≠ some (.ok made) := by
  have native : Native stocked id := by
    constructor
    · intro blob r
      exact ⟨stock, cramped, rfl, rfl⟩
    · intro blob name r
      exact ⟨stock, cramped, rfl, rfl⟩
  have nonempty : sealedScript ≠ [] := by
    rw [sealedScript]
    exact nofun
  have refused : ((Runtime.ofPath none).extractTable stock cramped sealedScript
      (text "t")).1.result = .error .encodedChunkRefused := by
    decide +kernel
  obtain ⟨agree, _, d, dumps, _, uncompiled, _⟩ :=
    (dump_without_compilation native (.ofPath none) stock cramped sealedScript (text "t") false
      (.ofWorld (.ofPath none))).2 nonempty
  exact ⟨native, nonempty, (agree _ rfl).mpr refused, refused, by decide +kernel, d, dumps,
    uncompiled⟩

end Decoder

end LuaAsset
