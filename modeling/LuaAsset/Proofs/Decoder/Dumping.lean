import LuaAsset.Proofs.Decoder.LatestFailure

/-! # The calls of a dump

A `Dump` records the calls: the native interpreter, a compilation if that is unavailable, and the
external interpreter.  A call is followed by another one only if it succeeded or was unavailable
(`Dumps.unavailable_of_further`), and the outcome is the last answer (`dumpTable_dumps`). -/

set_option autoImplicit false

namespace LuaAsset

namespace Decoder

variable {σ : Type}

/-! ## Calls -/

inductive Answer where
  | chunk (outcome : Except Failure Bytes)
  | table (outcome : Except Failure Value)

def Answer.failure? : Answer → Option Failure
  | .chunk (.error failure) | .table (.error failure) => some failure
  | .chunk (.ok _) | .table (.ok _) => none

structure Dump where
  extraction : Except Failure Value
  compilation : Option (Except Failure Bytes)
  external : Option (Bytes × Except Failure Value)

namespace Dump

def asked (blob name : Bytes) (d : Dump) : List (Call × Answer) :=
  (.extract blob name, .table d.extraction) ::
    ((d.compilation.map fun answer => (Call.compile blob, Answer.chunk answer)).toList ++
      (d.external.map fun given => (Call.dump given.1 name, Answer.table given.2)).toList)

inductive Answered (c : Collaborators σ) (blob name : Bytes) : σ → Dump → σ → Prop
  | extracted (w : σ) :
      Answered c blob name w ⟨(c.extract blob name w).outcome, none, none⟩
        (c.extract blob name w).world
  | compiled (w : σ) :
      Answered c blob name w
        ⟨(c.extract blob name w).outcome,
          some (c.compile blob (c.extract blob name w).world).outcome, none⟩
        (c.compile blob (c.extract blob name w).world).world
  | dumped (chunk : Bytes) (w : σ) :
      Answered c blob name w
        ⟨(c.extract blob name w).outcome,
          some (c.compile blob (c.extract blob name w).world).outcome,
          some (chunk,
            (c.dump chunk name (c.compile blob (c.extract blob name w).world).world).outcome)⟩
        (c.dump chunk name (c.compile blob (c.extract blob name w).world).world).world

end Dump

def Unavailable {α : Type} (answer : Except Failure α) : Prop :=
  ∃ failure, answer = .error failure ∧ failure.kind = .unavailable

/-- The chunk for the external interpreter: the compiled script, or, where nothing can compile, the
script itself or its instructions after a plain header. -/
def Given (blob : Bytes) (compilation : Except Failure Bytes) (chunk : Bytes) : Prop :=
  compilation = .ok chunk ∨
    (Unavailable compilation ∧
      ((Chunk.hasMarker blob = false ∧ chunk = blob) ∨
        (Chunk.hasMarker blob = true ∧ Chunk.synthesize blob = .ok chunk)))

/-- A dump as calls: the worlds before and after, and the outcome. -/
structure Dumps (c : Collaborators σ) (blob name : Bytes) (w : σ) (d : Dump)
    (outcome : Except Failure Value) (after : σ) : Prop where
  answered : d.Answered c blob name w after
  compiles : (∃ compilation, d.compilation = some compilation) ↔ Unavailable d.extraction
  gives : ∀ chunk, (∃ answer, d.external = some (chunk, answer)) ↔
    ∃ compilation, d.compilation = some compilation ∧ Given blob compilation chunk
  value : ∀ v, outcome = .ok v → ∃ call, (d.asked blob name).getLast? = some (call, .table (.ok v))
  failure : ∀ failure, outcome = .error failure →
    (∃ call answer, (d.asked blob name).getLast? = some (call, answer) ∧
      answer.failure? = some failure) ∨
    (Unavailable d.extraction ∧ (∃ compilation, d.compilation = some compilation ∧
      Unavailable compilation) ∧ Chunk.hasMarker blob = true ∧
      Chunk.synthesize blob = .error failure ∧ failure.kind = .format)

/-! ## The chunk for the external interpreter -/

theorem chunkForDump_eq_ok (blob chunk : Bytes) (compilation : Except Failure Bytes) :
    chunkForDump blob compilation = .ok chunk ↔ Given blob compilation chunk := by
  cases compilation with
  | ok made => simp [chunkForDump, Given, Unavailable]
  | error failure =>
      by_cases unavailable : failure.kind = .unavailable
      · cases marked : Chunk.hasMarker blob with
        | false => simp [chunkForDump, Given, Unavailable, unavailable, marked, eq_comm]
        | true => simp [chunkForDump, Given, Unavailable, unavailable, marked]
      · simp [chunkForDump, Given, Unavailable, unavailable]

theorem chunkForDump_eq_error {blob : Bytes} {compilation : Except Failure Bytes}
    {failure : Failure} (refused : chunkForDump blob compilation = .error failure) :
    compilation = .error failure ∨
      (Unavailable compilation ∧ Chunk.hasMarker blob = true ∧
        Chunk.synthesize blob = .error failure) := by
  cases compilation with
  | ok made => cases refused
  | error known =>
      by_cases unavailable : known.kind = .unavailable
      · cases marked : Chunk.hasMarker blob with
        | false => simp [chunkForDump, unavailable, marked] at refused
        | true =>
            simp only [chunkForDump, unavailable, marked, if_true] at refused
            exact .inr ⟨⟨known, rfl, unavailable⟩, rfl, refused⟩
      · simp only [chunkForDump, unavailable, if_false] at refused
        exact .inl refused

theorem Given.unique {blob chunk other : Bytes} {compilation : Except Failure Bytes}
    (given : Given blob compilation chunk) (again : Given blob compilation other) :
    chunk = other := by
  have same := ((chunkForDump_eq_ok blob chunk compilation).mpr given).symm.trans
    ((chunkForDump_eq_ok blob other compilation).mpr again)
  exact Except.ok.inj same

/-! ## Runs -/

theorem dumpExternally_given (c : Collaborators σ) (debug : Bool) (blob name chunk : Bytes)
    (s : Session σ) (given : chunkForDump blob (c.compile blob s.world).outcome = .ok chunk) :
    (dumpExternally c debug blob name s).1 =
        (c.dump chunk name (c.compile blob s.world).world).outcome ∧
      (dumpExternally c debug blob name s).2.world =
        (c.dump chunk name (c.compile blob s.world).world).world ∧
      (dumpExternally c debug blob name s).2.calls =
        s.calls ++ [.compile blob, .dump chunk name] := by
  simp only [dumpExternally, Session.ask, given]
  cases (c.dump chunk name (c.compile blob s.world).world).outcome with
  | ok value => simp
  | error failure => simp

theorem dumpExternally_refused (c : Collaborators σ) (debug : Bool) (blob name : Bytes)
    (failure : Failure) (s : Session σ)
    (refused : chunkForDump blob (c.compile blob s.world).outcome = .error failure) :
    (dumpExternally c debug blob name s).1 = .error failure ∧
      (dumpExternally c debug blob name s).2.world = (c.compile blob s.world).world ∧
      (dumpExternally c debug blob name s).2.calls = s.calls ++ [.compile blob] := by
  simp [dumpExternally, Session.ask, refused]

theorem dumpTable_answered (c : Collaborators σ) (debug : Bool) {blob : Bytes} (name : Bytes)
    (s : Session σ) (nonempty : blob ≠ [])
    (available : ¬Unavailable (c.extract blob name s.world).outcome) :
    (dumpTable c debug blob name s).1 = (c.extract blob name s.world).outcome ∧
      (dumpTable c debug blob name s).2.world = (c.extract blob name s.world).world ∧
      (dumpTable c debug blob name s).2.calls = s.calls ++ [.extract blob name] := by
  have whole : blob.isEmpty = false := List.isEmpty_eq_false_iff.mpr nonempty
  simp only [dumpTable, whole, Session.ask]
  cases answer : (c.extract blob name s.world).outcome with
  | ok value => simp
  | error failure =>
      have other : failure.kind ≠ .unavailable := fun same => available ⟨failure, answer, same⟩
      simp [other]

theorem dumpTable_unavailable (c : Collaborators σ) (debug : Bool) {blob : Bytes} (name : Bytes)
    (s : Session σ) (nonempty : blob ≠ [])
    (unavailable : Unavailable (c.extract blob name s.world).outcome) :
    ∃ t : Session σ, t.world = (c.extract blob name s.world).world ∧
      t.calls = s.calls ++ [.extract blob name] ∧
      dumpTable c debug blob name s = dumpExternally c debug blob name t := by
  obtain ⟨failure, answer, kind⟩ := unavailable
  have whole : blob.isEmpty = false := List.isEmpty_eq_false_iff.mpr nonempty
  let asked := (s.ask (.extract blob name) (c.extract blob name)).2
  let line := text "Native runtime unavailable, using external interpreter: " ++ failure.message
  refine ⟨asked.debug debug line, Session.debug_world asked debug line,
    Session.debug_calls asked debug line, ?_⟩
  simp [dumpTable, whole, Session.ask, answer, kind, asked, line]

theorem dumps_extracted (c : Collaborators σ) (blob name : Bytes) (w : σ)
    (available : ¬Unavailable (c.extract blob name w).outcome) :
    Dumps c blob name w ⟨(c.extract blob name w).outcome, none, none⟩
      (c.extract blob name w).outcome (c.extract blob name w).world where
  answered := .extracted w
  compiles := by simp [available]
  gives := by simp
  value := by
    intro v answer
    exact ⟨_, by rw [answer]; rfl⟩
  failure := by
    intro failure answer
    exact .inl ⟨_, _, rfl, by rw [answer]; rfl⟩

theorem dumps_compiled (c : Collaborators σ) (blob name : Bytes) (w : σ) (failure : Failure)
    (unavailable : Unavailable (c.extract blob name w).outcome)
    (refused : chunkForDump blob (c.compile blob (c.extract blob name w).world).outcome =
      .error failure) :
    Dumps c blob name w
      ⟨(c.extract blob name w).outcome,
        some (c.compile blob (c.extract blob name w).world).outcome, none⟩
      (.error failure) (c.compile blob (c.extract blob name w).world).world where
  answered := .compiled w
  compiles := by simp [unavailable]
  gives := by
    intro chunk
    have without : ¬Given blob (c.compile blob (c.extract blob name w).world).outcome chunk := by
      rw [← chunkForDump_eq_ok, refused]
      rintro ⟨⟩
    simp [without]
  value := by rintro v ⟨⟩
  failure := by
    rintro failure ⟨⟩
    obtain raised | ⟨missing, marked, malformed⟩ := chunkForDump_eq_error refused
    · exact .inl ⟨_, _, rfl, by rw [raised]; rfl⟩
    · exact .inr ⟨unavailable, ⟨_, rfl, missing⟩, marked, malformed,
        Chunk.kind_of_synthesize blob failure malformed⟩

theorem dumps_given (c : Collaborators σ) (blob name chunk : Bytes) (w : σ)
    (unavailable : Unavailable (c.extract blob name w).outcome)
    (given : Given blob (c.compile blob (c.extract blob name w).world).outcome chunk) :
    Dumps c blob name w
      ⟨(c.extract blob name w).outcome,
        some (c.compile blob (c.extract blob name w).world).outcome,
        some (chunk,
          (c.dump chunk name (c.compile blob (c.extract blob name w).world).world).outcome)⟩
      (c.dump chunk name (c.compile blob (c.extract blob name w).world).world).outcome
      (c.dump chunk name (c.compile blob (c.extract blob name w).world).world).world where
  answered := .dumped chunk w
  compiles := by simp [unavailable]
  gives := by
    intro other
    constructor
    · rintro ⟨answer, same⟩
      cases same
      exact ⟨_, rfl, given⟩
    · rintro ⟨compilation, same, again⟩
      cases same
      rw [given.unique again]
      exact ⟨_, rfl⟩
  value := by
    intro v answer
    exact ⟨_, by rw [answer]; rfl⟩
  failure := by
    intro failure answer
    exact .inl ⟨_, _, rfl, by rw [answer]; rfl⟩

/-! ## Calls followed by another one -/

theorem Dumps.calls {c : Collaborators σ} {blob name : Bytes} {w after : σ} {d : Dump}
    {outcome : Except Failure Value} (dumps : Dumps c blob name w d outcome after) :
    ∃ chunk, (d.asked blob name).map Prod.fst <+:
      [.extract blob name, .compile blob, .dump chunk name] := by
  cases dumps.answered with
  | extracted => exact ⟨[], List.prefix_append [_] _⟩
  | compiled => exact ⟨[], List.prefix_append [_, _] _⟩
  | dumped chunk => exact ⟨chunk, List.prefix_rfl⟩

theorem Given.unavailable {blob chunk : Bytes} {failure : Failure}
    (given : Given blob (.error failure) chunk) : failure.kind = .unavailable := by
  obtain ⟨⟨⟩⟩ | ⟨⟨_, ⟨⟩, kind⟩, _⟩ := given
  exact kind

theorem Unavailable.kind {α : Type} {failure : Failure}
    (unavailable : Unavailable (.error failure : Except Failure α)) :
    failure.kind = .unavailable := by
  obtain ⟨_, ⟨⟩, kind⟩ := unavailable
  exact kind

theorem failure?_table {outcome : Except Failure Value} {failure : Failure}
    (failed : (Answer.table outcome).failure? = some failure) : outcome = .error failure := by
  cases outcome with
  | ok value => cases failed
  | error known => exact congrArg Except.error (Option.some.inj failed)

theorem failure?_chunk {outcome : Except Failure Bytes} {failure : Failure}
    (failed : (Answer.chunk outcome).failure? = some failure) : outcome = .error failure := by
  cases outcome with
  | ok made => cases failed
  | error known => exact congrArg Except.error (Option.some.inj failed)

/-- A failed call is followed by another one only if its collaborator was unavailable. -/
theorem Dumps.unavailable_of_further {c : Collaborators σ} {blob name : Bytes} {w after : σ}
    {d : Dump} {outcome : Except Failure Value} (dumps : Dumps c blob name w d outcome after)
    {before later : List (Call × Answer)} {call : Call} {answer : Answer} {next : Call × Answer}
    (split : d.asked blob name = before ++ (call, answer) :: next :: later) {failure : Failure}
    (failed : answer.failure? = some failure) : failure.kind = .unavailable := by
  have compiles := dumps.compiles
  have gives := dumps.gives
  -- which calls there are decides which of them have one after them
  cases dumps.answered with
  | extracted =>
      have length := congrArg List.length split
      simp [Dump.asked] at length
      omega
  | compiled =>
      have unavailable := compiles.mp ⟨_, rfl⟩
      match before with
      | [] =>
          obtain ⟨rfl, rfl⟩ := Prod.mk.inj (List.cons.inj split).1
          rw [failure?_table failed] at unavailable
          exact unavailable.kind
      | _ :: before =>
          have length := congrArg List.length split
          simp [Dump.asked] at length
          omega
  | dumped chunk =>
      have unavailable := compiles.mp ⟨_, rfl⟩
      obtain ⟨_, same, given⟩ := (gives chunk).mp ⟨_, rfl⟩
      obtain rfl := Option.some.inj same
      match before with
      | [] =>
          obtain ⟨rfl, rfl⟩ := Prod.mk.inj (List.cons.inj split).1
          rw [failure?_table failed] at unavailable
          exact unavailable.kind
      | [_] =>
          obtain ⟨rfl, rfl⟩ := Prod.mk.inj (List.cons.inj (List.cons.inj split).2).1
          rw [failure?_chunk failed] at given
          exact given.unavailable
      | _ :: _ :: before =>
          have length := congrArg List.length split
          simp [Dump.asked] at length
          omega

theorem exists_dumps (c : Collaborators σ) (debug : Bool) {blob : Bytes} (name : Bytes)
    (s : Session σ) (nonempty : blob ≠ []) :
    ∃ d : Dump,
      Dumps c blob name s.world d (dumpTable c debug blob name s).1
        (dumpTable c debug blob name s).2.world ∧
      (dumpTable c debug blob name s).2.calls =
        s.calls ++ (d.asked blob name).map Prod.fst := by
  by_cases unavailable : Unavailable (c.extract blob name s.world).outcome
  · obtain ⟨t, world, calls, same⟩ := dumpTable_unavailable c debug name s nonempty unavailable
    rw [same]
    cases found : chunkForDump blob (c.compile blob t.world).outcome with
    | error failure =>
        obtain ⟨outcome, after, made⟩ := dumpExternally_refused c debug blob name failure t found
        rw [outcome, after, made, calls, world]
        rw [world] at found
        exact ⟨_, dumps_compiled c blob name s.world failure unavailable found, by simp [Dump.asked]⟩
    | ok chunk =>
        obtain ⟨outcome, after, made⟩ := dumpExternally_given c debug blob name chunk t found
        rw [outcome, after, made, calls, world]
        rw [world, chunkForDump_eq_ok] at found
        exact ⟨_, dumps_given c blob name chunk s.world unavailable found, by simp [Dump.asked]⟩
  · obtain ⟨outcome, after, calls⟩ := dumpTable_answered c debug name s nonempty unavailable
    rw [outcome, after, calls]
    exact ⟨_, dumps_extracted c blob name s.world unavailable, rfl⟩

/-- Dumping an empty script makes no call.  Any other dump asks for the table, compiles iff no
native interpreter is available, and asks for the table of a chunk iff there is a chunk.  The
outcome is the answer to the last call, or the format failure of an encoded script for which nothing
is available. -/
theorem dumpTable_dumps (c : Collaborators σ) (debug : Bool) (blob name : Bytes) (s : Session σ) :
    (blob = [] → dumpTable c debug blob name s = (.ok (.object []), s)) ∧
    (blob ≠ [] → ∃ d : Dump,
      Dumps c blob name s.world d (dumpTable c debug blob name s).1
        (dumpTable c debug blob name s).2.world ∧
      (dumpTable c debug blob name s).2.calls =
        s.calls ++ (d.asked blob name).map Prod.fst ∧
      (∃ chunk, (d.asked blob name).map Prod.fst <+:
        [.extract blob name, .compile blob, .dump chunk name]) ∧
      ∀ before call answer next later failure,
        d.asked blob name = before ++ (call, answer) :: next :: later →
        answer.failure? = some failure → failure.kind = .unavailable) := by
  constructor
  · rintro rfl
    rfl
  · intro nonempty
    obtain ⟨d, dumps, calls⟩ := exists_dumps c debug name s nonempty
    refine ⟨d, dumps, calls, dumps.calls, ?_⟩
    intro before call answer next later failure split failed
    exact dumps.unavailable_of_further split failed

end Decoder

end LuaAsset
