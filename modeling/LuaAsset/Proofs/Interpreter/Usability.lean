import LuaAsset.Proofs.Interpreter.Sessions

/-! # Usability of an interpreter

Compiling and running share the steps up to a loaded script (`Runtime.entered`); later failures are
faults of the script (`kind_of_dump`, `kind_of_extract`).  So both are unavailable together
(`result_unavailable_iff`), and remain so (`compile_after_unavailable`). -/

set_option autoImplicit false

namespace LuaAsset

namespace Interpreter

/-! ## Failures after loading -/

section Marshalling

variable {heap : Heap} {expand : Expander}

theorem bind_failed {α β : Type} {first : Except Failure α} {next : α → Except Failure β}
    {failure : Failure} (failed : (first >>= next) = .error failure) :
    first = .error failure ∨ ∃ made, first = .ok made ∧ next made = .error failure := by
  cases first with
  | error known =>
      cases failed
      exact .inl rfl
  | ok made => exact .inr ⟨made, rfl, failed⟩

/-- An expander fails only for lack of stack space. -/
def Cramped (expand : Expander) : Prop :=
  ∀ index s failure, expand index s = .error failure → failure = .stackExhausted

theorem cramped_convert (cramped : Cramped expand) : Cramped (convert expand) := by
  intro index s failure failed
  rw [convert] at failed
  split at failed
  · exact cramped index s failure failed
  · cases failed

theorem walk_failure (cramped : Cramped expand) (index : Nat) :
    ∀ rounds draft s failure, walk heap expand index rounds draft s = .error failure →
      failure = .stackExhausted := by
  intro rounds
  induction rounds with
  | zero =>
      intro draft s failure failed
      cases failed
  | succ rounds ih =>
      intro draft s failure failed
      rw [walk] at failed
      split at failed
      · cases failed
      · obtain value | ⟨_, _, behind⟩ := bind_failed failed
        · exact cramped_convert cramped _ _ _ value
        · obtain key | ⟨_, _, further⟩ := bind_failed behind
          · exact cramped_convert cramped _ _ _ key
          · exact ih _ _ failure further

theorem cramped_expandWithin (levels : Nat) : Cramped (expandWithin heap levels) := by
  induction levels with
  | zero =>
      intro index s failure failed
      cases failed
  | succ levels ih =>
      intro index s failure failed
      rw [expandWithin] at failed
      split at failed
      · split at failed
        · cases failed
        · split at failed
          · cases failed
            rfl
          · obtain walked | ⟨_, _, built⟩ := bind_failed failed
            · exact walk_failure ih _ _ _ _ _ walked
            · cases built
      · cases failed

theorem marshal_failure {index : Int} {t : Thread} {failure : Failure}
    (failed : marshal heap index t = .error failure) : failure = .stackExhausted := by
  rw [marshal] at failed
  split at failed
  · rename_i fault expanded
    cases failed
    exact cramped_expandWithin _ _ _ _ expanded
  · cases failed

end Marshalling

theorem kind_of_dump {b : Behaviour} {failure : Failure} (failed : (dump b).1 = .error failure) :
    failure.kind = .fault := by
  simp only [dump] at failed
  split at failed
  · cases failed
  · cases failed
    rfl

theorem kind_of_extract {b : Behaviour} {name : Bytes} {failure : Failure}
    (failed : (extract b name).1 = .error failure) : failure.kind = .fault := by
  rw [extract] at failed
  split at failed
  · dsimp only at failed
    split at failed
    · rename_i place _
      cases marshalled : marshal b.heap (-1) ⟨[.table place], b.growths⟩ with
      | error fault =>
          simp only [marshalled, Except.map] at failed
          cases failed
          rw [marshal_failure marshalled]
          rfl
      | ok made =>
          simp only [marshalled, Except.map] at failed
          cases failed
    · cases failed
      rfl
  · cases failed
    rfl

/-! ## Failures of loading -/

theorem load_encoded {binding : Binding} {blob : Bytes} (stock : binding.loadsEncoded = false)
    (marked : Chunk.hasMarker blob = true) (b : Behaviour) :
    load b binding blob = (.error .encodedChunkRefused, []) := by
  simp [load, stock, marked]

theorem load_unavailable {b : Behaviour} {binding : Binding} {blob : Bytes} {failure : Failure}
    (refused : (load b binding blob).1 = .error failure) (kind : failure.kind = .unavailable) :
    binding.loadsEncoded = false ∧ Chunk.hasMarker blob = true := by
  rw [load] at refused
  split at refused
  · rename_i encoded
    simpa using encoded
  · dsimp only at refused
    split at refused
    · cases refused
    · cases refused
      cases kind

/-! ## The library kept -/

namespace Runtime

variable {α : Type}

def pathFor (r : Runtime) (place : Place) : Bytes :=
  r.path.value?.getD (r.configured.getD place.defaultPath)

theorem libraryPath_eq (r : Runtime) (place : Place) :
    r.libraryPath place = (r.pathFor place, { r with path := ⟨some (r.pathFor place)⟩ }) := by
  obtain ⟨configured, ⟨held⟩, binding⟩ := r
  cases held <;> rfl

theorem obtain_of_known {r : Runtime} {found : Except Failure Binding}
    (known : r.binding = some found) (place : Place) :
    r.obtain place = (found, [], { r with path := ⟨some (r.pathFor place)⟩ }) := by
  rw [obtain, libraryPath_eq]
  simp [known]

theorem obtain_of_unknown {r : Runtime} (unknown : r.binding = none) (place : Place) :
    r.obtain place =
      ((lookUp place (r.pathFor place)).1, (lookUp place (r.pathFor place)).2,
        { r with
          path := ⟨some (r.pathFor place)⟩
          binding := some (lookUp place (r.pathFor place)).1 }) := by
  rw [obtain, libraryPath_eq]
  simp [unknown]

theorem obtain_again (r : Runtime) (place elsewhere : Place) :
    ((r.obtain place).2.2.obtain elsewhere).1 = (r.obtain place).1 := by
  have kept : (r.obtain place).2.2.binding = some (r.obtain place).1 := by
    cases held : r.binding with
    | none => rw [obtain_of_unknown held]
    | some found => rw [obtain_of_known held, held]
  rw [obtain_of_known kept]

/-! ## The common start -/

/-- The steps up to a loaded script. -/
def entered (r : Runtime) (place : Place) (b : Behaviour) (blob : Bytes) : Except Failure Unit :=
  match (r.obtain place).1 with
  | .error failure => .error failure
  | .ok binding => if b.opens then (load b binding blob).1 else .error .noState

theorem runOn_result (r : Runtime) (place : Place) (b : Behaviour) (blob : Bytes)
    (work : Except Failure α × List Call) :
    (r.runOn place b blob work).1.result = (r.entered place b blob).bind fun _ => work.1 := by
  rw [entered, runOn]
  obtain ⟨found, lines, next⟩ := r.obtain place
  cases found with
  | error failure => rfl
  | ok binding =>
      simp only [usingState]
      cases b.opens with
      | false => rfl
      | true =>
          obtain ⟨loaded, calls⟩ := load b binding blob
          cases loaded <;> rfl

theorem runOn_runtime (r : Runtime) (place : Place) (b : Behaviour) (blob : Bytes)
    (work : Except Failure α × List Call) :
    (r.runOn place b blob work).2 = (r.obtain place).2.2 := by
  rw [runOn]
  obtain ⟨found, lines, next⟩ := r.obtain place
  cases found <;> rfl

variable {blob : Bytes}

theorem compile_nonempty (nonempty : blob ≠ []) (r : Runtime) (place : Place) (b : Behaviour) :
    r.compile place b blob = r.runOn place b blob (dump b) := by
  rw [compile, if_neg (by simpa using nonempty)]

theorem extractTable_nonempty (nonempty : blob ≠ []) (r : Runtime) (place : Place) (b : Behaviour)
    (name : Bytes) :
    r.extractTable place b blob name = r.runOn place b blob (extract b name) := by
  rw [extractTable, if_neg (by simpa using nonempty)]

theorem result_of_refused (r : Runtime) (place : Place) (b : Behaviour) {failure : Failure}
    (refused : r.entered place b blob = .error failure) (work : Except Failure α × List Call) :
    (r.runOn place b blob work).1.result = .error failure := by
  rw [runOn_result, refused]
  rfl

/-- Work that only reports faults is unavailable iff the script is not loaded. -/
theorem result_unavailable_iff (r : Runtime) (place : Place) (b : Behaviour)
    {work : Except Failure α × List Call} {failure : Failure}
    (faulty : ∀ fault, work.1 = .error fault → fault.kind = .fault)
    (unavailable : failure.kind = .unavailable) :
    (r.runOn place b blob work).1.result = .error failure ↔
      r.entered place b blob = .error failure := by
  rw [runOn_result]
  cases r.entered place b blob with
  | error known => simp [Except.bind]
  | ok entered =>
      simp only [Except.bind, reduceCtorEq, iff_false]
      intro failed
      have fault := faulty failure failed
      rw [unavailable] at fault
      cases fault

theorem entered_faulty {r : Runtime} {place : Place} {b : Behaviour} {binding : Binding}
    (found : (r.obtain place).1 = .ok binding)
    (fails : b.opens = false ∨
      b.loadCode ≠ 0 ∧ (binding.loadsEncoded = true ∨ Chunk.hasMarker blob = false)) :
    ∃ failure, failure.kind = .fault ∧ r.entered place b blob = .error failure := by
  rw [entered, found]
  cases opens : b.opens with
  | false => exact ⟨.noState, rfl, rfl⟩
  | true =>
      obtain closed | ⟨failed, given⟩ := fails
      · exact absurd (opens.symm.trans closed) (by decide)
      · have loads : (!binding.loadsEncoded && Chunk.hasMarker blob) = false := by
          rcases given with encoded | plain
          · simp [encoded]
          · simp [plain]
        refine ⟨.loadFailed b.loadCode (said b.loadError (text "no message")), rfl, ?_⟩
        simp [load, loads, failed]

theorem entered_unavailable {r : Runtime} {place : Place} {b : Behaviour} {failure : Failure}
    (refused : r.entered place b blob = .error failure) (kind : failure.kind = .unavailable) :
    (r.obtain place).1 = .error failure ∨
      ∃ binding, (r.obtain place).1 = .ok binding ∧ binding.loadsEncoded = false ∧
        Chunk.hasMarker blob = true := by
  rw [entered] at refused
  split at refused
  · rename_i known found
    cases refused
    exact .inl found
  · rename_i binding found
    split at refused
    · exact .inr ⟨binding, found, load_unavailable refused kind⟩
    · cases refused
      cases kind

/-- A runtime that was unavailable for a script is unavailable for compiling it, whatever its
interpreter does later: a missing library stays missing, and a found one does not change what it
loads. -/
theorem compile_after_unavailable (nonempty : blob ≠ []) {r : Runtime} {place : Place}
    {b : Behaviour} {name : Bytes} {failure : Failure}
    (refused : (r.extractTable place b blob name).1.result = .error failure)
    (kind : failure.kind = .unavailable) (elsewhere : Place) (later : Behaviour) :
    ∃ reason, ((r.extractTable place b blob name).2.compile elsewhere later blob).1.result =
      .error reason := by
  rw [extractTable_nonempty nonempty] at refused ⊢
  rw [compile_nonempty nonempty, runOn_runtime]
  rw [result_unavailable_iff r place b (fun _ => kind_of_extract) kind] at refused
  have again := obtain_again r place elsewhere
  obtain missing | ⟨binding, found, stock, marked⟩ := entered_unavailable refused kind
  · refine ⟨failure, result_of_refused _ _ _ ?_ _⟩
    rw [entered, again, missing]
  · rw [found] at again
    cases opens : later.opens with
    | false =>
        refine ⟨.noState, result_of_refused _ _ _ ?_ _⟩
        simp [entered, again, opens]
    | true =>
        refine ⟨.encodedChunkRefused, result_of_refused _ _ _ ?_ _⟩
        simp [entered, again, opens, load_encoded stock marked]

end Runtime

end Interpreter

end LuaAsset
