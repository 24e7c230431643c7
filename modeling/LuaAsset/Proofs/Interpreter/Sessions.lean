import LuaAsset.Interpreter.Library

/-! # Interpreter states are closed

Work on a script does not open or close states (`Quiet`), so a run that opens a state does so first
and closes it last, wherever it fails (`usingState_cases`, `runs_attended`). -/

set_option autoImplicit false

namespace LuaAsset

namespace Interpreter

/-- No call opens or closes a state. -/
def Quiet (calls : List Call) : Prop := .newState ∉ calls ∧ .close ∉ calls

/-- No call runs a script or reads what it left. -/
def Unrun (calls : List Call) : Prop := .call ∉ calls ∧ ∀ name, .getGlobal name ∉ calls

/-- No call passes a script to a loader. -/
def Unloaded (calls : List Call) : Prop := ∀ encoded blob name, .load encoded blob name ∉ calls

/-! ## Work on a state -/

theorem Quiet.append {first second : List Call} (quiet : Quiet first) (still : Quiet second) :
    Quiet (first ++ second) := by
  constructor
  · exact List.not_mem_append quiet.1 still.1
  · exact List.not_mem_append quiet.2 still.2

theorem load_cases (b : Behaviour) (binding : Binding) (blob : Bytes) :
    (binding.loadsEncoded = false ∧ Chunk.hasMarker blob = true ∧
      load b binding blob = (.error .encodedChunkRefused, [])) ∨
    ((binding.loadsEncoded = true ∨ Chunk.hasMarker blob = false) ∧
      (load b binding blob).2 =
        [.openLibraries, .load binding.loadsEncoded blob chunkName]) := by
  rw [load]
  by_cases refused : (!binding.loadsEncoded && Chunk.hasMarker blob) = true
  · rw [if_pos refused]
    rw [Bool.and_eq_true, Bool.not_eq_true'] at refused
    exact .inl ⟨refused.1, refused.2, rfl⟩
  · rw [if_neg refused]
    refine .inr ⟨?_, ?_⟩
    · cases encoded : binding.loadsEncoded with
      | true => exact .inl rfl
      | false => exact .inr (by simpa [encoded] using refused)
    · dsimp only
      split <;> rfl

theorem quiet_load (b : Behaviour) (binding : Binding) (blob : Bytes) :
    Quiet (load b binding blob).2 := by
  rcases load_cases b binding blob with ⟨_, _, refused⟩ | ⟨_, loaded⟩
  · rw [refused]
    simp [Quiet]
  · rw [loaded]
    simp [Quiet]

theorem unrun_load (b : Behaviour) (binding : Binding) (blob : Bytes) :
    Unrun (load b binding blob).2 := by
  rcases load_cases b binding blob with ⟨_, _, refused⟩ | ⟨_, loaded⟩
  · rw [refused]
    simp [Unrun]
  · rw [loaded]
    simp [Unrun]

theorem quiet_dump (b : Behaviour) : Quiet (dump b).2 := by simp [dump, Quiet]

theorem unrun_dump (b : Behaviour) : Unrun (dump b).2 := by simp [dump, Unrun]

theorem extract_calls (b : Behaviour) (name : Bytes) :
    (extract b name).2 = [.call] ∨ (extract b name).2 = [.call, .getGlobal (upToZero name)] := by
  rw [extract]
  split
  · right
    dsimp only
    split <;> rfl
  · exact .inl rfl

theorem quiet_extract (b : Behaviour) (name : Bytes) : Quiet (extract b name).2 := by
  rcases extract_calls b name with calls | calls <;> rw [calls] <;> simp [Quiet]

/-! ## A state for each run -/

variable {α : Type} {b : Behaviour} {binding : Binding} {blob : Bytes}

/-- The runs of `usingState`: no state is made, the script is not loaded, or the work is done; an
opened state is closed. -/
theorem usingState_cases (b : Behaviour) (binding : Binding) (blob : Bytes)
    (work : Except Failure α × List Call) :
    (b.opens = false ∧ usingState b binding blob work = (.error .noState, [.newState])) ∨
    (b.opens = true ∧ ∃ failure, (load b binding blob).1 = .error failure ∧
      usingState b binding blob work =
        (.error failure, .newState :: ((load b binding blob).2 ++ [.close]))) ∨
    (b.opens = true ∧ (load b binding blob).1 = .ok () ∧
      usingState b binding blob work =
        (work.1, .newState :: ((load b binding blob).2 ++ work.2 ++ [.close]))) := by
  rw [usingState]
  cases opens : b.opens with
  | false => exact .inl ⟨rfl, rfl⟩
  | true =>
      right
      obtain ⟨outcome, calls⟩ := load b binding blob
      cases outcome with
      | error failure => exact .inl ⟨rfl, failure, rfl, rfl⟩
      | ok loaded => exact .inr ⟨rfl, rfl, rfl⟩

theorem usingState_refused (closed : b.opens = false) (work : Except Failure α × List Call) :
    usingState b binding blob work = (.error .noState, [.newState]) := by
  rcases usingState_cases b binding blob work with ⟨_, same⟩ | ⟨opens, _⟩ | ⟨opens, _⟩
  · exact same
  · exact absurd (closed.symm.trans opens) (by decide)
  · exact absurd (closed.symm.trans opens) (by decide)

/-- Opening is the first call and closing the last. -/
theorem usingState_enclosed (opens : b.opens = true) {work : Except Failure α × List Call}
    (quiet : Quiet work.2) :
    ∃ m, (usingState b binding blob work).2 = .newState :: (m ++ [.close]) ∧ Quiet m := by
  have loading := quiet_load b binding blob
  rcases usingState_cases b binding blob work with ⟨refused, _⟩ | ⟨_, _, _, same⟩ | ⟨_, _, same⟩
  · exact absurd (opens.symm.trans refused) (by decide)
  · exact ⟨_, by rw [same], loading⟩
  · exact ⟨_, by rw [same], loading.append quiet⟩

theorem mem_usingState {work : Except Failure α × List Call} {made : Call}
    (member : made ∈ (usingState b binding blob work).2) :
    made = .newState ∨ made = .close ∨ made ∈ (load b binding blob).2 ∨
      ((load b binding blob).1 = .ok () ∧ made ∈ work.2) := by
  rcases usingState_cases b binding blob work with ⟨_, same⟩ | ⟨_, _, _, same⟩ | ⟨_, loaded, same⟩
  · rw [same] at member
    exact .inl (List.mem_singleton.mp member)
  · rw [same] at member
    simp only [List.mem_cons, List.mem_append, List.not_mem_nil, or_false] at member
    rcases member with first | loading | last
    · exact .inl first
    · exact .inr (.inr (.inl loading))
    · exact .inr (.inl last)
  · rw [same] at member
    simp only [List.mem_cons, List.mem_append, List.not_mem_nil, or_false] at member
    rcases member with first | (loading | working) | last
    · exact .inl first
    · exact .inr (.inr (.inl loading))
    · exact .inr (.inr (.inr ⟨loaded, working⟩))
    · exact .inr (.inl last)

theorem unrun_usingState {work : Except Failure α × List Call} (unrun : Unrun work.2) :
    Unrun (usingState b binding blob work).2 := by
  have loading := unrun_load b binding blob
  constructor
  · intro member
    rcases mem_usingState member with first | last | load | ⟨_, working⟩
    · cases first
    · cases last
    · exact loading.1 load
    · exact unrun.1 working
  · intro name member
    rcases mem_usingState member with first | last | load | ⟨_, working⟩
    · cases first
    · cases last
    · exact loading.2 name load
    · exact unrun.2 name working

theorem unloaded_usingState (stock : binding.loadsEncoded = false)
    (marked : Chunk.hasMarker blob = true) (work : Except Failure α × List Call) :
    Unloaded (usingState b binding blob work).2 := by
  have refused : load b binding blob = (.error .encodedChunkRefused, []) := by
    rcases load_cases b binding blob with ⟨_, _, same⟩ | ⟨encoded | plain, _⟩
    · exact same
    · exact absurd (stock.symm.trans encoded) (by decide)
    · exact absurd (marked.symm.trans plain) (by decide)
  intro encoded buffer name member
  rcases mem_usingState member with first | last | loading | ⟨loaded, _⟩
  · cases first
  · cases last
  · rw [refused] at loading
    cases loading
  · rw [refused] at loaded
    cases loaded

theorem loadsEncoded_of_bind {exports : List Bytes} (bound : bind exports = .ok binding) :
    binding.loadsEncoded = exports.contains encodedLoader := by
  rw [bind] at bound
  split at bound
  · cases bound
  · rw [← Except.ok.inj bound]

/-! ## The runtime -/

namespace Runtime

/-- A run closes the state it opens: an empty script opens none, a state that cannot be made is a
fault, and an open one is closed at the end, with no other opening or closing in between. -/
structure Attended (b : Behaviour) (blob : Bytes) (o : Outcome α) : Prop where
  untouched : blob = [] → o.calls = []
  refused : blob ≠ [] → b.opens = false → o.calls = [.newState] ∧
    ∃ failure, o.result = .error failure ∧ failure.kind = .fault
  closed : blob ≠ [] → b.opens = true →
    ∃ m, o.calls = .newState :: (m ++ [.close]) ∧ .newState ∉ m ∧ .close ∉ m

theorem runOn_eq {r : Runtime} {place : Place} (found : (r.obtain place).1 = .ok binding)
    (b : Behaviour) (blob : Bytes) (work : Except Failure α × List Call) :
    (r.runOn place b blob work).1.result = (usingState b binding blob work).1 ∧
      (r.runOn place b blob work).1.calls = (usingState b binding blob work).2 := by
  rw [runOn]
  generalize r.obtain place = answer at found ⊢
  obtain ⟨outcome, lines, next⟩ := answer
  obtain rfl : outcome = .ok binding := found
  exact ⟨rfl, rfl⟩

theorem attended_empty {o : Outcome α} (silent : o.calls = []) : Attended b [] o where
  untouched _ := silent
  refused nonempty := absurd rfl nonempty
  closed nonempty := absurd rfl nonempty

theorem attended_runOn {r : Runtime} {place : Place} (found : (r.obtain place).1 = .ok binding)
    (nonempty : blob ≠ []) {work : Except Failure α × List Call} (quiet : Quiet work.2) :
    Attended b blob (r.runOn place b blob work).1 := by
  obtain ⟨result, calls⟩ := runOn_eq found b blob work
  refine ⟨fun none => absurd none nonempty, fun _ closed => ?_, fun _ opens => ?_⟩
  · rw [result, calls, usingState_refused closed]
    exact ⟨rfl, .noState, rfl, rfl⟩
  · rw [calls]
    exact usingState_enclosed opens quiet

/-- For every behaviour of the interpreter both kinds of run are `Attended`.  Compiling runs no
script, and a library without a loader for encoded scripts is never passed one. -/
theorem runs_attended {r : Runtime} {place : Place} (found : (r.obtain place).1 = .ok binding)
    (b : Behaviour) (blob name : Bytes) :
    Attended b blob (r.compile place b blob).1 ∧
      Attended b blob (r.extractTable place b blob name).1 ∧
      Unrun (r.compile place b blob).1.calls ∧
      ∀ exports, bind exports = .ok binding → exports.contains encodedLoader = false →
        Chunk.hasMarker blob = true →
        Unloaded (r.compile place b blob).1.calls ∧
          Unloaded (r.extractTable place b blob name).1.calls := by
  cases blob with
  | nil =>
      refine ⟨attended_empty rfl, attended_empty rfl, ?_, fun _ _ _ _ => ⟨?_, ?_⟩⟩
      · simp [compile, Unrun]
      · simp [compile, Unloaded]
      · simp [extractTable, Unloaded]
  | cons c rest =>
      have nonempty : c :: rest ≠ [] := List.cons_ne_nil c rest
      have compiled : r.compile place b (c :: rest) = r.runOn place b (c :: rest) (dump b) := rfl
      have extracted : r.extractTable place b (c :: rest) name =
          r.runOn place b (c :: rest) (extract b name) := rfl
      have compileCalls := (runOn_eq found b (c :: rest) (dump b)).2
      have extractCalls := (runOn_eq found b (c :: rest) (extract b name)).2
      rw [compiled, extracted]
      refine ⟨attended_runOn found nonempty (quiet_dump b),
        attended_runOn found nonempty (quiet_extract b name), ?_, ?_⟩
      · rw [compileCalls]
        exact unrun_usingState (unrun_dump b)
      · intro exports bound stock marked
        have plain := (loadsEncoded_of_bind bound).trans stock
        rw [compileCalls, extractCalls]
        exact ⟨unloaded_usingState plain marked _, unloaded_usingState plain marked _⟩

/-- A library that loads plain scripts only. -/
def stock : Place :=
  ⟨text "/opt/lua.so", fun _ => .loaded (exportsBefore ++ [plainLoader] ++ exportsBehind)⟩

def cramped : Behaviour where
  opens := true
  loadCode := 0
  loadError := .nil
  dumped := []
  dumpCode := 0
  callCode := 0
  callError := .nil
  globals := [(text "t", .table 0)]
  growths := some 1
  heap := [[(.integer 1, .table 1)], [(.integer 1, .bool true)]]

theorem runs_attended_cramped :
    ((ofPath none).obtain stock).1 = .ok ⟨false⟩ ∧
      Attended cramped (text "x")
        ((ofPath none).extractTable stock cramped (text "x") (text "t")).1 ∧
      ((ofPath none).extractTable stock cramped (text "x") (text "t")).1 =
        ⟨.error .stackExhausted, [.newState, .openLibraries, .load false (text "x") chunkName,
          .call, .getGlobal (text "t"), .close], []⟩ ∧
      bind (exportsBefore ++ [plainLoader] ++ exportsBehind) = .ok ⟨false⟩ ∧
      Unloaded ((ofPath none).compile stock cramped (text "*x")).1.calls := by
  have bound : bind (exportsBefore ++ [plainLoader] ++ exportsBehind) = .ok ⟨false⟩ := rfl
  have found : ((ofPath none).obtain stock).1 = .ok ⟨false⟩ := rfl
  have plain :
      (exportsBefore ++ [plainLoader] ++ exportsBehind).contains encodedLoader = false := by
    decide +kernel
  obtain ⟨_, extracted, _, _⟩ := runs_attended found cramped (text "x") (text "t")
  obtain ⟨_, _, _, marked⟩ := runs_attended found cramped (text "*x") (text "t")
  exact ⟨found, extracted, rfl, bound, (marked _ bound plain rfl).1⟩

end Runtime

end Interpreter

end LuaAsset
