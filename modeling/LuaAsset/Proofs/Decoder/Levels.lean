import LuaAsset.Decoder

/-! # The levels of a decoding

An `Attempt` is the calls of one level: one compilation, and a decompilation if there is a chunk.  A
`Run` is a sequence of attempts, and `decodeLevel` is a run whose calls are those of its attempts
(`decodeLevel_runs`). -/

set_option autoImplicit false

namespace LuaAsset

namespace Decoder

variable {σ : Type}

/-! ## Calls and answers -/

structure Level where
  blob : Bytes
  compilation : Except Failure Bytes
  decompilation : Option (Bytes × Except Failure Bytes)

namespace Level

def calls (level : Level) : List Call :=
  .compile level.blob :: (level.decompilation.map fun asked => Call.decompile asked.1).toList

def answer (level : Level) : Except Failure Bytes :=
  match level.decompilation with
  | none => level.compilation
  | some (_, answer) => answer

/-- The recorded answers are those of the collaborators, with the world threaded through the calls.
-/
inductive Answered (c : Collaborators σ) : σ → Level → σ → Prop
  | compiled (blob : Bytes) (w : σ) :
      Answered c w ⟨blob, (c.compile blob w).outcome, none⟩ (c.compile blob w).world
  | decompiled (blob chunk : Bytes) (w : σ) :
      Answered c w
        ⟨blob, (c.compile blob w).outcome,
          some (chunk, (c.decompile chunk (c.compile blob w).world).outcome)⟩
        (c.decompile chunk (c.compile blob w).world).world

end Level

inductive Answered (c : Collaborators σ) : σ → List Level → σ → Prop
  | nil (w : σ) : Answered c w [] w
  | cons {w between after : σ} {level : Level} {rest : List Level} :
      level.Answered c w between → Answered c between rest after →
      Answered c w (level :: rest) after

/-- The chunk to decompile: the compiled one, or, where no interpreter was available, the
instructions after a plain header. -/
def Handed (blob : Bytes) (compilation : Except Failure Bytes) (chunk : Bytes) : Prop :=
  compilation = .ok chunk ∨
    ∃ failure, compilation = .error failure ∧ failure.kind = .unavailable ∧
      Chunk.synthesize blob = .ok chunk

structure Attempt (c : Collaborators σ) (blob : Bytes) (w : σ) (level : Level) (after : σ) :
    Prop where
  asked : level.blob = blob
  answered : level.Answered c w after
  handed : ∀ chunk, (∃ answer, level.decompilation = some (chunk, answer)) ↔
    Handed blob level.compilation chunk

/-! ## Runs -/

/-- The runs of `decodeLevel` with the given number of levels left: attempts, outcome, and the
worlds before and after.  A payload has no companion. -/
inductive Run (c : Collaborators σ) :
    Nat → Bytes → Bytes → σ → List Level → Except Failure Bytes → σ → Prop
  | plain {left : Nat} {blob companion : Bytes} {w : σ} :
      Chunk.hasMarker blob = false →
      Run c left blob companion w [] (.ok (Utf8.decodeLossy blob)) w
  | tooDeep {blob companion : Bytes} {w : σ} :
      Chunk.hasMarker blob = true →
      Run c 0 blob companion w [] (.error (.nestingExceeded maxDepth)) w
  | decompiled {left : Nat} {blob companion source : Bytes} {w after : σ} {level : Level} :
      Chunk.hasMarker blob = true →
      Attempt c blob w level after → level.answer = .ok source →
      Run c (left + 1) blob companion w [level] (.ok source) after
  | aborted {left : Nat} {blob companion : Bytes} {failure : Failure} {w after : σ}
      {level : Level} :
      Chunk.hasMarker blob = true →
      Attempt c blob w level after → level.answer = .error failure →
      failure.kind.isScript = false →
      Run c (left + 1) blob companion w [level] (.error failure) after
  | exhausted {left : Nat} {blob companion : Bytes} {failure : Failure} {w after : σ}
      {level : Level} :
      Chunk.hasMarker blob = true →
      Attempt c blob w level after → level.answer = .error failure →
      failure.kind.isScript = true → payload? [blob, companion] = none →
      Run c (left + 1) blob companion w [level] (.error failure) after
  | deeper {left : Nat} {blob companion candidate plain : Bytes} {failure : Failure}
      {w between after : σ} {level : Level} {rest : List Level}
      {outcome : Except Failure Bytes} :
      Chunk.hasMarker blob = true →
      Attempt c blob w level between → level.answer = .error failure →
      failure.kind.isScript = true → payload? [blob, companion] = some (candidate, plain) →
      Run c left plain [] between rest outcome after →
      Run c (left + 1) blob companion w (level :: rest) outcome after

theorem Run.answered {c : Collaborators σ} {left : Nat} {blob companion : Bytes} {w after : σ}
    {levels : List Level} {outcome : Except Failure Bytes}
    (run : Run c left blob companion w levels outcome after) : Answered c w levels after := by
  induction run with
  | plain _ => exact .nil _
  | tooDeep _ => exact .nil _
  | decompiled _ attempt _ => exact .cons attempt.answered (.nil _)
  | aborted _ attempt _ _ => exact .cons attempt.answered (.nil _)
  | exhausted _ attempt _ _ _ => exact .cons attempt.answered (.nil _)
  | deeper _ attempt _ _ _ _ ih => exact .cons attempt.answered ih

theorem Run.length_le {c : Collaborators σ} {left : Nat} {blob companion : Bytes} {w after : σ}
    {levels : List Level} {outcome : Except Failure Bytes}
    (run : Run c left blob companion w levels outcome after) : levels.length ≤ left := by
  induction run with
  | plain _ => exact Nat.zero_le _
  | tooDeep _ => exact Nat.zero_le _
  | decompiled => exact Nat.succ_le_succ (Nat.zero_le _)
  | aborted => exact Nat.succ_le_succ (Nat.zero_le _)
  | exhausted => exact Nat.succ_le_succ (Nat.zero_le _)
  | deeper _ _ _ _ _ _ ih => exact Nat.succ_le_succ ih

/-! ## Log lines -/

namespace Session

@[simp] theorem debug_world (s : Session σ) (enabled : Bool) (message : Bytes) :
    (s.debug enabled message).world = s.world := by
  cases enabled <;> rfl

@[simp] theorem debug_calls (s : Session σ) (enabled : Bool) (message : Bytes) :
    (s.debug enabled message).calls = s.calls := by
  cases enabled <;> rfl

@[simp] theorem debug_all_world (enabled : Bool) (messages : List Bytes) (s : Session σ) :
    (messages.foldl (fun s line => s.debug enabled line) s).world = s.world := by
  induction messages generalizing s with
  | nil => rfl
  | cons message messages ih => rw [List.foldl_cons, ih, debug_world]

@[simp] theorem debug_all_calls (enabled : Bool) (messages : List Bytes) (s : Session σ) :
    (messages.foldl (fun s line => s.debug enabled line) s).calls = s.calls := by
  induction messages generalizing s with
  | nil => rfl
  | cons message messages ih => rw [List.foldl_cons, ih, debug_calls]

end Session

/-! ## One level -/

theorem compiled_eq_chunk (blob chunk : Bytes) (compilation : Except Failure Bytes) :
    compiled blob compilation = .chunk chunk ↔ Handed blob compilation chunk := by
  cases compilation with
  | ok made => simp [compiled, Handed]
  | error failure =>
      by_cases unavailable : failure.kind = .unavailable
      · cases synthesized : Chunk.synthesize blob with
        | ok made => simp [compiled, Handed, unavailable, synthesized]
        | error refusal => simp [compiled, Handed, unavailable, synthesized]
      · by_cases script : failure.kind.isScript = true
        · simp [compiled, Handed, unavailable, script]
        · simp [compiled, Handed, unavailable, script]

theorem compiled_cases (blob : Bytes) (compilation : Except Failure Bytes) :
    (∃ chunk, compiled blob compilation = .chunk chunk) ∨
      ∃ failure, compilation = .error failure ∧
        compiled blob compilation =
          if failure.kind.isScript then .nothing failure else .aborted failure := by
  cases compilation with
  | ok made => exact .inl ⟨made, rfl⟩
  | error failure =>
      by_cases unavailable : failure.kind = .unavailable
      · cases synthesized : Chunk.synthesize blob with
        | ok made => exact .inl ⟨made, by simp [compiled, unavailable, synthesized]⟩
        | error refusal =>
            refine .inr ⟨failure, rfl, ?_⟩
            simp [compiled, unavailable, synthesized, Kind.isScript]
      · exact .inr ⟨failure, rfl, by simp [compiled, unavailable]⟩

theorem attempt_compiled (c : Collaborators σ) (blob : Bytes) (w : σ)
    (without : ∀ chunk, compiled blob (c.compile blob w).outcome ≠ .chunk chunk) :
    Attempt c blob w ⟨blob, (c.compile blob w).outcome, none⟩ (c.compile blob w).world where
  asked := rfl
  answered := .compiled blob w
  handed := by
    intro chunk
    constructor
    · rintro ⟨answer, made⟩
      cases made
    · intro handed
      exact absurd ((compiled_eq_chunk _ _ _).mpr handed) (without chunk)

/-- A compilation that leaves a chunk is followed by the decompilation of that chunk. -/
theorem attempt_decompiled (c : Collaborators σ) (blob chunk : Bytes) (w : σ)
    (made : compiled blob (c.compile blob w).outcome = .chunk chunk) :
    Attempt c blob w
      ⟨blob, (c.compile blob w).outcome,
        some (chunk, (c.decompile chunk (c.compile blob w).world).outcome)⟩
      (c.decompile chunk (c.compile blob w).world).world where
  asked := rfl
  answered := .decompiled blob chunk w
  handed := by
    intro other
    rw [← compiled_eq_chunk, made]
    constructor
    · rintro ⟨answer, same⟩
      cases same
      rfl
    · intro same
      cases same
      exact ⟨_, rfl⟩

/-- The attempt at an encoded script, before any payload is considered. -/
def attempted (c : Collaborators σ) (debug : Bool) (depth : Nat) (blob : Bytes) (s : Session σ) :
    Except Failure Bytes × Session σ :=
  let (answer, s) := s.ask (.compile blob) (c.compile blob)
  let s := (compiledLines depth blob answer).foldl (fun s line => s.debug debug line) s
  match compiled blob answer with
  | .aborted failure => (.error failure, s)
  | .nothing failure => (.error failure, s)
  | .chunk chunk =>
      match s.ask (.decompile chunk) (c.decompile chunk) with
      | (.ok source, s) =>
          (.ok source, s.debug debug
            (text "Decoded marker blob: bytes=" ++ decimal blob.length ++ text " chunk=" ++
              decimal chunk.length ++ text " compile=" ++ Log.elapsed ++ text " decompile=" ++
              Log.elapsed))
      | (.error failure, s) =>
          (.error failure, s.debug (debug && failure.kind.isScript)
            (text "Decompile failed (depth " ++ decimal depth ++ text "): " ++ failure.message))

theorem decodeMarked_eq_attempted (c : Collaborators σ) (debug : Bool) (depth : Nat) (blob : Bytes)
    (unwrap : Failure → Session σ → Except Failure Bytes × Session σ) (s : Session σ) :
    decodeMarked c debug depth blob unwrap s =
      match attempted c debug depth blob s with
      | (.ok source, s) => (.ok source, s)
      | (.error failure, s) =>
          if failure.kind.isScript then unwrap failure s else (.error failure, s) := by
  simp only [decodeMarked, attempted, Session.ask]
  obtain ⟨chunk, found⟩ | ⟨failure, raised, found⟩ :=
    compiled_cases blob (c.compile blob s.world).outcome
  · simp only [found]
    cases (c.decompile chunk _).outcome with
    | ok source => rfl
    | error failure =>
        cases script : failure.kind.isScript with
        | true => simp [script]
        | false => simp [script, Session.debug]
  · cases script : failure.kind.isScript with
    | true => simp [found, script]
    | false => simp [found, script]

theorem attempted_chunk (c : Collaborators σ) (debug : Bool) (depth : Nat) (blob chunk : Bytes)
    (s : Session σ) (found : compiled blob (c.compile blob s.world).outcome = .chunk chunk) :
    (attempted c debug depth blob s).1 =
        (c.decompile chunk (c.compile blob s.world).world).outcome ∧
      (attempted c debug depth blob s).2.world =
        (c.decompile chunk (c.compile blob s.world).world).world ∧
      (attempted c debug depth blob s).2.calls = s.calls ++ [.compile blob, .decompile chunk] := by
  simp only [attempted, Session.ask, found, Session.debug_all_world, Session.debug_all_calls]
  cases (c.decompile chunk (c.compile blob s.world).world).outcome with
  | ok source => simp
  | error failure => simp

theorem attempted_without (c : Collaborators σ) (debug : Bool) (depth : Nat) (blob : Bytes)
    (s : Session σ)
    (without : ∀ chunk, compiled blob (c.compile blob s.world).outcome ≠ .chunk chunk) :
    (attempted c debug depth blob s).1 = (c.compile blob s.world).outcome ∧
      (attempted c debug depth blob s).2.world = (c.compile blob s.world).world ∧
      (attempted c debug depth blob s).2.calls = s.calls ++ [.compile blob] := by
  obtain ⟨chunk, found⟩ | ⟨failure, raised, found⟩ :=
    compiled_cases blob (c.compile blob s.world).outcome
  · exact absurd found (without chunk)
  · rw [raised] at found
    cases script : failure.kind.isScript with
    | true => simp [attempted, Session.ask, raised, found, script]
    | false => simp [attempted, Session.ask, raised, found, script]

theorem attempted_attempt (c : Collaborators σ) (debug : Bool) (depth : Nat) (blob : Bytes)
    (s : Session σ) :
    ∃ level, Attempt c blob s.world level (attempted c debug depth blob s).2.world ∧
      level.answer = (attempted c debug depth blob s).1 ∧
      (attempted c debug depth blob s).2.calls = s.calls ++ level.calls := by
  by_cases made : ∃ chunk, compiled blob (c.compile blob s.world).outcome = .chunk chunk
  · obtain ⟨chunk, found⟩ := made
    obtain ⟨answer, world, calls⟩ := attempted_chunk c debug depth blob chunk s found
    rw [answer, world, calls]
    exact ⟨_, attempt_decompiled c blob chunk s.world found, rfl, rfl⟩
  · have without := not_exists.mp made
    obtain ⟨answer, world, calls⟩ := attempted_without c debug depth blob s without
    rw [answer, world, calls]
    exact ⟨_, attempt_compiled c blob s.world without, rfl, rfl⟩

/-! ## All levels -/

/-- A result that is a `Run`, whose calls are those of its attempts. -/
def Runs (c : Collaborators σ) (left : Nat) (blob companion : Bytes) (s : Session σ)
    (made : List Level) (result : Except Failure Bytes × Session σ) : Prop :=
  Run c left blob companion s.world made result.1 result.2.world ∧
    result.2.calls = s.calls ++ made.flatMap Level.calls

theorem unwrapping_runs (c : Collaborators σ) (debug : Bool) (depth left : Nat)
    (blob companion candidate plain : Bytes) (failure : Failure)
    (inner : Option (Bytes → Session σ → Except Failure Bytes × Session σ))
    (below : ∀ (s : Session σ), Chunk.hasMarker plain = true →
      ∃ rest, Runs c left plain [] s rest
        (match inner with
        | some decode => decode plain s
        | none => (.error (.nestingExceeded maxDepth), s)))
    (s : Session σ) (found : payload? [blob, companion] = some (candidate, plain)) :
    ∃ rest, Runs c left plain [] s rest
      (unwrapping debug depth blob companion failure inner s) := by
  rw [unwrapping, found]
  dsimp only
  cases marked : Chunk.hasMarker plain with
  | true =>
      obtain ⟨rest, run, calls⟩ := below (s.debug debug _) marked
      rw [Session.debug_world] at run
      rw [Session.debug_calls] at calls
      exact ⟨rest, run, calls⟩
  | false =>
      refine ⟨[], ?_, ?_⟩
      · rw [if_neg Bool.false_ne_true, Session.debug_world]
        exact .plain marked
      · rw [if_neg Bool.false_ne_true, Session.debug_calls]
        exact (List.append_nil _).symm

theorem decodeMarked_runs (c : Collaborators σ) (debug : Bool) (depth left : Nat)
    (blob companion : Bytes)
    (inner : Option (Bytes → Session σ → Except Failure Bytes × Session σ))
    (below : ∀ (plain : Bytes) (s : Session σ), Chunk.hasMarker plain = true →
      ∃ rest, Runs c left plain [] s rest
        (match inner with
        | some decode => decode plain s
        | none => (.error (.nestingExceeded maxDepth), s)))
    (s : Session σ) (marked : Chunk.hasMarker blob = true) :
    ∃ made, Runs c (left + 1) blob companion s made
      (decodeMarked c debug depth blob
        (fun failure s => unwrapping debug depth blob companion failure inner s) s) := by
  rw [decodeMarked_eq_attempted]
  obtain ⟨level, attempt, answer, calls⟩ := attempted_attempt c debug depth blob s
  generalize attempted c debug depth blob s = result at attempt answer calls ⊢
  obtain ⟨outcome, after⟩ := result
  have single : after.calls = s.calls ++ [level].flatMap Level.calls := by
    rw [calls, List.flatMap_singleton]
  cases outcome with
  | ok source => exact ⟨[level], .decompiled marked attempt answer, single⟩
  | error failure =>
      dsimp only
      cases script : failure.kind.isScript with
      | false => exact ⟨[level], .aborted marked attempt answer script, single⟩
      | true =>
          rw [if_pos rfl]
          cases found : payload? [blob, companion] with
          | none =>
              rw [unwrapping, found]
              exact ⟨[level], .exhausted marked attempt answer script found, single⟩
          | some both =>
              obtain ⟨candidate, plain⟩ := both
              obtain ⟨rest, run, more⟩ := unwrapping_runs c debug depth left blob companion
                candidate plain failure inner (below plain) after found
              refine ⟨level :: rest, .deeper marked attempt answer script found run, ?_⟩
              rw [more, calls, List.append_assoc, List.flatMap_cons]

theorem decodeLevel_plain (c : Collaborators σ) (debug : Bool) (levels : Nat)
    (blob companion : Bytes) (s : Session σ) (plain : Chunk.hasMarker blob = false) :
    decodeLevel c debug levels blob companion s = (.ok (Utf8.decodeLossy blob), s) := by
  cases blob with
  | nil =>
      rw [decodeLevel.eq_def]
      rfl
  | cons first rest =>
      rw [decodeLevel.eq_def]
      simp [plain]

def levelsBelow (c : Collaborators σ) (debug : Bool) :
    Nat → Option (Bytes → Session σ → Except Failure Bytes × Session σ)
  | 0 => none
  | levels + 1 => some fun plain s => decodeLevel c debug levels plain [] s

theorem decodeLevel_marked (c : Collaborators σ) (debug : Bool) (levels : Nat)
    (blob companion : Bytes) (s : Session σ) (marked : Chunk.hasMarker blob = true) :
    decodeLevel c debug levels blob companion s =
      decodeMarked c debug (depthOf levels) blob
        (fun failure s => unwrapping debug (depthOf levels) blob companion failure
          (levelsBelow c debug levels) s) s := by
  cases blob with
  | nil => cases marked
  | cons first rest =>
      rw [decodeLevel.eq_def]
      simp only [List.isEmpty_cons, marked, Bool.not_true, Bool.false_eq_true, if_false]
      cases levels with
      | zero => rfl
      | succ levels => rfl

theorem decodeLevel_runs_of_below (c : Collaborators σ) (debug : Bool) (levels left : Nat)
    (below : ∀ (plain : Bytes) (s : Session σ), Chunk.hasMarker plain = true →
      ∃ rest, Runs c left plain [] s rest
        (match levelsBelow c debug levels with
        | some decode => decode plain s
        | none => (.error (.nestingExceeded maxDepth), s)))
    (blob companion : Bytes) (s : Session σ) :
    ∃ made, Runs c (left + 1) blob companion s made
      (decodeLevel c debug levels blob companion s) := by
  cases marked : Chunk.hasMarker blob with
  | false =>
      rw [decodeLevel_plain c debug levels blob companion s marked]
      exact ⟨[], .plain marked, (List.append_nil _).symm⟩
  | true =>
      rw [decodeLevel_marked c debug levels blob companion s marked]
      exact decodeMarked_runs c debug (depthOf levels) left blob companion _ below s marked

/-- Every `decodeLevel` is a `Run`, whose calls are those of its attempts. -/
theorem decodeLevel_runs (c : Collaborators σ) (debug : Bool) (levels : Nat) :
    ∀ (blob companion : Bytes) (s : Session σ), ∃ made,
      Runs c (levels + 1) blob companion s made (decodeLevel c debug levels blob companion s) := by
  induction levels with
  | zero =>
      apply decodeLevel_runs_of_below
      intro plain s marked
      exact ⟨[], .tooDeep marked, (List.append_nil _).symm⟩
  | succ levels ih =>
      apply decodeLevel_runs_of_below
      intro plain s _
      exact ih plain [] s

end Decoder

end LuaAsset
