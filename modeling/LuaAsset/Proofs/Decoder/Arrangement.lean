import LuaAsset.Proofs.Decoder.Levels

/-! # The order of the calls

A run has at most three levels: the script, then the payload of the level before (`Reached`).  Its
calls are ordered by level, and the first text ends the run (`Arranged`). -/

set_option autoImplicit false

namespace LuaAsset

namespace Decoder

variable {σ : Type}

/-! ## Payloads of a script and its companion -/

def Wrapped (blob plain : Bytes) : Prop := Payload.unwrap blob = some plain ∧ plain ≠ []

theorem not_wrapped_nil (plain : Bytes) : ¬Wrapped [] plain := by
  rintro ⟨opened, _⟩
  cases opened

theorem payload?_cons (blob : Bytes) (others : List Bytes) (which plain : Bytes)
    (found : payload? (blob :: others) = some (which, plain)) :
    Wrapped blob plain ∨ ((∀ own, ¬Wrapped blob own) ∧ payload? others = some (which, plain)) := by
  rw [payload?, List.findSome?_cons] at found
  cases opened : Payload.unwrap blob with
  | none =>
      rw [opened] at found
      refine .inr ⟨?_, found⟩
      rintro own ⟨some_, _⟩
      rw [opened] at some_
      cases some_
  | some own =>
      rw [opened] at found
      cases own with
      | nil =>
          refine .inr ⟨?_, found⟩
          rintro own ⟨some_, nonempty⟩
          rw [opened] at some_
          cases some_
          exact nonempty rfl
      | cons first rest =>
          cases found
          exact .inl ⟨opened, List.cons_ne_nil _ _⟩

theorem wrapped_of_payload? (blob companion which plain : Bytes)
    (found : payload? [blob, companion] = some (which, plain)) :
    Wrapped blob plain ∨ ((∀ own, ¬Wrapped blob own) ∧ Wrapped companion plain) := by
  obtain own | ⟨without, found⟩ := payload?_cons _ _ _ _ found
  · exact .inl own
  · obtain other | ⟨_, nowhere⟩ := payload?_cons _ _ _ _ found
    · exact .inr ⟨without, other⟩
    · cases nowhere

theorem payload?_own (blob companion plain : Bytes) (own : Wrapped blob plain) :
    payload? [blob, companion] = some (blob, plain) := by
  obtain ⟨opened, nonempty⟩ := own
  simp [payload?, opened, nonempty]

/-! ## The arrangement -/

/-- The order of the calls of a run, and how its outcome depends on them. -/
structure Arranged (blob companion : Bytes) (levels : List Level)
    (outcome : Except Failure Bytes) : Prop where
  first : ∀ level, levels[0]? = some level → level.blob = blob
  next : ∀ i level below, levels[i]? = some level → levels[i + 1]? = some below →
    Wrapped level.blob below.blob ∨
      (i = 0 ∧ (∀ plain, ¬Wrapped blob plain) ∧ Wrapped companion below.blob)
  handed : ∀ level ∈ levels, ∀ chunk,
    (∃ answer, level.decompilation = some (chunk, answer)) ↔
      Handed level.blob level.compilation chunk
  decoded : ∀ i level chunk source, levels[i]? = some level →
    level.decompilation = some (chunk, .ok source) →
    levels.length = i + 1 ∧ outcome = .ok source ∧
      (levels.flatMap Level.calls).getLast? = some (.decompile chunk)

theorem Arranged.nil (blob companion : Bytes) (outcome : Except Failure Bytes) :
    Arranged blob companion [] outcome where
  first := by simp
  next := by simp
  handed := by simp
  decoded := by simp

/-- Adds a level in front of an arranged run. -/
theorem Arranged.cons {c : Collaborators σ} {blob companion plain : Bytes} {w after : σ}
    {level : Level} {rest : List Level} {outcome : Except Failure Bytes}
    (attempt : Attempt c blob w level after) (below : Arranged plain [] rest outcome)
    (wrapped : rest ≠ [] →
      Wrapped blob plain ∨ ((∀ own, ¬Wrapped blob own) ∧ Wrapped companion plain))
    (ends : ∀ source, level.answer = .ok source → rest = [] ∧ outcome = .ok source) :
    Arranged blob companion (level :: rest) outcome where
  first := by
    intro head same
    rw [List.getElem?_cons_zero, Option.some.injEq] at same
    rw [← same]
    exact attempt.asked
  next := by
    intro i upper lower here there
    rw [List.getElem?_cons_succ] at there
    cases i with
    | zero =>
        rw [List.getElem?_cons_zero, Option.some.injEq] at here
        have nonempty : rest ≠ [] := by
          rintro rfl
          cases there
        rw [← here, attempt.asked, below.first lower there]
        obtain own | other := wrapped nonempty
        · exact .inl own
        · exact .inr ⟨rfl, other⟩
    | succ i =>
        rw [List.getElem?_cons_succ] at here
        obtain own | ⟨_, _, other⟩ := below.next i upper lower here there
        · exact .inl own
        · exact absurd other (not_wrapped_nil _)
  handed := by
    intro some_ member chunk
    obtain rfl | member := List.mem_cons.mp member
    · rw [attempt.asked]
      exact attempt.handed chunk
    · exact below.handed some_ member chunk
  decoded := by
    intro i some_ chunk source here text_
    cases i with
    | zero =>
        rw [List.getElem?_cons_zero, Option.some.injEq] at here
        have answer : level.answer = .ok source := by rw [Level.answer, here, text_]
        obtain ⟨rfl, same⟩ := ends source answer
        refine ⟨rfl, same, ?_⟩
        rw [List.flatMap_singleton, Level.calls, here, text_]
        rfl
    | succ i =>
        rw [List.getElem?_cons_succ] at here
        obtain ⟨last, same, call⟩ := below.decoded i some_ chunk source here text_
        refine ⟨by rw [List.length_cons, last], same, ?_⟩
        rw [List.flatMap_cons, List.getLast?_append, call]
        rfl

theorem Arranged.single {c : Collaborators σ} {blob companion : Bytes} {w after : σ}
    {level : Level} {outcome : Except Failure Bytes} (attempt : Attempt c blob w level after)
    (answer : level.answer = outcome) : Arranged blob companion [level] outcome := by
  apply Arranged.cons attempt (Arranged.nil [] [] outcome)
  · intro nonempty
    exact absurd rfl nonempty
  · intro source text_
    exact ⟨rfl, by rw [← answer, text_]⟩

theorem Run.arranged {c : Collaborators σ} {left : Nat} {blob companion : Bytes} {w after : σ}
    {levels : List Level} {outcome : Except Failure Bytes}
    (run : Run c left blob companion w levels outcome after) :
    Arranged blob companion levels outcome := by
  induction run with
  | plain _ => exact .nil _ _ _
  | tooDeep _ => exact .nil _ _ _
  | decompiled _ attempt answer => exact .single attempt answer
  | aborted _ attempt answer _ => exact .single attempt answer
  | exhausted _ attempt answer _ _ => exact .single attempt answer
  | deeper _ attempt answer _ found _ ih =>
      apply Arranged.cons attempt ih
      · intro _
        exact wrapped_of_payload? _ _ _ _ found
      · intro source text_
        rw [answer] at text_
        cases text_

/-! ## Levels -/

/-- Which levels a run with `left` levels has: the first iff the script is encoded, and a further
one iff the level before it ended in a failure of the script and its payload is encoded again. -/
structure Reached (left : Nat) (blob companion : Bytes) (levels : List Level) : Prop where
  first : levels ≠ [] ↔ 0 < left ∧ Chunk.hasMarker blob = true
  further : ∀ i level, levels[i]? = some level → (i + 1 < levels.length ↔
    i + 1 < left ∧ (∃ failure, level.answer = .error failure ∧ failure.kind.isScript = true) ∧
      ∃ which plain, payload? [level.blob, if i = 0 then companion else []] = some (which, plain) ∧
        Chunk.hasMarker plain = true)

theorem Reached.single {left : Nat} {blob companion : Bytes} {level : Level}
    (marked : Chunk.hasMarker blob = true)
    (last : ∀ failure, level.answer = .error failure → failure.kind.isScript = true →
      payload? [level.blob, companion] = none) :
    Reached (left + 1) blob companion [level] where
  first := by simp [marked]
  further := by
    intro i some_ here
    cases i with
    | succ i => cases here
    | zero =>
        cases here
        constructor
        · intro more
          exact absurd more (Nat.lt_irrefl 1)
        · rintro ⟨_, ⟨failure, answer, script⟩, which, plain, found, _⟩
          rw [if_pos rfl, last failure answer script] at found
          cases found

theorem Reached.cons {left : Nat} {blob companion which plain : Bytes} {level : Level}
    {rest : List Level} {failure : Failure} (marked : Chunk.hasMarker blob = true)
    (answer : level.answer = .error failure) (script : failure.kind.isScript = true)
    (found : payload? [level.blob, companion] = some (which, plain))
    (below : Reached left plain [] rest) : Reached (left + 1) blob companion (level :: rest) := by
  refine ⟨by simp [marked], fun i some_ here => ?_⟩
  cases i with
  | zero =>
      cases here
      -- the level below is there if its script is encoded and a level is left for it
      have next : 0 + 1 < (level :: rest).length ↔ 0 < left ∧ Chunk.hasMarker plain = true := by
        rw [← below.first, List.length_cons, Nat.add_lt_add_iff_right, List.length_pos_iff]
      rw [next, if_pos rfl, found, Nat.add_lt_add_iff_right]
      constructor
      · rintro ⟨room, again⟩
        exact ⟨room, ⟨failure, answer, script⟩, which, plain, rfl, again⟩
      · rintro ⟨room, _, which, other, same, again⟩
        cases same
        exact ⟨room, again⟩
  | succ i =>
      rw [List.getElem?_cons_succ] at here
      have next := below.further i some_ here
      rw [ite_self] at next
      rw [List.length_cons, Nat.add_lt_add_iff_right, next, Nat.add_lt_add_iff_right,
        if_neg (Nat.succ_ne_zero i)]

theorem Run.reached {c : Collaborators σ} {left : Nat} {blob companion : Bytes} {w after : σ}
    {levels : List Level} {outcome : Except Failure Bytes}
    (run : Run c left blob companion w levels outcome after) :
    Reached left blob companion levels := by
  induction run with
  | plain plain => exact ⟨by simp [plain], by simp⟩
  | tooDeep => exact ⟨by simp, by simp⟩
  | decompiled marked attempt answer =>
      refine .single marked fun failure failed _ => ?_
      rw [answer] at failed
      cases failed
  | aborted marked attempt answer other =>
      refine .single marked fun failure failed script => ?_
      rw [answer] at failed
      cases failed
      rw [other] at script
      cases script
  | exhausted marked attempt answer script found =>
      refine .single marked fun _ _ _ => ?_
      rw [attempt.asked, found]
  | deeper marked attempt answer script found _ ih =>
      exact .cons marked answer script (by rw [attempt.asked, found]) ih

/-! ## Number of calls -/

namespace Call

def isCompile : Call → Bool
  | .compile _ => true
  | _ => false

def isDecompile : Call → Bool
  | .decompile _ => true
  | _ => false

end Call

theorem Level.compile_once (level : Level) : level.calls.countP Call.isCompile ≤ 1 := by
  obtain ⟨blob, compilation, decompilation⟩ := level
  cases decompilation with
  | none => exact Nat.le_refl _
  | some asked => exact Nat.le_refl _

theorem Level.decompile_once (level : Level) : level.calls.countP Call.isDecompile ≤ 1 := by
  obtain ⟨blob, compilation, decompilation⟩ := level
  cases decompilation with
  | none => exact Nat.zero_le _
  | some asked => exact Nat.le_refl _

theorem countP_calls_le (kind : Call → Bool)
    (once : ∀ level : Level, level.calls.countP kind ≤ 1) (levels : List Level) :
    (levels.flatMap Level.calls).countP kind ≤ levels.length := by
  induction levels with
  | nil => exact Nat.zero_le _
  | cons level levels ih =>
      have here := once level
      rw [List.flatMap_cons, List.countP_append, List.length_cons]
      omega

/-! ## Decoding a script -/

theorem decodeLevel_companion (c : Collaborators σ) (debug : Bool) (levels : Nat)
    (blob companion other : Bytes) (s : Session σ)
    (same : payload? [blob, companion] = payload? [blob, other]) :
    decodeLevel c debug levels blob companion s = decodeLevel c debug levels blob other s := by
  cases marked : Chunk.hasMarker blob with
  | false =>
      rw [decodeLevel_plain c debug levels blob companion s marked,
        decodeLevel_plain c debug levels blob other s marked]
  | true =>
      rw [decodeLevel_marked c debug levels blob companion s marked,
        decodeLevel_marked c debug levels blob other s marked]
      simp only [unwrapping, same]

/-- For all collaborators: a decoding makes at most three compilations and three decompilations, at
the levels given by `Reached` and in the order given by `Arranged`.  The companion does not matter
to a script with a payload of its own. -/
theorem decodeToText_arranged (c : Collaborators σ) (debug : Bool) (blob companion : Bytes)
    (s : Session σ) :
    (∃ levels : List Level,
      (decodeToText c debug blob companion s).2.calls = s.calls ++ levels.flatMap Level.calls ∧
      Answered c s.world levels (decodeToText c debug blob companion s).2.world ∧
      (levels.flatMap Level.calls).countP Call.isCompile ≤ 3 ∧
      (levels.flatMap Level.calls).countP Call.isDecompile ≤ 3 ∧
      Reached 3 blob companion levels ∧
      Arranged blob companion levels (decodeToText c debug blob companion s).1) ∧
    ∀ plain, Wrapped blob plain → ∀ other,
      decodeToText c debug blob other s = decodeToText c debug blob companion s := by
  constructor
  · obtain ⟨levels, run, calls⟩ := decodeLevel_runs c debug maxDepth blob companion s
    have few : levels.length ≤ 3 := run.length_le
    have compiles := countP_calls_le Call.isCompile Level.compile_once levels
    have decompiles := countP_calls_le Call.isDecompile Level.decompile_once levels
    exact ⟨levels, calls, run.answered, by omega, by omega, run.reached, run.arranged⟩
  · intro plain own other
    apply decodeLevel_companion
    rw [payload?_own blob other plain own, payload?_own blob companion plain own]

end Decoder

end LuaAsset
