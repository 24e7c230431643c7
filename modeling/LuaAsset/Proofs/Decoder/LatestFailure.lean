import LuaAsset.Proofs.Chunk.Decomposition
import LuaAsset.Proofs.Decoder.Arrangement
import LuaAsset.Proofs.Payload.Unwrapping

/-! # The failure that ends a decoding

A failed run ends in the answer to its last call, or in a nesting error after the third payload
(`Run.failure`).  `decodeGuarded` is `decodeLevel` with an explicit slot for the latest failure,
with headers and payloads that may fail, and with a failure of last resort; `decodeGuarded_eq` shows
that the last resort is unreachable. -/

set_option autoImplicit false

namespace LuaAsset

namespace Decoder

variable {σ : Type}

/-! ## Decoding with a slot for the latest failure -/

structure Held where
  chunk : Option Bytes
  latest : Option Failure

/-- Keeps a failure of the script; a header may be refused for its format only, and any other
failure ends the run. -/
def held (blob : Bytes) : Except Failure Bytes → Except Failure Held
  | .ok chunk => .ok ⟨some chunk, none⟩
  | .error failure =>
      if failure.kind = .unavailable then
        match Chunk.synthesize blob with
        | .ok chunk => .ok ⟨some chunk, some failure⟩
        | .error refusal =>
            if refusal.kind = .format then .ok ⟨none, some failure⟩ else .error refusal
      else if failure.kind.isScript then .ok ⟨none, some failure⟩
      else .error failure

/-- The search `payload?`, where unwrapping a candidate may fail. -/
def payloadChecked? : List Bytes → Except Failure (Option (Bytes × Bytes))
  | [] => .ok none
  | candidate :: others =>
      if candidate.isEmpty then payloadChecked? others
      else match Payload.unwrapChecked candidate with
        | .error failure => .error failure
        | .ok none => payloadChecked? others
        | .ok (some plain) =>
            if plain.isEmpty then payloadChecked? others else .ok (some (candidate, plain))

/-- The step `unwrapping`, where a missing payload raises the latest failure, or else the last
resort. -/
def unwrappingGuarded (lastResort : Failure) (debug : Bool) (depth : Nat) (blob companion : Bytes)
    (inner : Option (Bytes → Session σ → Except Failure Bytes × Session σ))
    (latest : Option Failure) (s : Session σ) : Except Failure Bytes × Session σ :=
  match payloadChecked? [blob, companion] with
  | .error failure => (.error failure, s)
  | .ok none => (.error (latest.getD lastResort), s)
  | .ok (some (candidate, plain)) =>
      let s := s.debug debug
        (text "Unwrapped payload (depth " ++ decimal depth ++ text "): " ++
          decimal candidate.length ++ text " -> " ++ decimal plain.length ++ text " bytes")
      if Chunk.hasMarker plain then
        match inner with
        | some decode => decode plain s
        | none => (.error (.nestingExceeded maxDepth), s)
      else (.ok (Utf8.decodeLossy plain), s)

def decodeMarkedGuarded (c : Collaborators σ) (debug : Bool) (depth : Nat) (blob : Bytes)
    (unwrap : Option Failure → Session σ → Except Failure Bytes × Session σ) (s : Session σ) :
    Except Failure Bytes × Session σ :=
  let (answer, s) := s.ask (.compile blob) (c.compile blob)
  let s := (compiledLines depth blob answer).foldl (fun s line => s.debug debug line) s
  match held blob answer with
  | .error failure => (.error failure, s)
  | .ok ⟨none, latest⟩ => unwrap latest s
  | .ok ⟨some chunk, _⟩ =>
      match s.ask (.decompile chunk) (c.decompile chunk) with
      | (.ok source, s) =>
          (.ok source, s.debug debug
            (text "Decoded marker blob: bytes=" ++ decimal blob.length ++ text " chunk=" ++
              decimal chunk.length ++ text " compile=" ++ Log.elapsed ++ text " decompile=" ++
              Log.elapsed))
      | (.error failure, s) =>
          if failure.kind.isScript then
            unwrap (some failure) (s.debug debug
              (text "Decompile failed (depth " ++ decimal depth ++ text "): " ++
                failure.message))
          else (.error failure, s)

def decodeGuarded (lastResort : Failure) (c : Collaborators σ) (debug : Bool) :
    Nat → Bytes → Bytes → Session σ → Except Failure Bytes × Session σ
  | levels, blob, companion, s =>
      if blob.isEmpty then (.ok [], s)
      else if !Chunk.hasMarker blob then (.ok (Utf8.decodeLossy blob), s)
      else
        let inner : Option (Bytes → Session σ → Except Failure Bytes × Session σ) :=
          match levels with
          | 0 => none
          | levels + 1 => some fun plain s => decodeGuarded lastResort c debug levels plain [] s
        decodeMarkedGuarded c debug (depthOf levels) blob
          (unwrappingGuarded lastResort debug (depthOf levels) blob companion inner) s

/-! ## The slot is filled -/

/-- Without a chunk there is a latest failure, and no refusal of a header escapes. -/
theorem held_eq (blob : Bytes) (compilation : Except Failure Bytes) :
    match compiled blob compilation with
    | .chunk chunk => ∃ latest, held blob compilation = .ok ⟨some chunk, latest⟩
    | .nothing failure => held blob compilation = .ok ⟨none, some failure⟩
    | .aborted failure => held blob compilation = .error failure := by
  cases compilation with
  | ok chunk => exact ⟨none, rfl⟩
  | error failure =>
      by_cases unavailable : failure.kind = .unavailable
      · cases header : Chunk.synthesize blob with
        | ok chunk => simp [compiled, held, unavailable, header]
        | error refusal =>
            have format := Chunk.kind_of_synthesize blob refusal header
            simp [compiled, held, unavailable, header, format]
      · cases script : failure.kind.isScript with
        | true => simp [compiled, held, unavailable, script]
        | false => simp [compiled, held, unavailable, script]

theorem payload?_front (candidate : Bytes) (others : List Bytes) :
    payload? (candidate :: others) =
      match Payload.unwrap candidate with
      | none => payload? others
      | some plain => if plain.isEmpty then payload? others else some (candidate, plain) := by
  rw [payload?, List.findSome?_cons]
  cases Payload.unwrap candidate with
  | none => rfl
  | some plain => cases plain with
    | nil => rfl
    | cons first rest => rfl

theorem payloadChecked?_eq (candidates : List Bytes) :
    payloadChecked? candidates = .ok (payload? candidates) := by
  induction candidates with
  | nil => rfl
  | cons candidate others ih =>
      rw [payloadChecked?, Payload.unwrapChecked_eq, ih, payload?_front]
      cases candidate with
      | nil => rfl
      | cons first rest =>
          rw [List.isEmpty_cons, if_neg Bool.false_ne_true]
          cases Payload.unwrap (first :: rest) with
          | none => rfl
          | some plain => cases plain with
            | nil => rfl
            | cons c plain => rfl

theorem unwrappingGuarded_eq (lastResort failure : Failure) (debug : Bool) (depth : Nat)
    (blob companion : Bytes)
    (inner : Option (Bytes → Session σ → Except Failure Bytes × Session σ)) (s : Session σ) :
    unwrappingGuarded lastResort debug depth blob companion inner (some failure) s =
      unwrapping debug depth blob companion failure inner s := by
  rw [unwrappingGuarded, payloadChecked?_eq, unwrapping]
  cases payload? [blob, companion] with
  | none => rfl
  | some found => rfl

theorem decodeMarkedGuarded_eq (c : Collaborators σ) (debug : Bool) (depth : Nat) (blob : Bytes)
    (unwrap : Option Failure → Session σ → Except Failure Bytes × Session σ) (s : Session σ) :
    decodeMarkedGuarded c debug depth blob unwrap s =
      decodeMarked c debug depth blob (fun failure s => unwrap (some failure) s) s := by
  have slot := held_eq blob (c.compile blob s.world).outcome
  simp only [decodeMarkedGuarded, decodeMarked, Session.ask]
  cases found : compiled blob (c.compile blob s.world).outcome with
  | chunk chunk =>
      -- whatever the slot holds, the decompilation either overwrites it or ends the run
      rw [found] at slot
      obtain ⟨latest, slot⟩ := slot
      generalize held blob (c.compile blob s.world).outcome = outcome at slot ⊢
      subst slot
      rfl
  | nothing failure =>
      rw [found] at slot
      rw [slot]
  | aborted failure =>
      rw [found] at slot
      rw [slot]

/-- The last resort is unreachable, and only the calls fail. -/
theorem decodeGuarded_eq (lastResort : Failure) (c : Collaborators σ) (debug : Bool)
    (levels : Nat) : ∀ (blob companion : Bytes) (s : Session σ),
      decodeGuarded lastResort c debug levels blob companion s =
        decodeLevel c debug levels blob companion s := by
  induction levels with
  | zero =>
      intro blob companion s
      rw [decodeGuarded.eq_def, decodeLevel.eq_def]
      simp only [decodeMarkedGuarded_eq, unwrappingGuarded_eq]
  | succ levels ih =>
      intro blob companion s
      rw [decodeGuarded.eq_def, decodeLevel.eq_def]
      simp only [decodeMarkedGuarded_eq, unwrappingGuarded_eq, ih]

/-! ## The answer to the last call -/

/-- All levels were used, and the last payload is an encoded script. -/
def Spent (left : Nat) (blob companion : Bytes) (levels : List Level) : Prop :=
  levels.length = left ∧ ∃ plain, Chunk.hasMarker plain = true ∧
    match levels.getLast? with
    | none => plain = blob
    | some last => Wrapped last.blob plain ∨ (left = 1 ∧ Wrapped companion plain)

theorem Spent.cons {left : Nat} {blob companion plain candidate : Bytes} {level : Level}
    {rest : List Level} (asked : level.blob = blob)
    (found : payload? [blob, companion] = some (candidate, plain))
    (spent : Spent left plain [] rest) : Spent (left + 1) blob companion (level :: rest) := by
  obtain ⟨count, inner, marked, held⟩ := spent
  refine ⟨by rw [List.length_cons, count], inner, marked, ?_⟩
  cases rest with
  | nil =>
      cases held
      obtain own | ⟨_, other⟩ := wrapped_of_payload? _ _ _ _ found
      · exact .inl (asked ▸ own)
      · exact .inr ⟨by rw [← count]; rfl, other⟩
  | cons next rest =>
      rw [List.getLast?_cons_cons]
      cases final : (next :: rest).getLast? with
      | none => simp at final
      | some last =>
          rw [final] at held
          obtain own | ⟨_, other⟩ := held
          · exact .inl own
          -- below the first level there is no companion to find a payload in
          · exact absurd other (not_wrapped_nil _)

def EndsWith (levels : List Level) (failure : Failure) : Prop :=
  ∃ last, levels.getLast? = some last ∧ last.answer = .error failure

/-- A failed run ends in the answer to its last call, or has `Spent` its levels. -/
theorem Run.failure {c : Collaborators σ} {left : Nat} {blob companion : Bytes} {w after : σ}
    {levels : List Level} {outcome : Except Failure Bytes}
    (run : Run c left blob companion w levels outcome after) :
    ∀ failure, outcome = .error failure →
      EndsWith levels failure ∨
        (failure = .nestingExceeded maxDepth ∧ Spent left blob companion levels) := by
  induction run with
  | plain _ =>
      intro failure raised
      cases raised
  | tooDeep marked =>
      intro failure raised
      cases raised
      exact .inr ⟨rfl, rfl, _, marked, rfl⟩
  | decompiled =>
      intro failure raised
      cases raised
  | aborted _ _ answer _ =>
      intro failure raised
      cases raised
      exact .inl ⟨_, rfl, answer⟩
  | exhausted _ _ answer _ _ =>
      intro failure raised
      cases raised
      exact .inl ⟨_, rfl, answer⟩
  | @deeper _ _ _ _ _ _ _ _ _ _ rest _ _ attempt _ _ found _ ih =>
      -- what this level was answered is forgotten once a later one makes a call
      intro failure raised
      obtain ⟨last, final, answer⟩ | ⟨same, spent⟩ := ih failure raised
      · refine .inl ⟨last, ?_, answer⟩
        cases rest with
        | nil => cases final
        | cons next rest => rw [List.getLast?_cons_cons, final]
      · exact .inr ⟨same, spent.cons attempt.asked found⟩

theorem Spent.third {blob companion : Bytes} {levels : List Level}
    (spent : Spent 3 blob companion levels) :
    levels.length = 3 ∧ ∃ third plain, levels[2]? = some third ∧ Wrapped third.blob plain ∧
      Chunk.hasMarker plain = true := by
  obtain ⟨count, plain, marked, held⟩ := spent
  refine ⟨count, ?_⟩
  rw [List.getLast?_eq_getElem?, count] at held
  cases last : levels[2]? with
  | none =>
      rw [List.getElem?_eq_none_iff] at last
      omega
  | some third =>
      rw [last] at held
      obtain own | ⟨impossible, _⟩ := held
      · exact ⟨third, plain, rfl, own, marked⟩
      · cases impossible

/-- For all collaborators: decoding fails with the answer to the last call of the run, or because
the third payload was an encoded script again.  It never fails with the last resort, a refused
header or a cipher failure. -/
theorem decodeToText_failure (c : Collaborators σ) (debug : Bool) (blob companion : Bytes)
    (s : Session σ) :
    (∃ levels : List Level,
      (decodeToText c debug blob companion s).2.calls = s.calls ++ levels.flatMap Level.calls ∧
      Answered c s.world levels (decodeToText c debug blob companion s).2.world ∧
      Arranged blob companion levels (decodeToText c debug blob companion s).1 ∧
      ∀ failure, (decodeToText c debug blob companion s).1 = .error failure →
        (∃ last, levels.getLast? = some last ∧ last.answer = .error failure) ∨
          (failure = .nestingExceeded maxDepth ∧ levels.length = 3 ∧
            ∃ third plain, levels[2]? = some third ∧ Wrapped third.blob plain ∧
              Chunk.hasMarker plain = true)) ∧
    ∀ lastResort,
      decodeGuarded lastResort c debug maxDepth blob companion s =
        decodeToText c debug blob companion s := by
  constructor
  · obtain ⟨levels, run, calls⟩ := decodeLevel_runs c debug maxDepth blob companion s
    refine ⟨levels, calls, run.answered, run.arranged, ?_⟩
    intro failure raised
    obtain ends | ⟨same, spent⟩ := run.failure failure raised
    · exact .inl ends
    · exact .inr ⟨same, spent.third⟩
  · intro lastResort
    exact decodeGuarded_eq lastResort c debug maxDepth blob companion s

end Decoder

end LuaAsset
