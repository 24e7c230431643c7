import LuaAsset.Proofs.Decoder.LatestFailure

/-! # Every asset has a text

A failed decoding is survived if the failures of the collaborators are survivable
(`decodeToText_survivable`), and the raw bytes take the place of the source.  Reading records
survives format failures only; `parseGuarded` lets every other failure of every step escape, and
`parseRecords_total` shows that none does. -/

set_option autoImplicit false

namespace LuaAsset

/-! ## Records -/

theorem kind_of_decodeLiteral {s : Bytes} {failure : Failure}
    (failed : decodeLiteral s = .error failure) : failure.kind = .format := by
  unfold decodeLiteral at failed
  split at failed
  · cases failed
  · cases failed
    rfl

/-- The records of a text, where reading a snippet may also fail in other ways than its format. -/
def recordsChecked (s : Bytes) : Except Failure (List Value) :=
  (snippets s).foldr
    (fun snippet later =>
      match decodeLiteral snippet with
      | .ok value => later.map (value :: ·)
      | .error failure => if failure.kind = .format then later else .error failure)
    (.ok [])

theorem recordsChecked_eq (s : Bytes) : recordsChecked s = .ok (records s) := by
  unfold recordsChecked records
  induction snippets s with
  | nil => rfl
  | cons snippet later ih =>
      rw [List.foldr_cons, ih, List.filterMap_cons]
      cases read : decodeLiteral snippet with
      | ok value => rfl
      | error failure =>
          dsimp only
          rw [if_pos (kind_of_decodeLiteral read)]
          rfl

namespace Decoder

variable {σ : Type}

/-! ## Survivable failures -/

structure Survivable (c : Collaborators σ) : Prop where
  compile : ∀ blob w failure, (c.compile blob w).outcome = .error failure →
    failure.kind.isSurvivable = true
  decompile : ∀ chunk w failure, (c.decompile chunk w).outcome = .error failure →
    failure.kind.isSurvivable = true

theorem Level.Answered.survivable {c : Collaborators σ} (survivable : Survivable c) {w after : σ}
    {level : Level} (answered : level.Answered c w after) {failure : Failure}
    (failed : level.answer = .error failure) : failure.kind.isSurvivable = true := by
  cases answered with
  | compiled blob => exact survivable.compile blob w failure failed
  | decompiled blob chunk => exact survivable.decompile chunk _ failure failed

theorem Answered.survivable {c : Collaborators σ} (survivable : Survivable c) {w after : σ}
    {levels : List Level} (answered : Answered c w levels after) :
    ∀ level ∈ levels, ∀ failure, level.answer = .error failure →
      failure.kind.isSurvivable = true := by
  induction answered with
  | nil w =>
      intro level member
      cases member
  | cons first _ ih =>
      intro level member failure failed
      obtain rfl | later := List.mem_cons.mp member
      · exact first.survivable survivable failed
      · exact ih level later failure failed

theorem decodeToText_survivable (c : Collaborators σ) (survivable : Survivable c) (debug : Bool)
    (blob companion : Bytes) (s : Session σ) {failure : Failure}
    (failed : (decodeToText c debug blob companion s).1 = .error failure) :
    failure.kind.isSurvivable = true := by
  -- the failure is the answer to the last call, or there was no room for one more level
  obtain ⟨levels, run, _⟩ := decodeLevel_runs c debug maxDepth blob companion s
  obtain ⟨last, final, answer⟩ | ⟨rfl, _⟩ := run.failure failure failed
  · exact run.answered.survivable survivable last (List.mem_of_getLast? final) failure answer
  · rfl

/-! ## The text of an asset -/

theorem textFromAsset_plain (c : Collaborators σ) (debug : Bool) (blob companion : Bytes)
    (s : Session σ) (plain : Chunk.hasMarker blob = false) :
    textFromAsset c debug blob companion s = (.ok (Utf8.decodeLossy blob), s) := by
  rw [textFromAsset, plain]
  rfl

/-- The text of an encoded script is its source, or its bytes where decoding fails survivably. -/
theorem textFromAsset_marked (c : Collaborators σ) (debug : Bool) (blob companion : Bytes)
    (s : Session σ) (marked : Chunk.hasMarker blob = true)
    (survived : ∀ failure, (decodeToText c debug blob companion s).1 = .error failure →
      failure.kind.isSurvivable = true) :
    ∃ source after, textFromAsset c debug blob companion s = (.ok source, after) ∧
      (∀ text, (decodeToText c debug blob companion s).1 = .ok text → source = text) ∧
      (∀ failure, (decodeToText c debug blob companion s).1 = .error failure →
        source = Utf8.decodeLossy blob) ∧
      after.calls = (decodeToText c debug blob companion s).2.calls ∧
      after.world = (decodeToText c debug blob companion s).2.world := by
  rw [textFromAsset, if_pos marked]
  generalize decodeToText c debug blob companion s = result at survived ⊢
  obtain ⟨outcome, t⟩ := result
  cases outcome with
  | ok source =>
      refine ⟨source, t, rfl, ?_, ?_, rfl, rfl⟩
      · rintro text ⟨⟩
        rfl
      · rintro failure ⟨⟩
  | error failure =>
      dsimp only
      rw [if_pos (survived failure rfl)]
      refine ⟨_, _, rfl, ?_, fun _ _ => rfl, Session.debug_calls t debug _,
        Session.debug_world t debug _⟩
      rintro text ⟨⟩

/-- Reading records (`parseRecords`) with failing steps: each step may fail in its own ways, and
only what the program catches is caught. -/
def parseGuarded (lastResort : Failure) (c : Collaborators σ) (debug : Bool)
    (blob companion : Bytes) (s : Session σ) : Except Failure (List Value) × Session σ :=
  if Chunk.hasMarker blob then
    match decodeGuarded lastResort c debug maxDepth blob companion s with
    | (.ok source, s) => (recordsChecked source, s)
    | (.error failure, s) =>
        if failure.kind.isSurvivable then
          (recordsChecked (Utf8.decodeLossy blob),
            s.debug debug (text "Falling back to raw text: " ++ failure.message))
        else (.error failure, s)
  else (recordsChecked (Utf8.decodeLossy blob), s)

theorem parseGuarded_eq (lastResort : Failure) (c : Collaborators σ) (debug : Bool)
    (blob companion : Bytes) (s : Session σ) :
    parseGuarded lastResort c debug blob companion s = parseRecords c debug blob companion s := by
  rw [parseGuarded, parseRecords, textFromAsset, decodeGuarded_eq, ← decodeToText]
  simp only [recordsChecked_eq]
  cases Chunk.hasMarker blob with
  | false => rfl
  | true =>
      rw [if_pos rfl, if_pos rfl]
      obtain ⟨outcome, t⟩ := decodeToText c debug blob companion s
      cases outcome with
      | ok source => rfl
      | error failure =>
          dsimp only
          cases failure.kind.isSurvivable with
          | true => rfl
          | false => rfl

/-- If all failures of the collaborators are survivable, every asset has a text and records: the
text is the decoded source, or the raw bytes on a failure, and the records are those of the text.
An asset without the marker makes no calls, only decoding makes calls, and no other failure escapes.
-/
theorem parseRecords_total (c : Collaborators σ) (debug : Bool) (blob companion : Bytes)
    (s : Session σ) (survivable : Survivable c) :
    ∃ source after,
      textFromAsset c debug blob companion s = (.ok source, after) ∧
      parseRecords c debug blob companion s = (.ok (records source), after) ∧
      (∀ text, (decodeToText c debug blob companion s).1 = .ok text → source = text) ∧
      (∀ failure, (decodeToText c debug blob companion s).1 = .error failure →
        source = Utf8.decodeLossy blob) ∧
      after.calls = (decodeToText c debug blob companion s).2.calls ∧
      after.world = (decodeToText c debug blob companion s).2.world ∧
      (Chunk.hasMarker blob = false → after = s) ∧
      ∀ lastResort,
        parseGuarded lastResort c debug blob companion s = (.ok (records source), after) := by
  have parsed : ∀ {source after}, textFromAsset c debug blob companion s = (.ok source, after) →
      parseRecords c debug blob companion s = (.ok (records source), after) := by
    intro source after found
    rw [parseRecords, found]
    rfl
  simp only [parseGuarded_eq]
  cases marked : Chunk.hasMarker blob with
  | false =>
      have found := textFromAsset_plain c debug blob companion s marked
      have decoded : decodeToText c debug blob companion s = (.ok (Utf8.decodeLossy blob), s) :=
        decodeLevel_plain c debug maxDepth blob companion s marked
      rw [decoded]
      refine ⟨_, s, found, parsed found, ?_, ?_, rfl, rfl, fun _ => rfl, fun _ => parsed found⟩
      · rintro text ⟨⟩
        rfl
      · rintro failure ⟨⟩
  | true =>
      obtain ⟨source, after, found, decoded, failed, calls, world⟩ :=
        textFromAsset_marked c debug blob companion s marked fun failure =>
          decodeToText_survivable c survivable debug blob companion s
      exact ⟨source, after, found, parsed found, decoded, failed, calls, world,
        fun plain => absurd plain (by decide), fun _ => parsed found⟩

def unwritable : Collaborators Unit where
  compile blob w := ⟨.ok blob, w, []⟩
  extract _ _ w := ⟨.error (.notConfigured []), w, []⟩
  decompile _ w := ⟨.error (.temporaryFailed []), w, []⟩
  dump _ _ w := ⟨.error (.notConfigured []), w, []⟩

theorem parseRecords_total_unwritable :
    Survivable unwritable ∧
      (parseRecords unwritable false (text "*\x7bid=7\x7d") [] (.ofWorld ())).1 =
        .ok (records (text "*\x7bid=7\x7d")) := by
  have survivable : Survivable unwritable := by
    constructor
    · rintro blob w failure ⟨⟩
    · rintro chunk w failure ⟨⟩
      rfl
  obtain ⟨source, after, _, parsed, _, failed, _⟩ :=
    parseRecords_total unwritable false (text "*\x7bid=7\x7d") [] (.ofWorld ()) survivable
  have raw : Utf8.decodeLossy (text "*\x7bid=7\x7d") = text "*\x7bid=7\x7d" := by decide
  rw [parsed, failed (.temporaryFailed []) rfl, raw]
  exact ⟨survivable, rfl⟩

end Decoder

end LuaAsset
