import LuaAsset.Proofs.Decoder.Arrangement
import LuaAsset.Proofs.Payload.RoundTrip

/-! # Scripts wrapped in scripts

With collaborators that refuse everything, each level removes one layer of wrapping
(`decodeLevel_refused`, `decodeLevel_layered`). -/

set_option autoImplicit false

namespace LuaAsset

namespace Payload

open Cipher

theorem unwrap_wrapped (plain lead : Bytes) (nonempty : plain ≠ []) (small : plain.length < 2 ^ 32)
    (absent : ¬signature <:+: lead) : unwrap (wrapped plain lead) = some plain := by
  have filled : padded plain ≠ [] := by
    intro empty
    have long := length_padded_of_ne plain nonempty
    rw [empty] at long
    cases long
  have written := wrapped_append plain lead []
  rw [List.append_nil] at written
  rw [written, unwrap_behind_signature lead _ absent, opened_written plain [] small,
    if_neg fun both => filled both.1]

theorem length_wrapped (plain lead : Bytes) :
    (wrapped plain lead).length = lead.length + 12 + (plain.length + 7) / 8 * 8 := by
  have full : (padded plain).length = (plain.length + 7) / 8 * 8 := by
    simp only [padded, blockSize, List.length_append, List.length_replicate]
    omega
  simp only [wrapped, framed, List.length_append, length_signature, length_littleEndian32,
    length_blocks _ _ (length_padded plain), full]

/-- A text wrapped in scripts, each the payload of the one around it. -/
def layered : Nat → Bytes → Bytes
  | 0, plain => plain
  | layers + 1, plain => wrapped (layered layers plain) [Chunk.marker]

theorem hasMarker_layered (layers : Nat) (plain : Bytes) :
    Chunk.hasMarker (layered (layers + 1) plain) = true := rfl

theorem layered_ne_nil (layers : Nat) (plain : Bytes) (nonempty : plain ≠ []) :
    layered layers plain ≠ [] := by
  cases layers with
  | zero => exact nonempty
  | succ layers =>
      intro empty
      have marked := hasMarker_layered layers plain
      rw [empty] at marked
      cases marked

theorem unwrap_layered (layers : Nat) (plain : Bytes) (nonempty : plain ≠ [])
    (small : (layered layers plain).length < 2 ^ 32) :
    unwrap (layered (layers + 1) plain) = some (layered layers plain) :=
  unwrap_wrapped _ _ (layered_ne_nil layers plain nonempty) small (by decide)

end Payload

namespace Decoder

open Payload (layered hasMarker_layered layered_ne_nil unwrap_layered)

variable {σ : Type}

structure Refusing (c : Collaborators σ) : Prop where
  compile : ∀ blob w, ∃ failure, (c.compile blob w).outcome = .error failure ∧
    failure.kind.isScript = true
  decompile : ∀ chunk w, ∃ failure, (c.decompile chunk w).outcome = .error failure ∧
    failure.kind.isScript = true

theorem Attempt.refused {c : Collaborators σ} {blob : Bytes} {w after : σ} {level : Level}
    (attempt : Attempt c blob w level after) (refusing : Refusing c) :
    ∃ failure, level.answer = .error failure ∧ failure.kind.isScript = true := by
  cases attempt.answered with
  | compiled blob w => exact refusing.compile blob w
  | decompiled blob chunk w => exact refusing.decompile chunk _

theorem Level.one_compile (level : Level) : level.calls.countP Call.isCompile = 1 := by
  obtain ⟨blob, compilation, decompilation⟩ := level
  cases decompilation with
  | none => rfl
  | some asked => rfl

theorem decodeLevel_refused (c : Collaborators σ) (refusing : Refusing c) (debug : Bool)
    (levels : Nat) (blob companion candidate plain : Bytes) (s : Session σ)
    (marked : Chunk.hasMarker blob = true)
    (found : payload? [blob, companion] = some (candidate, plain)) :
    ∃ made t, t.calls = s.calls ++ made ∧ made.countP Call.isCompile = 1 ∧
      decodeLevel c debug levels blob companion s =
        if Chunk.hasMarker plain then
          match levelsBelow c debug levels with
          | some decode => decode plain t
          | none => (.error (.nestingExceeded maxDepth), t)
        else (.ok (Utf8.decodeLossy plain), t) := by
  rw [decodeLevel_marked c debug levels blob companion s marked, decodeMarked_eq_attempted]
  obtain ⟨level, attempt, answer, calls⟩ :=
    attempted_attempt c debug (depthOf levels) blob s
  obtain ⟨failure, refused, script⟩ := attempt.refused refusing
  generalize attempted c debug (depthOf levels) blob s = result at answer calls ⊢
  obtain ⟨outcome, after⟩ := result
  rw [refused] at answer
  cases answer
  dsimp only
  rw [if_pos script, unwrapping, found]
  refine ⟨level.calls, after.debug debug _, ?_, level.one_compile, rfl⟩
  rw [Session.debug_calls]
  exact calls

theorem decodeLevel_layer (c : Collaborators σ) (refusing : Refusing c) (debug : Bool)
    (levels layers : Nat) (plain companion : Bytes) (s : Session σ) (nonempty : plain ≠ [])
    (small : (layered layers plain).length < 2 ^ 32) :
    ∃ made t, t.calls = s.calls ++ made ∧ made.countP Call.isCompile = 1 ∧
      decodeLevel c debug levels (layered (layers + 1) plain) companion s =
        if Chunk.hasMarker (layered layers plain) then
          match levelsBelow c debug levels with
          | some decode => decode (layered layers plain) t
          | none => (.error (.nestingExceeded maxDepth), t)
        else (.ok (Utf8.decodeLossy (layered layers plain)), t) := by
  have own : Wrapped (layered (layers + 1) plain) (layered layers plain) :=
    ⟨unwrap_layered layers plain nonempty small, layered_ne_nil layers plain nonempty⟩
  exact decodeLevel_refused c refusing debug levels _ companion _ _ s
    (hasMarker_layered layers plain) (payload?_own _ companion _ own)

/-- Each level removes one layer. -/
theorem decodeLevel_layered (c : Collaborators σ) (refusing : Refusing c) (debug : Bool)
    (plain : Bytes) (nonempty : plain ≠ []) (unmarked : Chunk.hasMarker plain = false)
    (levels : Nat) : ∀ (layers : Nat) (companion : Bytes) (s : Session σ),
      (∀ k ≤ layers, (layered k plain).length < 2 ^ 32) →
      ∃ made,
        (decodeLevel c debug levels (layered (layers + 1) plain) companion s).2.calls =
          s.calls ++ made ∧
        made.countP Call.isCompile = min (layers + 1) (levels + 1) ∧
        (decodeLevel c debug levels (layered (layers + 1) plain) companion s).1 =
          if layers ≤ levels then .ok (Utf8.decodeLossy plain)
          else .error (.nestingExceeded maxDepth) := by
  -- The next level has no companion, so the hypothesis is for every one.
  induction levels with
  | zero =>
      intro layers companion s small
      obtain ⟨made, t, calls, once, result⟩ := decodeLevel_layer c refusing debug 0 layers plain
        companion s nonempty (small layers (Nat.le_refl _))
      rw [result]
      refine ⟨made, ?_⟩
      cases layers with
      | zero =>
          rw [layered, unmarked]
          exact ⟨calls, once, rfl⟩
      | succ layers =>
          rw [hasMarker_layered]
          refine ⟨calls, ?_, rfl⟩
          rw [once]
          omega
  | succ levels ih =>
      intro layers companion s small
      obtain ⟨made, t, calls, once, result⟩ := decodeLevel_layer c refusing debug (levels + 1)
        layers plain companion s nonempty (small layers (Nat.le_refl _))
      rw [result]
      cases layers with
      | zero =>
          rw [layered, unmarked]
          refine ⟨made, calls, ?_, rfl⟩
          rw [once]
          omega
      | succ layers =>
          obtain ⟨more, later, count, outcome⟩ :=
            ih layers [] t fun k fits => small k (Nat.le_succ_of_le fits)
          rw [hasMarker_layered, if_pos rfl]
          refine ⟨made ++ more, ?_, ?_, ?_⟩
          · rw [← List.append_assoc, ← calls]
            exact later
          · rw [List.countP_append, once, count]
            omega
          · simp only [levelsBelow, outcome, Nat.succ_le_succ_iff]

/-- With collaborators that refuse everything, a text under up to three layers of `wrap` is decoded,
with one compilation per layer; under more layers three compilations are made and the nesting limit
is reported. -/
theorem decodeToText_layered (c : Collaborators σ) (debug : Bool) (plain companion : Bytes)
    (layers : Nat) (s : Session σ) (refusing : Refusing c) (nonempty : plain ≠ [])
    (unmarked : plain.head? ≠ some Chunk.marker) (wrapped : 1 ≤ layers)
    (small : ∀ k < layers, (layered k plain).length < 2 ^ 32) :
    (∀ k < layers, Payload.wrap (layered k plain) [Chunk.marker] = .ok (layered (k + 1) plain)) ∧
    ∃ made,
      (decodeToText c debug (layered layers plain) companion s).2.calls = s.calls ++ made ∧
      (layers ≤ 3 →
        (decodeToText c debug (layered layers plain) companion s).1 =
            .ok (Utf8.decodeLossy plain) ∧
          made.countP Call.isCompile = layers) ∧
      (4 ≤ layers →
        (∃ failure, failure.kind = .format ∧
          (decodeToText c debug (layered layers plain) companion s).1 = .error failure) ∧
          made.countP Call.isCompile = 3) := by
  have plainText : Chunk.hasMarker plain = false := beq_eq_false_iff_ne.mpr unmarked
  obtain ⟨inner, rfl⟩ : ∃ inner, layers = inner + 1 := ⟨layers - 1, by omega⟩
  obtain ⟨made, calls, count, outcome⟩ := decodeLevel_layered c refusing debug plain nonempty
    plainText maxDepth inner companion s fun k fits => small k (Nat.lt_succ_of_le fits)
  have bound : maxDepth = 2 := rfl
  refine ⟨fun k fits => if_pos (small k fits), made, calls, ?_, ?_⟩
  · intro few
    rw [decodeToText, outcome, count, if_pos (by omega)]
    exact ⟨rfl, by omega⟩
  · intro many
    rw [decodeToText, outcome, count, if_neg (by omega)]
    exact ⟨⟨_, rfl, rfl⟩, by omega⟩

def refusals : Collaborators Unit where
  compile _ w := ⟨.error (.notConfigured []), w, []⟩
  extract _ _ w := ⟨.error (.notConfigured []), w, []⟩
  decompile _ w := ⟨.error (.decompilerFailed 1 []), w, []⟩
  dump _ _ w := ⟨.error (.interpreterFailed 1 []), w, []⟩

theorem decodeToText_layered_three_and_four :
    Refusing refusals ∧ text "return 42" ≠ [] ∧
      (text "return 42").head? ≠ some Chunk.marker ∧
      (∀ k < 4, (layered k (text "return 42")).length < 2 ^ 32) ∧
      (decodeToText refusals false (layered 3 (text "return 42")) [] (.ofWorld ())).1 =
        .ok (text "return 42") ∧
      ∃ failure, failure.kind = .format ∧
        (decodeToText refusals false (layered 4 (text "return 42")) [] (.ofWorld ())).1 =
          .error failure := by
  have refusing : Refusing refusals := ⟨fun _ _ => ⟨_, rfl, rfl⟩, fun _ _ => ⟨_, rfl, rfl⟩⟩
  have nonempty : text "return 42" ≠ [] := by decide
  have unmarked : (text "return 42").head? ≠ some Chunk.marker := by decide
  have nine : (text "return 42").length = 9 := by decide
  have small : ∀ k < 4, (layered k (text "return 42")).length < 2 ^ 32 := by
    intro k few
    obtain rfl | rfl | rfl | rfl : k = 0 ∨ k = 1 ∨ k = 2 ∨ k = 3 := by omega
    all_goals simp [layered, Payload.length_wrapped, nine]
  obtain ⟨_, _, _, three, _⟩ := decodeToText_layered refusals false (text "return 42") [] 3
    (.ofWorld ()) refusing nonempty unmarked (by decide) fun k fits => small k (by omega)
  obtain ⟨_, _, _, _, four⟩ := decodeToText_layered refusals false (text "return 42") [] 4
    (.ofWorld ()) refusing nonempty unmarked (by decide) small
  have kept : Utf8.decodeLossy (text "return 42") = text "return 42" := by decide
  exact ⟨refusing, nonempty, unmarked, small, kept ▸ (three (by decide)).1, (four (by decide)).1⟩

end Decoder

end LuaAsset
