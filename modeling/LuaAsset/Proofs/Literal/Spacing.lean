import LuaAsset.Proofs.Literal.Layout
import LuaAsset.Proofs.Literal.Listing

/-! # Spacing is insignificant

Readers act alike on two layouts of the same tokens (`Even`), so a literal keeps its value under any
gaps (`decodeLiteral_spaced`).  The exception is a comment between a name and its equals sign
(`decodeLiteral_commented`). -/

set_option autoImplicit false

namespace LuaAsset

namespace Literal

section

variable {f g : Piece → Bytes} {ps : List Piece}

structure Even (f g : Piece → Bytes) (value : ValueReader) : Prop where
  skips : ∀ {s s' : Bytes}, skipBlanks s = skipBlanks s' → value s = value s'
  reads : ∀ {ps : List Piece} {v : Value} {rest : Bytes}, Laid f ps → Laid g ps →
    value (solid f ps) = .ok (v, rest) →
    ∃ ps', ps' <:+ ps ∧ rest = layout f ps' ∧ value (solid g ps) = .ok (v, layout g ps')

theorem Even.layout {value : ValueReader} (even : Even f g value) {v : Value} {rest : Bytes}
    (laid : Laid f ps) (laid' : Laid g ps) (read : value (layout f ps) = .ok (v, rest)) :
    ∃ ps', ps' <:+ ps ∧ rest = layout f ps' ∧ value (layout g ps) = .ok (v, layout g ps') := by
  have first := even.skips (laid.skipBlanks.trans (skipBlanks_solid f ps).symm)
  have second := even.skips (laid'.skipBlanks.trans (skipBlanks_solid g ps).symm)
  rw [first] at read
  rw [second]
  exact even.reads laid laid' read

theorem even_readWith {table : ValueReader}
    (tables : ∀ {ps : List Piece} {v : Value} {rest : Bytes}, Laid f ps → Laid g ps →
      table (Ascii.openBrace :: layout f ps) = .ok (v, rest) →
      ∃ ps', ps' <:+ ps ∧ rest = layout f ps' ∧
        table (Ascii.openBrace :: layout g ps) = .ok (v, layout g ps')) :
    Even f g (readWith table) where
  skips {s s'} same := by rw [readWith, readWith, same]
  reads {ps v rest} laid laid' read := by
    cases ps with
    | nil => cases read
    | cons p ps =>
        obtain ⟨brace, inner⟩ | ⟨rfl, again⟩ := Token.readWith_ok laid.apart read
        · obtain ⟨ps', suffix, left, read'⟩ := tables laid.tail laid'.tail inner
          refine ⟨ps', suffix.trans (List.suffix_cons p ps), left, ?_⟩
          rw [solid, brace, List.singleton_append, readWith_brace, read']
        · exact ⟨ps, List.suffix_cons p ps, rfl, again _ laid'.apart⟩

/-! ## Fields -/

theorem Laid.mark_both {c : UInt8} {s : Bytes} (laid : Laid f ps) (laid' : Laid g ps)
    (skipped : Literal.skipBlanks (Literal.layout f ps) = .ok (c :: s)) (mark : c ∈ marks) :
    ∃ ps', ps' <:+ ps ∧ ps'.length < ps.length ∧ s = Literal.layout f ps' ∧
      Literal.skipBlanks (Literal.layout g ps) = .ok (c :: Literal.layout g ps') := by
  obtain ⟨p, ps', rfl, text, rfl⟩ := laid.mark skipped mark
  exact ⟨ps', List.suffix_cons p ps', Nat.lt_succ_self _, rfl, laid'.skipBlanks_mark text⟩

theorem FieldRead.even {value : ValueReader} (even : Even f g value) {t t' : TableDraft}
    {rest : Bytes} (laid : Laid f ps) (laid' : Laid g ps)
    (field : FieldRead value t (solid f ps) t' rest) :
    ∃ ps', ps' <:+ ps ∧ rest = Literal.layout f ps' ∧
      FieldRead value t (solid g ps) t' (Literal.layout g ps') := by
  have keys : OpensKey (solid g ps) ↔ OpensKey (solid f ps) :=
    (opensKey_iff laid').trans (opensKey_iff laid).symm
  have names : OpensName (solid g ps) ↔ OpensName (solid f ps) :=
    (opensName_iff laid').trans (opensName_iff laid).symm
  cases field with
  | keyed opens readKey closed assigned read something =>
      obtain ⟨p, ps, rfl, bracket⟩ := (opensKey_iff laid).mp opens
      have inner : ∀ gap, (solid gap (p :: ps)).drop 1 = Literal.layout gap ps := by
        intro gap
        rw [solid, bracket]
        rfl
      rw [inner] at readKey
      obtain ⟨ps₁, suffix₁, rfl, readKey'⟩ := even.layout laid.tail laid'.tail readKey
      have laid₁ := laid.tail.suffix suffix₁
      have laid₁' := laid'.tail.suffix suffix₁
      obtain ⟨ps₂, suffix₂, _, rfl, closed'⟩ := laid₁.mark_both laid₁' closed (by decide)
      have laid₂ := laid₁.suffix suffix₂
      have laid₂' := laid₁'.suffix suffix₂
      obtain ⟨ps₃, suffix₃, _, rfl, assigned'⟩ := laid₂.mark_both laid₂' assigned (by decide)
      obtain ⟨ps₄, suffix₄, left, read'⟩ :=
        even.layout (laid₂.suffix suffix₃) (laid₂'.suffix suffix₃) read
      have suffix := ((suffix₄.trans suffix₃).trans suffix₂).trans suffix₁
      rw [← inner g] at readKey'
      exact ⟨ps₄, suffix.trans (List.suffix_cons p ps), left,
        .keyed (keys.mpr opens) readKey' closed' assigned' read' something⟩
  | named bare opens assigned read =>
      obtain ⟨p, q, ps, rfl, isName, equals⟩ := (opensName_iff laid).mp opens
      obtain ⟨name, isToken⟩ := Token.exists_name isName
      have word : ∀ {gap : Piece → Bytes}, Laid gap (p :: q :: ps) →
          (solid gap (p :: q :: ps)).takeWhile isNameByte = name.bytes ∧
            (solid gap (p :: q :: ps)).dropWhile isNameByte = Literal.layout gap (q :: ps) := by
        intro gap laid
        have apart := laid.apart
        rw [isToken] at apart
        rw [solid, isToken]
        exact span_append name.forall_nameByte apart
      rw [(word laid).2, laid.tail.skipBlanks_mark equals] at assigned
      cases assigned
      obtain ⟨ps', suffix, left, read'⟩ := even.layout laid.tail.tail laid'.tail.tail read
      have assigned' : skipBlanks ((solid g (p :: q :: ps)).dropWhile isNameByte) =
          .ok (Ascii.equals :: Literal.layout g ps) := by
        rw [(word laid').2, laid'.tail.skipBlanks_mark equals]
      have field : FieldRead value t (solid g (p :: q :: ps)) _ _ :=
        .named (fun opens => bare (keys.mp opens)) (names.mpr opens) assigned' read'
      rw [(word laid').1] at field
      rw [(word laid).1]
      exact ⟨ps', suffix.trans (List.suffix_append [p, q] ps), left, field⟩
  | positional bare nameless read =>
      obtain ⟨ps', suffix, left, read'⟩ := even.reads laid laid' read
      exact ⟨ps', suffix, left, .positional (fun opens => bare (keys.mp opens))
        (fun opens => nameless (names.mp opens)) read'⟩

theorem solid_cons {c : UInt8} {more : Bytes} (starts : solid f ps = c :: more) (g : Piece → Bytes) :
    ∃ more', solid g ps = c :: more' := by
  cases ps with
  | nil => cases starts
  | cons p ps =>
      obtain ⟨d, later, head⟩ := p.token.exists_head
      rw [solid, head.text, List.cons_append] at starts
      obtain ⟨rfl, _⟩ := List.cons.inj starts
      exact ⟨later ++ Literal.layout g ps, by rw [solid, head.text, List.cons_append]⟩

/-! ## Tables -/

/-- Rounds over one layout correspond to rounds over the other, as each takes at least one token. -/
theorem FieldsRead.even {value : ValueReader} (even : Even f g value) {n : Nat} {t : TableDraft}
    {s rest : Bytes} {v : Value} (rounds : FieldsRead value n t s v rest) :
    ∀ {ps : List Piece}, s = Literal.layout f ps → Laid f ps → Laid g ps →
      ∃ ps', ps' <:+ ps ∧ n + ps'.length ≤ ps.length ∧ rest = Literal.layout f ps' ∧
        FieldsRead value n t (Literal.layout g ps) v (Literal.layout g ps') := by
  induction rounds with
  | closed skipped =>
      rintro ps rfl laid laid'
      obtain ⟨ps', suffix, shorter, left, skipped'⟩ := laid.mark_both laid' skipped (by decide)
      exact ⟨ps', suffix, by omega, left, .closed skipped'⟩
  | @last t t' s s' more rest c skipped further field closed =>
      rintro ps rfl laid laid'
      rw [laid.skipBlanks] at skipped
      have starts := Except.ok.inj skipped
      obtain ⟨more', starts'⟩ := solid_cons starts g
      rw [← starts] at field
      obtain ⟨ps₁, suffix₁, rfl, field'⟩ := field.even even laid laid'
      obtain ⟨ps₂, suffix₂, shorter, left, closed'⟩ :=
        (laid.suffix suffix₁).mark_both (laid'.suffix suffix₁) closed (by decide)
      have shorter₁ := suffix₁.length_le
      rw [starts'] at field'
      exact ⟨ps₂, suffix₂.trans suffix₁, by omega, left,
        .last (laid'.skipBlanks.trans (congrArg _ starts')) further field' closed'⟩
  | @more n t t' s s' more after rest c d v skipped further field again separator _ ih =>
      rintro ps rfl laid laid'
      rw [laid.skipBlanks] at skipped
      have starts := Except.ok.inj skipped
      obtain ⟨more', starts'⟩ := solid_cons starts g
      rw [← starts] at field
      obtain ⟨ps₁, suffix₁, rfl, field'⟩ := field.even even laid laid'
      have mark : d ∈ marks := by obtain rfl | rfl := separator <;> decide
      have laid₁ := laid.suffix suffix₁
      have laid₁' := laid'.suffix suffix₁
      obtain ⟨ps₂, suffix₂, shorter, rfl, again'⟩ := laid₁.mark_both laid₁' again mark
      obtain ⟨ps₃, suffix₃, fewer, left, later'⟩ :=
        ih rfl (laid₁.suffix suffix₂) (laid₁'.suffix suffix₂)
      have shorter₁ := suffix₁.length_le
      rw [starts'] at field'
      exact ⟨ps₃, (suffix₃.trans suffix₂).trans suffix₁, by omega, left,
        .more (laid'.skipBlanks.trans (congrArg _ starts')) further field' again' separator later'⟩

theorem readTable_even {value : ValueReader} (even : Even f g value) {v : Value} {rest : Bytes}
    (laid : Laid f ps) (laid' : Laid g ps)
    (read : readTable value (Ascii.openBrace :: layout f ps) = .ok (v, rest)) :
    ∃ ps', ps' <:+ ps ∧ rest = layout f ps' ∧
      readTable value (Ascii.openBrace :: layout g ps) = .ok (v, layout g ps') := by
  obtain ⟨n, _, rounds⟩ := fieldsRead_of_readFieldsWithin _ read
  obtain ⟨ps', suffix, few, left, rounds'⟩ := rounds.even even rfl laid laid'
  have enough := length_le_layout g ps
  refine ⟨ps', suffix, left, rounds'.readFieldsWithin _ ?_⟩
  rw [List.length_cons]
  omega

theorem even_readValue (levels : Nat) : Even f g (readValue levels) := by
  induction levels with
  | zero =>
      apply even_readWith
      intro ps v rest _ _ read
      cases read
  | succ levels ih =>
      apply even_readWith
      intro ps v rest laid laid' read
      exact readTable_even ih laid laid' read

theorem readDocument_even {v : Value} (laid : Laid f ps) (laid' : Laid g ps)
    (read : readDocument (layout f ps) = .ok v) : readDocument (layout g ps) = .ok v := by
  rw [readDocument_eq_ok] at read ⊢
  obtain ⟨rest, value, skipped⟩ := read
  obtain ⟨ps', suffix, rfl, value'⟩ := (even_readValue nestingLimit).layout laid laid' value
  rw [(laid.suffix suffix).skipBlanks] at skipped
  -- no token is left
  have none : ps' = [] := by
    cases ps' with
    | nil => rfl
    | cons p ps' =>
        obtain ⟨c, more, head⟩ := p.token.exists_head
        rw [solid, head.text] at skipped
        cases skipped
  subst none
  exact ⟨_, value', rfl⟩

end

/-! ## Literals -/

def plain (ps : List Piece) : Bytes := layout (fun _ => []) ps

def spaced (ps : List Piece) : Bytes := layout Piece.gap ps

/-- A literal without gaps keeps its value under any gaps that may stand between its tokens. -/
theorem decodeLiteral_spaced {ps : List Piece} {v : Value} (laid : Laid Piece.gap ps)
    (read : decodeLiteral (plain ps) = .ok v) : decodeLiteral (spaced ps) = .ok v := by
  have bare : Laid (fun _ => []) ps := by
    refine ⟨fun _ _ => .nil, laid.follow.imp fun p next follows => ⟨follows.apart, ?_⟩⟩
    intro _ _ c member
    cases member
  rw [decodeLiteral_eq_ok] at read ⊢
  exact readDocument_even bare laid read

/-- A literal with a gap of each kind. -/
def annotated : List Piece :=
  [⟨[], .mark Ascii.openBrace (by decide)⟩,
    ⟨[Ascii.formFeed], .mark Ascii.openBracket (by decide)⟩,
    ⟨[], .integer .minus (text "1") (by decide) (by decide)⟩,
    ⟨Ascii.minus :: Ascii.minus :: (text "1" ++ [Ascii.lineFeed]),
      .mark Ascii.closeBracket (by decide)⟩,
    ⟨[], .mark Ascii.equals (by decide)⟩,
    ⟨[], .string (text "\\'") (.escaped _ .nil)⟩,
    ⟨[Ascii.space], .mark Ascii.semicolon (by decide)⟩,
    ⟨[], .name idName⟩,
    ⟨[Ascii.tab], .mark Ascii.equals (by decide)⟩,
    ⟨Ascii.minus :: Ascii.minus :: (longComment 1 (text "]]") ++ []),
      .integer .none (text "7") (by decide) (by decide)⟩,
    ⟨[Ascii.verticalTab], .mark Ascii.closeBrace (by decide)⟩]

theorem decodeLiteral_spaced_annotated :
    plain annotated = text "\x7b[-1]='\\'';id=7\x7d" ∧
      spaced annotated = text "\x7b\x0c[-1--1\n]='\\'' ;id\t=--[=[]]]=]7\x0b\x7d" ∧
      Laid Piece.gap annotated ∧
      decodeLiteral (spaced annotated) =
        .ok (.object [(text "-1", .string (text "'")), (text "id", .integer 7)]) := by
  have blank : ∀ {c : UInt8}, Ascii.isBlank c = true → Gap [c] := fun blank => .blank blank .nil
  have gaps : ∀ p ∈ annotated, Gap p.gap := by
    simp only [annotated, List.forall_mem_cons]
    exact ⟨.nil, blank rfl, .nil, .line (by decide) (by decide) .nil, .nil, .nil, blank rfl, .nil,
      blank rfl, .long (by decide : 1 < 2 ^ 31) (by decide) .nil, blank rfl, by simp⟩
  have laid : Laid Piece.gap annotated := ⟨gaps, by decide⟩
  have bare : plain annotated = text "\x7b[-1]='\\'';id=7\x7d" := by decide
  have read : decodeLiteral (plain annotated) =
      .ok (.object [(text "-1", .string (text "'")), (text "id", .integer 7)]) := by
    rw [bare]
    set_option maxRecDepth 2000 in cbv
  exact ⟨bare, by decide, laid, decodeLiteral_spaced laid read⟩

def commented : List Piece :=
  [⟨[], .mark Ascii.openBrace (by decide)⟩,
    ⟨[], .name idName⟩,
    ⟨Ascii.minus :: Ascii.minus :: (longComment 0 (text "key") ++ []),
      .mark Ascii.equals (by decide)⟩,
    ⟨[], .integer .none (text "1") (by decide) (by decide)⟩,
    ⟨[], .mark Ascii.closeBrace (by decide)⟩]

/-- A name with a comment after it is taken as a value, so the equals sign after it is a fault. -/
theorem decodeLiteral_commented :
    plain commented = text "\x7bid=1\x7d" ∧ spaced commented = text "\x7bid--[[key]]=1\x7d" ∧
      (∀ p ∈ commented, Gap p.gap) ∧
      commented.IsChain (fun p next => p.token.Apart next.token.text) ∧
      decodeLiteral (plain commented) = .ok (.object [(text "id", .integer 1)]) ∧
      decodeLiteral (spaced commented) = .error (.literal .expectedSeparator 12) := by
  have gaps : ∀ p ∈ commented, Gap p.gap := by
    simp only [commented, List.forall_mem_cons]
    exact ⟨.nil, .nil, .long (by decide : 0 < 2 ^ 31) (by decide) .nil, .nil, .nil, by simp⟩
  have apart : commented.IsChain (fun p next => p.token.Apart next.token.text) := by decide
  have bare : plain commented = text "\x7bid=1\x7d" := by decide
  have read : decodeLiteral (plain commented) = .ok (.object [(text "id", .integer 1)]) := by
    rw [bare]
    set_option maxRecDepth 2000 in cbv
  exact ⟨bare, by decide, gaps, apart, read, by decide⟩

end Literal

end LuaAsset
