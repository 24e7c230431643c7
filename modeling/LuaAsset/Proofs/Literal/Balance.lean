import LuaAsset.Literal.Snippet
import LuaAsset.Proofs.Literal.Strings

/-! # Balanced texts

In a balanced text all braces outside strings and all strings are closed.  The pass that notes
anchors and the search for a closing brace both leave a balanced text as they entered it
(`restores_of_balanced`, `passes_of_balanced`). -/

set_option autoImplicit false

namespace LuaAsset

open Literal

def isOrdinary (c : UInt8) : Bool :=
  c != Ascii.singleQuote && c != Ascii.openBrace && c != Ascii.closeBrace

inductive Balanced : Bytes → Prop
  | nil : Balanced []
  | plain {c : UInt8} {w : Bytes} : isOrdinary c = true → Balanced w → Balanced (c :: w)
  | quoted (s : Bytes) {w : Bytes} : Balanced w → Balanced (quoted s ++ w)
  | braced {inner w : Bytes} : Balanced inner → Balanced w → Balanced (braced inner ++ w)

theorem Balanced.append {v w : Bytes} (first : Balanced v) (second : Balanced w) :
    Balanced (v ++ w) := by
  induction first with
  | nil => exact second
  | plain ordinary _ ih => exact .plain ordinary ih
  | quoted s _ ih =>
      rw [List.append_assoc]
      exact .quoted s ih
  | braced inner _ _ ih =>
      rw [List.append_assoc]
      exact .braced inner ih

theorem balanced_of_ordinary {w : Bytes} (all : w.all isOrdinary = true) : Balanced w := by
  induction w with
  | nil => exact .nil
  | cons c w ih =>
      rw [List.all_cons, Bool.and_eq_true] at all
      exact .plain all.1 (ih all.2)

/-! ## Canonical texts -/

theorem isOrdinary_of_isNameByte : ∀ c : UInt8, isNameByte c = true → isOrdinary c = true :=
  forall_byte (by decide +kernel)

theorem isOrdinary_of_isDigit : ∀ c : UInt8, Ascii.isDigit c = true → isOrdinary c = true :=
  forall_byte (by decide +kernel)

theorem balanced_decimalInt (n : Int) : Balanced (decimalInt n) := by
  refine balanced_of_ordinary (List.all_eq_true.mpr fun c member => ?_)
  obtain digit | rfl := mem_decimalInt member
  · exact isOrdinary_of_isDigit c digit
  · decide

theorem Literal.Name.balanced (f : Name) : Balanced f.bytes :=
  balanced_of_ordinary (List.all_eq_true.mpr fun c member =>
    isOrdinary_of_isNameByte c (f.forall_nameByte c member))

theorem Literal.Scalar.balanced (a : Scalar) : Balanced a.written := by
  cases a with
  | bool b => cases b <;> exact balanced_of_ordinary (by decide)
  | integer n => exact balanced_decimalInt n
  | string s =>
      rw [Scalar.written, ← List.append_nil (quoted s)]
      exact .quoted s .nil

theorem Literal.Key.balanced (key : Key) : Balanced key.written := by
  cases key with
  | position => exact .nil
  | name f => exact f.balanced.append (balanced_of_ordinary (by decide))
  | bracketed a => exact .plain (by decide) (a.balanced.append (balanced_of_ordinary (by decide)))

theorem balanced_separated (gap : Nat) {parts : List Bytes} (all : ∀ part ∈ parts, Balanced part) :
    Balanced (separated gap parts) := by
  induction parts with
  | nil => exact .nil
  | cons part parts ih =>
      obtain ⟨first, more⟩ := List.forall_mem_cons.mp all
      cases parts with
      | nil => exact first
      | cons next parts =>
          have spaces : Balanced (List.replicate gap Ascii.space) :=
            balanced_of_ordinary (List.all_eq_true.mpr fun c member => by
              rw [List.eq_of_mem_replicate member]
              decide)
          exact first.append (.plain (by decide) (spaces.append (ih more)))

theorem balanced_writtenFields {fields : List (Key × Term)}
    (all : ∀ field ∈ fields, Balanced field.2.written) :
    ∀ part ∈ writtenFields fields, Balanced part := by
  induction fields with
  | nil => simp [writtenFields]
  | cons field fields ih =>
      obtain ⟨first, more⟩ := List.forall_mem_cons.mp all
      exact List.forall_mem_cons.mpr ⟨field.1.balanced.append first, ih more⟩

theorem Literal.Term.balanced (v : Term) : Balanced v.written := by
  induction v using Term.induction with
  | nil => exact balanced_of_ordinary (by decide)
  | scalar a => exact a.balanced
  | table gap fields ih =>
      rw [Term.written, ← List.append_nil (braced _)]
      exact .braced (balanced_separated gap (balanced_writtenFields ih)) .nil

namespace Snippet

/-! ## The pass over a text -/

/-- The state of the pass after a text, with the bytes that follow. -/
def passing (p : Progress) : Bytes → Bytes → Progress
  | [], _ => p
  | c :: w, rest => passing (p.step c (w ++ rest)) w rest

def Progress.past (p : Progress) (w : Bytes) : Progress :=
  { p with passed := w.reverse ++ p.passed, position := p.position + w.length }

theorem past_past (p : Progress) (v w : Bytes) : (p.past v).past w = p.past (v ++ w) := by
  simp [Progress.past, Nat.add_assoc]

theorem passing_append (p : Progress) (v w rest : Bytes) :
    passing p (v ++ w) rest = passing (passing p v (w ++ rest)) w rest := by
  induction v generalizing p with
  | nil => rfl
  | cons c v ih =>
      rw [List.cons_append, passing, passing, ih, List.append_assoc]

theorem isOrdinary_ne {c : UInt8} (ordinary : isOrdinary c = true) :
    c ≠ Ascii.singleQuote ∧ c ≠ Ascii.openBrace ∧ c ≠ Ascii.closeBrace := by
  simpa [isOrdinary, and_assoc] using ordinary

theorem step_ordinary {p : Progress} (outside : p.quoting = .outside) {c : UInt8}
    (ordinary : isOrdinary c = true) (rest : Bytes) : p.step c rest = p.past [c] := by
  obtain ⟨quoting, braces, passed, position⟩ := p
  cases outside
  obtain ⟨quote, opening, closing⟩ := isOrdinary_ne ordinary
  simp [Progress.step, Progress.past, Quoting.next, quote, opening, closing]

theorem step_openBrace {p : Progress} (outside : p.quoting = .outside) (rest : Bytes) :
    p.step Ascii.openBrace rest =
      { p.past [Ascii.openBrace] with
        braces := ⟨p.position, isAssignment p.passed, Ascii.openBrace :: rest⟩ :: p.braces } := by
  obtain ⟨quoting, braces, passed, position⟩ := p
  cases outside
  rfl

theorem step_closeBrace {p : Progress} (outside : p.quoting = .outside) (rest : Bytes) :
    p.step Ascii.closeBrace rest =
      { p.past [Ascii.closeBrace] with braces := p.braces.drop 1 } := by
  obtain ⟨quoting, braces, passed, position⟩ := p
  cases outside
  rfl

theorem step_singleQuote {p : Progress} (outside : p.quoting = .outside) (rest : Bytes) :
    p.step Ascii.singleQuote rest = { p.past [Ascii.singleQuote] with quoting := .inside } := by
  obtain ⟨quoting, braces, passed, position⟩ := p
  cases outside
  rfl

theorem step_quoted {p : Progress} (within : p.quoting ≠ .outside) (c : UInt8) (rest : Bytes) :
    p.step c rest = { p.past [c] with quoting := p.quoting.next c } := by
  obtain ⟨quoting, braces, passed, position⟩ := p
  simp only [Progress.step, if_neg within]
  rfl

theorem passing_body {body : Bytes} (isBody : QuotedBody Ascii.singleQuote body) :
    ∀ {p : Progress}, p.quoting = .inside → ∀ rest, passing p body rest = p.past body := by
  have pair : ∀ (p : Progress) (c : UInt8) (rest : Bytes), p.quoting = .inside →
      passing p [Ascii.backslash, c] rest = p.past [Ascii.backslash, c] := by
    intro p c rest inside
    obtain ⟨quoting, braces, passed, position⟩ := p
    cases inside
    rfl
  induction isBody with
  | nil => exact fun _ _ => rfl
  | @plain c w unescaped other _ ih =>
      intro p inside rest
      have kept : p.step c (w ++ rest) = p.past [c] := by
        rw [step_quoted (by rw [inside]; decide), inside, Quoting.next, if_neg unescaped,
          if_neg other, ← inside]
        rfl
      rw [passing, kept, ih (p := p.past [c]) inside, past_past]
      rfl
  | @escaped c w _ ih =>
      intro p inside rest
      have split : Ascii.backslash :: c :: w = [Ascii.backslash, c] ++ w := rfl
      rw [split, passing_append, pair p c _ inside,
        ih (p := p.past [Ascii.backslash, c]) inside, past_past]

/-- A pass that enters a text outside strings leaves it outside strings with the same open braces.
-/
def Restores (w : Bytes) : Prop :=
  ∀ (p : Progress) (rest : Bytes), p.quoting = .outside → passing p w rest = p.past w

theorem Restores.append {v w : Bytes} (first : Restores v) (second : Restores w) :
    Restores (v ++ w) := by
  intro p rest outside
  rw [passing_append, first p _ outside, second (p.past v) rest outside, past_past]

theorem restores_body {body : Bytes} (isBody : QuotedBody Ascii.singleQuote body) :
    Restores (Ascii.singleQuote :: (body ++ [Ascii.singleQuote])) := by
  intro p rest outside
  obtain ⟨quoting, braces, passed, position⟩ := p
  cases outside
  rw [passing, step_singleQuote rfl, passing_append, passing_body isBody rfl, passing, passing,
    step_quoted (by simp [Progress.past])]
  have ends : Quoting.next .inside Ascii.singleQuote = .outside := by decide
  simp [Progress.past, ends, Nat.add_assoc, Nat.add_comm 1]

theorem Restores.braced {inner : Bytes} (restores : Restores inner) : Restores (braced inner) := by
  intro p rest outside
  obtain ⟨quoting, braces, passed, position⟩ := p
  cases outside
  rw [Literal.braced, passing, step_openBrace rfl, passing_append, restores _ _ rfl, passing,
    passing, step_closeBrace rfl]
  simp [Progress.past, Nat.add_assoc, Nat.add_comm 1]

theorem restores_of_balanced {w : Bytes} (balanced : Balanced w) : Restores w := by
  induction balanced with
  | nil => exact fun _ _ _ => rfl
  | plain ordinary _ ih =>
      intro p rest outside
      rw [passing, step_ordinary outside ordinary, ih (p.past [_]) rest outside, past_past]
      rfl
  | quoted s _ ih => exact (restores_body (quotedBody_escaped s)).append ih
  | braced _ _ within ih => exact within.braced.append ih

/-! ## The search for the closing brace -/

theorem closingFrom_ordinary {c : UInt8} (ordinary : isOrdinary c = true) (depth : Nat)
    (s : Bytes) :
    closingFrom .outside depth (c :: s) = (closingFrom .outside depth s).map (· + 1) := by
  obtain ⟨quote, opening, closing⟩ := isOrdinary_ne ordinary
  simp [closingFrom, Quoting.next, quote, opening, closing]

theorem closingFrom_openBrace (depth : Nat) (s : Bytes) :
    closingFrom .outside depth (Ascii.openBrace :: s) =
      (closingFrom .outside (depth + 1) s).map (· + 1) := by
  have other : Ascii.openBrace ≠ Ascii.closeBrace := by decide
  rw [closingFrom, if_neg fun closing => other closing.2.1]
  rfl

theorem closingFrom_closeBrace (depth : Nat) (s : Bytes) :
    closingFrom .outside (depth + 2) (Ascii.closeBrace :: s) =
      (closingFrom .outside (depth + 1) s).map (· + 1) := by
  rw [closingFrom, if_neg (by simp)]
  rfl

theorem closingFrom_singleQuote (depth : Nat) (s : Bytes) :
    closingFrom .outside depth (Ascii.singleQuote :: s) =
      (closingFrom .inside depth s).map (· + 1) := by
  have other : Ascii.singleQuote ≠ Ascii.closeBrace := by decide
  rw [closingFrom, if_neg fun closing => other closing.2.1]
  rfl

theorem closingFrom_quoted {quoting : Quoting} (within : quoting ≠ .outside) (depth : Nat)
    (c : UInt8) (s : Bytes) :
    closingFrom quoting depth (c :: s) = (closingFrom (quoting.next c) depth s).map (· + 1) := by
  simp [closingFrom, within]

theorem map_add_map (length? : Option Nat) (m n : Nat) :
    (length?.map (· + m)).map (· + n) = length?.map (· + (m + n)) := by
  rw [Option.map_map]
  congr 1
  funext length
  exact Nat.add_assoc length m n

theorem closingFrom_body {body : Bytes} (isBody : QuotedBody Ascii.singleQuote body) (depth : Nat)
    (rest : Bytes) : closingFrom .inside depth (body ++ rest) =
      (closingFrom .inside depth rest).map (· + body.length) := by
  have within : ∀ {quoting : Quoting}, quoting ≠ .outside → ∀ c s,
      closingFrom quoting depth (c :: s) = (closingFrom (quoting.next c) depth s).map (· + 1) :=
    fun inside c s => closingFrom_quoted inside depth c s
  induction isBody with
  | nil => simp
  | @plain c w unescaped other _ ih =>
      have next : Quoting.next .inside c = .inside := by simp [Quoting.next, unescaped, other]
      rw [List.cons_append, within (by decide), next, ih, map_add_map]
      rfl
  | @escaped c w _ ih =>
      have slash : Quoting.next .inside Ascii.backslash = .escaped := by decide
      have next : Quoting.next .escaped c = .inside := rfl
      rw [List.cons_append, within (by decide), slash, List.cons_append, within (by decide), next,
        ih, map_add_map, map_add_map]
      rfl

/-- A search that enters a text inside a block and outside strings leaves it in the same state. -/
def Passes (w : Bytes) : Prop :=
  ∀ (depth : Nat) (rest : Bytes), closingFrom .outside (depth + 1) (w ++ rest) =
    (closingFrom .outside (depth + 1) rest).map (· + w.length)

theorem Passes.append {v w : Bytes} (first : Passes v) (second : Passes w) : Passes (v ++ w) := by
  intro depth rest
  rw [List.append_assoc, first, second, map_add_map, List.length_append, Nat.add_comm v.length]

theorem passes_body {body : Bytes} (isBody : QuotedBody Ascii.singleQuote body) :
    Passes (Ascii.singleQuote :: (body ++ [Ascii.singleQuote])) := by
  intro depth rest
  have closes : Quoting.next .inside Ascii.singleQuote = .outside := by decide
  rw [List.cons_append, closingFrom_singleQuote, List.append_assoc, closingFrom_body isBody,
    List.singleton_append, closingFrom_quoted (by decide), closes, map_add_map, map_add_map]
  simp [Nat.add_comm 1]

theorem Passes.braced {inner : Bytes} (passes : Passes inner) : Passes (braced inner) := by
  intro depth rest
  rw [Literal.braced, List.cons_append, closingFrom_openBrace, List.append_assoc,
    passes (depth + 1), List.singleton_append, closingFrom_closeBrace, map_add_map, map_add_map]
  simp [Nat.add_comm 1, Nat.add_assoc]

theorem passes_of_balanced {w : Bytes} (balanced : Balanced w) : Passes w := by
  induction balanced with
  | nil =>
      intro depth rest
      simp
  | plain ordinary _ ih =>
      intro depth rest
      rw [List.cons_append, closingFrom_ordinary ordinary, ih, map_add_map]
      rfl
  | quoted s _ ih => exact (passes_body (quotedBody_escaped s)).append ih
  | braced _ _ within ih => exact within.braced.append ih

theorem blockLength?_of_passes {inner : Bytes} (passes : Passes inner) (rest : Bytes) :
    blockLength? (braced inner ++ rest) = some (braced inner).length := by
  rw [blockLength?, braced, List.cons_append, closingFrom_openBrace, List.append_assoc,
    passes 0, List.singleton_append, closingFrom, if_pos ⟨rfl, rfl, rfl⟩]
  simp [Nat.add_comm 1]

end Snippet

end LuaAsset
