import LuaAsset.Proofs.Literal.Cursor

/-! # Simulation of cursor steps

`Runs` is the simulation between a cursor reader and a reader of the remaining text: same answer,
same rest, same flaw.  It is closed under sequencing (`Runs.bind`), and loops are unfolded by
`loop_eq` (`runs_skipSpace`). -/

set_option autoImplicit false

namespace LuaAsset

namespace Literal

namespace Cursor

def place (t s : Bytes) : Nat := t.length - s.length

/-- A cursor reader simulates a reader of the remaining text. -/
def Runs {α : Type} (t : Bytes) (m : Reader α) (s : Bytes) (read : Except Flaw (α × Bytes)) : Prop :=
  s <:+ t → match read with
    | .ok (a, rest) => rest <:+ s ∧ outcome m t (place t s) = .some (.ok (a, place t rest))
    | .error (fault, left) => left ≤ s.length ∧
        outcome m t (place t s) = .some (.error (.flaw fault (t.length - left)))

section

variable {α β : Type} {t s : Bytes}

theorem drop_place (within : s <:+ t) : t.drop (place t s) = s := by
  obtain ⟨before, rfl⟩ := within
  have length : place (before ++ s) s = before.length := by simp [place]
  rw [length, List.drop_left]

theorem place_le (t s : Bytes) : place t s ≤ t.length := Nat.sub_le _ _

theorem place_drop {n : Nat} (within : s <:+ t) (enough : n ≤ s.length) :
    place t (s.drop n) = place t s + n := by
  have shorter := within.length_le
  rw [place, place, List.length_drop]
  omega

/-! ## Steps in a row -/

theorem outcome_bind (m : Reader α) (k : α → Reader β) (t : Bytes) (p : Nat) :
    outcome (m >>= k) t p = (outcome m t p).bind fun
      | .ok (a, q) => outcome (k a) t q
      | .error stop => .some (.error stop) := by
  have unfolded : outcome (m >>= k) t p = (outcome m t p).bind (ExceptT.bindCont fun result =>
      k result.1 t result.2) := rfl
  rw [unfolded]
  refine congrArg (outcome m t p).bind (funext fun result => ?_)
  cases result <;> rfl

section

variable (t : Bytes) (p : Nat)

@[simp] theorem outcome_pure (a : α) : outcome (pure a) t p = .some (.ok (a, p)) :=
  rfl

@[simp] theorem outcome_read : outcome read t p = .some (.ok (t, p)) :=
  rfl

@[simp] theorem outcome_get : outcome get t p = .some (.ok (p, p)) :=
  rfl

@[simp] theorem outcome_set (q : Nat) : outcome (set q) t p = .some (.ok ((), q)) :=
  rfl

@[simp] theorem outcome_throw (stop : Stop) :
    outcome (throw stop : Reader α) t p = .some (.error stop) :=
  Part.bind_some _ _

@[simp] theorem outcome_fail (fault : LiteralFault) :
    outcome (fail fault : Reader α) t p = .some (.error (.flaw fault p)) := by
  simp [fail, outcome_bind]

end

theorem Runs.then {m : Reader α} {k : α → Reader β} {a : α} {s' : Bytes}
    {read : Except Flaw (β × Bytes)} (first : Runs t m s (.ok (a, s')))
    (later : s' <:+ s → Runs t (k a) s' read) : Runs t (m >>= k) s read := by
  intro within
  obtain ⟨suffix, ran⟩ := first within
  have further := later suffix (suffix.trans within)
  match read, further with
  | .ok (b, rest), further =>
      refine ⟨further.1.trans suffix, ?_⟩
      rw [outcome_bind, ran, Part.bind_some]
      exact further.2
  | .error (fault, left), further =>
      refine ⟨Nat.le_trans further.1 suffix.length_le, ?_⟩
      rw [outcome_bind, ran, Part.bind_some]
      exact further.2

theorem Runs.stop {m : Reader α} {flaw : Flaw} (first : Runs t m s (.error flaw))
    (k : α → Reader β) : Runs t (m >>= k) s (.error flaw) := by
  intro within
  obtain ⟨fault, left⟩ := flaw
  obtain ⟨bound, ran⟩ := first within
  refine ⟨bound, ?_⟩
  rw [outcome_bind, ran, Part.bind_some]

theorem Runs.onward {m : Reader α} {k : α → Reader β} {first : Except Flaw (α × Bytes)}
    {read : Except Flaw (β × Bytes)} (ran : Runs t m s first)
    (failed : ∀ flaw, first = .error flaw → read = .error flaw)
    (later : ∀ a s', s' <:+ s → first = .ok (a, s') → Runs t (k a) s' read) :
    Runs t (m >>= k) s read := by
  cases first with
  | error flaw =>
      rw [failed flaw rfl]
      exact ran.stop k
  | ok found => exact ran.then fun suffix => later found.1 found.2 suffix rfl

theorem Runs.bind {m : Reader α} {k : α → Reader β} {first : Except Flaw (α × Bytes)}
    {next : α × Bytes → Except Flaw (β × Bytes)} (ran : Runs t m s first)
    (later : ∀ a s', s' <:+ s → first = .ok (a, s') → Runs t (k a) s' (next (a, s'))) :
    Runs t (m >>= k) s (first >>= next) := by
  refine ran.onward (fun flaw failed => by rw [failed]; rfl) fun a s' suffix found => ?_
  have further := later a s' suffix found
  rwa [found]

theorem Runs.ite {c : Prop} [Decidable c] {m m' : Reader α} {read read' : Except Flaw (α × Bytes)}
    (yes : c → Runs t m s read) (no : ¬c → Runs t m' s read') :
    Runs t (if c then m else m') s (if c then read else read') := by
  by_cases holds : c
  · rw [if_pos holds, if_pos holds]
    exact yes holds
  · rw [if_neg holds, if_neg holds]
    exact no holds

theorem runs_pure (a : α) : Runs t (pure a) s (.ok (a, s)) := by
  intro _
  exact ⟨List.suffix_refl s, rfl⟩

theorem runs_fail (fault : LiteralFault) :
    Runs (α := α) t (fail fault) s (.error (fault, s.length)) := by
  intro _
  exact ⟨Nat.le_refl _, outcome_fail t _ fault⟩

theorem runs_get : Runs t get s (.ok (place t s, s)) := by
  intro _
  exact ⟨List.suffix_refl s, rfl⟩

theorem runs_atEnd : Runs t atEnd s (.ok (s.isEmpty, s)) := by
  intro within
  refine ⟨List.suffix_refl s, ?_⟩
  have ended : decide (t.length ≤ place t s) = s.isEmpty := by
    have shorter := within.length_le
    cases s with
    | nil => simp [place]
    | cons c s =>
        have inside : ¬t.length ≤ place t (c :: s) := by
          rw [place, List.length_cons] at *
          omega
        simp [inside]
  simp [atEnd, outcome_bind, ended, -bind_pure_comp]

theorem runs_peek (n : Nat) : Runs t (peek n) s (.ok (s[n]?.getD 0, s)) := by
  intro within
  refine ⟨List.suffix_refl s, ?_⟩
  have byte : t[place t s + n]? = s[n]? := by rw [← List.getElem?_drop, drop_place within]
  simp [peek, outcome_bind, byte, -bind_pure_comp]

theorem outcome_moveTo {p : Nat} (bound : p ≤ t.length) (q : Nat) :
    outcome (moveTo p) t q = .some (.ok ((), p)) := by
  simp [moveTo, outcome_bind, bound]

theorem runs_advance {n : Nat} (enough : n ≤ s.length) :
    Runs t (advance n) s (.ok ((), s.drop n)) := by
  intro within
  refine ⟨List.drop_suffix n s, ?_⟩
  have moved := outcome_moveTo (place_le t (s.drop n)) (place t s)
  rw [place_drop within enough] at moved ⊢
  simpa [advance, outcome_bind] using moved

theorem Runs.of {m : Reader α} {read : Except Flaw (α × Bytes)}
    (runs : s <:+ t → Runs t m s read) : Runs t m s read :=
  fun within => runs within within

theorem runs_read : Runs t read s (.ok (t, s)) := by
  intro _
  exact ⟨List.suffix_refl s, rfl⟩

theorem runs_moveTo {rest : Bytes} (suffix : rest <:+ s) :
    Runs t (moveTo (place t rest)) s (.ok ((), rest)) := by
  intro _
  exact ⟨suffix, outcome_moveTo (place_le t rest) _⟩

theorem place_append {w rest : Bytes} (within : w ++ rest <:+ t) :
    place t rest = place t (w ++ rest) + w.length := by
  have moved := place_drop within (List.length_append ▸ Nat.le_add_right w.length rest.length)
  rwa [List.drop_left] at moved

theorem runs_part {w rest : Bytes} (within : w ++ rest <:+ t) :
    Runs t (part (place t (w ++ rest)) (place t rest)) s (.ok (w, s)) := by
  intro _
  refine ⟨List.suffix_refl s, ?_⟩
  have span : place t rest - place t (w ++ rest) = w.length := by
    rw [place_append within]
    omega
  simp [part, outcome_bind, place_le, drop_place within, span]

theorem runs_find (pattern : Bytes) : Runs t (find pattern) s
    (.ok ((splitAtFirst pattern s).map fun cut => place t s + cut.1.length, s)) := by
  intro within
  refine ⟨List.suffix_refl s, ?_⟩
  simp [find, outcome_bind, drop_place within, -bind_pure_comp]

/-! ### By the first byte -/

section

variable {c : UInt8} {read : Except Flaw (α × Bytes)}

theorem Runs.ended {m m' : Reader α} (yes : Runs t m [] read) :
    Runs t (atEnd >>= fun ended => if ended then m else m') [] read :=
  runs_atEnd.then fun _ => yes

theorem Runs.started {m m' : Reader α} (no : Runs t m' (c :: s) read) :
    Runs t (atEnd >>= fun ended => if ended then m else m') (c :: s) read :=
  runs_atEnd.then fun _ => no

theorem Runs.front {k : UInt8 → Reader α} (later : Runs t (k (s.head?.getD 0)) s read) :
    Runs t (peek 0 >>= k) s read := by
  refine (runs_peek 0).then fun _ => ?_
  rwa [← List.head?_eq_getElem?]

theorem Runs.here {k : UInt8 → Reader α} (later : Runs t (k c) (c :: s) read) :
    Runs t (peek 0 >>= k) (c :: s) read :=
  Runs.front later

theorem Runs.next {k : UInt8 → Reader α} (later : Runs t (k (s.head?.getD 0)) (c :: s) read) :
    Runs t (peek 1 >>= k) (c :: s) read := by
  refine (runs_peek 1).then fun _ => ?_
  rwa [List.getElem?_cons_succ, ← List.head?_eq_getElem?]

theorem Runs.step {k : Unit → Reader α} (later : Runs t (k ()) s read) :
    Runs t (advance 1 >>= k) (c :: s) read :=
  (runs_advance (s := c :: s) (Nat.le_add_left 1 s.length)).then fun _ => later

end

theorem getD_head {c : UInt8} (some_ : c ≠ 0) (s : Bytes) :
    s.head?.getD 0 = c ↔ s.head? = some c := by
  cases s with
  | nil => simp [some_.symm]
  | cons d s => simp

/-! ## Loops -/

def resume (round : β → Reader (β ⊕ α)) : β ⊕ α → Reader α
  | .inl b => loop round b
  | .inr a => pure a

theorem loop_eq (round : β → Reader (β ⊕ α)) (b : β) :
    loop round b = round b >>= resume round := by
  funext t p
  change (turn round t).fix (b, p) = outcome (round b >>= resume round) t p
  rw [outcome_bind]
  refine Part.ext fun result => PFun.mem_fix_iff.trans ?_
  constructor
  · rintro (last | ⟨state, more, later⟩)
    · obtain ⟨found, ran, same⟩ := (Part.mem_map_iff _).mp last
      refine Part.mem_bind_iff.mpr ⟨found, ran, ?_⟩
      match found, same with
      | .ok (.inr a, q), rfl => exact Part.mem_some _
      | .error stop, rfl => exact Part.mem_some _
    · obtain ⟨found, ran, same⟩ := (Part.mem_map_iff _).mp more
      refine Part.mem_bind_iff.mpr ⟨found, ran, ?_⟩
      match found, same with
      | .ok (.inl next, q), rfl => exact later
  · intro ended
    obtain ⟨found, ran, after⟩ := Part.mem_bind_iff.mp ended
    match found, after with
    | .ok (.inl next, q), after =>
        exact .inr ⟨(next, q), (Part.mem_map_iff _).mpr ⟨_, ran, rfl⟩, after⟩
    | .ok (.inr a, q), after =>
        cases Part.mem_some_iff.mp after
        exact .inl ((Part.mem_map_iff _).mpr ⟨_, ran, rfl⟩)
    | .error stop, after =>
        cases Part.mem_some_iff.mp after
        exact .inl ((Part.mem_map_iff _).mpr ⟨_, ran, rfl⟩)

theorem ite_bind (c : Prop) [Decidable c] (m m' : Reader α) (k : α → Reader β) :
    (if c then m else m') >>= k = if c then m >>= k else m' >>= k := by
  split <;> rfl

theorem fail_bind (fault : LiteralFault) (k : α → Reader β) : fail fault >>= k = fail fault := by
  funext t p
  change outcome (fail fault >>= k) t p = outcome (fail fault) t p
  simp [outcome_bind]

theorem runs_skipWhile (p : UInt8 → Bool) (s : Bytes) :
    Runs t (skipWhile p) s (.ok ((), s.dropWhile p)) := by
  induction s with (rw [skipWhile, loop_eq]; simp only [bind_assoc, ite_bind, pure_bind, resume])
  | nil => exact .ended (runs_pure ())
  | cons c s ih =>
      refine .started (.here ?_)
      by_cases passed : p c = true
      · rw [if_pos passed, List.dropWhile_cons_of_pos passed]
        exact .step ih
      · rw [if_neg passed, List.dropWhile_cons_of_neg passed]
        exact runs_pure ()

theorem getElem?_takeWhile (p : UInt8 → Bool) (s : Bytes) :
    s[(s.takeWhile p).length]? = (s.dropWhile p).head? := by
  induction s with
  | nil => rfl
  | cons c s ih =>
      by_cases passed : p c = true
      · rw [List.takeWhile_cons_of_pos passed, List.dropWhile_cons_of_pos passed, ← ih]
        rfl
      · rw [List.takeWhile_cons_of_neg passed, List.dropWhile_cons_of_neg passed]
        rfl

theorem runs_reach (p : UInt8 → Bool) {w : Bytes} {n : Nat} (left : s.drop n = w)
    (bound : n ≤ s.length) : Runs t (reach p n) s (.ok (n + (w.takeWhile p).length, s)) := by
  refine .of fun within => ?_
  have shorter := within.length_le
  induction w generalizing n with
    (rw [reach, loop_eq]; simp only [bind_assoc, ite_bind, pure_bind, resume])
  | nil =>
      have ended : s.length ≤ n := List.drop_eq_nil_iff.mp left
      refine runs_get.then fun _ => runs_read.then fun _ => (runs_peek n).then fun _ => ?_
      rw [if_neg (by rw [place]; omega)]
      exact runs_pure n
  | cons c w ih =>
      have here : s[n]? = some c := by rw [← List.head?_drop, left]; rfl
      have inside : n < s.length := (List.getElem?_eq_some_iff.mp here).1
      have next : s.drop (n + 1) = w := by rw [← List.drop_drop, left]; rfl
      refine runs_get.then fun _ => runs_read.then fun _ => (runs_peek n).then fun _ => ?_
      rw [here, Option.getD_some]
      by_cases passed : p c = true
      · have further := ih next inside
        rw [if_pos ⟨by rw [place]; omega, passed⟩, List.takeWhile_cons_of_pos passed]
        rwa [List.length_cons, ← Nat.add_assoc, Nat.add_right_comm]
      · rw [if_neg (by simp [passed]), List.takeWhile_cons_of_neg passed]
        exact runs_pure n

/-! ## Blanks and comments -/

theorem runs_equalsSigns {w : Bytes} {n : Nat} (left : s.drop (n + 1) = w) :
    Runs t (equalsSigns n) s (.ok (n + (w.takeWhile (· == Ascii.equals)).length, s)) := by
  induction w generalizing n with
    (rw [equalsSigns, loop_eq]; simp only [bind_assoc, ite_bind, pure_bind, resume])
  | nil =>
      have ended : s[n + 1]? = none := List.getElem?_eq_none (List.drop_eq_nil_iff.mp left)
      refine (runs_peek (n + 1)).then fun _ => ?_
      rw [ended, if_neg (by decide)]
      exact runs_pure n
  | cons c w ih =>
      have here : s[n + 1]? = some c := by rw [← List.head?_drop, left]; rfl
      have next : s.drop (n + 1 + 1) = w := by rw [← List.drop_drop, left]; rfl
      refine (runs_peek (n + 1)).then fun _ => ?_
      rw [here, Option.getD_some]
      by_cases equals : c = Ascii.equals
      · have further := ih next
        rw [if_pos equals, List.takeWhile_cons_of_pos (by simp [equals])]
        rwa [List.length_cons, ← Nat.add_assoc, Nat.add_right_comm]
      · rw [if_neg equals, List.takeWhile_cons_of_neg (by simp [equals])]
        exact runs_pure n

theorem runs_longBracketLevel (s : Bytes) :
    Runs t longBracketLevel s (.ok (longBracketLevel? s, s)) := by
  have zero : Ascii.openBracket ≠ 0 := by decide
  unfold longBracketLevel
  refine .front ?_
  cases s with
  | nil => exact runs_pure none
  | cons c s =>
      rw [List.head?_cons, Option.getD_some, longBracketLevel?]
      by_cases opens : c = Ascii.openBracket
      · rw [if_neg (not_not.mpr opens), if_pos opens]
        refine (runs_equalsSigns (w := s) rfl).then fun _ => ?_
        refine (runs_peek _).then fun _ => ?_
        rw [Nat.zero_add, List.getElem?_cons_succ, getElem?_takeWhile]
        by_cases again : (s.dropWhile (· == Ascii.equals)).head? = some Ascii.openBracket
        · rw [if_pos again, if_pos ((getD_head zero _).mpr again)]
          exact runs_pure _
        · rw [if_neg again, if_neg fun same => again ((getD_head zero _).mp same)]
          exact runs_pure none
      · rw [if_pos opens, if_neg opens]
        exact runs_pure none

/-- A long bracket of a level takes at least two brackets and `level` equals signs. -/
theorem level_add_two_le {level : Nat} (opening : longBracketLevel? s = some level) :
    level + 2 ≤ s.length := by
  cases s with
  | nil => cases opening
  | cons c s =>
      rw [longBracketLevel?] at opening
      split at opening
      · split at opening
        · rename_i again
          have counted := (keptLevel?_le opening).2
          obtain ⟨more, left⟩ := List.head?_eq_some_iff.mp again
          have lengths := congrArg List.length
            (List.takeWhile_append_dropWhile (p := (· == Ascii.equals)) (l := s))
          rw [List.length_append, left, List.length_cons] at lengths
          rw [List.length_cons]
          omega
        · cases opening
      · cases opening

theorem runs_skipLineBreak (s : Bytes) : Runs t skipLineBreak s (.ok ((), dropLineBreak s)) := by
  have zero : isLineBreak 0 = false := by decide
  have isBreak : ∀ c, isLineBreak c = true ↔ c = Ascii.carriageReturn ∨ c = Ascii.lineFeed := by
    simp [isLineBreak]
  unfold skipLineBreak
  refine .front ?_
  match s with
  | [] => exact runs_pure ()
  | [c] =>
      rw [List.head?_cons, Option.getD_some, dropLineBreak]
      by_cases first : isLineBreak c = true
      · rw [if_pos first, if_pos ((isBreak c).mp first)]
        exact .step (.front (runs_pure ()))
      · rw [if_neg first, if_neg fun is => first ((isBreak c).mpr is)]
        exact runs_pure ()
  | c :: d :: s =>
      rw [List.head?_cons, Option.getD_some, dropLineBreak]
      by_cases first : isLineBreak c = true
      · rw [if_pos first, if_pos ((isBreak c).mp first)]
        refine .step (.here ?_)
        by_cases second : isLineBreak d = true ∧ d ≠ c
        · rw [if_pos second, if_pos ⟨(isBreak d).mp second.1, second.2⟩]
          exact runs_advance (s := d :: s) (Nat.le_add_left 1 s.length)
        · rw [if_neg second, if_neg fun is => second ⟨(isBreak d).mpr is.1, is.2⟩]
          exact runs_pure ()
      · rw [if_neg first, if_neg fun is => first ((isBreak c).mpr is)]
        exact runs_pure ()

theorem runs_readLongBracket {level : Nat} (opening : longBracketLevel? s = some level) :
    Runs t (readLongBracket level) s (Literal.readLongBracket level s) := by
  refine .of fun within => ?_
  unfold readLongBracket Literal.readLongBracket
  refine (runs_advance (level_add_two_le opening)).then fun _ => ?_
  refine (runs_skipLineBreak _).then fun _ => runs_get.then fun _ => (runs_find _).then fun _ => ?_
  have inside :=
    ((dropLineBreak_suffix (s.drop (level + 2))).trans (List.drop_suffix _ s)).trans within
  generalize dropLineBreak (s.drop (level + 2)) = inner at inside
  dsimp only
  cases cut : splitAtFirst (closingBracket level) inner with
  | none => exact runs_fail _
  | some parts =>
      obtain ⟨contents, rest⟩ := parts
      have split := splitAtFirst_eq _ _ _ _ cut
      rw [List.append_assoc] at split
      rw [split] at inside ⊢
      have behind : closingBracket level ++ rest <:+ t :=
        (List.suffix_append contents _).trans inside
      have closing : rest <:+ contents ++ (closingBracket level ++ rest) :=
        (List.suffix_append _ rest).trans (List.suffix_append contents _)
      dsimp only [Option.map]
      rw [← place_append inside]
      refine (runs_part inside).then fun _ => ?_
      rw [← place_append behind]
      exact (runs_moveTo closing).then fun _ => runs_pure contents

theorem runs_skipComment (s : Bytes) :
    Runs t skipComment s ((dropComment s).map fun rest => ((), rest)) := by
  unfold skipComment
  rw [dropComment]
  refine (runs_longBracketLevel s).then fun _ => ?_
  cases opening : longBracketLevel? s with
  | none => exact runs_skipWhile _ s
  | some level =>
      refine (runs_readLongBracket opening).onward (fun flaw failed => ?_) fun _ _ _ found => ?_
      · dsimp only
        rw [failed]
        rfl
      · dsimp only
        rw [found]
        exact runs_pure ()

theorem ok_then (a : α) (next : α → Except Flaw β) : ((.ok a : Except Flaw α) >>= next) = next a :=
  rfl

/-- Simulation for a reader that only returns the remaining text. -/
theorem Runs.over {m : Reader Unit} {k : Unit → Reader α} {skip : Except Flaw Bytes}
    {read : Except Flaw (α × Bytes)} (runs : Runs t m s (skip.map fun rest => ((), rest)))
    (failed : ∀ flaw, skip = .error flaw → read = .error flaw)
    (later : ∀ s', s' <:+ s → skip = .ok s' → Runs t (k ()) s' read) :
    Runs t (m >>= k) s read := by
  cases skip with
  | error flaw =>
      rw [failed flaw rfl]
      exact runs.stop k
  | ok s' => exact runs.then fun suffix => later s' suffix rfl

theorem runs_skipSpace {bound : Nat} {s : Bytes} (short : s.length ≤ bound) :
    Runs t skipSpace s ((skipBlanks s).map fun rest => ((), rest)) := by
  induction bound generalizing s with
    (rw [skipSpace, loop_eq]; simp only [bind_assoc, ite_bind, pure_bind, resume])
  | zero =>
      rw [List.length_eq_zero_iff.mp (Nat.le_zero.mp short)]
      exact .ended (runs_pure ())
  | succ bound ih =>
      cases s with
      | nil => exact .ended (runs_pure ())
      | cons c s =>
          have fewer : s.length ≤ bound := Nat.le_of_succ_le_succ short
          refine .started (.here ?_)
          by_cases blank : Ascii.isBlank c = true
          · rw [if_pos blank, skipBlanks_blank blank]
            exact .step (ih fewer)
          · rw [if_neg blank]
            refine .next ?_
            by_cases comment : c = Ascii.minus ∧ s.head? = some Ascii.minus
            · rw [if_pos ⟨comment.1, (getD_head (by decide) s).mpr comment.2⟩]
              obtain ⟨rfl, second⟩ := comment
              obtain ⟨s, rfl⟩ := List.head?_eq_some_iff.mp second
              rw [skipBlanks_comment]
              refine (runs_advance (s := Ascii.minus :: Ascii.minus :: s) (by simp)).then fun _ => ?_
              refine .over (runs_skipComment s) (fun flaw failed => by rw [failed]; rfl)
                fun rest suffix passed => ?_
              rw [passed]
              exact ih (Nat.le_trans suffix.length_le (Nat.le_of_succ_le fewer))
            · rw [if_neg fun both => comment ⟨both.1, (getD_head (by decide) s).mp both.2⟩]
              rw [skipBlanks_cons (by simpa using blank) fun is second => comment ⟨is, second⟩]
              exact runs_pure ()

theorem Runs.skip {k : Unit → Reader α} {read : Except Flaw (α × Bytes)}
    (failed : ∀ flaw, skipBlanks s = .error flaw → read = .error flaw)
    (later : ∀ s', s' <:+ s → skipBlanks s = .ok s' → Runs t (k ()) s' read) :
    Runs t (skipSpace >>= k) s read :=
  .over (runs_skipSpace (Nat.le_refl _)) failed later

end

end Cursor

end Literal

end LuaAsset
