import LuaAsset.Proofs.Interpreter.Usability
import Mathlib.Data.List.Induction

/-! # Independence of the history

A runtime keeps the result of looking for its library from the first non-empty script (`Tried`)
until a reset (`kept_after`).  A new runtime would find the same, so a step is answered as on a new
runtime; only the warning about an unusable library is given once (`answer_unaffected`). -/

set_option autoImplicit false

namespace LuaAsset

namespace Interpreter

/-! ## Steps -/

inductive Step where
  | compile (b : Behaviour) (blob : Bytes)
  | extract (b : Behaviour) (blob name : Bytes)
  | reset

inductive Answer where
  | chunk (o : Runtime.Outcome Bytes)
  | table (o : Runtime.Outcome Value)
  | none

namespace Answer

def calls : Answer → List Call
  | .chunk o => o.calls
  | .table o => o.calls
  | .none => []

def lines : Answer → List Log.Line
  | .chunk o => o.lines
  | .table o => o.lines
  | .none => []

def failure? : Answer → Option Failure
  | .chunk ⟨.error failure, _, _⟩ | .table ⟨.error failure, _, _⟩ => some failure
  | _ => Option.none

def unlogged : Answer → Answer
  | .chunk o => .chunk { o with lines := [] }
  | .table o => .table { o with lines := [] }
  | .none => .none

end Answer

/-- Whether a step needs a library: it works on a script that is not empty. -/
def Step.needsLibrary : Step → Bool
  | .compile _ blob | .extract _ blob _ => !blob.isEmpty
  | .reset => false

/-- A step that needs a library has been taken, with no reset since. -/
def Tried (before : List Step) : Prop :=
  ∃ earlier step later, before = earlier ++ step :: later ∧ step.needsLibrary = true ∧
    .reset ∉ later

theorem not_tried_nil : ¬Tried [] := by
  rintro ⟨earlier, step, later, same, _⟩
  simp at same

theorem tried_concat (before : List Step) (step : Step) :
    Tried (before ++ [step]) ↔ step.needsLibrary = true ∨ (step ≠ .reset ∧ Tried before) := by
  constructor
  · rintro ⟨earlier, first, later, same, needs, none⟩
    -- the step is the one that needed a library, or stands after it
    cases later using List.reverseRecOn with
    | nil =>
        obtain ⟨_, ended⟩ := List.append_inj' same rfl
        obtain rfl := List.singleton_inj.mp ended
        exact .inl needs
    | append_singleton rest last =>
        rw [← List.cons_append, ← List.append_assoc] at same
        obtain ⟨rfl, ended⟩ := List.append_inj' same rfl
        obtain rfl := List.singleton_inj.mp ended
        simp only [List.mem_append, List.mem_singleton, not_or] at none
        exact .inr ⟨Ne.symm none.2, earlier, first, rest, rfl, needs, none.1⟩
  · rintro (needs | ⟨kept, earlier, first, later, rfl, needs, none⟩)
    · exact ⟨before, step, [], rfl, needs, List.not_mem_nil⟩
    · refine ⟨earlier, first, later ++ [step], by simp, needs, ?_⟩
      simp only [List.mem_append, List.mem_singleton, not_or]
      exact ⟨none, Ne.symm kept⟩

namespace Runtime

def Place.path (place : Place) (configured : Option Bytes) : Bytes :=
  configured.getD place.defaultPath

def Place.fault? (place : Place) (configured : Option Bytes) : Option LibraryFault :=
  match place.find (place.path configured) with
  | .missing => none
  | .refused reason => some (.refused (place.path configured) reason)
  | .loaded exports => match bind exports with
      | .error fault => some fault
      | .ok _ => none

def step (place : Place) (r : Runtime) : Step → Answer × Runtime
  | .compile b blob => let (o, r) := r.compile place b blob; (.chunk o, r)
  | .extract b blob name => let (o, r) := r.extractTable place b blob name; (.table o, r)
  | .reset => (.none, r.reset)

def after (place : Place) (r : Runtime) (steps : List Step) : Runtime :=
  steps.foldl (fun r s => (r.step place s).2) r

/-- The answer to a step after a history that started with a new runtime. -/
def answerBehind (configured : Option Bytes) (place : Place) (before : List Step) (s : Step) :
    Answer :=
  (((ofPath configured).after place before).step place s).1

/-! ## The state kept -/

variable {configured : Option Bytes} {place : Place} {r : Runtime}

structure Kept (configured : Option Bytes) (place : Place) (before : List Step) (r : Runtime) :
    Prop where
  configured_eq : r.configured = configured
  path : r.pathFor place = place.path configured
  tried : Tried before → r.binding = some (lookUp place (place.path configured)).1
  untried : ¬Tried before → r.binding = none

theorem kept_ofPath (configured : Option Bytes) (place : Place) :
    Kept configured place [] (ofPath configured) where
  configured_eq := rfl
  path := rfl
  tried tried := absurd tried not_tried_nil
  untried _ := rfl

theorem Kept.obtain {before : List Step} (kept : Kept configured place before r) :
    (r.obtain place).1 = (lookUp place (place.path configured)).1 ∧
      (Tried before → (r.obtain place).2.1 = []) ∧
      (¬Tried before → (r.obtain place).2.1 = (lookUp place (place.path configured)).2) := by
  by_cases tried : Tried before
  · rw [obtain_of_known (kept.tried tried)]
    exact ⟨rfl, fun _ => rfl, fun untried => absurd tried untried⟩
  · rw [obtain_of_unknown (kept.untried tried), kept.path]
    exact ⟨rfl, fun known => absurd known tried, fun _ => rfl⟩

/-- The runtime keeps the result of looking for its library. -/
theorem Kept.obtained {before : List Step} (kept : Kept configured place before r) {s : Step}
    (needs : s.needsLibrary = true) :
    Kept configured place (before ++ [s]) (r.obtain place).2.2 := by
  have tried : Tried (before ++ [s]) := (tried_concat before s).mpr (.inl needs)
  by_cases known : Tried before
  · rw [obtain_of_known (kept.tried known)]
    exact ⟨kept.configured_eq, kept.path, fun _ => kept.tried known,
      fun untried => absurd tried untried⟩
  · rw [obtain_of_unknown (kept.untried known), kept.path]
    exact ⟨kept.configured_eq, rfl, fun _ => rfl, fun untried => absurd tried untried⟩

theorem Kept.unchanged {before : List Step} (kept : Kept configured place before r) {s : Step}
    (idle : s.needsLibrary = false) (other : s ≠ .reset) :
    Kept configured place (before ++ [s]) r := by
  have same : Tried (before ++ [s]) ↔ Tried before := by
    simp [tried_concat, idle, other]
  exact ⟨kept.configured_eq, kept.path, fun tried => kept.tried (same.mp tried),
    fun untried => kept.untried fun tried => untried (same.mpr tried)⟩

theorem Kept.step {before : List Step} (kept : Kept configured place before r) (s : Step) :
    Kept configured place (before ++ [s]) (r.step place s).2 := by
  cases s with
  | compile b blob =>
      by_cases empty : blob = []
      · subst empty
        exact kept.unchanged rfl nofun
      · have needs : (Step.compile b blob).needsLibrary = true := by
          simpa [Step.needsLibrary] using empty
        simp only [Runtime.step, compile_nonempty empty, runOn_runtime]
        exact kept.obtained needs
  | extract b blob name =>
      by_cases empty : blob = []
      · subst empty
        exact kept.unchanged rfl nofun
      · have needs : (Step.extract b blob name).needsLibrary = true := by
          simpa [Step.needsLibrary] using empty
        simp only [Runtime.step, extractTable_nonempty empty, runOn_runtime]
        exact kept.obtained needs
  | reset =>
      have untried : ¬Tried (before ++ [.reset]) := by
        simp [tried_concat, Step.needsLibrary]
      obtain rfl := kept.configured_eq
      exact ⟨rfl, rfl, fun tried => absurd tried untried, fun _ => rfl⟩

theorem kept_after (configured : Option Bytes) (place : Place) (before : List Step) :
    Kept configured place before ((ofPath configured).after place before) := by
  induction before using List.reverseRecOn with
  | nil => exact kept_ofPath configured place
  | append_singleton before s ih =>
      rw [after, List.foldl_append]
      exact ih.step s

/-! ## Answers -/

theorem runOn_unlogged {α : Type} {r other : Runtime}
    (same : (r.obtain place).1 = (other.obtain place).1) (b : Behaviour) (blob : Bytes)
    (work : Except Failure α × List Call) :
    { (r.runOn place b blob work).1 with lines := [] } =
      { (other.runOn place b blob work).1 with lines := [] } := by
  rw [runOn, runOn]
  generalize r.obtain place = first at same ⊢
  generalize other.obtain place = second at same ⊢
  obtain ⟨found, lines, next⟩ := first
  obtain ⟨again, _, _⟩ := second
  obtain rfl : found = again := same
  cases found <;> rfl

theorem runOn_lines {α : Type} (r : Runtime) (b : Behaviour) (blob : Bytes)
    (work : Except Failure α × List Call) :
    (r.runOn place b blob work).1.lines = (r.obtain place).2.1 := by
  rw [runOn]
  obtain ⟨found, lines, next⟩ := r.obtain place
  cases found <;> rfl

theorem runOn_refused {α : Type} {r : Runtime} {failure : Failure}
    (refused : (r.obtain place).1 = .error failure) (b : Behaviour) (blob : Bytes)
    (work : Except Failure α × List Call) :
    (r.runOn place b blob work).1 = ⟨.error failure, [], (r.obtain place).2.1⟩ := by
  rw [runOn]
  generalize r.obtain place = answer at refused ⊢
  obtain ⟨found, lines, next⟩ := answer
  obtain rfl : found = .error failure := refused
  rfl

theorem step_unlogged {other : Runtime} (same : (r.obtain place).1 = (other.obtain place).1)
    (s : Step) : (r.step place s).1.unlogged = (other.step place s).1.unlogged := by
  cases s with
  | compile b blob =>
      by_cases empty : blob = []
      · subst empty
        rfl
      · simp only [step, compile_nonempty empty, Answer.unlogged]
        rw [runOn_unlogged same]
  | extract b blob name =>
      by_cases empty : blob = []
      · subst empty
        rfl
      · simp only [step, extractTable_nonempty empty, Answer.unlogged]
        rw [runOn_unlogged same]
  | reset => rfl

theorem step_lines (r : Runtime) (place : Place) (s : Step) :
    (r.step place s).1.lines = if s.needsLibrary then (r.obtain place).2.1 else [] := by
  cases s with
  | compile b blob =>
      by_cases empty : blob = []
      · subst empty
        rfl
      · simp [step, compile_nonempty empty, Answer.lines, Step.needsLibrary, runOn_lines, empty]
  | extract b blob name =>
      by_cases empty : blob = []
      · subst empty
        rfl
      · simp [step, extractTable_nonempty empty, Answer.lines, Step.needsLibrary, runOn_lines,
          empty]
  | reset => rfl

theorem step_refused {failure : Failure} (refused : (r.obtain place).1 = .error failure) {s : Step}
    (needs : s.needsLibrary = true) :
    (r.step place s).1.failure? = some failure ∧ (r.step place s).1.calls = [] := by
  cases s with
  | compile b blob =>
      have nonempty : blob ≠ [] := by simpa [Step.needsLibrary] using needs
      simp [step, compile_nonempty nonempty, runOn_refused refused, Answer.failure?, Answer.calls]
  | extract b blob name =>
      have nonempty : blob ≠ [] := by simpa [Step.needsLibrary] using needs
      simp [step, extractTable_nonempty nonempty, runOn_refused refused, Answer.failure?,
        Answer.calls]
  | reset => cases needs

/-! ## Looking for a library -/

theorem lookUp_of_fault {fault : LibraryFault} (unusable : place.fault? configured = some fault) :
    lookUp place (place.path configured) = (.error (.libraryUnusable fault),
      [⟨.warning, text "Failed to load Lua runtime from " ++ Log.shown (place.path configured) ++
        text ": " ++ Log.shown fault.wording⟩]) := by
  rw [Place.fault?] at unusable
  rw [lookUp]
  cases found : place.find (place.path configured) with
  | missing => simp [found] at unusable
  | refused reason =>
      obtain rfl : .refused (place.path configured) reason = fault := by
        simpa [found] using unusable
      rfl
  | loaded exports =>
      cases bound : bind exports with
      | ok binding => simp [found, bound] at unusable
      | error missing =>
          obtain rfl : missing = fault := by simpa [found, bound] using unusable
          simp [bound, Runtime.unusable]

theorem lookUp_quiet (usable : place.fault? configured = none) :
    (lookUp place (place.path configured)).2 = [] := by
  rw [Place.fault?] at usable
  rw [lookUp]
  cases found : place.find (place.path configured) with
  | missing => rfl
  | refused reason => simp [found] at usable
  | loaded exports =>
      cases bound : bind exports with
      | ok binding => simp [bound]
      | error missing => simp [found, bound] at usable

theorem exists_unavailable
    (useless : place.find (place.path configured) = .missing ∨
      ∃ fault, place.fault? configured = some fault) :
    ∃ failure, failure.kind = .unavailable ∧
      (lookUp place (place.path configured)).1 = .error failure := by
  obtain missing | ⟨fault, unusable⟩ := useless
  · exact ⟨.libraryMissing (place.path configured), rfl, by rw [lookUp, missing]⟩
  · exact ⟨.libraryUnusable fault, rfl, by rw [lookUp_of_fault unusable]⟩

/-- After any history a step gets the same answer as on a new runtime, apart from its log.  Without
a usable library every non-empty script gets one `unavailable` failure and no call is made; a
library that exists but is unusable is warned about at the first attempt only, until a reset. -/
theorem answer_unaffected (configured : Option Bytes) (place : Place) :
    (∀ before s, (answerBehind configured place before s).unlogged =
      (answerBehind configured place [] s).unlogged) ∧
    (place.find (place.path configured) = .missing ∨
        (∃ fault, place.fault? configured = some fault) →
      ∃ failure, failure.kind = .unavailable ∧
        ∀ before s, s.needsLibrary = true →
          (answerBehind configured place before s).failure? = some failure ∧
            (answerBehind configured place before s).calls = []) ∧
    (∀ before b name,
      answerBehind configured place before (.compile b []) = .chunk ⟨.ok [], [], []⟩ ∧
        answerBehind configured place before (.extract b [] name) =
          .table ⟨.ok (.object []), [], []⟩) ∧
    ∀ before s,
      (∀ fault, place.fault? configured = some fault → s.needsLibrary = true → ¬Tried before →
        (answerBehind configured place before s).lines =
          [⟨.warning, text "Failed to load Lua runtime from " ++
            Log.shown (place.path configured) ++ text ": " ++ Log.shown fault.wording⟩]) ∧
      (place.fault? configured = none ∨ s.needsLibrary = false ∨ Tried before →
        (answerBehind configured place before s).lines = []) := by
  have kept := kept_after configured place
  refine ⟨fun before s => ?_, fun useless => ?_, fun before b name => ⟨rfl, rfl⟩,
    fun before s => ⟨fun fault unusable needs untried => ?_, ?_⟩⟩
  · refine step_unlogged ?_ s
    rw [(kept before).obtain.1, (kept []).obtain.1]
  · obtain ⟨failure, kind, refused⟩ := exists_unavailable useless
    refine ⟨failure, kind, fun before s needs => step_refused ?_ needs⟩
    rw [(kept before).obtain.1, refused]
  · rw [answerBehind, step_lines, if_pos needs, (kept before).obtain.2.2 untried,
      lookUp_of_fault unusable]
  · obtain ⟨_, again, first⟩ := (kept before).obtain
    rw [answerBehind, step_lines]
    rintro (usable | idle | tried)
    · by_cases tried : Tried before
      · rw [again tried, ite_self]
      · rw [first tried, lookUp_quiet usable, ite_self]
    · rw [if_neg (by simp [idle])]
    · rw [again tried, ite_self]

end Runtime

end Interpreter

end LuaAsset
