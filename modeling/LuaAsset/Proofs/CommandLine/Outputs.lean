import LuaAsset.CommandLine
import LuaAsset.Proofs.Decoder.Surroundings
import LuaAsset.Proofs.Table.Stability
import Mathlib.Data.List.Induction

/-! # Outputs of a batch

A product is written under the stem of its script (`target`).  Scripts share an output iff they
share a stem, and only a script with the same stem overwrites an output (`outputs_by_stem`). -/

set_option autoImplicit false

namespace LuaAsset

namespace CommandLine

open LuaAsset.Path (Open Proper)

/-! ## Outputs -/

def Settings.form (s : Settings) : Bytes × Bytes :=
  if s.table.isSome then (text "json", text ".json")
  else if s.records then (text "records", text ".json")
  else (text "lua", text ".lua")

def Settings.nameFor (s : Settings) (path : Bytes) : Bytes := Path.stem path ++ s.form.2

/-- The path of what is written for a script. -/
def target (w : Workplace) (s : Settings) (path : Bytes) : Bytes :=
  Path.join (Path.join (outputDirectory w) s.form.1) (s.nameFor path)

theorem form_cases (s : Settings) :
    s.form = (text "json", text ".json") ∨ s.form = (text "records", text ".json") ∨
      s.form = (text "lua", text ".lua") := by
  rw [Settings.form]
  split
  · exact .inl rfl
  · split
    · exact .inr (.inl rfl)
    · exact .inr (.inr rfl)

theorem proper_form (s : Settings) : Proper s.form.1 := by
  obtain found | found | found := form_cases s <;> rw [found] <;> constructor <;> decide

theorem extension_cases (s : Settings) :
    Ascii.slash ∉ s.form.2 ∧ (0 : UInt8) ∉ s.form.2 ∧ 4 ≤ s.form.2.length := by
  obtain found | found | found := form_cases s <;> rw [found] <;> decide

theorem slashless_nameFor (s : Settings) (path : Bytes) : Ascii.slash ∉ s.nameFor path := by
  rw [Settings.nameFor, List.mem_append, not_or]
  exact ⟨fun inside => (Path.mem_of_mem_stem inside).2 rfl, (extension_cases s).1⟩

theorem proper_nameFor (s : Settings) {path : Bytes} (clean : (0 : UInt8) ∉ path) :
    Proper (s.nameFor path) := by
  obtain ⟨_, zeroless, long⟩ := extension_cases s
  have longer : 4 ≤ (s.nameFor path).length := by
    rw [Settings.nameFor, List.length_append]
    omega
  constructor
  · intro same
    simp [same] at longer
  · exact slashless_nameFor s path
  · rw [Settings.nameFor, List.mem_append, not_or]
    exact ⟨fun inside => clean (Path.mem_of_mem_stem inside).1, zeroless⟩
  · intro same
    simp [same, Path.dotName] at longer
  · intro same
    simp [same, Path.dotDotName] at longer

/-- Two scripts have the same output path iff they have the same stem. -/
theorem target_eq_iff (w : Workplace) (s : Settings) (p q : Bytes) :
    target w s p = target w s q ↔ Path.stem p = Path.stem q := by
  rw [target, target, Path.join_inj (Path.relative_of_slashless (slashless_nameFor s p))
    (Path.relative_of_slashless (slashless_nameFor s q)), Settings.nameFor, Settings.nameFor,
    List.append_left_inj]

section Placing

variable {w : Workplace} (clean : (0 : UInt8) ∉ w.executableDirectory) (s : Settings)

def holderFor (w : Workplace) (s : Settings) : Bytes :=
  Path.join (outputDirectory w) s.form.1

include clean in
theorem open_holderFor : Open (holderFor w s) := by
  have outer : Open (outputDirectory w) :=
    Path.open_join clean (by constructor <;> decide)
  exact Path.open_join outer.zeroless (proper_form s)

include clean in
theorem target_eq {path : Bytes} (cleanPath : (0 : UInt8) ∉ path) :
    target w s path = holderFor w s ++ Ascii.slash :: s.nameFor path :=
  Path.join_below (open_holderFor clean s) (proper_nameFor s cleanPath)

end Placing

/-! ## Delivering -/

/-- The files after writing a product, and whether the write succeeded. -/
def placed (files : Files) (directory path contents : Bytes) : Except Failure Unit × Files :=
  match files.ensureDirectory directory with
  | (.ok (), files) => files.write path contents
  | refused => refused

def talk (s : Settings) (label : Bytes) (p : Product) (session : Session) : Session :=
  (match p.records with
    | some count =>
        session.debug s.config.debug (text "Records " ++ label ++ text ": " ++ decimal count)
    | none => session).debug s.config.debug
      (text "Processed " ++ label ++ text " in " ++ Log.elapsed)

theorem talk_world (s : Settings) (label : Bytes) (p : Product) (session : Session) :
    (talk s label p session).world = session.world := by
  rw [talk, Decoder.Session.debug_world]
  split
  · exact Decoder.Session.debug_world ..
  · rfl

theorem deliver_eq (s : Settings) (output label stem : Bytes) (p : Product) (session : Session) :
    deliver s output label stem p session =
      let path := Path.join (Path.join output p.directory) (stem ++ p.extension)
      match placed (filesOf session) (Path.join output p.directory) path p.contents with
      | (.ok (), files) => (.ok (), (talk s label p (onFiles session files)).log
          (text "Wrote: " ++ Log.shown path))
      | (.error failure, files) => (.error failure, onFiles session files) := by
  simp only [deliver, placed]
  generalize (filesOf session).ensureDirectory (Path.join output p.directory) = prepared
  obtain ⟨made, before⟩ := prepared
  cases made with
  | error failure => rfl
  | ok done =>
      dsimp only
      generalize before.write
        (Path.join (Path.join output p.directory) (stem ++ p.extension)) p.contents = result
      obtain ⟨written, files⟩ := result
      cases written with
      | error failure => rfl
      | ok done => rfl

theorem deliver_world (s : Settings) (output label stem : Bytes) (p : Product)
    (session : Session) :
    (deliver s output label stem p session).2.world =
      (onFiles session (placed (filesOf session) (Path.join output p.directory)
        (Path.join (Path.join output p.directory) (stem ++ p.extension)) p.contents).2).world := by
  rw [deliver_eq]
  dsimp only
  split
  · rename_i files done
    rw [done]
    exact talk_world ..
  · rename_i failure files refused
    rw [refused]

section Placed

variable {files : Files} {directory name contents : Bytes} (way : Open directory)
  (proper : Proper name)

include way proper in
theorem placed_keeps {other bytes : Bytes} {executable : Bool} (properOther : Proper other)
    (apart : other ≠ name)
    (held : files.node (directory ++ Ascii.slash :: other) = .ok (.file bytes executable)) :
    (placed files directory (directory ++ Ascii.slash :: name) contents).2.node
      (directory ++ Ascii.slash :: other) = .ok (.file bytes executable) := by
  obtain ⟨place, located, found⟩ := (Files.node_eq_ok ..).mp held
  obtain ⟨above, holds, rfl, _⟩ := (Files.locate_below way properOther files place).mp located
  obtain ⟨node, there, isDirectory⟩ := holds.inside
  -- something stands in the directory, so it is there and need not be made
  have inside : files.isDirectory directory = true :=
    (Files.isDirectory_iff ..).mpr
      ⟨node, (Files.node_eq_ok ..).mpr ⟨above, holds.located, there⟩, isDirectory⟩
  rw [placed, Files.ensureDirectory_of_directory way.nonempty inside]
  dsimp only
  obtain ⟨g, stored, written⟩ | refused := Files.write_below way proper contents inside
  · rw [written]
    have aside : ∀ above, files.locate (directory ++ Ascii.slash :: other) ≠
        .ok (above ++ [name]) := by
      intro elsewhere same
      have last := Except.ok.inj (located.symm.trans same)
      exact apart (List.singleton_inj.mp (List.append_inj' last rfl).2)
    obtain ⟨kept, stands, kind⟩ :=
      stored.keeps (way.below properOther).zeroless held aside
    obtain rfl := kind.of_file
    exact stands
  · rw [refused]
    exact held

include way proper in
theorem placed_ok {after : Files}
    (done : placed files directory (directory ++ Ascii.slash :: name) contents =
      (.ok (), after)) :
    ∃ node, after.node (directory ++ Ascii.slash :: name) = .ok node ∧
      ((∃ device, node = .device device) ∨ ∃ executable, node = .file contents executable) := by
  rw [placed] at done
  split at done
  · obtain ⟨between, stored⟩ := Files.stored_of_write way proper done
    exact stored.self way proper
  · rename_i unmade
    exact (unmade after done).elim

end Placed

/-! ## The turn of a script -/

section Turn

variable {w : Workplace} {s : Settings} {output label path asset companion : Bytes}
  {session : Session} {I : Decoder.World → Prop}

theorem map_ok {α β : Type} {answer : Except Failure α} {f : α → β} {b : β}
    (mapped : answer.map f = .ok b) : ∃ a, f a = b := by
  cases answer with
  | error failure => cases mapped
  | ok a => exact ⟨a, Except.ok.inj mapped⟩

theorem product_form {p : Product} {after : Session}
    (made : product w s asset companion session = (.ok p, after)) :
    (p.directory, p.extension) = s.form := by
  obtain ⟨table, records, other, config⟩ := s
  cases table with
  | some name =>
      obtain ⟨value, rfl⟩ := map_ok (congrArg Prod.fst made)
      rfl
  | none =>
      cases records with
      | true =>
          obtain ⟨values, rfl⟩ := map_ok (congrArg Prod.fst made)
          rfl
      | false =>
          obtain ⟨source, rfl⟩ := map_ok (congrArg Prod.fst made)
          rfl

theorem product_paths (w : Workplace) (path : Bytes) {p : Product}
    (form : (p.directory, p.extension) = s.form) :
    Path.join (outputDirectory w) p.directory = holderFor w s ∧
      Path.join (Path.join (outputDirectory w) p.directory) (Path.stem path ++ p.extension) =
        target w s path := by
  rw [target, holderFor, Settings.nameFor, ← form]
  exact ⟨rfl, rfl⟩

theorem product_kept (invariant : Decoder.Invariant (Decoder.onMachine w) I)
    (holds : I session.world) {outcome : Except Failure Product} {after : Session}
    (made : product w s asset companion session = (outcome, after)) : I after.world := by
  suffices kept : I (product w s asset companion session).2.world by rwa [made] at kept
  rw [product]
  dsimp only
  split
  · exact invariant.dumpTable _ _ _ holds
  · split
    · exact invariant.parseRecords _ _ _ holds
    · cases (Utf16.marked? asset).map Utf16.scriptBytes with
      | some bytes => exact invariant.textFromAsset _ _ _ holds
      | none => exact invariant.decodeToText _ _ _ holds

theorem process_kept (invariant : Decoder.Invariant (Decoder.onMachine w) I)
    (delivers : ∀ (p : Product) (decoded : Session), (p.directory, p.extension) = s.form →
      I decoded.world → I (deliver s output label (Path.stem path) p decoded).2.world)
    (holds : I session.world) : I (process w s output label path session).2.world := by
  rw [process]
  dsimp only
  split
  · exact holds
  · split
    · exact holds
    · split
      · exact holds
      · split
        · rename_i failure after refused
          exact product_kept invariant holds refused
        · rename_i p after made
          exact delivers p after (product_form made) (product_kept invariant holds made)

theorem process_ok {after : Session}
    (done : process w s output label path session = (.ok (), after)) :
    (∃ message, after = session.log (text "Skipped: " ++ message)) ∨
      ∃ asset companion p decoded, (filesOf session).read path = .ok asset ∧
        product w s asset companion session = (.ok p, decoded) ∧
        deliver s output label (Path.stem path) p decoded = (.ok (), after) := by
  rw [process] at done
  dsimp only at done
  split at done
  · cases done
  · rename_i asset read
    split at done
    · cases done
    · rename_i companion _
      split at done
      · cases done
        exact .inl ⟨label ++ text " (empty file)", by simp⟩
      · split at done
        · cases done
        · rename_i p decoded made
          exact .inr ⟨asset, companion, p, decoded, read, made, done⟩

theorem deliver_ok {stem : Bytes} {p : Product} {after : Session}
    (delivered : deliver s output label stem p session = (.ok (), after)) :
    ∃ files, placed (filesOf session) (Path.join output p.directory)
        (Path.join (Path.join output p.directory) (stem ++ p.extension)) p.contents =
          (.ok (), files) ∧
      filesOf after = files ∧
      after.lines.getLast? = some ⟨.info, text "Wrote: " ++
        Log.shown (Path.join (Path.join output p.directory) (stem ++ p.extension))⟩ := by
  rw [deliver_eq] at delivered
  dsimp only at delivered
  split at delivered
  · rename_i files done
    cases delivered
    refine ⟨files, done, ?_, ?_⟩
    · rw [filesOf, Decoder.Session.log, talk_world]
      rfl
    · rw [Decoder.Session.log, List.getLast?_concat]
  · cases delivered

/-- A path holds the product of a script, unless it is a device. -/
def Written (w : Workplace) (s : Settings) (path output : Bytes) (before after : Session) :
    Prop :=
  ∃ asset companion p decoded node,
    (filesOf before).read path = .ok asset ∧
      product w s asset companion before = (.ok p, decoded) ∧
      (filesOf after).node output = .ok node ∧
      ((∃ device, node = .device device) ∨ ∃ executable, node = .file p.contents executable)

def wrote (path : Bytes) : Log.Line := ⟨.info, text "Wrote: " ++ path⟩

theorem skipped_ne_wrote (message path : Bytes) :
    (⟨.info, text "Skipped: " ++ message⟩ : Log.Line) ≠ wrote path := by
  intro same
  have heads := congrArg (List.head? ∘ Log.Line.message) same
  have first : (text "Skipped: ").head? = some 0x53 := by decide
  have second : (text "Wrote: ").head? = some 0x57 := by decide
  simp only [Function.comp_apply, wrote, List.head?_append, first, second, Option.some_or] at heads
  exact absurd heads (by decide)

/-- A turn that reports a written file has written the product of its script. -/
theorem processOrReport_wrote {base t : Bytes}
    (clean : (0 : UInt8) ∉ w.executableDirectory) (cleanPath : (0 : UInt8) ∉ path)
    (reported : (processOrReport w s (outputDirectory w) base path session).lines.getLast? =
      some (wrote t)) :
    t = target w s path ∧
      Written w s path t session (processOrReport w s (outputDirectory w) base path session) := by
  have way := open_holderFor clean s
  have proper := proper_nameFor s cleanPath
  rw [processOrReport] at reported ⊢
  dsimp only at reported ⊢
  split at reported
  · rename_i after done
    obtain ⟨message, rfl⟩ | ⟨asset, companion, p, decoded, read, made, delivered⟩ :=
      process_ok done
    · rw [Decoder.Session.log, List.getLast?_concat] at reported
      exact absurd (Option.some.inj reported) (skipped_ne_wrote message t)
    · obtain ⟨files, stored, rfl, last⟩ := deliver_ok delivered
      obtain ⟨directory, extension⟩ := product_paths w path (product_form made)
      rw [extension, directory, target_eq clean s cleanPath] at stored
      rw [extension, Log.shown, target_eq clean s cleanPath,
        upToZero_of_notMem (way.below proper).zeroless] at last
      rw [last] at reported
      have named : t = holderFor w s ++ Ascii.slash :: s.nameFor path :=
        (List.append_cancel_left (congrArg Log.Line.message (Option.some.inj reported))).symm
      obtain ⟨node, stands, kind⟩ := placed_ok way proper stored
      rw [target_eq clean s cleanPath, named]
      exact ⟨rfl, asset, companion, p, decoded, node, read, made, stands, kind⟩
  · rename_i failure after _
    rw [List.getLast?_concat] at reported
    cases congrArg Log.Line.level (Option.some.inj reported)

theorem processOrReport_world (base : Bytes) :
    (processOrReport w s output base path session).world =
      (process w s output (Log.shown ((filesOf session).shown path base)) path
        session).2.world := by
  rw [processOrReport]
  dsimp only
  split
  · rename_i done
    rw [done]
  · rename_i refused
    rw [refused]

theorem processOrReport_fit {o : ToolOptions} (base : Bytes) (fit : session.world.tools.Fit o) :
    (processOrReport w s output base path session).world.tools.Fit o := by
  rw [processOrReport_world]
  refine process_kept (Decoder.invariant_fit w o) ?_ fit
  intro p decoded _ fit
  rwa [deliver_world]

/-- The turn of a script keeps the outputs of scripts with other stems. -/
theorem processOrReport_keeps {o : ToolOptions} {base other contents : Bytes} {executable : Bool}
    (clean : (0 : UInt8) ∉ w.executableDirectory) (cleanPath : (0 : UInt8) ∉ path)
    (cleanOther : (0 : UInt8) ∉ other) (apart : Path.stem path ≠ Path.stem other)
    (sparing : Tools.Sparing w.run o (target w s other))
    (native : w.loader.Sparing (target w s other)) (fit : session.world.tools.Fit o)
    (held : (filesOf session).node (target w s other) = .ok (.file contents executable)) :
    (filesOf (processOrReport w s (outputDirectory w) base path session)).node
      (target w s other) = .ok (.file contents executable) := by
  have way := open_holderFor clean s
  have proper := proper_nameFor s cleanPath
  have properOther := proper_nameFor s cleanOther
  have zeroless : (0 : UInt8) ∉ target w s other := by
    rw [target_eq clean s cleanOther]
    exact (way.below properOther).zeroless
  rw [filesOf, processOrReport_world]
  refine (process_kept (Decoder.invariant_spared sparing native zeroless contents executable) ?_
    ⟨fit, held⟩).2
  intro p decoded form known
  obtain ⟨directory, whole⟩ := product_paths w path form
  rw [deliver_world, whole, directory, target_eq clean s cleanPath, target_eq clean s cleanOther]
  rw [target_eq clean s cleanOther] at known
  refine ⟨known.1, placed_keeps way proper properOther ?_ known.2⟩
  intro same
  exact apart (List.append_cancel_right same).symm

end Turn

/-! ## Batches -/

/-- The machine after the turns of the given scripts. -/
def afterTurns (w : Workplace) (r : Request) (machine : Machine) (files : Files)
    (paths : List Bytes) : Session :=
  paths.foldl (fun session path =>
      processOrReport w r.settings (outputDirectory w) r.input path session)
    (.ofWorld (.ofConfig r.settings.config { machine with files }))

section Batch

variable {w : Workplace} {r : Request} {machine : Machine} {files : Files}

theorem afterTurns_concat (paths : List Bytes) (path : Bytes) :
    afterTurns w r machine files (paths ++ [path]) =
      processOrReport w r.settings (outputDirectory w) r.input path
        (afterTurns w r machine files paths) := by
  simp [afterTurns]

theorem fit_afterTurns (paths : List Bytes) :
    (afterTurns w r machine files paths).world.tools.Fit
      (Decoder.toolOptions r.settings.config) := by
  induction paths using List.reverseRecOn with
  | nil => exact Tools.fit_ofOptions _
  | append_singleton paths path ih =>
      rw [afterTurns_concat]
      exact processOrReport_fit r.input ih

/-- Run lemma for `processOrReport_keeps`: an output survives the turns of scripts with other stems.
-/
theorem afterTurns_keeps {before between : List Bytes} {p contents : Bytes} {executable : Bool}
    (clean : (0 : UInt8) ∉ w.executableDirectory) (cleanPath : (0 : UInt8) ∉ p)
    (cleanPaths : ∀ q ∈ between, (0 : UInt8) ∉ q)
    (apart : ∀ q ∈ between, Path.stem q ≠ Path.stem p)
    (sparing : Tools.Sparing w.run (Decoder.toolOptions r.settings.config)
      (target w r.settings p))
    (native : w.loader.Sparing (target w r.settings p))
    (held : (filesOf (afterTurns w r machine files before)).node (target w r.settings p) =
      .ok (.file contents executable)) :
    (filesOf (afterTurns w r machine files (before ++ between))).node (target w r.settings p) =
      .ok (.file contents executable) := by
  induction between using List.reverseRecOn with
  | nil => rwa [List.append_nil]
  | append_singleton between q ih =>
      rw [← List.append_assoc, afterTurns_concat]
      have earlier := ih (fun q among => cleanPaths q (List.mem_append_left _ among))
        (fun q among => apart q (List.mem_append_left _ among))
      have last : q ∈ between ++ [q] := List.mem_append_right _ List.mem_cons_self
      exact processOrReport_keeps clean (cleanPaths q last) cleanPath (apart q last) sparing
        native (fit_afterTurns _) earlier

theorem decodeAll_directory {paths : List Bytes}
    (prepared : machine.files.ensureDirectory (outputDirectory w) = (.ok (), files))
    (collected : files.scripts r.input = .ok paths) :
    decodeAll w r machine = .ok (afterTurns w r machine files paths) := by
  have directory : files.isDirectory r.input = true := by
    rw [Files.scripts] at collected
    split at collected
    · assumption
    · cases collected
  simp only [decodeAll, prepared, directory, collected]
  rfl

/-- A run over a directory gives every script below it one turn, and a turn writes under the stem of
its script; so two scripts share an output iff they share a stem.  An output that stands after the
turn of its script survives until the turn of another script with the same stem, provided that the
external tools and the native library spare it. -/
theorem outputs_by_stem {paths : List Bytes}
    (prepared : machine.files.ensureDirectory (outputDirectory w) = (.ok (), files))
    (collected : files.scripts r.input = .ok paths)
    (clean : (0 : UInt8) ∉ w.executableDirectory) (cleanPaths : ∀ p ∈ paths, (0 : UInt8) ∉ p) :
    decodeAll w r machine = .ok (afterTurns w r machine files paths) ∧
    (∀ p ∈ paths, ∀ q ∈ paths,
      target w r.settings p = target w r.settings q ↔ Path.stem p = Path.stem q) ∧
    ∀ earlier p later, paths = earlier ++ p :: later →
      (∀ t, (afterTurns w r machine files (earlier ++ [p])).lines.getLast? = some (wrote t) →
        t = target w r.settings p ∧
          Written w r.settings p t (afterTurns w r machine files earlier)
            (afterTurns w r machine files (earlier ++ [p]))) ∧
      ∀ between, between <+: later → (∀ q ∈ between, Path.stem q ≠ Path.stem p) →
        Tools.Sparing w.run (Decoder.toolOptions r.settings.config) (target w r.settings p) →
        w.loader.Sparing (target w r.settings p) →
        ∀ contents executable,
          (filesOf (afterTurns w r machine files (earlier ++ [p]))).node
              (target w r.settings p) = .ok (.file contents executable) →
          (filesOf (afterTurns w r machine files (earlier ++ [p] ++ between))).node
              (target w r.settings p) = .ok (.file contents executable) := by
  refine ⟨decodeAll_directory prepared collected,
    fun p _ q _ => target_eq_iff w r.settings p q, ?_⟩
  rintro earlier p later rfl
  have cleanPath := cleanPaths p (by simp)
  constructor
  · intro t reported
    rw [afterTurns_concat] at reported ⊢
    exact processOrReport_wrote clean cleanPath reported
  · rintro between ⟨rest, rfl⟩ apart sparing native contents executable held
    refine afterTurns_keeps clean cleanPath (fun q among => cleanPaths q ?_) apart sparing native
      held
    simp [among]

end Batch

/-! ## A folder -/

/-- A workplace whose commands do nothing and that has no native library. -/
def idle : Workplace where
  executableDirectory := text "/exe"
  run _ files := (.ended 0 [] [], files)
  loader := ⟨fun _ _ => .missing, fun _ _ => default, fun _ files => files⟩

theorem sparing_idle (o : ToolOptions) (path : Bytes) : Tools.Sparing idle.run o path where
  working _ _ := rfl
  keeps _ _ _ _ _ held := held

theorem native_sparing_idle (path : Bytes) : idle.loader.Sparing path where
  keeps _ _ _ _ held := held

/-- A machine with three scripts in one directory, two of them with one stem. -/
def folder : Machine where
  files.root := .directory [
    (text "in", .directory [
      (text "a.lua", .file (text "x") false),
      (text "a.txt", .file (text "y") false),
      (text "b.lua", .file (text "z") false)]),
    (text "exe", .directory [(text "output", .directory [])])]
  files.working := []
  drawn := 0

def wholeFolder : Request := ⟨text "/in", {}⟩

def folderScripts : List Bytes := [text "/in/a.lua", text "/in/a.txt", text "/in/b.lua"]

theorem prepared_folder :
    folder.files.ensureDirectory (outputDirectory idle) = (.ok (), folder.files) := rfl

theorem scripts_folder : folder.files.scripts wholeFolder.input = .ok folderScripts := by
  have inside : folder.files.isDirectory wholeFolder.input = true := rfl
  let found : List (Bytes × Bytes) :=
    [(text "/in/a.lua", text "x"), (text "/in/a.txt", text "y"), (text "/in/b.lua", text "z")]
  have below : folder.files.allBelow wholeFolder.input = found :=
    calc folder.files.allBelow wholeFolder.input
        = stableSort (fun a b => Path.lt a.1 b.1) found := rfl
      _ = found := stableSort_eq_self (by decide)
  rw [Files.scripts, if_pos inside, below]
  decide +kernel

theorem outputs_by_stem_folder :
    folder.files.ensureDirectory (outputDirectory idle) = (.ok (), folder.files) ∧
      folder.files.scripts wholeFolder.input = .ok folderScripts ∧
      (0 : UInt8) ∉ idle.executableDirectory ∧ (∀ p ∈ folderScripts, (0 : UInt8) ∉ p) ∧
      decodeAll idle wholeFolder folder =
        .ok (afterTurns idle wholeFolder folder folder.files folderScripts) ∧
      (filesOf (afterTurns idle wholeFolder folder folder.files folderScripts)).node
        (target idle {} (text "/in/a.txt")) = .ok (.file (text "y") false) := by
  have clean : (0 : UInt8) ∉ idle.executableDirectory := by decide
  have cleanPaths : ∀ p ∈ folderScripts, (0 : UInt8) ∉ p := by decide
  obtain ⟨decoded, _, turns⟩ :=
    outputs_by_stem prepared_folder scripts_folder clean cleanPaths
  obtain ⟨_, stays⟩ := turns [text "/in/a.lua"] (text "/in/a.txt") [text "/in/b.lua"] rfl
  exact ⟨prepared_folder, scripts_folder, clean, cleanPaths, decoded,
    stays [text "/in/b.lua"] List.prefix_rfl (by decide) (sparing_idle _ _)
      (native_sparing_idle _) (text "y") false rfl⟩

/-- Of two scripts with one stem only the later product remains, though both are reported as
written. -/
theorem outputs_collide :
    folder.files.scripts wholeFolder.input =
        .ok [text "/in/a.lua", text "/in/a.txt", text "/in/b.lua"] ∧
      ∃ session, decodeAll idle wholeFolder folder = .ok session ∧
        session.lines =
          [wrote (text "/exe/output/lua/a.lua"), wrote (text "/exe/output/lua/a.lua"),
            wrote (text "/exe/output/lua/b.lua")] ∧
        (filesOf session).read (text "/exe/output/lua/a.lua") = .ok (text "y") := by
  refine ⟨scripts_folder, _, decodeAll_directory prepared_folder scripts_folder, ?_, ?_⟩
  · decide +kernel
  · rfl

end CommandLine

end LuaAsset
