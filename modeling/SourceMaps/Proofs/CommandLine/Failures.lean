import SourceMaps.Proofs.CommandLine.Run
import SourceMaps.Proofs.Compose
import SourceMaps.Proofs.Faults

/-!
# Runs that fail

A run that does not get its work done says why on the error output and returns one, with nothing
printed. Reading comes first, and what goes wrong behind it is a fault of the input or of values; so
the files are as they were. Writing comes last. If it is the write that fails, the files are as it
left them, which may be with a part of the map in the file that was to be written. Only arguments
without a value end a run abruptly.

## Main definitions

* `FileAccess.Lawful`: files that reading leaves as they are.
* `Command.IsComplete`: commands all of whose arguments have a value.
* `FailedWrite`: the files that the write of a command left when it failed.
* `EndsWell`: how a run may end.
* `Quiet`, `Ends`: steps that leave the files, and steps after which a run ends well.

## Main statements

* `ends_commandSteps`: every command ends well.
* `run_returns`: how the program ends, whatever its arguments and files are.
* `of_runOn_one`: what a run that fails leaves of a tree of files.
-/

namespace SourceMaps.CommandLine

variable {decompress? : Bytes → Option Bytes} {σ α β : Type} {files : FileAccess (StateM σ)} {s : σ}
  {command : Command}

/-- Files that reading leaves as they are. Nothing is asked of writes. -/
structure FileAccess.Lawful (files : FileAccess (StateM σ)) : Prop where
  read_state : ∀ s path, ((files.read path).run s).2 = s

theorem FileTree.lawful_access : FileTree.access.Lawful where
  read_state _ _ := rfl

/-- Have all arguments of the command a value? -/
def Command.IsComplete : Command → Prop
  | .decode map _ | .encode map _ | .invert map => map.isSome = true
  | .merge first second _ _ => first.isSome = true ∧ second.isSome = true
  | .lookup map line column => map.isSome = true ∧ line.isSome = true ∧ column.isSome = true

/-- The file that the command writes. -/
def Command.target? : Command → Option Text
  | .encode _ output | .merge _ _ _ output => output.file
  | .decode _ _ | .invert _ | .lookup _ _ _ => none

/-- The files in the second state are what writing a map to the target of the command left when it
failed in the first one. -/
def FailedWrite (files : FileAccess (StateM σ)) (command : Command) (s left : σ) : Prop :=
  ∃ name ∈ command.target?, ∃ map pretty e,
    (files.write (.ofText name) (fileBytes map pretty)).run s = (.error e, left)

/-! ### Endings -/

/-- How a run that started from files in some state may end: with zero; with one and nothing
printed, where the files are as they were or as a failing write left them; or abruptly, with the
files as they were, if an argument has no value. -/
inductive EndsWell (files : FileAccess (StateM σ)) (command : Command) (s : σ) : Outcome × σ → Prop
  | success (output errors : Text) (left : σ) :
    EndsWell files command s (.finished 0 output errors, left)
  | failure (errors : Text) : EndsWell files command s (.finished 1 "" errors, s)
  | unwritten {left : σ} (failed : FailedWrite files command s left) (errors : Text) :
    EndsWell files command s (.finished 1 "" errors, left)
  | broken (incomplete : ¬command.IsComplete) (cause : Unusable) :
    EndsWell files command s (.broken cause, s)

theorem EndsWell.noted {outcome : Outcome} {left : σ} (h : EndsWell files command s (outcome, left))
    (note : Text) : EndsWell files command s (outcome.noted note, left) := by
  cases h with
  | success output errors => exact .success output (note ++ errors) left
  | failure errors => exact .failure (note ++ errors)
  | unwritten failed errors => exact .unwritten failed (note ++ errors)
  | broken incomplete cause => exact .broken incomplete cause

/-- A failure that is reported, unless an argument has no value. -/
def Trouble.IsExpected (command : Command) : Trouble → Prop
  | .fault cause => cause.kind.isReported = true
  | .file _ _ => True
  | .unusable _ => ¬command.IsComplete

theorem Trouble.IsExpected.endsWell {trouble : Trouble} (h : trouble.IsExpected command)
    (files : FileAccess (StateM σ)) (s : σ) : EndsWell files command s (trouble.outcome, s) := by
  cases trouble with
  | fault cause =>
    have hreported : cause.kind.isReported = true := h
    rw [outcome, if_pos hreported]
    exact .failure _
  | file e path => exact .failure _
  | unusable cause => exact .broken h cause

/-- Steps that leave the files in their state and answer what is wanted, or fail as expected. -/
def Quiet (command : Command) (s : σ) (steps : Step (StateM σ) α) (P : α → Prop) : Prop :=
  (∃ a, stepsOn s steps = (.ok a, s) ∧ P a) ∨
    ∃ trouble, stepsOn s steps = (.error trouble, s) ∧ trouble.IsExpected command

/-- Steps after which a run ends well. -/
def Ends (files : FileAccess (StateM σ)) (command : Command) (s : σ)
    (steps : Step (StateM σ) Outcome) : Prop :=
  EndsWell files command s ((stepsOn s steps).map settle id)

/-- Quiet steps may come before others. -/
theorem Quiet.ends {steps : Step (StateM σ) α} {next : α → Step (StateM σ) Outcome} {P : α → Prop}
    (h : Quiet command s steps P) (hnext : ∀ a, P a → Ends files command s (next a)) :
    Ends files command s (steps >>= next) := by
  rw [Ends, stepsOn_bind]
  rcases h with ⟨a, hsteps, ha⟩ | ⟨trouble, hsteps, htrouble⟩
  · rw [hsteps]
    exact hnext a ha
  · rw [hsteps]
    exact htrouble.endsWell files s

theorem quiet_orTrouble {result : Except Fault α} (h : Reports result) :
    Quiet command s (orTrouble result) fun a => result = .ok a := by
  cases result with
  | ok a => exact .inl ⟨a, rfl, rfl⟩
  | error fault => exact .inr ⟨.fault fault, rfl, h fault rfl⟩

theorem ends_success (output : Text) : Ends files command s (pure (success output)) :=
  .success output "" s

/-! ### Parts of commands -/

theorem reports_mapOfBytes (decompress? : Bytes → Option Bytes) (serialized : Bool)
    (bytes : Bytes) : Reports (mapOfBytes decompress? serialized bytes) := by
  cases serialized with
  | true => exact Blob.reports_loadWith decompress? bytes none
  | false => exact SourceMap.reports_ofBytes bytes

/-- Reading a map changes nothing. -/
theorem quiet_load (lawful : files.Lawful) (serialized : Bool) {name : Given Text}
    (hname : command.IsComplete → name.isSome = true) :
    Quiet command s (load decompress? files serialized name) fun _ => True := by
  cases name with
  | none => exact .inr ⟨.unusable .path, rfl, fun hcomplete => Bool.false_ne_true (hname hcomplete)⟩
  | some name =>
    rw [Quiet, stepsOn_load_of_read (lawful.read_state s _)]
    cases ((files.read (.ofText name)).run s).1 with
    | error e => exact .inr ⟨.file e _, rfl, trivial⟩
    | ok bytes =>
      cases hmap : mapOfBytes decompress? serialized bytes with
      | ok map =>
        refine .inl ⟨map, ?_, trivial⟩
        simp only [hmap]
        rfl
      | error fault =>
        refine .inr ⟨.fault fault, ?_, reports_mapOfBytes _ _ _ fault hmap⟩
        simp only [hmap]
        rfl

/-- Writing a map to the target is the last that is done. -/
theorem ends_emit (map : SourceMap) {output : OutputChoice}
    (htarget : command.target? = output.file) :
    Ends files command s (emit files map output) := by
  obtain ⟨file, pretty⟩ := output
  cases file with
  | none => exact ends_success _
  | some name =>
    rw [Ends, stepsOn_emit_of_write]
    rcases hwrite : (files.write (.ofText name) (fileBytes map pretty)).run s with ⟨result, left⟩
    cases result with
    | ok _ => exact .success _ _ left
    | error e => exact .unwritten ⟨name, htarget, map, pretty, e, hwrite⟩ _

/-- Looking a position up without an answer prints nothing on the output. -/
theorem ends_lookUp (index : ForwardIndex) {lineNumber column : Given Int}
    (hline : command.IsComplete → lineNumber.isSome = true)
    (hcolumn : command.IsComplete → column.isSome = true) :
    Ends files command s (lookUp index lineNumber column) := by
  cases lineNumber with
  | none => exact .broken (fun hcomplete => Bool.false_ne_true (hline hcomplete)) .key
  | some lineNumber =>
    have hlisted (origins : List OriginalPosition) (nothing : Text) : Ends files command s (do
        if origins.isEmpty then
          return .finished 1 "" nothing
        return success (listOrigins origins)) := by
      by_cases hempty : origins.isEmpty = true
      · rw [if_pos hempty]
        exact .failure nothing
      · rw [if_neg hempty]
        exact ends_success _
    unfold lookUp
    cases hfind : index.grid.find? lineNumber with
    | none =>
      simp only [hfind]
      exact hlisted [] _
    | some columns =>
      simp only [hfind]
      cases column with
      | none => exact .broken (fun hcomplete => Bool.false_ne_true (hcolumn hcomplete)) .key
      | some column => exact hlisted (index.lookup lineNumber column) _

/-- The map of an index that came from maps is written, or its numbers do not fit. -/
theorem ends_encode {index : Index} (options : EncodeOptions) {output : OutputChoice}
    (htarget : command.target? = output.file)
    (registered : ∀ m ∈ index.mappings, m.source ∈ index.registry.sources)
    (lines : ∀ m ∈ index.mappings, 0 ≤ m.generatedLine) :
    Ends files command s (do emit files (← orTrouble (index.encode options {})) output) := by
  refine (quiet_orTrouble (Index.reports_encode options {} registered lines)).ends fun map _ => ?_
  exact ends_emit map htarget

/-- A run may go on after the outcome of steps as long as that stays one that is allowed. -/
theorem ends_settled {steps : Step (StateM σ) Outcome} {f : Outcome → Outcome}
    (h : Ends files command s steps)
    (hf : ∀ outcome left, EndsWell files command s (outcome, left) →
      EndsWell files command s (f outcome, left)) :
    Ends files command s (do
      let outcome ← (settle <$> steps.run : StateM σ Outcome)
      return f outcome) := by
  have hrun : stepsOn s (liftM (settle <$> steps.run : StateM σ Outcome)) =
      (.ok (settle (stepsOn s steps).1), (stepsOn s steps).2) := rfl
  show Ends files command s (liftM (settle <$> steps.run : StateM σ Outcome) >>= fun outcome =>
    pure (f outcome))
  rw [Ends, stepsOn_bind, hrun]
  exact hf _ _ h

/-! ### Commands -/

theorem lines_of_ofMap {map : SourceMap} {index : ReverseIndex}
    (h : ReverseIndex.ofMap map = .ok index) : ∀ m ∈ index.mappings, 0 ≤ m.generatedLine := by
  obtain ⟨mappings, hmappings, rfl⟩ := map_eq_ok_iff.mp h
  intro m hm
  rw [ReverseIndex.mappings_ofMappings, mem_sortOn] at hm
  exact (SourceMap.mapping_of_resolved hmappings m hm).2

/-- Every command ends well. -/
theorem ends_commandSteps (lawful : files.Lawful) (verbose serialized : Bool) (command : Command) :
    Ends files command s (commandSteps decompress? files verbose serialized command) := by
  cases command with
  | decode name reverse =>
    have hname : Command.IsComplete (.decode name reverse) → name.isSome = true := fun h => h
    refine (quiet_load lawful serialized hname).ends fun map _ => ?_
    cases reverse with
    | true =>
      refine (quiet_orTrouble (ReverseIndex.reports_ofMap map)).ends fun index _ => ?_
      exact ends_success _
    | false =>
      refine (quiet_orTrouble (ForwardIndex.reports_ofMap map)).ends fun index _ => ?_
      exact ends_success _
  | invert name =>
    have hname : Command.IsComplete (.invert name) → name.isSome = true := fun h => h
    refine (quiet_load lawful serialized hname).ends fun map _ => ?_
    refine (quiet_orTrouble (ReverseIndex.reports_ofMap map)).ends fun index _ => ?_
    exact ends_success _
  | lookup name lineNumber column =>
    have hname : Command.IsComplete (.lookup name lineNumber column) → name.isSome = true :=
      fun h => h.1
    refine (quiet_load lawful serialized hname).ends fun map _ => ?_
    refine (quiet_orTrouble (ForwardIndex.reports_ofMap map)).ends fun index _ => ?_
    exact ends_lookUp index (fun h => h.2.1) (fun h => h.2.2)
  | encode name output =>
    have hname : Command.IsComplete (.encode name output) → name.isSome = true := fun h => h
    refine (quiet_load lawful serialized hname).ends fun map _ => ?_
    refine (quiet_orTrouble (ForwardIndex.reports_ofMap map)).ends fun index hindex => ?_
    obtain ⟨hbuilt, hlines⟩ := ForwardIndex.built_ofMap hindex
    have hregistered : ∀ m ∈ (Index.forward index).mappings,
        m.source ∈ (Index.forward index).registry.sources := hbuilt.coherent.registered
    exact ends_encode _ rfl hregistered hlines
  | merge firstName secondName intermediate output =>
    have hnames : Command.IsComplete (.merge firstName secondName intermediate output) →
        firstName.isSome = true ∧ secondName.isSome = true := fun h => h
    refine (quiet_load lawful serialized fun h => (hnames h).1).ends fun first _ => ?_
    refine (quiet_load lawful serialized fun h => (hnames h).2).ends fun second _ => ?_
    refine (quiet_orTrouble (ReverseIndex.reports_ofMap first)).ends fun firstIndex _ => ?_
    refine (quiet_orTrouble (ReverseIndex.reports_ofMap second)).ends fun secondIndex hsecond => ?_
    refine (quiet_orTrouble (firstIndex.reports_compose secondIndex intermediate)).ends
      fun merged hmerged => ?_
    have hlines : ∀ m ∈ (Index.reverse merged).mappings, 0 ≤ m.generatedLine :=
      ReverseIndex.lines_of_compose hmerged (lines_of_ofMap hsecond)
    -- The note comes before what writing reports, but a run that fails prints no more for it.
    refine ends_settled (ends_encode _ rfl merged.registered_mappings hlines) ?_
    intro outcome left h
    cases verbose with
    | true => exact h.noted _
    | false => exact h

/-! ### Arguments -/

theorem endsWell_run (lawful : files.Lawful) {arguments : List Text} {invocation : Invocation}
    (accepted : Invocation.ofArguments arguments = .ok invocation) (s : σ) :
    EndsWell files invocation.command s ((run decompress? files arguments).run s) := by
  have hrun : (run decompress? files arguments).run s =
      (stepsOn s (commandSteps decompress? files invocation.verbose invocation.serialized
        invocation.command)).map settle id := by
    rw [run, accepted]
    rfl
  rw [hrun]
  exact ends_commandSteps lawful _ _ _

section Trees

variable {tree left : FileTree}

/-- A write of a tree that fails leaves the tree, unless the contents do not fit; then those bytes
that fit are there. -/
theorem FileTree.write_of_failed {path : FilePath} {contents : Bytes} {e : FileError}
    (h : (FileTree.access.write path contents).run tree = (.error e, left)) :
    left = tree ∨
      ¬tree.Fits contents ∧ tree.write path (tree.fitting contents) = .ok left := by
  rw [run_write] at h
  cases hwrite : tree.write path (tree.fitting contents) with
  | error e' =>
    rw [hwrite] at h
    exact .inl (Prod.mk.inj h).2.symm
  | ok tree' =>
    rw [hwrite] at h
    obtain ⟨hresult, rfl⟩ := Prod.mk.inj h
    refine .inr ⟨fun fits => ?_, rfl⟩
    have hfits : tree.fitting contents = contents := fits
    rw [if_pos hfits] at hresult
    cases hresult

/-- The beginning of a map in the file that is to be written is all that a failed write can leave,
and only where the size of files is limited. -/
theorem FailedWrite.eq_or_cut (h : FailedWrite FileTree.access command tree left) :
    left = tree ∨ tree.limit ≠ none ∧ ∃ name ∈ command.target?, ∃ map pretty written,
      written <+: fileBytes map pretty ∧ tree.write (.ofText name) written = .ok left := by
  obtain ⟨name, hname, map, pretty, e, hfailed⟩ := h
  refine (FileTree.write_of_failed hfailed).imp_right ?_
  rintro ⟨unfit, hwrite⟩
  exact ⟨fun hlimit => unfit (FileTree.fits_of_limit_eq_none hlimit _), name, hname, map, pretty, _,
    tree.fitting_prefix _, hwrite⟩

/-- So a run on a tree that returns one prints nothing and leaves the tree, if files may have any
size, and else at most the beginning of a map in its file. -/
theorem of_runOn_one {arguments : List Text} {invocation : Invocation} {output errors : Text}
    (accepted : Invocation.ofArguments arguments = .ok invocation)
    (ran : runOn decompress? tree arguments = (.finished 1 output errors, left)) :
    output = "" ∧ (left = tree ∨ tree.limit ≠ none ∧
      ∃ name ∈ invocation.command.target?, ∃ map pretty written,
        written <+: fileBytes map pretty ∧ tree.write (.ofText name) written = .ok left) := by
  have h : EndsWell FileTree.access invocation.command tree (runOn decompress? tree arguments) :=
    endsWell_run FileTree.lawful_access accepted tree
  rw [ran] at h
  -- The other two endings have another status or none.
  cases h with
  | failure => exact ⟨rfl, .inl rfl⟩
  | unwritten failed => exact ⟨rfl, failed.eq_or_cut⟩

end Trees

end SourceMaps.CommandLine
