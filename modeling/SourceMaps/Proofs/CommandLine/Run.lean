import SourceMaps.CommandLine.Run
import SourceMaps.Proofs.Blob
import SourceMaps.Proofs.Blob.LaidOut
import SourceMaps.Proofs.CommandLine.Files
import SourceMaps.Proofs.Reencode

/-!
# Runs on trees of files

What the commands that decode and encode do to a tree of files, from the arguments to the outcome.
Reading a map depends on the tree alone, and only writing changes it; so what a run does follows
from what decoding, encoding and the JSON form of maps do.

## Main definitions

* `runOn`: the outcome of the program and the tree that it leaves.
* `stepsOn`: likewise for steps that can fail, on files of any kind.
* `FileTree.load`: the map in a file.

## Main statements

* `runOn_decode`, `runOn_encode`, `of_runOn_encode`: the runs of the two commands.
* `load_of_write`: a map is found in the file that it was written to.
* `decode_encode_of_encode`: encoding keeps what decoding lists, and doing it again changes nothing.
-/

namespace SourceMaps.CommandLine

variable {decompress? : Bytes → Option Bytes}

/-- The outcome of the program on a tree of files, and the tree that it leaves. -/
def runOn (decompress? : Bytes → Option Bytes) (tree : FileTree) (arguments : List Text) :
    Outcome × FileTree :=
  (run decompress? FileTree.access arguments).run tree

/-- The result of steps on files in some state, and the state that they leave. -/
def stepsOn {σ α : Type} (s : σ) (steps : Step (StateM σ) α) : Except Trouble α × σ :=
  steps.run.run s

section Steps

variable {σ α β : Type}

theorem stepsOn_bind (s : σ) (steps : Step (StateM σ) α) (next : α → Step (StateM σ) β) :
    stepsOn s (steps >>= next) =
      match stepsOn s steps with
      | (.ok a, left) => stepsOn left (next a)
      | (.error trouble, left) => (.error trouble, left) := by
  show (ExceptT.bindCont next (stepsOn s steps).1 : StateM σ _) (stepsOn s steps).2 = _
  rcases stepsOn s steps with ⟨result, left⟩
  cases result <;> rfl

theorem stepsOn_orTrouble (s : σ) (result : Except Fault α) :
    stepsOn s (orTrouble result) = (result.mapError .fault, s) := by
  cases result <;> rfl

theorem stepsOn_monadLift (s : σ) (x : StateM σ α) :
    stepsOn s (liftM x) = (.ok (x.run s).1, (x.run s).2) := rfl

end Steps

theorem runOn_eq {arguments : List Text} {invocation : Invocation} (tree : FileTree)
    (h : Invocation.ofArguments arguments = .ok invocation) :
    runOn decompress? tree arguments =
      (stepsOn tree (commandSteps decompress? FileTree.access invocation.verbose
        invocation.serialized invocation.command)).map settle id := by
  rw [runOn, run, h]
  rfl

/-! ### Reading and writing maps -/

section Files

variable {σ : Type} {files : FileAccess (StateM σ)} {s : σ}

/-- Reading a map depends on what is read alone, as long as reading leaves the files. -/
theorem stepsOn_load_of_read {name : Text} (hread : ((files.read (.ofText name)).run s).2 = s)
    (serialized : Bool) :
    stepsOn s (load decompress? files serialized (some name)) =
      match ((files.read (.ofText name)).run s).1 with
      | .error e => (.error (.file e (.ofText name)), s)
      | .ok bytes => ((mapOfBytes decompress? serialized bytes).mapError .fault, s) := by
  rw [load, stepsOn_bind]
  show stepsOn s (liftM (files.read (.ofText name)) >>= _) = _
  rw [stepsOn_bind, stepsOn_monadLift, hread]
  cases ((files.read (.ofText name)).run s).1 with
  | error e => rfl
  | ok bytes => exact stepsOn_orTrouble s _

/-- The bytes of the file of a map. -/
def fileBytes (map : SourceMap) (pretty : Bool) : Bytes :=
  Utf8.encode (line (map.render (if pretty then .indented else .compact)))

/-- Writing a map leaves what writing its bytes leaves. -/
theorem stepsOn_emit_of_write (files : FileAccess (StateM σ)) (s : σ) (map : SourceMap)
    (name : Text) (pretty : Bool) :
    stepsOn s (emit files map ⟨some name, pretty⟩) =
      match (files.write (.ofText name) (fileBytes map pretty)).run s with
      | (.error e, left) => (.error (.file e (.ofText name)), left)
      | (.ok (), left) => (.ok (success (line ("Wrote " ++ name))), left) := by
  rw [emit]
  show stepsOn s (liftM (files.write (.ofText name) (fileBytes map pretty)) >>= _) = _
  rw [stepsOn_bind, stepsOn_monadLift]
  rcases (files.write (.ofText name) (fileBytes map pretty)).run s with ⟨result, left⟩
  cases result <;> rfl

end Files

/-- The map in a file of a tree. -/
def FileTree.load (tree : FileTree) (decompress? : Bytes → Option Bytes) (serialized : Bool)
    (name : Text) : Except Trouble SourceMap :=
  match tree.read (.ofText name) with
  | .error e => .error (.file e (.ofText name))
  | .ok bytes => (mapOfBytes decompress? serialized bytes).mapError .fault

theorem stepsOn_load (tree : FileTree) (serialized : Bool) (name : Text) :
    stepsOn tree (load decompress? FileTree.access serialized (some name)) =
      (tree.load decompress? serialized name, tree) := by
  have hread : (FileTree.access.read (.ofText name)).run tree =
      (tree.read (.ofText name), tree) := rfl
  have hleft : ((FileTree.access.read (.ofText name)).run tree).2 = tree := rfl
  rw [stepsOn_load_of_read hleft, hread, FileTree.load]
  cases tree.read (.ofText name) <;> rfl

theorem run_write (tree : FileTree) (path : FilePath) (contents : Bytes) :
    (FileTree.access.write path contents).run tree =
      match tree.write path (tree.fitting contents) with
      | .error e => (.error e, tree)
      | .ok left =>
        (if tree.fitting contents = contents then .ok () else .error .tooLarge, left) := by
  show StateT.run (match tree.write path (tree.fitting contents) with
    | .error e => return .error e
    | .ok left => (do
      set left
      if tree.fitting contents = contents then return .ok () else return .error .tooLarge :
        StateM FileTree (Except FileError Unit))) tree = _
  cases tree.write path (tree.fitting contents) with
  | error e => rfl
  | ok left => by_cases h : tree.fitting contents = contents <;> simp [h] <;> rfl

/-- Writing a map that fits leaves the tree with its file. -/
theorem stepsOn_emit {tree tree' : FileTree} {map : SourceMap} {name : Text} {pretty : Bool}
    (fits : tree.Fits (fileBytes map pretty))
    (hwrite : tree.write (.ofText name) (fileBytes map pretty) = .ok tree') :
    stepsOn tree (emit FileTree.access map ⟨some name, pretty⟩) =
      (.ok (success (line ("Wrote " ++ name))), tree') := by
  have hfits : tree.fitting (fileBytes map pretty) = fileBytes map pretty := fits
  rw [stepsOn_emit_of_write, run_write]
  simp only [hfits, hwrite, if_true]

/-- Writing a map succeeds only if it fits. -/
theorem of_stepsOn_emit {tree tree' : FileTree} {map : SourceMap} {name : Text} {pretty : Bool}
    {outcome : Outcome}
    (h : stepsOn tree (emit FileTree.access map ⟨some name, pretty⟩) = (.ok outcome, tree')) :
    tree.Fits (fileBytes map pretty) ∧
      tree.write (.ofText name) (fileBytes map pretty) = .ok tree' := by
  rw [stepsOn_emit_of_write, run_write] at h
  cases hwrite : tree.write (.ofText name) (tree.fitting (fileBytes map pretty)) with
  | error e =>
    rw [hwrite] at h
    cases h
  | ok left =>
    rw [hwrite] at h
    by_cases hfits : tree.fitting (fileBytes map pretty) = fileBytes map pretty
    · simp only [if_pos hfits] at h
      cases h
      exact ⟨hfits, hfits ▸ hwrite⟩
    · simp only [if_neg hfits] at h
      cases h

/-! ### Decoding and encoding -/

section Commands

variable {tree tree' : FileTree} {arguments : List Text} {verbose serialized pretty : Bool}
  {name file : Text} {map written : SourceMap}

/-- Decoding a map that can be decoded lists its mappings and changes no file. -/
theorem runOn_decode {index : ForwardIndex}
    (h : Invocation.ofArguments arguments = .ok ⟨verbose, serialized, .decode (some name) false⟩)
    (hload : tree.load decompress? serialized name = .ok map)
    (hindex : ForwardIndex.ofMap map = .ok index) :
    runOn decompress? tree arguments = (success (listForward index.mappings), tree) := by
  rw [runOn_eq tree h]
  show (stepsOn tree (load decompress? FileTree.access serialized (some name) >>= _)).map
    settle id = _
  rw [stepsOn_bind, stepsOn_load, hload]
  show (stepsOn tree (orTrouble (ForwardIndex.ofMap map) >>= _)).map settle id = _
  rw [stepsOn_bind, stepsOn_orTrouble, hindex]
  rfl

/-- The steps of encoding a file into another. -/
theorem stepsOn_encode (tree : FileTree) (verbose serialized pretty : Bool) (name file : Text) :
    stepsOn tree (commandSteps decompress? FileTree.access verbose serialized
        (.encode (some name) ⟨some file, pretty⟩)) =
      match tree.load decompress? serialized name >>= fun map =>
        map.reencode.mapError .fault with
      | .ok written => stepsOn tree (emit FileTree.access written ⟨some file, pretty⟩)
      | .error trouble => (.error trouble, tree) := by
  show stepsOn tree (load decompress? FileTree.access serialized (some name) >>= _) = _
  rw [stepsOn_bind, stepsOn_load]
  cases tree.load decompress? serialized name with
  | error trouble => rfl
  | ok map =>
    rw [ok_bind, SourceMap.reencode]
    show stepsOn tree (orTrouble (ForwardIndex.ofMap map) >>= _) = _
    rw [stepsOn_bind, stepsOn_orTrouble]
    cases ForwardIndex.ofMap map with
    | error fault => rfl
    | ok index =>
      rw [ok_bind]
      show stepsOn tree (orTrouble ((Index.forward index).encode map.keeping {}) >>= _) = _
      rw [stepsOn_bind, stepsOn_orTrouble]
      cases (Index.forward index).encode map.keeping {} <;> rfl

theorem outcome_ne_finished_zero (trouble : Trouble) (output errors : Text) :
    trouble.outcome ≠ .finished 0 output errors := by
  cases trouble with
  | fault cause => by_cases hcause : cause.kind.isReported <;> simp [Trouble.outcome, hcause]
  | file | unusable => simp [Trouble.outcome]

/-- Encoding a map that can be written anew does with the tree what writing that map does. -/
theorem runOn_encode_eq
    (h : Invocation.ofArguments arguments =
      .ok ⟨verbose, serialized, .encode (some name) ⟨some file, pretty⟩⟩)
    (hload : tree.load decompress? serialized name = .ok map)
    (hwritten : map.reencode = .ok written) :
    runOn decompress? tree arguments =
      (stepsOn tree (emit FileTree.access written ⟨some file, pretty⟩)).map settle id := by
  rw [runOn_eq tree h, stepsOn_encode, hload, ok_bind, hwritten]
  rfl

/-- If what is written fits, encoding says so. -/
theorem runOn_encode
    (h : Invocation.ofArguments arguments =
      .ok ⟨verbose, serialized, .encode (some name) ⟨some file, pretty⟩⟩)
    (hload : tree.load decompress? serialized name = .ok map)
    (hwritten : map.reencode = .ok written) (fits : tree.Fits (fileBytes written pretty))
    (hwrite : tree.write (.ofText file) (fileBytes written pretty) = .ok tree') :
    runOn decompress? tree arguments = (success (line ("Wrote " ++ file)), tree') := by
  rw [runOn_encode_eq h hload hwritten, stepsOn_emit fits hwrite]
  rfl

/-- Encoding returns zero only if the map was written anew, as a whole. -/
theorem of_runOn_encode {output errors : Text}
    (h : Invocation.ofArguments arguments =
      .ok ⟨verbose, serialized, .encode (some name) ⟨some file, pretty⟩⟩)
    (ran : runOn decompress? tree arguments = (.finished 0 output errors, tree')) :
    ∃ map written, tree.load decompress? serialized name = .ok map ∧
      map.reencode = .ok written ∧ tree.Fits (fileBytes written pretty) ∧
      tree.write (.ofText file) (fileBytes written pretty) = .ok tree' := by
  have hfailed {trouble : Trouble} {left : FileTree}
      (hrun : (settle (.error trouble), left) = (Outcome.finished 0 output errors, tree')) :
      False :=
    outcome_ne_finished_zero trouble output errors (Prod.mk.inj hrun).1
  rw [runOn_eq tree h, stepsOn_encode] at ran
  cases hload : tree.load decompress? serialized name with
  | error trouble =>
    rw [hload] at ran
    exact (hfailed ran).elim
  | ok map =>
    rw [hload, ok_bind] at ran
    cases hwritten : map.reencode with
    | error fault =>
      rw [hwritten] at ran
      exact (hfailed ran).elim
    | ok written =>
      rw [hwritten] at ran
      replace ran :
          (stepsOn tree (emit FileTree.access written ⟨some file, pretty⟩)).map settle id =
            (.finished 0 output errors, tree') := ran
      rcases hemit : stepsOn tree (emit FileTree.access written ⟨some file, pretty⟩) with
        ⟨result, left⟩
      rw [hemit] at ran
      cases result with
      | error trouble => exact (hfailed ran).elim
      | ok outcome =>
        obtain rfl : left = tree' := (Prod.mk.inj ran).2
        obtain ⟨hfits, hwrite⟩ := of_stepsOn_emit hemit
        exact ⟨map, written, rfl, hwritten, hfits, hwrite⟩

theorem mapError_eq_ok_iff {ε ε' α : Type} {x : Except ε α} {f : ε → ε'} {a : α} :
    x.mapError f = .ok a ↔ x = .ok a := by
  cases x <;> simp [Except.mapError]

theorem load_eq_ok_iff : tree.load decompress? serialized name = .ok map ↔
    ∃ bytes, tree.read (.ofText name) = .ok bytes ∧
      mapOfBytes decompress? serialized bytes = .ok map := by
  unfold FileTree.load
  cases tree.read (.ofText name) with
  | error e => simp
  | ok bytes => simp [mapError_eq_ok_iff]

/-- A map with a JSON form is found in a file with the bytes of that form. -/
theorem load_of_read (portable : map.Portable)
    (hread : tree.read (.ofText name) = .ok (fileBytes map pretty)) :
    tree.load decompress? false name = .ok map :=
  load_eq_ok_iff.mpr ⟨_, hread, SourceMap.ofBytes_encode portable _ (by decide)⟩

/-- Such a map is found in the file that it was written to. -/
theorem load_of_write (portable : map.Portable)
    (hwrite : tree.write (.ofText file) (fileBytes map pretty) = .ok tree') :
    tree'.load decompress? false file = .ok map :=
  load_of_read portable (FileTree.read_of_write hwrite)

/-- The map of a blob has a JSON form, and so has a map that was read from JSON, if its texts hold
no surrogates. -/
theorem portable_of_load (hload : tree.load decompress? serialized name = .ok map)
    (scalar : serialized = false → map.IsScalar) : map.Portable := by
  obtain ⟨bytes, -, hbytes⟩ := load_eq_ok_iff.mp hload
  cases serialized with
  | false => exact SourceMap.portable_of_ofBytes hbytes (scalar rfl)
  | true => exact Blob.portable_of_loadWith hbytes nofun

/-- Encoding keeps the meaning of a map and writes nothing new the second time, whatever the frames
of blobs are decompressed with. If a file was encoded with status zero, decoding the written file
lists what decoding the first one lists, and encoding it again in the same layout, to any place that
can be written to, succeeds and writes the same bytes. The first file is a blob, or JSON of a map
whose texts hold no surrogates. -/
theorem decode_encode_of_encode {output errors : Text}
    (scalar : serialized = false →
      ∀ map, tree.load decompress? serialized name = .ok map → map.IsScalar)
    (invoked : Invocation.ofArguments arguments =
      .ok ⟨verbose, serialized, .encode (some name) ⟨some file, pretty⟩⟩)
    (ran : runOn decompress? tree arguments = (.finished 0 output errors, tree')) :
    (∀ before after v v',
      Invocation.ofArguments before = .ok ⟨v, serialized, .decode (some name) false⟩ →
      Invocation.ofArguments after = .ok ⟨v', false, .decode (some file) false⟩ →
      ∃ listing, runOn decompress? tree before = (.finished 0 listing "", tree) ∧
        runOn decompress? tree' after = (.finished 0 listing "", tree')) ∧
    ∃ bytes, tree'.read (.ofText file) = .ok bytes ∧
      ∀ again v next,
        Invocation.ofArguments again = .ok ⟨v, false, .encode (some file) ⟨some next, pretty⟩⟩ →
        tree'.Writable (.ofText next) →
        ∃ tree'', runOn decompress? tree' again =
            (.finished 0 (line ("Wrote " ++ next)) "", tree'') ∧
          tree''.read (.ofText next) = .ok bytes := by
  obtain ⟨map, written, hload, hwritten, hfits, hwrite⟩ := of_runOn_encode invoked ran
  have hportable := portable_of_load hload fun hjson => scalar hjson map hload
  have hagain : tree'.load decompress? false file = .ok written :=
    load_of_write (SourceMap.portable_of_reencode hwritten hportable) hwrite
  obtain ⟨index, hindex, -⟩ := SourceMap.reencode_eq_ok_iff.mp hwritten
  have hsame : ForwardIndex.ofMap written = .ok index :=
    (SourceMap.ofMap_of_reencode hwritten).trans hindex
  refine ⟨fun before after v v' hbefore hafter => ?_, _, FileTree.read_of_write hwrite,
    fun again v next hinvoked hwritable => ?_⟩
  · exact ⟨_, runOn_decode hbefore hload hindex, runOn_decode hafter hagain hsame⟩
  · obtain ⟨tree'', hrewrite⟩ := hwritable.exists_write (fileBytes written pretty)
    exact ⟨tree'', runOn_encode hinvoked hagain (SourceMap.reencode_of_reencode hwritten)
      (hfits.of_write hwrite) hrewrite, FileTree.read_of_write hrewrite⟩

end Commands

/-- A map out of order: columns that go back, a name used before the one in front of it, and a
source that is listed twice. -/
def unsorted : SourceMap where
  sources := [some "a", none, some "a"]
  names := ["x", "y"]
  mappings := "IAAAC,DEAA,CDACD"
  file := some "é"

theorem portable_unsorted : unsorted.Portable where
  sources := by decide
  names := by decide
  mappings := by decide
  file := by decide
  sourceRoot := by decide
  sourcesContent := by decide
  version := rfl
  lineCount := nofun

/-- The map of `unsorted` written anew: in order, and with the names in the order of their use. -/
def sorted : SourceMap where
  sources := [some "a", some "", some "a"]
  names := ["y", "x"]
  mappings := "GAAA,CAAAA,ACACC"
  file := some "é"

theorem reencode_unsorted : unsorted.reencode = .ok sorted := by cbv

/-- The map of the blob `Blob.packed`, which is written anew as it is. -/
def unpacked : SourceMap where
  sources := [some "é.ts", some ".ts"]
  names := []
  mappings := "AAAA;ACAA"
  sourcesContent := some [none, some "hé"]

theorem loadWith_packed : Blob.loadWith Zstd.decompress? Blob.packed none = .ok unpacked := by cbv

theorem reencode_unpacked : unpacked.reencode = .ok unpacked := by cbv

/-- A tree with a file of the first map in the working directory, and a blob in another one. -/
def workshop : FileTree where
  files := [(["work", "in.map"], fileBytes unsorted false), (["lib", "in.blob"], Blob.packed)]
  workingDirectory := ["work"]

theorem load_workshop_map (decompress? : Bytes → Option Bytes) :
    workshop.load decompress? false "in.map" = .ok unsorted := by
  have hpath : FilePath.ofText "in.map" = ⟨"", ["in.map"]⟩ := by decide
  have hread : workshop.read (.ofText "in.map") = .ok (fileBytes unsorted false) := by
    rw [hpath]
    rfl
  exact load_of_read portable_unsorted hread

theorem load_workshop_blob :
    workshop.load Zstd.decompress? true "/lib/in.blob" = .ok unpacked := by
  have hpath : FilePath.ofText "/lib/in.blob" = ⟨"/", ["lib", "in.blob"]⟩ := by decide
  refine load_eq_ok_iff.mpr ⟨Blob.packed, ?_, loadWith_packed⟩
  rw [hpath]
  rfl

theorem decode_encode_of_encode_workshop :
    (∃ tree' tree'' listing bytes,
      runOn Zstd.decompress? workshop ["encode", "in.map", "-o", "/lib/out.map", "--pretty"] =
        (.finished 0 (line "Wrote /lib/out.map") "", tree') ∧
      runOn Zstd.decompress? workshop ["decode", "in.map"] = (.finished 0 listing "", workshop) ∧
      runOn Zstd.decompress? tree' ["decode", "/lib/out.map"] = (.finished 0 listing "", tree') ∧
      runOn Zstd.decompress? tree' ["encode", "--pretty", "/lib/out.map", "-o", "again.map"] =
        (.finished 0 (line "Wrote again.map") "", tree'') ∧
      tree'.read (.ofText "/lib/out.map") = .ok bytes ∧
      tree''.read (.ofText "again.map") = .ok bytes) ∧
    ∃ tree' tree'' listing bytes,
      runOn Zstd.decompress? workshop ["--serialized", "encode", "/lib/in.blob", "-o", "out.map"] =
        (.finished 0 (line "Wrote out.map") "", tree') ∧
      runOn Zstd.decompress? workshop ["--serialized", "decode", "/lib/in.blob"] =
        (.finished 0 listing "", workshop) ∧
      runOn Zstd.decompress? tree' ["decode", "out.map"] = (.finished 0 listing "", tree') ∧
      runOn Zstd.decompress? tree' ["encode", "out.map", "-o", "out.map"] =
        (.finished 0 (line "Wrote out.map") "", tree'') ∧
      tree'.read (.ofText "out.map") = .ok bytes ∧ tree''.read (.ofText "out.map") = .ok bytes := by
  have hlib : FilePath.ofText "/lib/out.map" = ⟨"/", ["lib", "out.map"]⟩ := by decide
  have hout : FilePath.ofText "out.map" = ⟨"", ["out.map"]⟩ := by decide
  have hagain : FilePath.ofText "again.map" = ⟨"", ["again.map"]⟩ := by decide
  constructor
  · have hload := load_workshop_map Zstd.decompress?
    have hwrite (contents : Bytes) : workshop.write (.ofText "/lib/out.map") contents =
        .ok (workshop.put ["lib", "out.map"] contents) := by
      rw [hlib]
      rfl
    have hwritable (contents : Bytes) :
        (workshop.put ["lib", "out.map"] contents).Writable (.ofText "again.map") := by
      rw [hagain]
      exact ⟨["work", "again.map"], rfl, nofun⟩
    have hinvoked : Invocation.ofArguments ["encode", "in.map", "-o", "/lib/out.map", "--pretty"] =
        .ok ⟨false, false, .encode (some "in.map") ⟨some "/lib/out.map", true⟩⟩ := by decide
    have hran := runOn_encode hinvoked hload reencode_unsorted rfl (hwrite _)
    obtain ⟨hdecode, bytes, hread, hencode⟩ := decode_encode_of_encode
      (fun _ map hmap => by
        obtain rfl : unsorted = map := Except.ok.inj (hload.symm.trans hmap)
        exact portable_unsorted.toIsScalar) hinvoked hran
    obtain ⟨listing, hbefore, hafter⟩ := hdecode ["decode", "in.map"] ["decode", "/lib/out.map"]
      false false (by decide) (by decide)
    obtain ⟨tree'', hrun, hsame⟩ := hencode
      ["encode", "--pretty", "/lib/out.map", "-o", "again.map"] false "again.map" (by decide)
      (hwritable _)
    exact ⟨_, tree'', listing, bytes, hran, hbefore, hafter, hrun, hread, hsame⟩
  · have hwrite (contents : Bytes) : workshop.write (.ofText "out.map") contents =
        .ok (workshop.put ["work", "out.map"] contents) := by
      rw [hout]
      rfl
    have hwritable (contents : Bytes) :
        (workshop.put ["work", "out.map"] contents).Writable (.ofText "out.map") := by
      rw [hout]
      exact ⟨["work", "out.map"], rfl, nofun⟩
    have hinvoked : Invocation.ofArguments
        ["--serialized", "encode", "/lib/in.blob", "-o", "out.map"] =
        .ok ⟨false, true, .encode (some "/lib/in.blob") ⟨some "out.map", false⟩⟩ := by decide
    have hran := runOn_encode hinvoked load_workshop_blob reencode_unpacked rfl (hwrite _)
    obtain ⟨hdecode, bytes, hread, hencode⟩ := decode_encode_of_encode
      (fun hjson => absurd hjson (by decide)) hinvoked hran
    obtain ⟨listing, hbefore, hafter⟩ := hdecode ["--serialized", "decode", "/lib/in.blob"]
      ["decode", "out.map"] false false (by decide) (by decide)
    obtain ⟨tree'', hrun, hsame⟩ := hencode ["encode", "out.map", "-o", "out.map"] false "out.map"
      (by decide) (hwritable _)
    exact ⟨_, tree'', listing, bytes, hran, hbefore, hafter, hrun, hread, hsame⟩

end SourceMaps.CommandLine
