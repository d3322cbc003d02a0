import SourceMaps.Document

/-!
# Binary blobs

A compact binary form of a map. A header gives the number of sources and the length of the
mappings; two tables of pointers follow, to the names of the sources and to their compressed
contents, and then the mappings text. Pointers refer to the blob as a whole.

## Main definitions

* `Blob.Header`, `Blob.Pointer`: the records of a blob, with `Blob.Pointer.slice` and
  `Blob.Pointer.text` for what a pointer refers to.
* `Blob.readTable`: what is read through a table of pointers.
* `Blob.loadWith`: the map of a blob whose frames are decompressed by a given function.
-/

namespace SourceMaps.Blob

/-! ### Headers and pointers -/

/-- What a blob declares at its start. -/
structure Header where
  /-- The number of sources. -/
  sourceCount : Nat
  /-- The length of the mappings text. -/
  mappingsLength : Nat
deriving DecidableEq

/-- A range of the blob. -/
structure Pointer where
  /-- Where the range starts. -/
  offset : Nat
  /-- Its length. -/
  length : Nat
deriving DecidableEq

/-- The record at an offset, made of its two numbers. -/
def readRecord {α : Type} (make : Nat → Nat → α) (data : Bytes) (offset : Int) :
    Except Fault α :=
  match readPair data offset with
  | .ok (first, second) => .ok (make first second)
  | .error cause => .error (.unreadable cause)

/-- The header at an offset. -/
def Header.read (data : Bytes) (offset : Int) : Except Fault Header :=
  readRecord Header.mk data offset

/-- The pointer at an offset. -/
def Pointer.read (data : Bytes) (offset : Int) : Except Fault Pointer :=
  readRecord Pointer.mk data offset

/-- The bytes of the range. An empty range may lie anywhere. -/
def Pointer.slice (p : Pointer) (data : Bytes) : Except Fault Bytes :=
  if p.length = 0 then .ok []
  else if data.length < p.offset + p.length then
    .error (.pointerOutOfRange p.offset p.length data.length)
  else .ok ((data.drop p.offset).take p.length)

/-- Bytes without the zeros at their end. -/
def trimZeros (bytes : Bytes) : Bytes := (bytes.reverse.dropWhile (· = 0)).reverse

/-- The text in the range, without zeros at its end and with what is no UTF-8 replaced. -/
def Pointer.text (p : Pointer) (data : Bytes) : Except Fault Text :=
  (fun bytes => Utf8.decodeLossy (trimZeros bytes)) <$> p.slice data

/-! ### Maps -/

/-- The contents of a source. An empty range means that they are absent. -/
def readContents (decompress? : Bytes → Option Bytes) (data : Bytes) (source : Text) (p : Pointer) :
    Except Fault (Option Text) := do
  match ← p.slice data with
  | [] => return none
  | frame =>
    match decompress? frame with
    | some bytes => return some (Utf8.decodeLossy bytes)
    | none => throw (.incompressible source)

/-- What is read through the pointers of a table, of which there is one for each item. -/
def readTable {α β : Type} (data : Bytes) (read : α → Pointer → Except Fault β) :
    (start : Nat) → List α → Except Fault (List β)
  | _, [] => .ok []
  | start, item :: rest => do
    let found ← read item (← Pointer.read data start)
    let others ← readTable data read (start + recordSize) rest
    return found :: others

/-- The map of a blob whose frames are decompressed by the given function, for a generated file. -/
def loadWith (decompress? : Bytes → Option Bytes) (data : Bytes) (file : Option Text) :
    Except Fault SourceMap := do
  if data.length < recordSize then
    throw (.blobTooShort data.length)
  let header ← Header.read data 0
  if header.sourceCount = 0 then
    throw .blobWithoutSources
  let contentsStart := recordSize + header.sourceCount * recordSize
  let mappingsStart := contentsStart + header.sourceCount * recordSize
  let mappingsEnd := mappingsStart + header.mappingsLength
  if data.length < mappingsEnd then
    throw (.blobTruncated mappingsEnd data.length)
  let sources ← readTable data (fun _ p => p.text data) recordSize
    (List.replicate header.sourceCount ())
  let contents ← readTable data (readContents decompress? data) contentsStart sources
  let mappingsBytes := (data.drop mappingsStart).take header.mappingsLength
  match decodeAscii 0 mappingsBytes with
  | .error cause => throw (.mappingsNotAscii cause)
  | .ok mappings =>
    return {
      sources := sources.map some, names := [], mappings, file, sourcesContent := some contents }

end SourceMaps.Blob
