import SourceMaps.Text.Encoding
import SourceMaps.Zstd.Checksum
import SourceMaps.Zstd.Literals
import SourceMaps.Zstd.Sequences

/-!
# Zstandard frames

A frame declares the size of its contents and holds them in blocks: plain, one byte repeated, or
compressed. What follows the first frame is ignored.

## Main definitions

* `Zstd.FrameHeader`, `Zstd.readHeader?`: what a frame declares.
* `Zstd.readBlocks?`: the contents of the blocks.
* `Zstd.decompress?`: the contents of a frame that declares its size.
-/

namespace SourceMaps.Zstd

/-- What a frame declares. -/
structure FrameHeader where
  /-- The size of the contents, if it is declared. -/
  contentSize : Option Nat
  /-- The greatest distance of a match. -/
  windowSize : Nat
  /-- The dictionary that the contents depend on; zero for none. -/
  dictionary : Nat
  /-- Does a checksum follow the blocks? -/
  hasChecksum : Bool
  /-- Where the blocks start. -/
  size : Nat

/-- The number that starts a frame. -/
def frameMagic : Nat := 0xFD2FB528

/-- Frames to be skipped start with one of sixteen numbers from this one on. -/
def skippableMagic : Nat := 0x184D2A50

/-- The greatest logarithm of a window. -/
def greatestWindowLog : Nat := 31

/-- The window size that a byte tells: a power of two and eighths of it. -/
def windowSize? (descriptor : Nat) : Option Nat :=
  let log := descriptor / 8 + 10
  if greatestWindowLog < log then none else some (1 <<< log + (1 <<< log) / 8 * (descriptor % 8))

/-- The header at the start of a frame. -/
def readHeader? (data : ByteArray) : Option FrameHeader := do
  if data.size < 5 ∨ littleEndian data 0 4 ≠ frameMagic then failure
  let descriptor := (byteAt data 4).toNat
  let single := descriptor / 32 % 2 = 1
  let windowLength := if single then 0 else 1
  let dictionaryLength := [0, 1, 2, 4].getD (descriptor % 4) 0
  let sizeLength := [if single then 1 else 0, 2, 4, 8].getD (descriptor / 64) 0
  let size := 5 + windowLength + dictionaryLength + sizeLength
  if data.size < size ∨ descriptor / 8 % 2 = 1 then failure
  let stored := littleEndian data (5 + windowLength + dictionaryLength) sizeLength
  let contentSize :=
    if sizeLength = 0 then none
    else some (if sizeLength = 2 then stored + 256 else stored)
  let windowSize ← if single then contentSize else windowSize? (byteAt data 5).toNat
  return {
    contentSize
    windowSize
    dictionary := littleEndian data (5 + windowLength) dictionaryLength
    hasChecksum := descriptor / 4 % 2 = 1
    size }

/-- What a block leaves to the next one: the output so far, the offsets used last, and the tables. -/
structure BlockState where
  output : ByteArray := .empty
  recent : RecentOffsets := {}
  huffman : Option HuffmanTable := none
  tables : Option SequenceTables := none

/-- Adds the contents of a compressed block. -/
def BlockState.compressed? (state : BlockState) (limit greatest : Nat) (block : ByteArray) :
    Option BlockState := do
  if greatest < block.size then failure
  let literals ← readLiterals? block state.huffman
  if greatest < literals.bytes.size then failure
  let (sequences, tables) ← readSequences? block literals.finish state.tables
  let (output, recent) ← runSequences? limit literals.bytes 0 state.recent state.output sequences
  return ⟨output, recent, literals.table, tables⟩

/-- Reads blocks up to the last one. Answers the output and the position after them. The output may
not exceed `limit`, nor a compressed block `greatest`. -/
def readBlocks? (data : ByteArray) (limit greatest : Nat) :
    (fuel position : Nat) → BlockState → Option (ByteArray × Nat)
  | 0, _, _ => none
  | fuel + 1, position, state => do
    if data.size < position + 3 then failure
    let header := littleEndian data position 3
    let size := header / 8
    let start := position + 3
    let stored := if header / 2 % 4 = 1 then 1 else size
    let finish := start + stored
    if data.size < finish then failure
    let state ← match header / 2 % 4 with
      | 0 => some { state with output := state.output ++ data.extract start finish }
      | 1 => some { state with output :=
          state.output ++ ⟨Array.replicate size (byteAt data start)⟩ }
      | 2 => state.compressed? limit greatest (data.extract start finish)
      | _ => none
    if limit < state.output.size then failure
    if header % 2 = 1 then return (state.output, finish)
    readBlocks? data limit greatest fuel finish state

/-- The contents of a frame that declares them to be of the given size. -/
def readFrame? (data : ByteArray) (header : FrameHeader) (contentSize : Nat) :
    Option ByteArray := do
  if header.dictionary ≠ 0 then failure
  let greatest := min header.windowSize greatestBlock
  let (output, finish) ← readBlocks? data contentSize greatest data.size header.size {}
  if output.size ≠ contentSize then failure
  if header.hasChecksum then
    if data.size < finish + 4 then failure
    if littleEndian data finish 4 ≠ (Checksum.hash output).toNat % 0x100000000 then failure
  return output

/-- Does a frame to be skipped start here? It has no contents. -/
def isSkippable (data : ByteArray) : Bool :=
  8 ≤ data.size && littleEndian data 0 4 / 16 == skippableMagic / 16

/-- The contents of the first frame. It must declare their size; a size of zero is taken at its
word. -/
def decompress? (bytes : Bytes) : Option Bytes := do
  let data : ByteArray := ⟨bytes.toArray⟩
  if isSkippable data then return []
  let header ← readHeader? data
  match header.contentSize with
  | none => none
  | some 0 => return []
  | some contentSize => return (← readFrame? data header contentSize).toList

end SourceMaps.Zstd
