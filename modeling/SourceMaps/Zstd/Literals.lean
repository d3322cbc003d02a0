import SourceMaps.Zstd.Huffman

/-!
# Literals

The first section of a compressed block holds the bytes that sequences copy into the output: as they
are, as one repeated byte, or in one or four Huffman streams, with a table of their own or the one
of an earlier block.

## Main definitions

* `Zstd.Literals`: the bytes, the table for later blocks and the position after the section.
* `Zstd.readLiterals?`: the section at the start of a block.
-/

namespace SourceMaps.Zstd

/-- The greatest size of a block. -/
def greatestBlock : Nat := 0x20000

/-- The literals of a block. -/
structure Literals where
  /-- The bytes. -/
  bytes : ByteArray
  /-- The table that later blocks may use again. -/
  table : Option HuffmanTable
  /-- Where the section ends in the block. -/
  finish : Nat

/-- The size in the header of plain or repeated literals, and the length of the header. -/
def plainSize (block : ByteArray) (format : Nat) : Nat × Nat :=
  if format = 1 then (littleEndian block 0 2 / 16, 2)
  else if format = 3 then (littleEndian block 0 3 / 16, 3)
  else (littleEndian block 0 1 / 8, 1)

/-- The sizes in the header of coded literals, before and after compression, and the length of the
header. -/
def codedSizes (block : ByteArray) (format : Nat) : Nat × Nat × Nat :=
  let (bits, length) := if format = 3 then (18, 5) else if format = 2 then (14, 4) else (10, 3)
  let header := littleEndian block 0 length / 16
  (header % (1 <<< bits), (header >>> bits) % (1 <<< bits), length)

/-- The bytes of four streams. A table at the start gives the sizes of the first three; each stream
but the last has a quarter of the bytes, rounded up. -/
def decodeFour? (table : HuffmanTable) (coded : ByteArray) (size : Nat) : Option ByteArray := do
  let quarter := (size + 3) / 4
  let first := 6 + littleEndian coded 0 2
  let second := first + littleEndian coded 2 2
  let third := second + littleEndian coded 4 2
  if size < 6 ∨ coded.size < third ∨ size < 3 * quarter then failure
  let a ← table.decode? (coded.extract 6 first) quarter
  let b ← table.decode? (coded.extract first second) quarter
  let c ← table.decode? (coded.extract second third) quarter
  let d ← table.decode? (coded.extract third coded.size) (size - 3 * quarter)
  return a ++ b ++ c ++ d

/-- The literals at the start of a block; `previous` is the table of an earlier block. -/
def readLiterals? (block : ByteArray) (previous : Option HuffmanTable) : Option Literals := do
  if block.size < 2 then failure
  let header := (byteAt block 0).toNat
  let format := header / 4 % 4
  match header % 4 with
  | 0 =>
    let (size, start) := plainSize block format
    if greatestBlock < size ∨ block.size < start + size then failure
    return ⟨block.extract start (start + size), previous, start + size⟩
  | 1 =>
    let (size, start) := plainSize block format
    if greatestBlock < size ∨ block.size < start + 1 then failure
    return ⟨⟨Array.replicate size (byteAt block start)⟩, previous, start + 1⟩
  | kind =>
    if block.size < 5 then failure
    let (size, codedSize, start) := codedSizes block format
    let finish := start + codedSize
    if greatestBlock < size ∨ block.size < finish then failure
    let body := block.extract 0 finish
    let (table, start) ←
      if kind = 2 then readHuffmanTable? body start
      else previous.map fun table => (table, start)
    let coded := body.extract start finish
    let bytes ← if format = 0 then table.decode? coded size else decodeFour? table coded size
    return ⟨bytes, some table, finish⟩

end SourceMaps.Zstd
