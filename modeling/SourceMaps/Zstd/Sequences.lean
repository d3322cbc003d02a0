import SourceMaps.Zstd.Fse

/-!
# Sequences

The second section of a compressed block. A sequence copies some literals to the output and then
repeats output from an offset back; its three numbers are coded with tables of their own. The three
offsets used last have short codes.

## Main definitions

* `Zstd.SequenceTables`: the tables of the codes.
* `Zstd.Sequence`: the numbers of a sequence.
* `Zstd.readSequences?`: the sequences in the rest of a block.
* `Zstd.runSequences?`: the output of sequences.
-/

namespace SourceMaps.Zstd

/-- A kind of code: its limits, the table it has unless a block says otherwise, and the least number
and the count of additional bits for each code. -/
structure CodeKind where
  /-- The greatest logarithm of a table. -/
  greatestLog : Nat
  /-- The greatest code. -/
  greatestCode : Nat
  /-- The logarithm of the usual table. -/
  usualLog : Nat
  /-- The shares of the usual table. -/
  usualShares : List Int
  /-- The least number and the count of additional bits of a code. -/
  numbers : Nat → Nat × Nat

/-- The lengths of literals. -/
def literalLengths : CodeKind where
  greatestLog := 9
  greatestCode := 35
  usualLog := 6
  usualShares := [4, 3, 2, 2, 2, 2, 2, 2, 2, 2, 2, 2, 2, 1, 1, 1, 2, 2, 2, 2, 2, 2, 2, 2, 2, 3, 2,
    1, 1, 1, 1, 1, -1, -1, -1, -1]
  numbers code :=
    if code < 16 then (code, 0)
    else [(16, 1), (18, 1), (20, 1), (22, 1), (24, 2), (28, 2), (32, 3), (40, 3), (48, 4), (64, 6),
      (128, 7), (256, 8), (512, 9), (1024, 10), (2048, 11), (4096, 12), (8192, 13), (16384, 14),
      (32768, 15), (65536, 16)].getD (code - 16) (0, 0)

/-- The lengths of matches. -/
def matchLengths : CodeKind where
  greatestLog := 9
  greatestCode := 52
  usualLog := 6
  usualShares := [1, 4, 3, 2, 2, 2, 2, 2, 2, 1, 1, 1, 1, 1, 1, 1, 1, 1, 1, 1, 1, 1, 1, 1, 1, 1, 1,
    1, 1, 1, 1, 1, 1, 1, 1, 1, 1, 1, 1, 1, 1, 1, 1, 1, 1, 1, -1, -1, -1, -1, -1, -1, -1]
  numbers code :=
    if code < 32 then (code + 3, 0)
    else [(35, 1), (37, 1), (39, 1), (41, 1), (43, 2), (47, 2), (51, 3), (59, 3), (67, 4), (83, 4),
      (99, 5), (131, 7), (259, 8), (515, 9), (1027, 10), (2051, 11), (4099, 12), (8195, 13),
      (16387, 14), (32771, 15), (65539, 16)].getD (code - 32) (0, 0)

/-- The offsets of matches. -/
def matchOffsets : CodeKind where
  greatestLog := 8
  greatestCode := 31
  usualLog := 5
  usualShares := [1, 1, 1, 1, 1, 1, 2, 2, 2, 1, 1, 1, 1, 1, 1, 1, 1, 1, 1, 1, 1, 1, 1, 1, -1, -1,
    -1, -1, -1]
  numbers code := (1 <<< code, code)

/-- The tables of the three kinds of codes. -/
structure SequenceTables where
  literals : FseTable
  offsets : FseTable
  matches_ : FseTable

/-- The table of a kind of code, as two bits of the header ask, and the position after it. -/
def readCodeTable? (kind : CodeKind) (mode : Nat) (block : ByteArray) (start : Nat)
    (previous : Option FseTable) : Option (FseTable × Nat) :=
  match mode with
  | 0 => (FseTable.ofShares? kind.usualLog kind.usualShares).map (·, start)
  | 1 =>
    let code := (byteAt block start).toNat
    if block.size ≤ start ∨ kind.greatestCode < code then none
    else some (.constant code, start + 1)
  | 2 => readTable? block start kind.greatestLog kind.greatestCode
  | _ => previous.map (·, start)

/-- The numbers of a sequence. The offset is as coded: small ones stand for recent offsets. -/
structure Sequence where
  /-- How many literals are copied. -/
  literals : Nat
  /-- The coded offset. -/
  offset : Nat
  /-- How many bytes of output are repeated. -/
  length : Nat

/-- The number of a code with its additional bits. -/
def readNumber (kind : CodeKind) (code : Nat) (bits : BackwardBits) : Nat × BackwardBits :=
  let (least, count) := kind.numbers code
  let (additional, bits) := bits.read count
  (least + additional, bits)

/-- Decodes sequences from the given states on. The states do not move on after the last one, with
which the stream must end. -/
def decodeSequences (tables : SequenceTables) :
    (count : Nat) → (literals offsets matches_ : Nat) → BackwardBits → List Sequence →
      Option (List Sequence)
  | 0, _, _, _, bits, sequences => if bits.isFinished then some sequences.reverse else none
  | count + 1, literals, offsets, matches_, bits, sequences =>
    let (offset, bits) := readNumber matchOffsets (tables.offsets.state offsets).symbol bits
    let (length, bits) := readNumber matchLengths (tables.matches_.state matches_).symbol bits
    let (copied, bits) := readNumber literalLengths (tables.literals.state literals).symbol bits
    let sequences := ⟨copied, offset, length⟩ :: sequences
    if bits.isOverrun then none
    else if count = 0 then decodeSequences tables 0 0 0 0 bits sequences
    else
      let (literals, bits) := tables.literals.next literals bits
      let (matches_, bits) := tables.matches_.next matches_ bits
      let (offsets, bits) := tables.offsets.next offsets bits
      decodeSequences tables count literals offsets matches_ bits sequences

/-- The number of sequences at a position, and the position after it. -/
def readCount? (block : ByteArray) (start : Nat) : Option (Nat × Nat) :=
  let first := (byteAt block start).toNat
  let (count, finish) :=
    if first < 128 then (first, start + 1)
    else if first < 255 then ((first - 128) * 256 + (byteAt block (start + 1)).toNat, start + 2)
    else (littleEndian block (start + 1) 2 + 0x7F00, start + 3)
  if block.size < finish then none else some (count, finish)

/-- The sequences in the rest of a block, and the tables for later blocks. -/
def readSequences? (block : ByteArray) (start : Nat) (previous : Option SequenceTables) :
    Option (List Sequence × Option SequenceTables) := do
  let (count, start) ← readCount? block start
  if count = 0 then
    if start = block.size then return ([], previous) else failure
  if block.size ≤ start then failure
  let modes := (byteAt block start).toNat
  if modes % 4 ≠ 0 then failure
  let (literals, start) ← readCodeTable? literalLengths (modes / 64) block (start + 1)
    (previous.map (·.literals))
  let (offsets, start) ← readCodeTable? matchOffsets (modes / 16 % 4) block start
    (previous.map (·.offsets))
  let (matches_, start) ← readCodeTable? matchLengths (modes / 4 % 4) block start
    (previous.map (·.matches_))
  let tables : SequenceTables := ⟨literals, offsets, matches_⟩
  let bits ← BackwardBits.ofBytes? (block.extract start block.size)
  let (literals, bits) := tables.literals.first bits
  let (offsets, bits) := tables.offsets.first bits
  let (matches_, bits) := tables.matches_.first bits
  let sequences ← decodeSequences tables count literals offsets matches_ bits []
  return (sequences, some tables)

/-- The three offsets used last, the latest first. -/
structure RecentOffsets where
  first : Nat := 1
  second : Nat := 4
  third : Nat := 8

/-- A new offset before the two used last. -/
def RecentOffsets.push (recent : RecentOffsets) (offset : Nat) : Nat × RecentOffsets :=
  (offset, ⟨offset, recent.first, recent.second⟩)

/-- The offset that a coded one stands for, and the offsets used last after it. Without literals the
short codes are shifted by one, and the last of them is one less than the latest offset. -/
def RecentOffsets.resolve (recent : RecentOffsets) (sequence : Sequence) : Nat × RecentOffsets :=
  if 3 < sequence.offset then recent.push (sequence.offset - 3)
  else
    match sequence.offset + if sequence.literals = 0 then 1 else 0 with
    | 1 => (recent.first, recent)
    | 2 => (recent.second, ⟨recent.second, recent.first, recent.third⟩)
    | 3 => (recent.third, ⟨recent.third, recent.first, recent.second⟩)
    | _ => recent.push (recent.first - 1)

/-- The output with some of its bytes repeated from an offset back, one by one. -/
def repeatBytes (output : ByteArray) (offset : Nat) : (count : Nat) → ByteArray
  | 0 => output
  | count + 1 => repeatBytes (output.push (byteAt output (output.size - offset))) offset count

/-- Adds the output of sequences, and then of the literals that are left, to the output so far. No
more than `limit` bytes are put out. -/
def runSequences? (limit : Nat) (literals : ByteArray) :
    (used : Nat) → RecentOffsets → (output : ByteArray) → List Sequence →
      Option (ByteArray × RecentOffsets)
  | used, recent, output, [] =>
    some (output ++ literals.extract used literals.size, recent)
  | used, recent, output, sequence :: rest =>
    let (offset, recent) := recent.resolve sequence
    let copied := output ++ literals.extract used (used + sequence.literals)
    if literals.size < used + sequence.literals ∨ offset = 0 ∨ copied.size < offset ∨
        limit < copied.size + sequence.length then none
    else
      runSequences? limit literals (used + sequence.literals) recent
        (repeatBytes copied offset sequence.length) rest

end SourceMaps.Zstd
