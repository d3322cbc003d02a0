import SourceMaps.Zstd.Fse

/-!
# Huffman codes

A Huffman code is given by weights: a symbol of weight `w` has `2 ^ (w - 1)` of the cells of a table,
which is looked up with as many bits as the longest code has. The weight of the last symbol is not
given; it fills the table up.

## Main definitions

* `Zstd.HuffmanTable`: the table.
* `Zstd.HuffmanTable.ofWeights?`: the table of the weights that are given.
* `Zstd.readHuffmanTable?`: the table that bytes describe.
* `Zstd.HuffmanTable.decode?`: the symbols of a stream.
-/

namespace SourceMaps.Zstd

/-- A table of cells, each with a symbol and the length of its code. -/
structure HuffmanTable where
  /-- The length of the longest code. -/
  log : Nat
  /-- Symbols and lengths of their codes. -/
  cells : Array (Nat × Nat)

namespace HuffmanTable

/-- The greatest length of a code. -/
def greatestLog : Nat := 12

/-- The number of cells of a weight. -/
def cellsOf (weight : Nat) : Nat := if weight = 0 then 0 else 1 <<< (weight - 1)

/-- The table of the weights of all symbols but the last. Cells come in the order of the weights,
and of the symbols within a weight. -/
def ofWeights? (given : List Nat) : Option HuffmanTable := do
  if given.any (greatestLog < ·) then failure
  let total := (given.map cellsOf).foldl (· + ·) 0
  if total = 0 then failure
  let log := total.log2 + 1
  if greatestLog < log then failure
  let rest := 1 <<< log - total
  if rest ≠ 1 <<< rest.log2 then failure
  let weights := given ++ [rest.log2 + 1]
  let ones := weights.count 1
  if ones < 2 ∨ ones % 2 = 1 then failure
  let cells := (List.range log).flatMap fun w =>
    weights.zipIdx.flatMap fun (weight, symbol) =>
      if weight = w + 1 then List.replicate (cellsOf weight) (symbol, log - w) else []
  return ⟨log, cells.toArray⟩

/-- Decodes `count` symbols after those that are there. -/
def decodeMore (table : HuffmanTable) :
    (count : Nat) → BackwardBits → ByteArray → BackwardBits × ByteArray
  | 0, bits, symbols => (bits, symbols)
  | count + 1, bits, symbols =>
    let (symbol, length) := table.cells.getD (bits.peek table.log) (0, 1)
    decodeMore table count (bits.skip length) (symbols.push (.ofNat symbol))

/-- The `count` symbols of a stream, which must end with the last of them. -/
def decode? (table : HuffmanTable) (stream : ByteArray) (count : Nat) : Option ByteArray := do
  let bits ← BackwardBits.ofBytes? stream
  let (bits, symbols) := table.decodeMore count bits (.emptyWithCapacity count)
  if bits.isFinished then return symbols else failure

end HuffmanTable

/-- Decodes weights with two states in turn until the stream is overrun; the state that is left then
gives the last weight. -/
def decodeWeights (table : FseTable) :
    (fuel : Nat) → (current other : Nat) → BackwardBits → (weights : List Nat) → Option (List Nat)
  | 0, _, _, _, _ => none
  | fuel + 1, current, other, bits, weights =>
    let weights := (table.state current).symbol :: weights
    let (following, bits) := table.next current bits
    if bits.isOverrun then some ((table.state other).symbol :: weights).reverse
    else decodeWeights table fuel other following bits weights

/-- The weights that bytes describe from a position on, and the position after them: four bits each,
or a stream of entropy-coded ones. -/
def readWeights? (data : ByteArray) (start : Nat) : Option (List Nat × Nat) := do
  if data.size ≤ start then failure
  let header := (byteAt data start).toNat
  if 128 ≤ header then
    let count := header - 127
    let finish := start + 1 + (count + 1) / 2
    if data.size < finish then failure
    let weights := (List.range count).map fun i =>
      let pair := (byteAt data (start + 1 + i / 2)).toNat
      if i % 2 = 0 then pair / 16 else pair % 16
    return (weights, finish)
  else
    let finish := start + 1 + header
    if data.size < finish then failure
    let description := data.extract 0 finish
    let (table, position) ← readTable? description (start + 1) 6 255
    let bits ← BackwardBits.ofBytes? (description.extract position finish)
    let (current, bits) := table.first bits
    let (other, bits) := table.first bits
    let weights ← decodeWeights table 255 current other bits []
    if 255 < weights.length then failure
    return (weights, finish)

/-- The table that bytes describe from a position on, and the position after them. -/
def readHuffmanTable? (data : ByteArray) (start : Nat) : Option (HuffmanTable × Nat) := do
  let (weights, finish) ← readWeights? data start
  return (← HuffmanTable.ofWeights? weights, finish)

end SourceMaps.Zstd
