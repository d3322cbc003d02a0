import SourceMaps.Zstd.Bits

/-!
# Finite state entropy tables

A table of `2 ^ log` states. Each state stands for a symbol and says how many bits lead to the next
state. Tables are given by the shares of the symbols in the states; a share of `-1` is a single
state that takes all bits of the next one from the stream.

## Main definitions

* `Zstd.FseTable`: the table.
* `Zstd.FseTable.ofShares?`: the table of a list of shares.
* `Zstd.readShares?`: shares as they are described in a stream.
* `Zstd.FseTable.next`: the state that follows a state.
-/

namespace SourceMaps.Zstd

/-- A state of a table. -/
structure FseState where
  /-- The symbol that the state stands for. -/
  symbol : Nat
  /-- The number of bits that lead to the next state. -/
  bits : Nat
  /-- What is added to these bits. -/
  base : Nat
deriving Inhabited

/-- A table of states. -/
structure FseTable where
  /-- The logarithm of the number of states. -/
  log : Nat
  /-- The states. -/
  states : Array FseState

namespace FseTable

/-- The table with a single state, which takes no bits. -/
def constant (symbol : Nat) : FseTable := ⟨0, #[⟨symbol, 0, 0⟩]⟩

/-- A state of the table. -/
def state (table : FseTable) (position : Nat) : FseState := table.states.getD position default

/-- The position of the first state of a stream. -/
def first (table : FseTable) (bits : BackwardBits) : Nat × BackwardBits := bits.read table.log

/-- The position of the state that follows a position. -/
def next (table : FseTable) (position : Nat) (bits : BackwardBits) : Nat × BackwardBits :=
  let state := table.state position
  let (low, bits) := bits.read state.bits
  (state.base + low, bits)

/-- The symbols with a share of `-1`. -/
def rareSymbols (shares : List Int) : List Nat :=
  (shares.zipIdx.filter fun (share, _) => share == -1).map (·.2)

/-- The symbols of the states in order. Rare symbols stand at the end, the first of them last; the
others are spread over the states before, in steps that pass every state once. -/
def spread (log : Nat) (shares : List Int) : Array Nat :=
  let size := 1 <<< log
  let rare := rareSymbols shares
  let step := size / 2 + size / 8 + 3
  let free := ((List.range size).map fun i => i * step % size).filter (· < size - rare.length)
  let common := shares.zipIdx.flatMap fun (share, symbol) => List.replicate share.toNat symbol
  let table := (free.zip common).foldl (fun t (i, symbol) => t.setIfInBounds i symbol)
    (Array.replicate size 0)
  rare.zipIdx.foldl (fun t (symbol, i) => t.setIfInBounds (size - 1 - i) symbol) table

/-- Numbers the states of each symbol from its share on; the number of a state tells how many bits
it takes. -/
def number (log : Nat) (counters : Array Nat) : List Nat → List FseState
  | [] => []
  | symbol :: rest =>
    let count := counters.getD symbol 1
    let bits := log - count.log2
    ⟨symbol, bits, count <<< bits - 1 <<< log⟩ ::
      number log (counters.setIfInBounds symbol (count + 1)) rest

/-- The table of shares that fill `2 ^ log` states. -/
def ofShares? (log : Nat) (shares : List Int) : Option FseTable :=
  if (shares.map Int.natAbs).foldl (· + ·) 0 = 1 <<< log then
    let counters := (shares.map Int.natAbs).toArray
    some ⟨log, (number log counters (spread log shares).toList).toArray⟩
  else none

end FseTable

/-- Reads shares until none of `remaining` states is left. A share is spelled in as few bits as the
remaining states need, the smaller values in one bit less; after a share of zero, groups of two
bits tell how many more zeros follow. -/
def readSharesFrom (data : ByteArray) (limit : Nat) :
    (fuel : Nat) → (position remaining : Nat) → (shares : List Int) → Option (Nat × List Int)
  | 0, _, _, _ => none
  | fuel + 1, position, remaining, shares =>
    if remaining = 0 then some (position, shares.reverse)
    else if limit < shares.length then none
    else
      let bits := (remaining + 1).log2 + 1
      let value := bitsAt data position bits
      let low := value % (1 <<< (bits - 1))
      let threshold := 1 <<< bits - 1 - (remaining + 1)
      let (value, position) :=
        if low < threshold then (low, position + bits - 1)
        else if 1 <<< (bits - 1) ≤ value then (value - threshold, position + bits)
        else (value, position + bits)
      let share : Int := value - 1
      if remaining < share.natAbs then none
      else if share = 0 then
        let (position, zeros) := readZeros data position fuel
        readSharesFrom data limit fuel position remaining
          (List.replicate zeros 0 ++ 0 :: shares)
      else readSharesFrom data limit fuel position (remaining - share.natAbs) (share :: shares)
where
  /-- The number of zeros that groups of two bits tell; three means that another group follows. -/
  readZeros (data : ByteArray) (position : Nat) : (fuel : Nat) → Nat × Nat
    | 0 => (position, 0)
    | fuel + 1 =>
      let group := bitsAt data position 2
      if group = 3 then
        let (position, zeros) := readZeros data (position + 2) fuel
        (position, zeros + 3)
      else (position + 2, group)

/-- The table that bytes describe from a position on, and the position after them. The table has at
most `2 ^ greatestLog` states and symbols up to `greatestSymbol`. -/
def readTable? (data : ByteArray) (start greatestLog greatestSymbol : Nat) :
    Option (FseTable × Nat) := do
  let log := bitsAt data (8 * start) 4 + 5
  if greatestLog < log then failure
  let (position, shares) ← readSharesFrom data greatestSymbol (8 * data.size + 8)
    (8 * start + 4) (1 <<< log) []
  let finish := (position + 7) / 8
  if data.size < finish ∨ greatestSymbol + 1 < shares.length then failure
  return (← FseTable.ofShares? log shares, finish)

end SourceMaps.Zstd
