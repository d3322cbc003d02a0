/-!
# Maps ordered by rank

A map whose keys are listed in the order of ranks that the caller assigns. The list of keys and the
values are kept apart and are changed one after the other: a new key is listed after those with the
same rank, and removing a key takes the first listed key of its rank off the list. As long as every
removed key is the first of its rank the two agree; with tied ranks they can fall out of step, and a
listed key may then have no value.

## Main definitions

* `RankedMap`: the list of keys and the values.
* `RankedMap.Missing`: why an operation fails.
* `RankedMap.Action`, `RankedMap.act`: operations, which leave a map whether they fail or not.
* `RankedMap.set`, `RankedMap.erase`, `RankedMap.pop`, `RankedMap.popFirst`,
  `RankedMap.setDefault`, `RankedMap.update`, `RankedMap.clear`: the operations on keys.
* `RankedMap.Operation`, `RankedMap.Operation.perform`: these operations as data.
* `RankedMap.contents`, `RankedMap.sameContents`: the listed keys with their values.
-/

namespace SourceMaps

/-- Keys in the order of their ranks, and values. -/
structure RankedMap (κ ν : Type) where
  /-- The listed keys. -/
  keys : List κ
  /-- The values of keys, each key once, in the order in which the keys came. -/
  values : List (κ × ν)
deriving DecidableEq

namespace RankedMap

/-- Why an operation on a map fails. -/
inductive Missing (κ : Type) where
  /-- The key has no value. -/
  | value (key : κ)
  /-- The key has no rank and cannot be listed. -/
  | rank (key : κ)
  /-- No key is listed. -/
  | anyKey
deriving DecidableEq

/-- The key that is missing, if a particular one is. -/
def Missing.key? {κ : Type} : Missing κ → Option κ
  | .value key | .rank key => some key
  | .anyKey => none

/-- Something done to a map, which may fail. What was changed before a failure stays changed. -/
abbrev Action (κ ν α : Type) := ExceptT (Missing κ) (StateM (RankedMap κ ν)) α

variable {κ ν ρ α : Type}

/-- What an action answers on a map, and the map that it leaves. -/
def act (m : RankedMap κ ν) (action : Action κ ν α) : Except (Missing κ) α × RankedMap κ ν :=
  action.run.run m

/-- The map without keys. -/
def empty : RankedMap κ ν := ⟨[], []⟩

/-- The number of listed keys. -/
def size (m : RankedMap κ ν) : Nat := m.keys.length

variable [DecidableEq κ] [LT ρ] [DecidableLT ρ]

/-- The value of a key. -/
def get (m : RankedMap κ ν) (k : κ) : Except (Missing κ) ν :=
  match m.values.lookup k with
  | some v => .ok v
  | none => .error (.value k)

/-- Has the key a value? -/
def contains (m : RankedMap κ ν) (k : κ) : Bool := (m.values.lookup k).isSome

/-! ### Parts -/

/-- The values with one of them set: in place if the key has one, at the end otherwise. -/
def setValue (values : List (κ × ν)) (k : κ) (v : ν) : List (κ × ν) :=
  match values with
  | [] => [(k, v)]
  | (j, w) :: rest => if j = k then (j, v) :: rest else (j, w) :: setValue rest k v

/-- The values without that of a key. -/
def eraseValue (values : List (κ × ν)) (k : κ) : List (κ × ν) := values.filter (·.1 ≠ k)

/-- Lists a key of rank `r` after the keys of at most that rank. -/
def listKey (rank : κ → Option ρ) (r : ρ) (k : κ) (keys : List κ) : List κ :=
  let upTo (j : κ) : Bool := !(rank j).any (r < ·)
  keys.takeWhile upTo ++ k :: keys.dropWhile upTo

/-- Takes the first key of rank `r` off the list. -/
def unlistKey (rank : κ → Option ρ) (r : ρ) (keys : List κ) : List κ :=
  let below (j : κ) : Bool := (rank j).any (· < r)
  keys.takeWhile below ++ (keys.dropWhile below).tail

/-- Changes the list of keys. -/
def modifyKeys (f : List κ → List κ) : Action κ ν Unit :=
  modify fun m => { m with keys := f m.keys }

/-- Changes the values. -/
def modifyValues (f : List (κ × ν) → List (κ × ν)) : Action κ ν Unit :=
  modify fun m => { m with values := f m.values }

/-! ### Operations -/

/-- Gives a key a value. A key without a value is listed first, for which it must have a rank. -/
def set (rank : κ → Option ρ) (k : κ) (v : ν) : Action κ ν Unit := do
  let m ← getThe (RankedMap κ ν)
  if m.contains k then
    modifyValues (setValue · k v)
  else
    match rank k with
    | none => throw (.rank k)
    | some r =>
      modifyKeys (listKey rank r k)
      modifyValues (setValue · k v)

/-- Removes the value of a key and then the first listed key of its rank. -/
def erase (rank : κ → Option ρ) (k : κ) : Action κ ν Unit := do
  let m ← getThe (RankedMap κ ν)
  if m.contains k then
    modifyValues (eraseValue · k)
    match rank k with
    | none => throw (.rank k)
    | some r => modifyKeys (unlistKey rank r)
  else
    throw (.value k)

/-- Removes a key and answers its value, or answers the default, if there is one, for a key without
a value. -/
def pop (rank : κ → Option ρ) (k : κ) (default : Option ν) : Action κ ν ν := do
  let m ← getThe (RankedMap κ ν)
  match m.get k, default with
  | .ok v, _ =>
    erase rank k
    return v
  | .error _, some v => return v
  | .error e, none => throw e

/-- Removes the first listed key and answers it with its value. -/
def popFirst (rank : κ → Option ρ) : Action κ ν (κ × ν) := do
  let m ← getThe (RankedMap κ ν)
  match m.keys with
  | [] => throw .anyKey
  | k :: _ =>
    let v ← pop rank k none
    return (k, v)

/-- The value of a key, which is given `v` if it has none. -/
def setDefault (rank : κ → Option ρ) (k : κ) (v : ν) : Action κ ν ν := do
  let m ← getThe (RankedMap κ ν)
  match m.get k with
  | .ok found => return found
  | .error _ =>
    set rank k v
    return v

/-- Sets pairs in order. A failure ends it and leaves what has been set before. -/
def update (rank : κ → Option ρ) : List (κ × ν) → Action κ ν Unit
  | [] => return ()
  | (k, v) :: rest => do
    set rank k v
    update rank rest

/-- Removes first keys until that fails, at most `count` times. -/
def popMany (rank : κ → Option ρ) : (count : Nat) → Action κ ν Unit
  | 0 => return ()
  | count + 1 => do
    let _ ← popFirst rank
    popMany rank count

/-- Removes first keys until that fails: when no key is listed any more, or when the first listed
key has no value. -/
def clear (rank : κ → Option ρ) : Action κ ν Unit := do
  let m ← getThe (RankedMap κ ν)
  tryCatch (popMany rank m.size) fun _ => return ()

/-- The map of a list of pairs. -/
def ofList (rank : κ → Option ρ) (pairs : List (κ × ν)) :
    Except (Missing κ) (RankedMap κ ν) :=
  match empty.act (update rank pairs) with
  | (.ok (), m) => .ok m
  | (.error e, _) => .error e

/-! ### Operations as data -/

/-- An operation that can change a map. -/
inductive Operation (κ ν : Type) where
  | set (key : κ) (value : ν)
  | erase (key : κ)
  | pop (key : κ) (default : Option ν)
  | popFirst
  | setDefault (key : κ) (value : ν)
  | update (pairs : List (κ × ν))
  | clear

/-- What an operation answers. -/
inductive Reply (κ ν : Type) where
  | done
  | value (value : ν)
  | pair (key : κ) (value : ν)
deriving DecidableEq

/-- Performs an operation. -/
def Operation.perform (rank : κ → Option ρ) : Operation κ ν → Action κ ν (Reply κ ν)
  | .set k v => do
    RankedMap.set rank k v
    return .done
  | .erase k => do
    RankedMap.erase rank k
    return .done
  | .pop k default => do
    let v ← RankedMap.pop rank k default
    return .value v
  | .popFirst => do
    let (k, v) ← RankedMap.popFirst rank
    return .pair k v
  | .setDefault k v => do
    let found ← RankedMap.setDefault rank k v
    return .value found
  | .update pairs => do
    RankedMap.update rank pairs
    return .done
  | .clear => do
    RankedMap.clear rank
    return .done

/-! ### Contents -/

/-- The listed keys with their values. -/
def contents (m : RankedMap κ ν) : Except (Missing κ) (List (κ × ν)) :=
  m.keys.mapM fun k => return (k, ← m.get k)

/-- Pairs as a finite map: of a repeated key the last value counts. -/
def merged (pairs : List (κ × ν)) : List (κ × ν) :=
  pairs.foldl (fun values (k, v) => setValue values k v) []

/-- Do the listed keys have, up to `equal`, the values that the pairs give, and no others? -/
def sameContents (equal : ν → ν → Bool) (m : RankedMap κ ν) (pairs : List (κ × ν)) :
    Except (Missing κ) Bool := do
  let mine := merged (← m.contents)
  let others := merged pairs
  return mine.length == others.length &&
    mine.all fun (k, v) => (others.lookup k).any (equal v)

end RankedMap

end SourceMaps
