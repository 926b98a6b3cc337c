import NovusHeadless.Lib.Cells
import NovusHeadless.Lib.Transition
import NovusHeadless.Console.StringUtils

/-!
# Arrays of scripts (`scriptarray.cpp`)

An array of primitive values or of handles, in a block of memory of its own.  `none` stands for an access
outside of the block, or for the release of a reference that the array does not hold.

* A new block holds anything: what `userAlloc` gives is a parameter.
* Lengths and indices are `asUINT`, and `Resize(int, asUINT)` calculates with `int`.
-/

namespace NovusHeadless

open Lib

namespace ScriptArrays

/-- A number as `asUINT`. -/
def asUInt (x : ℤ) : ℕ := (x % 4294967296).toNat

/-- An `asUINT` as `int`. -/
def asInt (n : ℕ) : ℤ := Int.bmod n 4294967296

/-- What `SetException` is called with. -/
inductive ArrayException where
  | indexOutOfBounds
  | tooLarge
  | outOfMemory
  | noOpCmp (typeName : Bytes) (multiple : Bool)
  deriving DecidableEq, Repr

def ArrayException.text : ArrayException → Bytes
  | indexOutOfBounds => ascii "Index out of bounds"
  | tooLarge => ascii "Too large array size"
  | outOfMemory => ascii "Out of memory"
  | noOpCmp typeName multiple =>
    ascii "Type '" ++ typeName ++
      if multiple then ascii "' has multiple matching opCmp methods"
      else ascii "' does not have a matching opCmp method"

/-- `userAlloc`, by the number of the elements that the block is for. -/
structure Allocator (α : Type) where
  alloc : ℕ → Option (List α)
  length_alloc : ∀ {n cells}, alloc n = some cells → cells.length = n

/-- How two elements are compared: by their values, or by the one `opCmp` of their type. -/
inductive Comparison (α : Type) where
  | found (lt : α → α → Bool)
  | missing (typeName : Bytes)
  | multiple (typeName : Bytes)

/-- `CScriptArray` and its buffer.  The zero of the element type is its default value, which is the null handle
when the elements are handles; `references` are the references to objects that the array has taken and not
released. -/
structure ScriptArray (α : Type) where
  elementSize : ℕ
  handles : Bool
  data : List α
  numElements : ℕ
  references : List α
  exceptions : List ArrayException
  deriving DecidableEq, Repr

/-- The largest number of elements of a size that `CheckMaxSize` lets pass. -/
def maxSize (elementSize : ℕ) : ℕ := if 0 < elementSize then 4294967284 / elementSize else 4294967284

variable {α : Type} [DecidableEq α] [Inhabited α]

/-- `AddRefScriptObject`: nothing is done for null. -/
def addRef (references : List α) (x : α) : List α := if x = default then references else x :: references

/-- `ReleaseScriptObject`. -/
def release (references : List α) (x : α) : Option (List α) :=
  if x = default then some references
  else if references.contains x then some (references.erase x) else none

namespace ScriptArray

def setException (a : ScriptArray α) (e : ArrayException) : ScriptArray α :=
  { a with exceptions := a.exceptions ++ [e] }

/-- The elements. -/
def contents (a : ScriptArray α) : List α := a.data.take a.numElements

/-- `Destruct(buffer, start, end)`. -/
def destruct (a : ScriptArray α) (start stop : ℕ) : Option (ScriptArray α) :=
  if a.handles ∧ start < stop then
    if stop ≤ a.data.length then
      (((a.data.drop start).take (stop - start)).foldlM release a.references).map fun references =>
        { a with references := references }
    else none
  else some a

/-- The arguments of `Resize(int delta, asUINT at)` behind its checks. -/
def clamp (a : ScriptArray α) (delta : ℤ) (pos : ℕ) : ℤ × ℕ :=
  if delta < 0 then
    let delta := if asInt a.numElements < -delta then -asInt a.numElements else delta
    (delta, if asUInt (a.numElements + delta) < pos then asUInt (a.numElements + delta) else pos)
  else if 0 < delta then (delta, if a.numElements < pos then a.numElements else pos)
  else (delta, pos)

/-- A new block, with the elements and the new ones in it. -/
def moveToNew (m : Allocator α) (a : ScriptArray α) (delta : ℤ) (pos : ℕ) : Option (ScriptArray α) :=
  let size := asUInt (a.numElements + delta)
  match m.alloc size with
  | none => some (a.setException .outOfMemory)
  | some cells => do
    let cells ← copyCells cells 0 a.data 0 pos
    let cells ← (if pos < a.numElements then
      copyCells cells (asUInt (pos + delta)) a.data pos (a.numElements - pos) else some cells)
    let cells ← fillCells cells pos (asUInt (pos + delta)) default
    some { a with data := cells, numElements := size }

/-- `Resize(int delta, asUINT at)`. -/
def resizeBy (m : Allocator α) (a : ScriptArray α) (delta : ℤ) (pos : ℕ) : Option (ScriptArray α) :=
  if 0 < delta ∧ maxSize a.elementSize < asUInt (a.numElements + delta) then some (a.setException .tooLarge)
  else
    let (delta, pos) := a.clamp delta pos
    if delta = 0 then some a
    else
      let size := asUInt (a.numElements + delta)
      if a.data.length < size then moveToNew m a delta pos
      else if delta < 0 then do
        let a ← a.destruct pos (asUInt (pos - delta))
        let data ← copyCells a.data pos a.data (asUInt (pos - delta)) (asUInt (a.numElements - (pos - delta)))
        some { a with data := data, numElements := size }
      else do
        let data ← copyCells a.data (asUInt (pos + delta)) a.data pos (asUInt (a.numElements - pos))
        let data ← fillCells data pos (asUInt (pos + delta)) default
        some { a with data := data, numElements := size }

/-- `Resize(asUINT numElements)`. -/
def resize (m : Allocator α) (a : ScriptArray α) (numElements : ℕ) : Option (ScriptArray α) :=
  if maxSize a.elementSize < numElements then some (a.setException .tooLarge)
  else resizeBy m a (asInt numElements - asInt a.numElements) 4294967295

def reserve (m : Allocator α) (a : ScriptArray α) (maxElements : ℕ) : Option (ScriptArray α) :=
  if maxElements ≤ a.data.length then some a
  else if maxSize a.elementSize < maxElements then some (a.setException .tooLarge)
  else
    match m.alloc maxElements with
    | none => some (a.setException .outOfMemory)
    | some cells => do
      let cells ← copyCells cells 0 a.data 0 a.numElements
      some { a with data := cells }

/-- The value of an element is replaced, and with a handle the reference that the array holds. -/
def store (a : ScriptArray α) (index : ℕ) (value : α) : Option (ScriptArray α) := do
  let tmp ← a.data[index]?
  let a := { a with data := a.data.set index value }
  if a.handles then
    let references ← release (addRef a.references value) tmp
    some { a with references := references }
  else some a

def setValue (a : ScriptArray α) (index : ℕ) (value : α) : Option (ScriptArray α) :=
  if a.numElements ≤ index then some (a.setException .indexOutOfBounds) else a.store index value

/-- `SetValue(index, At(n))`: the value is read through a null pointer when there is no such element. -/
def setFrom (a : ScriptArray α) (index n : ℕ) : Option (ScriptArray α) :=
  if a.numElements ≤ n then none else (a.data[n]?).bind fun value => a.setValue index value

def insertAt (m : Allocator α) (a : ScriptArray α) (index : ℕ) (value : α) : Option (ScriptArray α) :=
  if a.numElements < index then some (a.setException .indexOutOfBounds)
  else do
    let a ← a.resizeBy m 1 index
    a.setValue index value

/-- `InsertAt(index, arr)` with the elements of another array. -/
def insertArrayAt (m : Allocator α) (a : ScriptArray α) (index : ℕ) (arr : List α) : Option (ScriptArray α) :=
  if a.numElements < index then some (a.setException .indexOutOfBounds)
  else do
    let a ← a.resizeBy m (asInt arr.length) index
    arr.zipIdx.foldlM (fun a p => a.setValue (asUInt (index + p.2)) p.1) a

/-- `InsertAt(index, arr)` with the array itself. -/
def insertSelfAt (m : Allocator α) (a : ScriptArray α) (index : ℕ) : Option (ScriptArray α) :=
  if a.numElements < index then some (a.setException .indexOutOfBounds)
  else do
    let elements := a.numElements
    let a ← a.resizeBy m (asInt elements) index
    let a ← (List.range index).foldlM (fun a (n : ℕ) => a.setFrom (asUInt (index + n)) n) a
    let behind := asUInt (index + elements)
    (List.range (a.numElements - behind)).foldlM
      (fun a (k : ℕ) => a.setFrom (asUInt (index + index + k)) (behind + k)) a

def insertLast (m : Allocator α) (a : ScriptArray α) (value : α) : Option (ScriptArray α) :=
  a.insertAt m a.numElements value

def removeAt (m : Allocator α) (a : ScriptArray α) (index : ℕ) : Option (ScriptArray α) :=
  if a.numElements ≤ index then some (a.setException .indexOutOfBounds) else a.resizeBy m (-1) index

def removeLast (m : Allocator α) (a : ScriptArray α) : Option (ScriptArray α) :=
  a.removeAt m (asUInt (a.numElements - 1))

def removeRange (a : ScriptArray α) (start count : ℕ) : Option (ScriptArray α) :=
  if count = 0 then some a
  else if a.numElements < start then some (a.setException .indexOutOfBounds)
  else do
    let count := if a.numElements < asUInt (start + count) then a.numElements - start else count
    let a ← a.destruct start (asUInt (start + count))
    let data ← copyCells a.data start a.data (asUInt (start + count)) (asUInt (a.numElements - start - count))
    some { a with data := data, numElements := asUInt (a.numElements - count) }

/-- `operator=` with the elements of another array. -/
def assign (m : Allocator α) (a : ScriptArray α) (other : List α) : Option (ScriptArray α) := do
  let a ← a.resize m other.length
  (other.take a.numElements).zipIdx.foldlM (fun a p => a.store p.2 p.1) a

/-- `GetArrayItemPointer(index)`: the offset is an `int`. -/
def itemPointer (a : ScriptArray α) (index : ℤ) : Option ℕ :=
  if 0 ≤ index ∧ index < a.data.length ∧ index * a.elementSize < 2147483648 then some index.toNat else none

/-- The exchange of two elements in `Reverse`. -/
def exchange (a : ScriptArray α) (i j : ℕ) : Option (ScriptArray α) := do
  let i ← a.itemPointer i
  let j ← a.itemPointer j
  let tmp ← a.data[i]?
  let x ← a.data[j]?
  some { a with data := (a.data.set i x).set j tmp }

def reverse (a : ScriptArray α) : Option (ScriptArray α) :=
  if 2 ≤ a.numElements then
    (List.range (a.numElements / 2)).foldlM (fun a (i : ℕ) => a.exchange i (a.numElements - i - 1)) a
  else some a

/-- `Find(startAt, value)`, with what `Equals` says of two elements. -/
def find (equals : α → α → Bool) (a : ScriptArray α) (startAt : ℕ) (value : α) : Option ℤ :=
  if startAt < a.numElements then
    match a.data[startAt]? with
    | none => none
    | some x => if equals x value then some (asInt startAt) else find equals a (startAt + 1) value
  else some (-1)
termination_by a.numElements - startAt

/-- `Less`, with what `opCmp` or the comparison of values says of two elements. -/
def less (lt : α → α → Bool) (a : ScriptArray α) (asc : Bool) (x y : α) : Bool :=
  let (x, y) := if asc then (x, y) else (y, x)
  if a.handles then
    if x = default then true else if y = default then false else lt x y
  else lt x y

/-- `At(j)`, without the exception that there is with its null pointer. -/
def item (a : ScriptArray α) (j : ℤ) : Option α := if asUInt j < a.numElements then a.data[asUInt j]? else none

/-- `Copy` of one element over another one. -/
def copyItem (a : ScriptArray α) (dst src : ℤ) : Option (ScriptArray α) := do
  let dst ← a.itemPointer dst
  let src ← a.itemPointer src
  let x ← a.data[src]?
  some { a with data := a.data.set dst x }

/-- The inner loop of a sort: elements that come behind `tmp` are moved up. -/
def moveUp (comesBehind : α → Bool) (a : ScriptArray α) (start j : ℤ) : Option (ScriptArray α × ℤ) :=
  if start ≤ j then do
    let x ← a.item j
    if comesBehind x then
      let a ← a.copyItem (j + 1) j
      moveUp comesBehind a start (j - 1)
    else some (a, j)
  else some (a, j)
termination_by (j + 1 - start).toNat

/-- A round of the outer loop. -/
def insertItem (less : α → α → Bool) (start : ℤ) (a : ScriptArray α) (i : ℤ) : Option (ScriptArray α) := do
  let src ← a.itemPointer i
  let tmp ← a.data[src]?
  let (a, j) ← a.moveUp (less tmp) start (i - 1)
  let dst ← a.itemPointer (j + 1)
  some { a with data := a.data.set dst tmp }

/-- The insertion sort of both `Sort`s. -/
def sortBetween (less : α → α → Bool) (a : ScriptArray α) (start stop : ℤ) : Option (ScriptArray α) :=
  (List.range (stop - start - 1).toNat).foldlM (fun a (k : ℕ) => a.insertItem less start (start + 1 + k)) a

/-- `Sort(startAt, count, asc)`. -/
def sort (compare : Comparison α) (a : ScriptArray α) (startAt count : ℕ) (asc : Bool) : Option (ScriptArray α) :=
  match compare with
  | .missing typeName => some (a.setException (.noOpCmp typeName false))
  | .multiple typeName => some (a.setException (.noOpCmp typeName true))
  | .found lt =>
    if count < 2 then some a
    else
      let start := asInt startAt
      let stop := asInt (asUInt (startAt + count))
      if asInt a.numElements ≤ start ∨ asInt a.numElements < stop then some (a.setException .indexOutOfBounds)
      else a.sortBetween (a.less lt asc) start stop

/-- `Sort(func, startAt, count)`, with what the execution of `func` gives when it finishes. -/
def sortWith (func : α → α → Option Bool) (a : ScriptArray α) (startAt count : ℕ) : Option (ScriptArray α) :=
  if count < 2 then some a
  else
    let stop := if 4294967296 ≤ startAt + count then 4294967295 else startAt + count
    let stop := if a.numElements < stop then a.numElements else stop
    if a.numElements ≤ startAt then some (a.setException .indexOutOfBounds)
    else a.sortBetween (fun x y => func x y == some true) startAt stop

/-- `~CScriptArray`: the references that are left. -/
def delete (a : ScriptArray α) : Option (List α) := (a.destruct 0 a.numElements).map references

end ScriptArray

/-- `CScriptArray(length, ot)`; no array comes into being when there is an exception. -/
def create (m : Allocator α) (elementSize : ℕ) (handles : Bool) (length : ℕ) :
    Option (Except ArrayException (ScriptArray α)) :=
  if maxSize elementSize < length then some (.error .tooLarge)
  else
    match m.alloc length with
    | none => some (.error .outOfMemory)
    | some cells =>
      (fillCells cells 0 length default).map fun data => .ok ⟨elementSize, handles, data, length, [], []⟩

/-- `CScriptArray(length, defVal, ot)`: when there is no memory for the block, it is nevertheless asked for its
size. -/
def createFilled (m : Allocator α) (elementSize : ℕ) (handles : Bool) (length : ℕ) (defVal : α) :
    Option (Except ArrayException (ScriptArray α)) :=
  if maxSize elementSize < length then some (.error .tooLarge)
  else
    match m.alloc length with
    | none => none
    | some cells => do
      let data ← fillCells cells 0 length default
      let a : ScriptArray α := ⟨elementSize, handles, data, length, [], []⟩
      let a ← (List.range length).foldlM (fun a (n : ℕ) => a.setValue n defVal) a
      some (.ok a)

/-- `CScriptArray(ot, initList)`: the references are taken over from the list. -/
def createFrom (m : Allocator α) (elementSize : ℕ) (handles : Bool) (initList : List α) :
    Option (Except ArrayException (ScriptArray α)) :=
  if maxSize elementSize < initList.length then some (.error .tooLarge)
  else
    match m.alloc initList.length with
    | none => some (.error .outOfMemory)
    | some cells => do
      let cells ← fillCells cells 0 initList.length default
      let data ← copyCells cells 0 initList 0 initList.length
      let references := if handles then initList.filter (· ≠ default) else []
      some (.ok ⟨elementSize, handles, data, initList.length, references, []⟩)

end ScriptArrays

end NovusHeadless
