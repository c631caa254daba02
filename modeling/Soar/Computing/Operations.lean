import Soar.Library.Program
import Soar.Computing.CrossQueue

/-! The methods of `CrossQueue` and `InferQueue` as programs over the semaphores and segments of a
queue. A call may raise at any of the places where its source may. -/
namespace Soar.Computing
open Soar.Library

/-- The indices that an object has cached. -/
structure Object where
  rear : Nat := 0
  fronts : Nat → Nat := fun _ => 0

def Object.setFront (self : Object) (k front : Nat) : Object :=
  { self with fronts := Function.update self.fronts k front }

/-- A segment that no longer exists holds `none`. -/
abbrev Method (α : Type) := Program Semaphore Segment (Option Bytes) α

namespace Method

def acquire (l : Semaphore) : Method Unit := Program.acquire l (.done ())

def release (l : Semaphore) : Method Unit := Program.release l (.done ())

def raise {α : Type} : Method α := Program.raise

/-- `sysv_ipc.SharedMemory` with the key of a segment. -/
def attach (s : Segment) : Method Unit :=
  .read s fun
    | some _ => .done ()
    | none => .raise

/-- `read_from_memory`. -/
def readFrom (s : Segment) : Method Bytes :=
  .read s fun
    | some memory => .done (readFromMemory memory)
    | none => .raise

/-- `write_to_memory`. -/
def writeTo (s : Segment) (text : Bytes) : Method Unit :=
  .write s (fun content => content.bind fun memory => (writeToMemory text memory).map some) (.done ())

/-- `try: x = int(read_from_memory(memory)) except: pass`. -/
def readIndex (cached : Nat) (s : Segment) : Method Nat :=
  .read s fun content => .done (content.elim cached (readInt cached))

end Method

open Method

section
variable {τ : Type} (q : CrossQueue τ)

/-- `self.front_locks[front_key].acquire()`. -/
def CrossQueue.lockFront (k : Nat) : Method Unit := if k < q.frontKeys then acquire (.front k) else raise

/-- `self.data_queue[i]` and `self.time_queue[i]`, opened. -/
def CrossQueue.openSlot (i : Nat) : Method Unit :=
  if i < q.maxLength then do
    attach (.data i)
    attach (.time i)
  else raise

/-- `float(read_from_memory(time_memory))`. -/
def CrossQueue.readTime (i : Nat) : Method τ := do
  let text ← readFrom (.time i)
  match q.timestamp.float? text with
  | some t => .done t
  | none => raise

/-- The data and the timestamp in a slot; `np.frombuffer` raises on a part of an element. -/
def CrossQueue.readSlot (i : Nat) : Method (Bytes × τ) := do
  q.openSlot i
  let data ← readFrom (.data i)
  if q.itemsize ∣ data.length then do
    let t ← q.readTime i
    .done (data, t)
  else raise

/-- `address_key` of `get` and `gettime`. -/
def CrossQueue.addressKey : Option Nat → Method Nat
  | some k => .done k
  -- `assert len(self.front_keys) == 1`
  | none => if q.frontKeys = 1 then .done 0 else raise

/-- `address_keys` of `isEmpty` and `size`. -/
def CrossQueue.addressKeys : Option Nat → List Nat
  | some k => [k]
  | none => List.range q.frontKeys

namespace Object

/-- What `put` does for one front key. -/
def putFront (self : Object) (k : Nat) : Method Object := do
  q.lockFront k
  let front ← readIndex (self.fronts k) (.front k)
  if (self.rear + 1) % q.maxLength = front then do
    let front := (front + 1) % q.maxLength
    writeTo (.front k) (str front)
    release (.front k)
    .done (self.setFront k front)
  else do
    release (.front k)
    .done (self.setFront k front)

def putFronts : List Nat → Object → Method Object
  | [], self => .done self
  | k :: keys, self => do
    let self ← self.putFront q k
    putFronts keys self

/-- `self.rear` at the end of `put`. -/
def lastRear (self : Object) : Method Nat := if q.rereadsRear then readIndex self.rear .rear else .done self.rear

def put (self : Object) (data : Bytes) (timestamp : τ) : Method Object := do
  acquire .rear
  let rear ← readIndex self.rear .rear
  q.openSlot rear
  writeTo (.data rear) data
  writeTo (.time rear) (q.timestamp.str timestamp)
  let self ← putFronts q (List.range q.frontKeys) { self with rear := rear }
  let rear ← self.lastRear q
  let rear := (rear + 1) % q.maxLength
  writeTo .rear (str rear)
  release .rear
  .done { self with rear := rear }

/-- The loop of `isEmpty`, which leaves it at the first front that is at the rear. -/
def isEmptyLoop : List Nat → Object → Method (Object × Bool)
  | [], self => do
    release .rear
    .done (self, false)
  | k :: keys, self => do
    q.lockFront k
    let front ← readIndex (self.fronts k) (.front k)
    let rear ← readIndex self.rear .rear
    let self := { self.setFront k front with rear := rear }
    if rear = front then do
      release .rear
      release (.front k)
      .done (self, true)
    else do
      release (.front k)
      isEmptyLoop keys self

def isEmpty (self : Object) (key : Option Nat) : Method (Object × Bool) := do
  acquire .rear
  isEmptyLoop q (q.addressKeys key) self

/-- The end of both versions of `get`: the front moves on. -/
def advance (self : Object) (k : Nat) : Method Object := do
  let front := (self.fronts k + 1) % q.maxLength
  writeTo (.front k) (str front)
  release (.front k)
  .done (self.setFront k front)

/-- What `get` does after a non-empty check: `CrossQueue.get` reads the slot before it takes the
front's semaphore, `InferQueue.get` after. -/
def remove (v : Version) (self : Object) (k : Nat) : Method (Object × Bytes × τ) :=
  match v with
  | .cross => do
    let item ← q.readSlot (self.fronts k)
    q.lockFront k
    let front ← readIndex (self.fronts k) (.front k)
    let self ← (self.setFront k front).advance q k
    .done (self, item)
  | .infer => do
    q.lockFront k
    let front ← readIndex (self.fronts k) (.front k)
    let item ← q.readSlot front
    let self ← (self.setFront k front).advance q k
    .done (self, item)

/-- One round of `get`. It goes round again when the queue was empty, and calls itself when the data
lacks the shape. -/
def getRound (v : Version) (self : Object) (k : Nat) : Method (Object × Option (Bytes × τ)) := do
  let (self, empty) ← self.isEmpty q (some k)
  if empty then .done (self, none)
  else do
    let (self, data, timestamp) ← self.remove q v k
    .done (self, if q.Shaped data then some (data, timestamp) else none)

/-- `get` within a number of rounds: what the object caches, and what is returned by then. -/
def getRounds (v : Version) (k : Nat) : Nat → Object → Method (Object × Option (Bytes × τ))
  | 0, self => .done (self, none)
  | rounds + 1, self => do
    let (self, item) ← self.getRound q v k
    match item with
    | some x => .done (self, some x)
    | none => getRounds v k rounds self

def get (v : Version) (self : Object) (key : Option Nat) (rounds : Nat) : Method (Object × Option (Bytes × τ)) := do
  let k ← q.addressKey key
  getRounds q v k rounds self

/-- The loop of `gettime`, from `time_front` on. -/
def gettimeLoop (rear : Nat) : Nat → Nat → Method (List τ)
  | 0, _ => .done []
  | top + 1, front =>
    if front = rear then .done []
    else if front < q.maxLength then do
      attach (.time front)
      let t ← q.readTime front
      let times ← gettimeLoop rear top ((front + 1) % q.maxLength)
      .done (t :: times)
    else raise

def gettime (self : Object) (key : Option Nat) (top : Nat) : Method (Object × List τ) := do
  let k ← q.addressKey key
  acquire .rear
  let rear ← readIndex self.rear .rear
  q.lockFront k
  let front ← readIndex (self.fronts k) (.front k)
  let times ← gettimeLoop q rear top front
  release (.front k)
  release .rear
  .done ({ self.setFront k front with rear := rear }, times)

/-- What `isFull` and `size` read for a key. -/
def readIndices (self : Object) (k : Nat) : Method Object := do
  q.lockFront k
  let front ← readIndex (self.fronts k) (.front k)
  release (.front k)
  acquire .rear
  let rear ← readIndex self.rear .rear
  release .rear
  .done { self.setFront k front with rear := rear }

def isFullLoop : List Nat → Object → Method (Object × Bool)
  | [], self => .done (self, false)
  | k :: keys, self => do
    let self ← self.readIndices q k
    if (self.rear + 1) % q.maxLength = self.fronts k then .done (self, true) else isFullLoop keys self

def isFull (self : Object) : Method (Object × Bool) := isFullLoop q (List.range q.frontKeys) self

def sizeLoop : List Nat → Object → Method Object
  | [], self => .done self
  | k :: keys, self => do
    let self ← self.readIndices q k
    sizeLoop keys self

/-- For a single key the number of entries. For several, `size` subtracts the keys themselves, of which
`frontKey` gives the numbers. -/
def size (self : Object) (frontKey : Nat → Int) (key : Option Nat) : Method (Object × List Int) := do
  let self ← sizeLoop q (q.addressKeys key) self
  .done (self, match q.frontKeys with
    | 0 => [0]
    | 1 => [((self.rear : Int) - self.fronts 0 + q.maxLength) % q.maxLength]
    | keys => (List.range keys).map fun k => ((self.rear : Int) - frontKey k + q.maxLength) % q.maxLength)

end Object

end

end Soar.Computing
