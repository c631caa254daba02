import Soar.Library.SharedStore
import Soar.Computing.SharedMemory

/-! The ring queue of `utils/crossqueue.py`: one producer and multiple consumers, each with its
own front. Every semaphore call and every access to a segment is one step of its process. -/
namespace Soar.Computing
open Soar.Library

/-- `str` and `float` of the timestamps: the text of a timestamp reads back as the timestamp. -/
structure TimestampText (τ : Type) where
  str : τ → Bytes
  float? : Bytes → Option τ
  float?_str : ∀ t, float? (str t) = some t
  sentinelFree_str : ∀ t, SentinelFree (str t)

/-- What the processes create the queue with. The keys are distinct, so a front key is named by
its place in `front_keys`. A fresh segment is filled with `blank`. -/
structure CrossQueue (τ : Type) where
  maxLength : Nat
  frontKeys : Nat
  shape : List Nat
  itemsize : Nat
  maxDataSize : Nat
  blank : UInt8
  timestamp : TimestampText τ
  /-- `put` of `sensor_sub.py` reads `rear_memory` again before it advances the rear. -/
  rereadsRear : Bool
  two_le_maxLength : 2 ≤ maxLength
  isDigit_blank : isDigit blank = false

inductive Segment
  | data (i : Nat)
  | time (i : Nat)
  | rear
  | front (k : Nat)
  deriving DecidableEq

inductive Semaphore
  | rear
  | front (k : Nat)
  deriving DecidableEq

inductive Process
  | producer
  | consumer (k : Nat)
  deriving DecidableEq

/-- Who moved a front by one: its consumer, or the overflow branch of a put. -/
inductive Move
  | taken
  | overflow (put : Nat)
  deriving DecidableEq

/-- The history lists the moves of each front, oldest first. -/
abbrev Ring := Store Process Semaphore Segment Bytes (Nat → List Move)

abbrev Op (σ : Type) := Action Semaphore Segment Bytes (Nat → List Move) σ

def logMove (k : Nat) (m : Move) (history : Nat → List Move) : Nat → List Move :=
  Function.update history k (history k ++ [m])

/-! The producer. -/

/-- The operations of `put`, in the order of the source. -/
inductive PutPoint
  | acquireRear
  | readRear
  | writeData
  | writeTime
  | acquireFront (k : Nat)
  | readFront (k : Nat)
  | writeFront (k : Nat)
  | releaseFront (k : Nat)
  | rereadRear
  | writeRear
  | releaseRear
  deriving DecidableEq

/-- The producer's object: `self.rear`, `self.fronts`, and how many puts have advanced the rear. -/
structure Producer where
  point : PutPoint := .acquireRear
  rear : Nat := 0
  fronts : Nat → Nat := fun _ => 0
  count : Nat := 0
  raised : Bool := false

/-- The number of puts that have begun. -/
def Producer.begun (p : Producer) : Nat :=
  if p.point = .acquireRear ∨ p.point = .releaseRear then p.count else p.count + 1

section
variable {τ : Type}

/-- The head of the loop over `front_keys`. -/
def CrossQueue.nextKey (q : CrossQueue τ) (k : Nat) : PutPoint :=
  if k < q.frontKeys then .acquireFront k else if q.rereadsRear then .rereadRear else .writeRear

/-- `CrossQueue.put` of the payload `items p.count`. -/
def CrossQueue.put (q : CrossQueue τ) (items : Nat → Bytes × τ) (p : Producer) : Op Producer :=
  if p.raised then .halt else
  match p.point with
  | .acquireRear => .acquire .rear { p with point := .readRear }
  | .readRear => .read .rear fun text => { p with point := .writeData, rear := readInt p.rear text }
  | .writeData =>
    if p.rear < q.maxLength then
      .update (.data p.rear) (writeToMemory (items p.count).1) id { p with point := .writeTime }
        { p with raised := true }
    else .halt
  | .writeTime =>
    .update (.time p.rear) (writeToMemory (q.timestamp.str (items p.count).2)) id
      { p with point := q.nextKey 0 } { p with raised := true }
  | .acquireFront k => .acquire (.front k) { p with point := .readFront k }
  | .readFront k => .read (.front k) fun text =>
    let front := readInt (p.fronts k) text
    { p with
      point := if (p.rear + 1) % q.maxLength = front then .writeFront k else .releaseFront k
      fronts := Function.update p.fronts k front }
  | .writeFront k =>
    let front := (p.fronts k + 1) % q.maxLength
    .update (.front k) (writeToMemory (str front)) (logMove k (.overflow p.count))
      { p with point := .releaseFront k, fronts := Function.update p.fronts k front } { p with raised := true }
  | .releaseFront k => .release (.front k) { p with point := q.nextKey (k + 1) }
  | .rereadRear => .read .rear fun text => { p with point := .writeRear, rear := readInt p.rear text }
  | .writeRear =>
    let rear := (p.rear + 1) % q.maxLength
    .update .rear (writeToMemory (str rear)) id
      { p with point := .releaseRear, rear := rear, count := p.count + 1 } { p with raised := true }
  | .releaseRear => .release .rear { p with point := .acquireRear }

end

/-! The consumers. -/

/-- The operations of `isEmpty`, on an empty and on a non-empty ring, and of the body of `get`. -/
inductive GetPoint
  | acquireRear
  | acquireFront
  | readFront
  | readRear
  | emptyReleaseRear
  | emptyReleaseFront
  | releaseFront
  | releaseRear
  | readData
  | readTime
  | lockFront
  | rereadFront
  | writeFront
  | unlockFront
  deriving DecidableEq

/-- A consumer's object, the locals of its `get`, and all that its calls have returned. -/
structure Consumer (τ : Type) where
  point : GetPoint := .acquireRear
  rear : Nat := 0
  front : Nat := 0
  data : Bytes := []
  timestamp : Option τ := none
  returned : List (Bytes × τ) := []
  raised : Bool := false

inductive Version
  | cross
  | infer
  deriving DecidableEq

/-- What follows a non-empty check. -/
def Version.afterCheck : Version → GetPoint
  | .cross => .readData
  | .infer => .lockFront

/-- What follows reading the timestamp. -/
def Version.afterTime : Version → GetPoint
  | .cross => .lockFront
  | .infer => .writeFront

/-- What follows reading the front again. -/
def Version.afterFront : Version → GetPoint
  | .cross => .writeFront
  | .infer => .readData

section
variable {τ : Type}

/-- `data.reshape(self.shape)` does not raise. -/
def CrossQueue.Shaped (q : CrossQueue τ) (data : Bytes) : Prop := data.length = q.itemsize * q.shape.prod

instance (q : CrossQueue τ) (data : Bytes) : Decidable (q.Shaped data) := instDecidableEqNat _ _

/-- `get` after its last release: it returns, or calls itself when the data lacks the shape. -/
def CrossQueue.finish (q : CrossQueue τ) (c : Consumer τ) : Consumer τ :=
  { c with
    point := .acquireRear
    returned := if q.Shaped c.data then c.returned ++ (c.timestamp.map (c.data, ·)).toList else c.returned }

/-- Both versions of `get`, with `isEmpty`, for the consumer with front key `k`. -/
def CrossQueue.getBy (v : Version) (q : CrossQueue τ) (k : Nat) (c : Consumer τ) : Op (Consumer τ) :=
  if c.raised then .halt else
  match c.point with
  | .acquireRear => .acquire .rear { c with point := .acquireFront }
  | .acquireFront => .acquire (.front k) { c with point := .readFront }
  | .readFront => .read (.front k) fun text => { c with point := .readRear, front := readInt c.front text }
  | .readRear => .read .rear fun text =>
    let rear := readInt c.rear text
    { c with point := if rear = c.front then .emptyReleaseRear else .releaseFront, rear := rear }
  | .emptyReleaseRear => .release .rear { c with point := .emptyReleaseFront }
  | .emptyReleaseFront => .release (.front k) { c with point := .acquireRear }
  | .releaseFront => .release (.front k) { c with point := .releaseRear }
  | .releaseRear => .release .rear { c with point := v.afterCheck }
  | .readData =>
    if c.front < q.maxLength then
      .read (.data c.front) fun s =>
        -- `np.frombuffer` raises on a buffer that is no whole number of elements
        if q.itemsize ∣ (readFromMemory s).length then { c with point := .readTime, data := readFromMemory s }
        else { c with raised := true }
    else .halt
  | .readTime => .read (.time c.front) fun s =>
    match q.timestamp.float? (readFromMemory s) with
    | some t => { c with point := v.afterTime, timestamp := some t }
    | none => { c with raised := true }
  | .lockFront => .acquire (.front k) { c with point := .rereadFront }
  | .rereadFront => .read (.front k) fun text => { c with point := v.afterFront, front := readInt c.front text }
  | .writeFront =>
    let front := (c.front + 1) % q.maxLength
    .update (.front k) (writeToMemory (str front)) (logMove k .taken)
      { c with point := .unlockFront, front := front } { c with raised := true }
  | .unlockFront => .release (.front k) (q.finish c)

/-- `CrossQueue.get` reads the slot first and then advances the front. -/
def CrossQueue.get (q : CrossQueue τ) (k : Nat) (c : Consumer τ) : Op (Consumer τ) := q.getBy .cross k c

/-- `InferQueue.get` reads the slot between reading and advancing the front, under its lock. -/
def InferQueue.get (q : CrossQueue τ) (k : Nat) (c : Consumer τ) : Op (Consumer τ) := q.getBy .infer k c

/-! Runs: a schedule says which process is next. -/

structure System (τ : Type) where
  ring : Ring
  producer : Producer
  consumer : Nat → Consumer τ

/-- The queue right after its segments and semaphores have been created. -/
def CrossQueue.create (q : CrossQueue τ) : System τ where
  ring :=
    { mem := fun
        | .data _ => List.replicate q.maxDataSize q.blank
        | _ => List.replicate 32 q.blank
      holder := fun _ => none
      history := fun _ => [] }
  producer := {}
  consumer := fun _ => {}

def step (q : CrossQueue τ) (get : Nat → Consumer τ → Op (Consumer τ)) (items : Nat → Bytes × τ) (w : System τ) :
    Process → System τ
  | .producer =>
    let next := (q.put items w.producer).exec .producer w.ring w.producer
    { w with ring := next.1, producer := next.2 }
  | .consumer k =>
    if k < q.frontKeys then
      let next := (get k (w.consumer k)).exec (.consumer k) w.ring (w.consumer k)
      { w with ring := next.1, consumer := Function.update w.consumer k next.2 }
    else w

def run (q : CrossQueue τ) (get : Nat → Consumer τ → Op (Consumer τ)) (items : Nat → Bytes × τ)
    (schedule : List Process) : System τ := schedule.foldl (step q get items) q.create

/-- The overflow branch of a later put moved the front of key `k` past put `n`, with at least
`max_length - 1` later puts begun. -/
def Overtaken (q : CrossQueue τ) (w : System τ) (k n : Nat) : Prop :=
  ∃ r, (w.ring.history k)[n]? = some (.overflow r) ∧ n + (q.maxLength - 1) ≤ r ∧ r < w.producer.begun

/-- What consumer `k` has returned are puts in increasing order, and every put that it skipped
was overtaken or is excused. -/
def Consumes (q : CrossQueue τ) (items : Nat → Bytes × τ) (excused : Nat → Prop) (w : System τ) (k : Nat) : Prop :=
  ∃ puts : List Nat, puts.Pairwise (· < ·) ∧ (w.consumer k).returned = puts.map items ∧
    (∀ n ∈ puts, n < w.producer.begun) ∧
    ∀ n ∉ puts, (∃ m ∈ puts, n < m) → Overtaken q w k n ∨ excused n

end

end Soar.Computing
