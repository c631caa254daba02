import Soar.Library.AlongRun
import Soar.Computing.CrossQueue

/-! The queue of one task between its producer, the scheduler and the two model processes. The scheduler
reads the head's timestamp, decides, and then it or a model process removes the head. -/
namespace Soar.Computing
open Soar.Library

/-- A process with its own `InferQueue` object on the queue. -/
inductive Agent
  | scheduler
  | model (mv : Fin 2)
  deriving DecidableEq

/-- What the scheduler makes of the head: nothing for now, drop it, or run a variant on it. -/
inductive Choice
  | skip
  | drop
  | run (mv : Fin 2)
  deriving DecidableEq

/-- Who calls `get`. -/
def Choice.agent : Choice → Option Agent
  | .skip => none
  | .drop => some .scheduler
  | .run mv => some (.model mv)

/-- The operations of `size`, of `gettime`, and the `get` of an agent. -/
inductive JobPoint
  | sizeAcquireFront
  | sizeReadFront
  | sizeReleaseFront
  | sizeAcquireRear
  | sizeReadRear
  | sizeReleaseRear
  | timeAcquireRear
  | timeReadRear
  | timeAcquireFront
  | timeReadFront
  | timeReadTime
  | timeReleaseFront
  | timeReleaseRear
  | get (agent : Agent)
  deriving DecidableEq

/-- `self.rear` and `self.fronts[address_key]` of an object. -/
structure Cache where
  rear : Nat := 0
  front : Nat := 0

/-- A job that has left the queue, and the `start_time` that its results are recorded under. -/
structure Job (τ : Type) where
  agent : Agent
  startTime : Option τ
  data : Bytes
  timestamp : τ
  deriving DecidableEq

/-- The scheduler and the model processes, of which only one is at work at a time. -/
structure Jobs (τ : Type) where
  point : JobPoint := .sizeAcquireFront
  object : Agent → Cache := fun _ => {}
  top : Nat := 1
  timeFront : Nat := 0
  times : List τ := []
  startTime : Option τ := none
  call : Consumer τ := {}
  jobs : List (Job τ) := []
  raised : Bool := false

section
variable {τ : Type}

def Jobs.cache (s : Jobs τ) (agent : Agent) (cache : Cache) : Jobs τ :=
  { s with object := Function.update s.object agent cache }

/-- The head of the loop in `gettime`. -/
def Jobs.nextTime (s : Jobs τ) : Jobs τ :=
  { s with
    point :=
      if s.times.length = s.top ∨ s.timeFront = (s.object .scheduler).rear then .timeReleaseFront else .timeReadTime }

/-- A call of `get` on the object of `agent`. -/
def Jobs.begin (s : Jobs τ) (agent : Agent) : Jobs τ :=
  { s with
    point := .get agent
    call := { s.call with point := .acquireRear, rear := (s.object agent).rear, front := (s.object agent).front } }

/-- What the scheduler does with the list that `gettime` has returned. -/
def Jobs.chosen (s : Jobs τ) (choice : Choice) : Jobs τ :=
  if s.times.length = s.top then
    let s := { s with startTime := s.times.head? }
    match choice.agent with
    | none => { s with point := .sizeAcquireFront }
    | some agent => s.begin agent
  -- `queue_times[0]` or `queue_times[1]` is out of range
  else { s with point := .sizeAcquireFront, raised := true }

/-- A step of the `get` of `agent`. When it returns, the job is dropped or run, and recorded. -/
def CrossQueue.called (q : CrossQueue τ) (s : Jobs τ) (agent : Agent) (call : Consumer τ) : Jobs τ :=
  let s' := { s.cache agent ⟨call.rear, call.front⟩ with call := call }
  if s.call.point = .unlockFront ∧ q.Shaped s.call.data then
    { s' with
      point := .sizeAcquireFront
      jobs := s.jobs ++ (s.call.timestamp.map fun t => ⟨agent, s.startTime, s.call.data, t⟩).toList }
  else s'

/-- The iterations of `local_scheduling` as far as they concern the queue. -/
def CrossQueue.schedule (q : CrossQueue τ) (choice : Choice) (s : Jobs τ) : Op (Jobs τ) :=
  if s.raised then .halt else
  let self := s.object .scheduler
  match s.point with
  | .sizeAcquireFront => .acquire (.front 0) { s with point := .sizeReadFront }
  | .sizeReadFront => .read (.front 0) fun text =>
    { s.cache .scheduler { self with front := readInt self.front text } with point := .sizeReleaseFront }
  | .sizeReleaseFront => .release (.front 0) { s with point := .sizeAcquireRear }
  | .sizeAcquireRear => .acquire .rear { s with point := .sizeReadRear }
  | .sizeReadRear => .read .rear fun text =>
    { s.cache .scheduler { self with rear := readInt self.rear text } with point := .sizeReleaseRear }
  | .sizeReleaseRear =>
    let size := (self.rear + q.maxLength - self.front) % q.maxLength
    .release .rear
      (if size = 0 then { s with point := .sizeAcquireFront, startTime := none }
       else { s with point := .timeAcquireRear, top := if size = 1 then 1 else 2 })
  | .timeAcquireRear => .acquire .rear { s with point := .timeReadRear }
  | .timeReadRear => .read .rear fun text =>
    { s.cache .scheduler { self with rear := readInt self.rear text } with point := .timeAcquireFront }
  | .timeAcquireFront => .acquire (.front 0) { s with point := .timeReadFront }
  | .timeReadFront => .read (.front 0) fun text =>
    let front := readInt self.front text
    Jobs.nextTime { s.cache .scheduler { self with front := front } with timeFront := front, times := [] }
  | .timeReadTime =>
    if s.timeFront < q.maxLength then
      .read (.time s.timeFront) fun text =>
        match q.timestamp.float? (readFromMemory text) with
        | some t =>
          Jobs.nextTime { s with times := s.times ++ [t], timeFront := (s.timeFront + 1) % q.maxLength }
        | none => { s with raised := true }
    else .halt
  | .timeReleaseFront => .release (.front 0) { s with point := .timeReleaseRear }
  | .timeReleaseRear => .release .rear (s.chosen choice)
  | .get agent => (InferQueue.get q 0 s.call).map (q.called s agent)

/-- Who takes the next step; a choice counts at the end of `gettime`. -/
inductive JobTurn
  | producer
  | consumer (choice : Choice)

structure JobSystem (τ : Type) where
  ring : Ring
  producer : Producer
  jobs : Jobs τ

def CrossQueue.createJobs (q : CrossQueue τ) : JobSystem τ where
  ring := q.create.ring
  producer := {}
  jobs := {}

def JobSystem.step (q : CrossQueue τ) (items : Nat → Bytes × τ) (w : JobSystem τ) : JobTurn → JobSystem τ
  | .producer =>
    let next := (q.put items w.producer).exec .producer w.ring w.producer
    { w with ring := next.1, producer := next.2 }
  | .consumer choice =>
    let next := (q.schedule choice w.jobs).exec (.consumer 0) w.ring w.jobs
    { w with ring := next.1, jobs := next.2 }

def JobSystem.run (q : CrossQueue τ) (items : Nat → Bytes × τ) (turns : List JobTurn) : JobSystem τ :=
  turns.foldl (step q items) q.createJobs

/-- Every job that was dropped or run is a put that `get` removed, and its results stand under the
timestamp of this put. -/
def JobSystem.Identified (items : Nat → Bytes × τ) (w : JobSystem τ) : Prop :=
  ∀ job ∈ w.jobs.jobs, ∃ n, (w.ring.history 0)[n]? = some .taken ∧ (job.data, job.timestamp) = items n ∧
    job.startTime = some (items n).2

end

end Soar.Computing
