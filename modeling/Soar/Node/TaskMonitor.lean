import Soar.Computing.SharedMemory

/-! How a node applies a deployment: `task_monitor.py` writes the received keys into the ini files of the
sensors and sets their markers to `.lock`; `ros2_monitor.py` starts the sensors with that marker again. -/
namespace Soar.Node
open Soar.Computing

/-- An ini file with `QueueKey` in its section `Queue`. -/
structure Config where
  queueKey : Bytes
  others : List (Bytes × Bytes × Bytes)

/-- The files `sensor<key>.ini`, `sensor<key>.lock` and `sensor<key>.unlock`, and the json files. -/
structure Directory where
  ini : Nat → Option Config
  lock : Nat → Bool
  unlock : Nat → Bool
  json : List Bytes

/-- The received dictionary, in its order: for each sensor a list of queue keys. -/
structure Deployment where
  entries : List (Nat × List Nat)
  nodup : (entries.map Prod.fst).Nodup

/-- `str` of a list of integers. -/
def strList (keys : List Nat) : Bytes := [91] ++ List.intercalate [44, 32] (keys.map str) ++ [93]

inductive Outcome
  | returned
  | raised
  deriving DecidableEq

namespace Directory

/-- `open(lockfile + ".unlock", "w")`, unless it exists. -/
def createUnlock (dir : Directory) (key : Nat) : Directory :=
  if dir.unlock key then dir else { dir with unlock := Function.update dir.unlock key true }

/-- `os.rename(lockfile + ".unlock", lockfile + ".lock")`, which replaces a `.lock` that exists. -/
def renameUnlock (dir : Directory) (key : Nat) : Option Directory :=
  if dir.unlock key then
    some { dir with unlock := Function.update dir.unlock key false, lock := Function.update dir.lock key true }
  else none

def writeConfig (dir : Directory) (key : Nat) (config : Config) : Directory :=
  { dir with ini := Function.update dir.ini key (some config) }

end Directory

/-- The first loop of `write2file`: the value of `new_task_flag`, unless it raises. -/
def markChanged : List (Nat × List Nat) → Bool → Directory → Option Bool × Directory
  | [], newTaskFlag, dir => (some newTaskFlag, dir)
  | (key, queue) :: entries, newTaskFlag, dir =>
    match dir.ini key with
    -- `config.read` passes over a missing file, `config['Queue']` raises
    | none => (none, dir)
    | some config =>
      if config.queueKey = strList queue then markChanged entries newTaskFlag dir
      else markChanged entries true (dir.createUnlock key)

/-- The second loop of `write2file`. -/
def writeKeys : List (Nat × List Nat) → Directory → Outcome × Directory
  | [], dir => (.returned, dir)
  | (key, queue) :: entries, dir =>
    match dir.renameUnlock key with
    | none => (.raised, dir)
    | some dir =>
      match dir.ini key with
      | none => (.raised, dir)
      | some config => writeKeys entries (dir.writeConfig key { config with queueKey := strList queue })

def write2file (received : Deployment) (dir : Directory) : Outcome × Directory :=
  match markChanged received.entries false dir with
  | (none, dir) => (.raised, dir)
  | (some false, dir) => (.returned, dir)
  | (some true, dir) =>
    match writeKeys received.entries dir with
    | (.raised, dir) => (.raised, dir)
    -- `rm /opt/aiot/config/*.json`
    | (.returned, dir) => (.returned, { dir with json := [] })

/-- The markers after `run` of `ros2_monitor.py`, which starts the sensors with `.lock` again. -/
def run : List Nat → Directory → Directory
  | [], dir => dir
  | key :: sensors, dir =>
    run sensors (if dir.lock key then
      { dir with lock := Function.update dir.lock key false, unlock := Function.update dir.unlock key true }
    else dir)

namespace Directory

/-- The check of the first loop. -/
def Unchanged (dir : Directory) (entry : Nat × List Nat) : Prop :=
  (dir.ini entry.1).map Config.queueKey = some (strList entry.2)

instance (dir : Directory) (entry : Nat × List Nat) : Decidable (dir.Unchanged entry) :=
  inferInstanceAs (Decidable (_ = _))

/-- The sensor has the received keys, and the marker `.lock`. -/
def Applied (dir : Directory) (entry : Nat × List Nat) : Prop :=
  dir.Unchanged entry ∧ dir.lock entry.1 = true ∧ dir.unlock entry.1 = false

instance (dir : Directory) (entry : Nat × List Nat) : Decidable (dir.Applied entry) := instDecidableAnd

/-- The second loop finds the marker `.unlock`. -/
def Ready (dir : Directory) (entry : Nat × List Nat) : Prop := ¬ dir.Unchanged entry ∨ dir.unlock entry.1 = true

instance (dir : Directory) (entry : Nat × List Nat) : Decidable (dir.Ready entry) := instDecidableOr

end Directory

/-- All sensors listed have the received keys and the marker `.lock`, or nothing was to change and nothing has. -/
def Atomic (dir : Directory) (received : Deployment) (dir' : Directory) : Prop :=
  (∀ entry ∈ received.entries, dir'.Applied entry) ∨ (∀ entry ∈ received.entries, dir.Unchanged entry) ∧ dir' = dir

end Soar.Node
