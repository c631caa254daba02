import Soar.Node.SensorFiles

/-! `ros2_monitor.py` starts sensors and applications again while `task_monitor.py` writes the files. -/
namespace Soar.Node
open Soar.Computing Soar.Library

/-- The words of a command line. -/
abbrev Command := List (List Char)

structure Process where
  cmdline : Command
  /-- The configuration that a sensor has read at its start. -/
  config : Option Config

/-- `cmd[-n:]`. -/
def lastWords (n : Nat) (cmd : Command) : Command := cmd.drop (cmd.length - n)

/-- The test of `find_pid_by_cmdline`, on two words in `ros2_monitor.py` and on one in `prepro4call.py`. -/
def matchesLast (n : Nat) (cmd : Command) (p : Process) : Bool := lastWords n p.cmdline = lastWords n cmd

/-- `config_path:=/config/sensor<key>.ini`. -/
def configPath (key : Nat) : List Char :=
  ['c', 'o', 'n', 'f', 'i', 'g', '_', 'p', 'a', 't', 'h', ':', '=', '/', 'c', 'o', 'n', 'f', 'i', 'g', '/', 's', 'e',
    'n', 's', 'o', 'r'] ++ Nat.toDigits 10 key ++ ['.', 'i', 'n', 'i']

/-- The command line of a sensor; its node is named after the host and the file. -/
def listener (nodename : Nat → List Char) (key : Nat) : Command :=
  ["nohup", "ros2", "run", "sensor_subscriber", "listener", "--ros-args", "-r"].map String.toList ++
    [nodename key, ['-', 'p'], configPath key]

def preProcessing (app : Nat) : Command :=
  ["nohup", "python3", "/pre_processing/pre_processing.py"].map String.toList ++ [Nat.toDigits 10 app]

def control : Command :=
  ["nohup", "python3"].map String.toList ++
    [['/', 'l', 'o', 'c', 'a', 'l', '_', 's', 'c', 'h', 'e', 'd', 'u', 'l', 'e', 'r', '/', 'c', 'o', 'n', 't', 'r',
      'o', 'l', '.', 'p', 'y']]

/-- What the shell and the programs it starts leave running: `os.system(cmd + " &")`. -/
structure Shell where
  spawn : Command → List Command
  ne_nil : ∀ cmd, spawn cmd ≠ []
  last : ∀ cmd, ∀ c ∈ spawn cmd, lastWords 2 c = lastWords 2 cmd

/-- Where `run` of `ros2_monitor.py` stands: with the files that follow, and the value of `running`. -/
inductive MonitorStage
  | idle
  | next (rest : List Nat) (running : Bool)
  | locked (key : Nat) (rest : List Nat) (running : Bool)
  | killed (key : Nat) (rest : List Nat) (running : Bool)
  | start (key : Nat) (rest : List Nat)
  | rename (key : Nat) (rest : List Nat) (running : Bool)
  | restart (apps : List Nat)
deriving DecidableEq

/-- Where `write2file` of `task_monitor.py` stands. -/
inductive TaskStage
  | idle
  | marking (rest : List (Nat × List Nat)) (newTaskFlag : Bool) (entries : List (Nat × List Nat))
  | renaming (rest : List (Nat × List Nat))
  | writing (key : Nat) (config : Config) (rest : List (Nat × List Nat))

/-- The files, the processes and the two monitors; `overtaken` are the sensors whose file was written when the monitor
had already read it or was not to start the sensor again. -/
structure NodeState where
  dir : Directory
  processes : List Process := []
  monitor : MonitorStage := .idle
  task : TaskStage := .idle
  overtaken : Nat → Bool := fun _ => false

/-- The key of the sensor that is being started again, and has its file read. -/
def MonitorStage.pastRead : MonitorStage → Option Nat
  | .start key _ => some key
  | .rename key _ _ => some key
  | _ => none

/-- The sensor that is being started again. -/
def MonitorStage.handled : MonitorStage → Option Nat
  | .locked key _ _ => some key
  | .killed key _ _ => some key
  | stage => stage.pastRead

/-- A turn of the monitor with the files that a listing of the directory gives it, a received dictionary, a turn of
`write2file`, or a sensor's start reading its file. -/
inductive Turn
  | monitor (filenames : List Nat)
  | receive (received : Deployment)
  | task
  | read (i key : Nat)

namespace NodeState

variable (shell : Shell) (nodename : Nat → List Char)

def kill (w : NodeState) (n : Nat) (cmd : Command) : NodeState :=
  { w with processes := w.processes.filter fun p => ! matchesLast n cmd p }

/-- `os.system(cmd + " &")`. -/
def system (w : NodeState) (cmd : Command) : NodeState :=
  { w with processes := w.processes ++ (shell.spawn cmd).map fun c => ⟨c, none⟩ }

def unlock (w : NodeState) (key : Nat) : NodeState :=
  { w with dir := { w.dir with
      lock := Function.update w.dir.lock key false, unlock := Function.update w.dir.unlock key true } }

/-- A step of `run`, and of `preprocessing_run` at its end; where it raises, it is over. -/
def monitorStep (w : NodeState) (filenames : List Nat) : NodeState :=
  match w.monitor with
  | .idle => { w with monitor := .next filenames false }
  | .next [] false => { w with monitor := .idle }
  | .next [] true =>
    match updateDeployedApp w.dir filenames with
    | none => { w with monitor := .idle }
    | some apps => { w with monitor := .restart apps }
  | .next (key :: rest) running =>
    { w with monitor := if w.dir.lock key then .locked key rest running else .next rest running }
  | .locked key rest running => { w.kill 2 (listener nodename key) with monitor := .killed key rest running }
  | .killed key rest running =>
    match (w.dir.ini key).bind fun config => evalList config.queueKey with
    | none => { w with monitor := .idle }
    | some queue =>
      { w with
        monitor := if queue ≠ [] then .start key rest else .rename key rest running
        overtaken := Function.update w.overtaken key false }
  | .start key rest => { w.system shell (listener nodename key) with monitor := .rename key rest true }
  | .rename key rest running =>
    if w.dir.lock key then { w.unlock key with monitor := .next rest running } else { w with monitor := .idle }
  | .restart [] => { (w.kill 1 control).system shell control with monitor := .idle }
  | .restart (app :: apps) =>
    { (w.kill 1 (preProcessing app)).system shell (preProcessing app) with monitor := .restart apps }

/-- A step of `write2file`. -/
def taskStep (w : NodeState) : NodeState :=
  match w.task with
  | .idle => w
  | .marking [] false _ => { w with task := .idle }
  | .marking [] true entries => { w with task := .renaming entries }
  | .marking ((key, queue) :: rest) newTaskFlag entries =>
    match w.dir.ini key with
    | none => { w with task := .idle }
    | some config =>
      if config.queueKey = strList queue then { w with task := .marking rest newTaskFlag entries }
      else { w with dir := w.dir.createUnlock key, task := .marking rest true entries }
  | .renaming [] => { w with dir := { w.dir with json := [] }, task := .idle }
  | .renaming ((key, queue) :: rest) =>
    match w.dir.renameUnlock key with
    | none => { w with task := .idle }
    | some dir =>
      match dir.ini key with
      | none => { w with dir := dir, task := .idle }
      | some config => { w with dir := dir, task := .writing key { config with queueKey := strList queue } rest }
  | .writing key config rest =>
    { w with
      dir := w.dir.writeConfig key config
      task := .renaming rest
      overtaken := Function.update w.overtaken key
        (w.overtaken key || ! w.dir.lock key || w.monitor.pastRead = some key) }

/-- The sensor `key`, started as the process `i`, reads its file. -/
def readConfig (w : NodeState) (i key : Nat) : NodeState :=
  { w with processes := w.processes.modify i fun p =>
      if lastWords 1 p.cmdline = [configPath key] ∧ p.config.isNone then { p with config := w.dir.ini key } else p }

def step (w : NodeState) : Turn → NodeState
  | .monitor filenames => w.monitorStep shell nodename filenames
  | .receive received =>
    match w.task with
    | .idle => { w with task := .marking received.entries false received.entries }
    | _ => w
  | .task => w.taskStep
  | .read i key => w.readConfig i key

def run (w : NodeState) (turns : List Turn) : NodeState := turns.foldl (step shell nodename) w

end NodeState

end Soar.Node
