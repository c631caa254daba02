import Soar.Node.SensorFiles

/-! The file of a sensor: how it is generated, what deployments do to it, and what the sensor reads. -/
namespace Soar.Node
open Soar.Computing Soar.Library

def sensorSection : List Char := ['S', 'e', 'n', 's', 'o', 'r']

def startOption : List Char := ['S', 't', 'a', 'r', 't']

def positionOption : List Char := ['P', 'o', 's', 'i', 't', 'i', 'o', 'n']

def typeOption : List Char := ['T', 'y', 'p', 'e']

def dataShapeOption : List Char := ['D', 'a', 't', 'a', 'S', 'h', 'a', 'p', 'e']

def dataTypeOption : List Char := ['D', 'a', 't', 'a', 'T', 'y', 'p', 'e']

def dataSizeOption : List Char := ['D', 'a', 't', 'a', 'S', 'i', 'z', 'e']

def msgTypeOption : List Char := ['M', 's', 'g', 'T', 'y', 'p', 'e']

def compressedImage : List Char :=
  ['C', 'o', 'm', 'p', 'r', 'e', 's', 's', 'e', 'd', 'I', 'm', 'a', 'g', 'e']

/-- The generator's file of a sensor: the template with the sensor's position and start. -/
def generateSensor [Ini.StrLower] (template position : List Char) (start : Nat) : Option (List Char) := do
  let config ← Ini.read template
  let config ← config.set sensorSection positionOption position
  let config ← config.set queueSection startOption (Nat.toDigits 10 start)
  return config.write

/-- `topic.replace("-", "_")`. -/
def topicOf (position type : List Char) : List Char :=
  (['/'] ++ position ++ ['/'] ++ type).map fun c => if c = '-' then '_' else c

/-- What `SensorSubscriber.__init__` takes from its file; the shape and the type of the data are texts to `eval`. -/
structure SensorSubscriber where
  topic : List Char
  addressKeys : List Nat
  start : Nat
  dataShape : List Char
  dataType : List Char
  dataSize : Nat
  compressed : Bool
  targetPos : Nat
deriving DecidableEq

namespace SensorSubscriber

/-- The options but the queue keys. -/
def ofConfig [Ini.StrLower] (config : Ini.Config) (addressKeys : List Nat) : Option SensorSubscriber := do
  let position ← config.get sensorSection positionOption
  let type ← config.get sensorSection typeOption
  let start ← int? (encode (← config.get queueSection startOption))
  let dataShape ← config.get sensorSection dataShapeOption
  let dataType ← config.get sensorSection dataTypeOption
  let dataSize ← int? (encode (← config.get sensorSection dataSizeOption))
  let msgType ← config.get sensorSection msgTypeOption
  let targetPos ← int? (encode [← position.getLast?])
  return {
    topic := topicOf position type
    addressKeys := addressKeys
    start := start
    dataShape := dataShape
    dataType := dataType
    dataSize := dataSize
    compressed := msgType = compressedImage
    targetPos := targetPos }

def read [Ini.StrLower] (content : List Char) : Option SensorSubscriber := do
  let config ← Ini.read content
  ofConfig config (← evalList (encode (← config.get queueSection queueKeyOption)))

end SensorSubscriber

/-- What happens to the files: `task_monitor.py` gets a deployment, `ros2_monitor.py` starts sensors again. -/
inductive Change
  | deploy (received : Deployment)
  | restart (sensors : List Nat)

namespace Files

/-- The markers after `run` of `ros2_monitor.py`. -/
def run : List Nat → Files → Files
  | [], files => files
  | key :: sensors, files =>
    run sensors (if files.lock key then
      { files with lock := Function.update files.lock key false, unlock := Function.update files.unlock key true }
    else files)

def change [Ini.StrLower] (files : Files) : Change → Files
  | .deploy received => (files.write2file received).2
  | .restart sensors => files.run sensors

end Files

/-- The keys of a sensor that the last deployment with it had. -/
def lastKeys (key : Nat) (changes : List Change) (keys : List Nat) : List Nat :=
  changes.foldl (fun keys change => match change with
    | .deploy received => (received.entries.lookup key).getD keys
    | .restart _ => keys) keys

/-- The two configurations have the same options, but for the queue keys. -/
def SameOptions [Ini.StrLower] (config config' : Ini.Config) : Prop :=
  ∀ sectname name, sectname ≠ queueSection ∨ Ini.optionxform name ≠ Ini.optionxform queueKeyOption →
    config'.raw sectname name = config.raw sectname name

namespace Files

variable {files : Files} {key : Nat}

/-- The file of the sensor is there, with these options and these queue keys. -/
structure Has [Ini.StrLower] (files : Files) (key : Nat) (config : Ini.Config) (keys : List Nat) : Prop where
  config : ∃ content config', files.ini key = some content ∧ Ini.read content = some config' ∧
    SameOptions config config'
  keys : (files.toDirectory.ini key).bind (fun file => evalList file.queueKey) = some keys

theorem run_toDirectory [Ini.StrLower] (sensors : List Nat) (files : Files) :
    (files.run sensors).toDirectory = Node.run sensors files.toDirectory := by
  induction sensors generalizing files with
  | nil => rfl
  | cons key sensors ih =>
    rw [run, Node.run, ih]
    change Node.run sensors _ = Node.run sensors (if files.lock key then _ else _)
    split_ifs <;> rfl

theorem run_ini (sensors : List Nat) (files : Files) : (files.run sensors).ini = files.ini := by
  induction sensors generalizing files with
  | nil => rfl
  | cons key sensors ih =>
    rw [run, ih]
    split_ifs <;> rfl

theorem createUnlock_ini (files : Files) (key : Nat) : (files.createUnlock key).ini = files.ini := by
  unfold createUnlock
  split_ifs <;> rfl

theorem markChanged_ini [Ini.StrLower] (entries : List (Nat × List Nat)) (newTaskFlag : Bool) (files : Files) :
    (markChanged entries newTaskFlag files).2.ini = files.ini := by
  induction entries generalizing newTaskFlag files with
  | nil => rfl
  | cons entry entries ih =>
    rw [markChanged]
    split
    · rfl
    · split_ifs
      · exact ih newTaskFlag files
      · rw [ih, createUnlock_ini]

/-- The file of a sensor keeps its options, whatever `f` does to the files. -/
def Keeps [Ini.StrLower] (f : Files → Files) (key : Nat) : Prop := ∀ files config content config',
  files.ini key = some content → Ini.read content = some config' → SameOptions config config' →
    ∃ content config', (f files).ini key = some content ∧ Ini.read content = some config' ∧
      SameOptions config config'

theorem keeps_of_ini [Ini.StrLower] {f : Files → Files} (h : ∀ files, (f files).ini = files.ini) (key : Nat) :
    Keeps f key :=
  fun files _ content config' hini hread hsame => ⟨content, config', by rw [h]; exact hini, hread, hsame⟩

theorem keeps_writeKeys [Ini.StrLower] (entries : List (Nat × List Nat)) (key : Nat) :
    Keeps (fun files => (writeKeys entries files).2) key := by
  induction entries with
  | nil => exact keeps_of_ini (fun _ => rfl) key
  | cons entry entries ih =>
    obtain ⟨key', queue⟩ := entry
    intro files config content config' hini hread hsame
    dsimp only
    rw [writeKeys]
    split
    · exact ⟨content, config', hini, hread, hsame⟩
    · next config₁ hconfig =>
      split
      · exact ⟨content, config', hini, hread, hsame⟩
      · next files₁ hunlock =>
        have hini₁ : files₁.ini = files.ini := by
          unfold renameUnlock at hunlock
          split_ifs at hunlock
          rw [← Option.some.inj hunlock]
        split
        · exact ⟨content, config', by rw [hini₁]; exact hini, hread, hsame⟩
        · next config₂ hset =>
          by_cases hkey : key = key'
          · subst hkey
            rw [Files.config, hini] at hconfig
            obtain rfl := Option.some.inj (hread.symm.trans hconfig)
            refine ih _ config _ config₂ (Function.update_self ..) ?_ fun sectname name hother => ?_
            · exact Ini.read_write ((Ini.wellFormed_of_read hread).set hset (good_queueKey queue))
            · rw [Ini.Config.raw_set_of_ne hset hother]
              exact hsame sectname name hother
          · refine ih _ config content config' ?_ hread hsame
            change Function.update files₁.ini key' _ key = _
            rw [Function.update_of_ne hkey, hini₁]
            exact hini

/-- A deployment changes no option of a file except its `QueueKey`. -/
theorem keeps_write2file [Ini.StrLower] (received : Deployment) (key : Nat) :
    Keeps (fun files => (files.write2file received).2) key := by
  intro files config content config' hini hread hsame
  dsimp only
  have hmark := markChanged_ini received.entries false files
  unfold write2file
  rcases hfiles : markChanged received.entries false files with ⟨flag, files₁⟩
  rw [hfiles] at hmark
  rw [← hmark] at hini
  match flag with
  | none => exact ⟨content, config', hini, hread, hsame⟩
  | some false => exact ⟨content, config', hini, hread, hsame⟩
  | some true =>
    have hkeys := keeps_writeKeys received.entries key files₁ config content config' hini hread hsame
    dsimp only at hkeys ⊢
    rcases hwrite : writeKeys received.entries files₁ with ⟨outcome, files₂⟩
    rw [hwrite] at hkeys
    cases outcome <;> exact hkeys

/-- A change that raises no error. -/
def Returns [Ini.StrLower] (files : Files) : Change → Prop
  | .deploy received => (files.write2file received).1 = .returned
  | .restart _ => True

instance [Ini.StrLower] (files : Files) (change : Change) : Decidable (files.Returns change) := by
  cases change
  · exact inferInstanceAs (Decidable (_ = _))
  · exact instDecidableTrue

variable {config : Ini.Config} {keys : List Nat}

/-- A deployment or a restart leaves a file with the keys of the last deployment. -/
theorem Has.change [Ini.StrLower] (h : files.Has key config keys) (c : Change) (hreturns : files.Returns c) :
    (files.change c).Has key config (lastKeys key [c] keys) := by
  obtain ⟨⟨content, config', hini, hread, hsame⟩, hkeys⟩ := h
  cases c with
  | restart sensors =>
    refine ⟨keeps_of_ini (run_ini sensors) key files config content config' hini hread hsame, ?_⟩
    change ((files.run sensors).toDirectory.ini key).bind _ = some keys
    rw [run_toDirectory, Node.run_ini]
    exact hkeys
  | deploy received =>
    refine ⟨keeps_write2file received key files config content config' hini hread hsame, ?_⟩
    have hrefines := write2file_toDirectory received files
    have hreturned : (Node.write2file received files.toDirectory).1 = .returned := by
      rw [← hrefines]
      exact hreturns
    obtain ⟨hlisted, hother⟩ := write2file_returned hreturned
    rw [← hrefines] at hlisted hother
    change ((files.write2file received).2.toDirectory.ini key).bind _ = some ((received.entries.lookup key).getD keys)
    cases hlookup : received.entries.lookup key with
    | none =>
      have hkey : key ∉ received.entries.map Prod.fst := fun hmem => by
        obtain ⟨entry, hentry, rfl⟩ := List.mem_map.mp hmem
        exact absurd (List.lookup_eq_none_iff.mp hlookup entry hentry) (by simp)
      rw [Option.getD_none, ← hkeys]
      exact congrArg (Option.bind · _) (hother key hkey)
    | some queue =>
      obtain ⟨l₁, l₂, hentries, -⟩ := List.lookup_eq_some_iff.mp hlookup
      have hunchanged := hlisted (key, queue) (hentries ▸ List.mem_append_right _ (List.mem_cons_self ..))
      obtain ⟨file, hfile, hqueueKey⟩ := Option.map_eq_some_iff.mp hunchanged
      change (files.write2file received).2.toDirectory.ini key = some file at hfile
      rw [hfile, Option.bind_some, hqueueKey, evalList_strList]
      rfl

/-- So do any number of them. -/
theorem Has.changes [Ini.StrLower] {changes : List Change} (h : files.Has key config keys)
    (hreturns : AlongRun Files.change Returns files changes) :
    (changes.foldl Files.change files).Has key config (lastKeys key changes keys) := by
  induction changes generalizing files keys with
  | nil => exact h
  | cons c changes ih => exact ih (h.change c hreturns.1) hreturns.2

end Files

section Read

variable [Ini.StrLower] {config config' : Ini.Config}

/-- The sensor's own options do not depend on the queue keys. -/
theorem SensorSubscriber.ofConfig_congr (hsame : SameOptions config config') {start : List Char}
    (hstart : config.raw queueSection startOption = some start) (hpercent : '%' ∉ start) (addressKeys : List Nat) :
    ofConfig config' addressKeys = ofConfig config addressKeys := by
  have hsensor : config'.raw sensorSection = config.raw sensorSection :=
    funext fun name => hsame sensorSection name (.inl (by decide))
  have hget : ∀ name, config'.get sensorSection name = config.get sensorSection name := fun name => by
    unfold Ini.Config.get
    rw [hsensor]
  have hother : Ini.optionxform startOption ≠ Ini.optionxform queueKeyOption := by
    rw [@Ini.optionxform_of_ascii _ startOption rfl, @Ini.optionxform_of_ascii _ queueKeyOption rfl]
    decide
  have hstart' : config'.raw queueSection startOption = some start := by
    rw [hsame queueSection startOption (.inr hother)]
    exact hstart
  unfold ofConfig
  simp only [hget, Ini.Config.get_eq hstart hpercent, Ini.Config.get_eq hstart' hpercent]

/-- With other queue keys, nothing else is different. -/
theorem SensorSubscriber.ofConfig_eq {keys : List Nat} {s : SensorSubscriber} (h : ofConfig config keys = some s) :
    s.addressKeys = keys ∧ (∀ keys', ofConfig config keys' = some { s with addressKeys := keys' }) ∧
      (config.get queueSection startOption).bind (fun start => int? (encode start)) = some s.start ∧
      ∃ position type, config.get sensorSection positionOption = some position ∧
        s.topic = topicOf position type := by
  unfold ofConfig at h ⊢
  obtain ⟨position, hposition, h⟩ := Option.bind_eq_some_iff.mp h
  obtain ⟨type, htype, h⟩ := Option.bind_eq_some_iff.mp h
  obtain ⟨startText, hstartText, h⟩ := Option.bind_eq_some_iff.mp h
  obtain ⟨start, hstart, h⟩ := Option.bind_eq_some_iff.mp h
  obtain ⟨dataShape, hdataShape, h⟩ := Option.bind_eq_some_iff.mp h
  obtain ⟨dataType, hdataType, h⟩ := Option.bind_eq_some_iff.mp h
  obtain ⟨sizeText, hsizeText, h⟩ := Option.bind_eq_some_iff.mp h
  obtain ⟨dataSize, hdataSize, h⟩ := Option.bind_eq_some_iff.mp h
  obtain ⟨msgType, hmsgType, h⟩ := Option.bind_eq_some_iff.mp h
  obtain ⟨last, hlast, h⟩ := Option.bind_eq_some_iff.mp h
  obtain ⟨targetPos, htargetPos, h⟩ := Option.bind_eq_some_iff.mp h
  obtain rfl := Option.some.inj h
  refine ⟨rfl, fun keys' => ?_, ?_, position, type, hposition, rfl⟩
  · simp only [hposition, htype, hstartText, hstart, hdataShape, hdataType, hsizeText, hdataSize, hmsgType, hlast,
      htargetPos, Option.bind_eq_bind, Option.bind_some]
    rfl
  · rw [hstartText, Option.bind_some]
    exact hstart

theorem Files.Has.read {files : Files} {key : Nat} {keys : List Nat} (h : files.Has key config keys)
    {start : List Char} (hstart : config.raw queueSection startOption = some start) (hpercent : '%' ∉ start) :
    ∃ content, files.ini key = some content ∧
      SensorSubscriber.read content = SensorSubscriber.ofConfig config keys := by
  obtain ⟨⟨content, config', hini, hread, hsame⟩, hkeys⟩ := h
  refine ⟨content, hini, ?_⟩
  have hqueue : (config'.get queueSection queueKeyOption).bind (fun queueKey => evalList (encode queueKey)) =
      some keys := by
    have htoDirectory := Files.toDirectory_ini files key
    rw [Files.config, hini] at htoDirectory
    dsimp only at htoDirectory
    rw [hread, Option.bind_some] at htoDirectory
    rw [← hkeys]
    calc (config'.get queueSection queueKeyOption).bind (fun queueKey => evalList (encode queueKey))
        = ((config'.get queueSection queueKeyOption).map encode).bind evalList := by
          rw [Option.bind_map]
          rfl
      _ = ((files.toDirectory.ini key).map Config.queueKey).bind evalList := by rw [htoDirectory]
      _ = (files.toDirectory.ini key).bind fun file => evalList file.queueKey := by
        rw [Option.bind_map]
        rfl
  obtain ⟨queueKey, hget, heval⟩ := Option.bind_eq_some_iff.mp hqueue
  unfold SensorSubscriber.read
  rw [hread, Option.bind_eq_bind, Option.bind_some, hget]
  change (evalList (encode queueKey)).bind _ = _
  rw [heval]
  exact SensorSubscriber.ofConfig_congr hsame hstart hpercent keys

end Read

section Generated

variable {template position content : List Char} {start : Nat}

theorem percent_not_mem_toDigits (n : Nat) : '%' ∉ Nat.toDigits 10 n := fun h => absurd (isDigit_of_mem h) (by decide)

private theorem inLine_toDigits (n : Nat) : Ini.InLine (Nat.toDigits 10 n) := by
  refine inLine_of_isspace fun c hc => ?_
  have h : 48 ≤ c.toNat ∧ c.toNat ≤ 57 := by simpa [Char.isDigit, UInt32.le_iff_toNat_le] using isDigit_of_mem hc
  unfold Text.isspace
  simp only [Bool.or_eq_false_iff, Bool.and_eq_false_iff, decide_eq_false_iff_not, beq_eq_false_iff_ne]
  omega

/-- The generated file is read as the template with its position and start. -/
theorem generateSensor_config [Ini.StrLower] (hgenerate : generateSensor template position start = some content)
    (hline : Ini.InLine position) : ∃ config, Ini.read content = some config ∧
      config.raw sensorSection positionOption = some position ∧
      config.raw queueSection startOption = some (Nat.toDigits 10 start) := by
  obtain ⟨config₀, hread, hgenerate⟩ := Option.bind_eq_some_iff.mp hgenerate
  obtain ⟨config₁, hposition, hgenerate⟩ := Option.bind_eq_some_iff.mp hgenerate
  obtain ⟨config₂, hstart, hcontent⟩ := Option.bind_eq_some_iff.mp hgenerate
  obtain rfl := Option.some.inj hcontent
  have hgoodPosition : Ini.Good (Ini.optionxform positionOption) position :=
    .of_inLine rfl rfl (by decide) (by constructor <;> decide) (by decide) (by decide) (by decide) hline
  have hgoodStart : Ini.Good (Ini.optionxform startOption) (Nat.toDigits 10 start) :=
    .of_inLine rfl rfl (by decide) (by constructor <;> decide) (by decide) (by decide) (by decide)
      (inLine_toDigits start)
  have hwf := ((Ini.wellFormed_of_read hread).set hposition hgoodPosition).set hstart hgoodStart
  refine ⟨config₂, Ini.read_write hwf, ?_, Ini.Config.raw_set hstart⟩
  rw [Ini.Config.raw_set_of_ne hstart (.inl (by decide)), Ini.Config.raw_set hposition]

/-- The sensor file from the generator on: whatever deployments follow, the sensor reads the queue keys of the last one
that lists it, and everything else as generated. -/
theorem read_afterChanges [Ini.StrLower] (hgenerate : generateSensor template position start = some content)
    (hline : Ini.InLine position) (hpercent : '%' ∉ position) {files : Files} {key : Nat}
    (hini : files.ini key = some content) {changes : List Change}
    (hreturns : AlongRun Files.change Files.Returns files changes) {s : SensorSubscriber}
    (hs : SensorSubscriber.read content = some s) :
    (∃ content', (changes.foldl Files.change files).ini key = some content' ∧
      SensorSubscriber.read content' = some { s with addressKeys := lastKeys key changes s.addressKeys }) ∧
    s.start = start ∧ ∃ type, s.topic = topicOf position type := by
  obtain ⟨config, hread, hposition, hstart⟩ := generateSensor_config hgenerate hline
  unfold SensorSubscriber.read at hs
  rw [hread, Option.bind_eq_bind, Option.bind_some] at hs
  obtain ⟨queueKey, hget, hs⟩ := Option.bind_eq_some_iff.mp hs
  obtain ⟨keys, heval, hs⟩ := Option.bind_eq_some_iff.mp hs
  have hkeys : (files.toDirectory.ini key).bind (fun file => evalList file.queueKey) = some keys := by
    have hfile : files.toDirectory.ini key = some ⟨encode queueKey, otherOptions config⟩ := by
      change (files.ini key).bind _ = _
      rw [hini, Option.bind_some]
      change (Ini.read content).bind Config.ofIni = _
      rw [hread, Option.bind_some, Config.ofIni, hget]
      rfl
    rw [hfile]
    exact heval
  have hhas : files.Has key config keys := ⟨⟨content, config, hini, hread, fun _ _ _ => rfl⟩, hkeys⟩
  obtain ⟨content', hini', hread'⟩ := (hhas.changes hreturns).read hstart (percent_not_mem_toDigits start)
  obtain ⟨hkeys', hother, hstart', position', type, hposition', htopic⟩ := SensorSubscriber.ofConfig_eq hs
  refine ⟨⟨content', hini', ?_⟩, ?_, type, ?_⟩
  · rw [hread', hother, hkeys']
  · rw [Ini.Config.get_eq hstart (percent_not_mem_toDigits start), Option.bind_some, encode_toDigits,
      int?_str] at hstart'
    exact (Option.some.inj hstart').symm
  · rw [Ini.Config.get_eq hposition hpercent] at hposition'
    rw [htopic, Option.some.inj hposition']

/-- `thermal-sensor.ini`. -/
def thermalTemplate : List Char :=
  ['[', 'S', 'e', 'n', 's', 'o', 'r', ']', '\n', 't', 'y', 'p', 'e', ' ', '=', ' ', 't', 'h', 'e', 'r', 'm', 'a', 'l',
   '-', '1', '\n', 'p', 'o', 's', 'i', 't', 'i', 'o', 'n', ' ', '=', ' ', 't', 'e', 's', 't', 'b', 'e', 'd', '-', '0',
   '1', '\n', 'd', 'a', 't', 'a', 's', 'i', 'z', 'e', ' ', '=', ' ', '9', '8', '3', '1', '6', '8', '\n', 'd', 'a',
   't', 'a', 's', 'h', 'a', 'p', 'e', ' ', '=', ' ', '(', '5', '1', '2', ',', ' ', '6', '4', '0', ',', ' ', '3', ')',
   '\n', 'd', 'a', 't', 'a', 't', 'y', 'p', 'e', ' ', '=', ' ', 'n', 'p', '.', 'u', 'i', 'n', 't', '8', '\n', 'm',
   's', 'g', 't', 'y', 'p', 'e', ' ', '=', ' ', 'C', 'o', 'm', 'p', 'r', 'e', 's', 's', 'e', 'd', 'I', 'm', 'a', 'g',
   'e', '\n', '\n', '[', 'Q', 'u', 'e', 'u', 'e', ']', '\n', 's', 't', 'a', 'r', 't', ' ', '=', ' ', '8', '0', '0',
   '0', ' ', '\n', 'q', 'u', 'e', 'u', 'e', 'k', 'e', 'y', ' ', '=', ' ', '[', ']']

def testbed01 : List Char := ['t', 'e', 's', 't', 'b', 'e', 'd', '-', '0', '1']

/-- The names of its options are in ASCII. -/
local instance thermalLower : Ini.StrLower := Ini.asciiLower

def thermalContent : List Char := (generateSensor thermalTemplate testbed01 1000).getD []

def thermalFiles : Files where
  ini key := if key = 10301 then some thermalContent else none
  lock _ := false
  unlock key := key = 10301
  json := []

theorem nodup_twoTasks : ([(10301, [10301, 10302])].map (Prod.fst : Nat × List Nat → Nat)).Nodup := by decide

/-- Two tasks on the sensor 10301. -/
def twoTasks : Deployment := ⟨[(10301, [10301, 10302])], nodup_twoTasks⟩

def thermalSubscriber : SensorSubscriber where
  topic := topicOf testbed01 ['t', 'h', 'e', 'r', 'm', 'a', 'l', '-', '1']
  addressKeys := []
  start := 1000
  dataShape := ['(', '5', '1', '2', ',', ' ', '6', '4', '0', ',', ' ', '3', ')']
  dataType := ['n', 'p', '.', 'u', 'i', 'n', 't', '8']
  dataSize := 983168
  compressed := true
  targetPos := 1

/-- The file of a thermal camera after a deployment and a restart. -/
theorem read_afterChanges_thermal :
    (∃ content', ([.deploy twoTasks, .restart [10301]].foldl Files.change thermalFiles).ini 10301 = some content' ∧
      SensorSubscriber.read content' = some { thermalSubscriber with
        addressKeys := lastKeys 10301 [.deploy twoTasks, .restart [10301]] thermalSubscriber.addressKeys }) ∧
    thermalSubscriber.start = 1000 ∧ ∃ type, thermalSubscriber.topic = topicOf testbed01 type :=
  read_afterChanges (show generateSensor thermalTemplate testbed01 1000 = some thermalContent by decide +kernel)
    (by constructor <;> decide) (by decide) rfl (by decide +kernel) (by decide +kernel)

end Generated

end Soar.Node
