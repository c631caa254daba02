import Soar.Library.IniOptions
import Soar.Node.DeployedApps

/-! The sensor files as texts, which `write2file` reads and writes with `ConfigParser`. -/
namespace Soar.Node
open Soar.Computing Soar.Library

/-- UTF-8. -/
def encode (text : List Char) : Bytes := text.flatMap String.utf8EncodeChar

/-- `str` of a list of integers, as a text. -/
def strKeys (keys : List Nat) : List Char :=
  ['['] ++ List.intercalate [',', ' '] (keys.map (Nat.toDigits 10)) ++ [']']

def queueSection : List Char := ['Q', 'u', 'e', 'u', 'e']

def queueKeyOption : List Char := ['Q', 'u', 'e', 'u', 'e', 'K', 'e', 'y']

/-- The files of a node, with the content of `sensor<key>.ini`. -/
structure Files where
  ini : Nat → Option (List Char)
  lock : Nat → Bool
  unlock : Nat → Bool
  json : List Bytes

namespace Files

/-- A `ConfigParser` after `config.read(filepath)`, which passes over a missing file. -/
def config [Ini.StrLower] (files : Files) (key : Nat) : Option Ini.Config :=
  match files.ini key with
  | none => some ⟨[], []⟩
  | some content => Ini.read content

def createUnlock (files : Files) (key : Nat) : Files :=
  if files.unlock key then files else { files with unlock := Function.update files.unlock key true }

def renameUnlock (files : Files) (key : Nat) : Option Files :=
  if files.unlock key then
    some { files with unlock := Function.update files.unlock key false, lock := Function.update files.lock key true }
  else none

/-- `config.write(o)`. -/
def writeConfig (files : Files) (key : Nat) (config : Ini.Config) : Files :=
  { files with ini := Function.update files.ini key (some config.write) }

/-- The first loop of `write2file`. -/
def markChanged [Ini.StrLower] : List (Nat × List Nat) → Bool → Files → Option Bool × Files
  | [], newTaskFlag, files => (some newTaskFlag, files)
  | (key, queue) :: entries, newTaskFlag, files =>
    match (files.config key).bind (·.get queueSection queueKeyOption) with
    | none => (none, files)
    | some queueKey =>
      if queueKey = strKeys queue then markChanged entries newTaskFlag files
      else markChanged entries true (files.createUnlock key)

/-- The second loop. -/
def writeKeys [Ini.StrLower] : List (Nat × List Nat) → Files → Outcome × Files
  | [], files => (.returned, files)
  | (key, queue) :: entries, files =>
    match files.config key with
    | none => (.raised, files)
    | some config =>
      match files.renameUnlock key with
      | none => (.raised, files)
      | some files =>
        match config.set queueSection queueKeyOption (strKeys queue) with
        | none => (.raised, files)
        | some config => writeKeys entries (files.writeConfig key config)

def write2file [Ini.StrLower] (files : Files) (received : Deployment) : Outcome × Files :=
  match markChanged received.entries false files with
  | (none, files) => (.raised, files)
  | (some false, files) => (.returned, files)
  | (some true, files) =>
    match writeKeys received.entries files with
    | (.raised, files) => (.raised, files)
    | (.returned, files) => (.returned, { files with json := [] })

end Files

/-- All options but the queue keys, with their sections. -/
def otherOptions [Ini.StrLower] (config : Ini.Config) : List (Bytes × Bytes × Bytes) :=
  (config.defaults.map fun o => (encode Ini.defaultSection, encode o.1, encode o.2)) ++
    config.sections.flatMap fun s =>
      (s.2.filter fun o => s.1 ≠ queueSection ∨ o.1 ≠ Ini.optionxform queueKeyOption).map fun o =>
        (encode s.1, encode o.1, encode o.2)

/-- An ini file as the model of the monitors has it. -/
def Config.ofIni [Ini.StrLower] (config : Ini.Config) : Option Config := do
  return { queueKey := encode (← config.get queueSection queueKeyOption), others := otherOptions config }

/-- What the texts say. -/
def Files.toDirectory [Ini.StrLower] (files : Files) : Directory where
  ini key := do Config.ofIni (← Ini.read (← files.ini key))
  lock := files.lock
  unlock := files.unlock
  json := files.json

section Encode

/-- Different texts have different bytes. -/
theorem encode_injective {text text' : List Char} (h : encode text = encode text') : text = text' := by
  have hbytes : text.utf8Encode = text'.utf8Encode := congrArg List.toByteArray h
  have hdecode := @List.utf8Decode?_utf8Encode text
  rw [hbytes, List.utf8Decode?_utf8Encode] at hdecode
  simpa using hdecode.symm

theorem encode_of_ascii {text : List Char} (h : ∀ c ∈ text, c.toNat < 128) :
    encode text = text.map Char.toUInt8 := by
  induction text with
  | nil => rfl
  | cons c text ih =>
    have hc : c.utf8Size = 1 := Char.utf8Size_eq_one_iff.mpr (by
      have := h c (List.mem_cons_self ..)
      rw [UInt32.le_iff_toNat_le]
      change c.toNat ≤ 127
      omega)
    unfold encode at ih ⊢
    rw [List.flatMap_cons, String.utf8EncodeChar_eq_singleton hc, ih fun c hc => h c (List.mem_cons_of_mem _ hc)]
    rfl

private theorem toNat_of_isDigit {c : Char} (h : c.isDigit = true) : 48 ≤ c.toNat ∧ c.toNat ≤ 57 := by
  simpa [Char.isDigit, UInt32.le_iff_toNat_le] using h

theorem isDigit_of_mem {c : Char} {n : Nat} (h : c ∈ Nat.toDigits 10 n) : c.isDigit = true :=
  Nat.isDigit_of_mem_toDigits (by decide) (by decide) h

theorem encode_toDigits (n : Nat) : encode (Nat.toDigits 10 n) = str n := by
  refine encode_of_ascii fun c hc => ?_
  have := toNat_of_isDigit (isDigit_of_mem hc)
  omega

/-- A text without white space is in one line. -/
theorem inLine_of_isspace {text : List Char} (h : ∀ c ∈ text, Text.isspace c = false) : Ini.InLine text where
  stripped := by
    refine Text.strip_eq_self_iff.mpr ⟨?_, List.rdropWhile_eq_self_iff.mpr fun hne => ?_⟩
    · cases text with
      | nil => rfl
      | cons c text => exact Text.lstrip_eq_self (h c (List.mem_cons_self ..)) text
    · rw [h _ (List.getLast_mem hne)]
      exact Bool.false_ne_true
  newline := fun hmem => absurd (h _ hmem) (by decide)
  ret := fun hmem => absurd (h _ hmem) (by decide)

variable {keys : List Nat}

private theorem mem_intercalate_digits {c : Char} (h : c ∈ List.intercalate [',', ' '] (keys.map (Nat.toDigits 10))) :
    c = ',' ∨ c = ' ' ∨ c.isDigit = true := by
  induction keys with
  | nil => cases h
  | cons n keys ih =>
    cases keys with
    | nil =>
      rw [List.map_singleton, List.intercalate_singleton] at h
      exact .inr (.inr (isDigit_of_mem h))
    | cons m keys =>
      rw [List.map_cons, List.map_cons, List.intercalate_cons_cons, ← List.map_cons, List.mem_append,
        List.mem_append] at h
      rcases h with (h | h) | h
      · exact .inr (.inr (isDigit_of_mem h))
      · rcases List.mem_cons.mp h with rfl | h
        · exact .inl rfl
        · exact .inr (.inl (List.mem_singleton.mp h))
      · exact ih h

theorem mem_strKeys {c : Char} (h : c ∈ strKeys keys) : c ∈ ['[', ',', ' ', ']'] ∨ c.isDigit = true := by
  unfold strKeys at h
  rcases List.mem_append.mp h with h | h
  · rcases List.mem_append.mp h with h | h
    · rw [List.mem_singleton.mp h]
      exact .inl (by decide)
    · rcases mem_intercalate_digits h with rfl | rfl | h
      · exact .inl (by decide)
      · exact .inl (by decide)
      · exact .inr h
  · rw [List.mem_singleton.mp h]
    exact .inl (by decide)

theorem not_mem_strKeys {c : Char} (hmem : c ∉ ['[', ',', ' ', ']']) (hdigit : c.isDigit = false) :
    c ∉ strKeys keys := fun h => by
  rcases mem_strKeys h with h | h
  · exact hmem h
  · rw [hdigit] at h
    cases h

theorem encode_strKeys (keys : List Nat) : encode (strKeys keys) = strList keys := by
  have hascii : ∀ c ∈ strKeys keys, c.toNat < 128 := fun c hc => by
    rcases mem_strKeys hc with h | h
    · simp only [List.mem_cons, List.not_mem_nil, or_false] at h
      rcases h with rfl | rfl | rfl | rfl <;> decide
    · have := toNat_of_isDigit h
      omega
  have hmap : ∀ l : List (List Char), (List.intercalate [',', ' '] l).map Char.toUInt8 =
      List.intercalate [44, 32] (l.map (List.map Char.toUInt8)) := fun l => by
    induction l with
    | nil => rfl
    | cons first l ih =>
      cases l with
      | nil => rw [List.intercalate_singleton, List.map_singleton, List.intercalate_singleton]
      | cons second l =>
        rw [List.intercalate_cons_cons, List.map_append, List.map_append, ih]
        exact List.intercalate_cons_cons.symm
  rw [encode_of_ascii hascii, strKeys, List.map_append, List.map_append, hmap, List.map_map]
  rfl

theorem inLine_strKeys (keys : List Nat) : Ini.InLine (strKeys keys) where
  stripped := by
    refine Text.strip_eq_self_iff.mpr ⟨Text.lstrip_eq_self (by decide) _, ?_⟩
    unfold strKeys
    rw [Text.rstrip_append_of_ne_nil _ (by decide)]
    rfl
  newline := not_mem_strKeys (by decide) (by decide)
  ret := not_mem_strKeys (by decide) (by decide)

theorem percent_not_mem_strKeys (keys : List Nat) : '%' ∉ strKeys keys := not_mem_strKeys (by decide) (by decide)

end Encode

section Set

variable [Ini.StrLower] {config config' : Ini.Config} {queue : List Nat}

theorem good_queueKey (queue : List Nat) : Ini.Good (Ini.optionxform queueKeyOption) (strKeys queue) :=
  .of_inLine rfl rfl (by decide) (by constructor <;> decide) (by decide) (by decide) (by decide) (inLine_strKeys queue)

/-- A queue key can be set wherever one is found. -/
theorem set_of_get (h : (config.get queueSection queueKeyOption).isSome) (queue : List Nat) :
    ∃ config', config.set queueSection queueKeyOption (strKeys queue) = some config' := by
  refine Ini.Config.set_eq_some (percent_not_mem_strKeys queue) ?_
  obtain ⟨value, hvalue⟩ := Option.isSome_iff_exists.mp h
  obtain ⟨rawValue, hraw, -⟩ := Option.bind_eq_some_iff.mp hvalue
  obtain ⟨options, hoptions, -⟩ := Option.bind_eq_some_iff.mp hraw
  exact Option.isSome_of_eq_some hoptions

/-- The other options stay when the queue key is set. -/
theorem otherOptions_set (hwf : config.WellFormed)
    (h : config.set queueSection queueKeyOption (strKeys queue) = some config') :
    otherOptions config' = otherOptions config := by
  obtain ⟨options, hoptions, rfl⟩ := Ini.Config.of_set h
  unfold otherOptions Ini.Dict.modify
  dsimp only
  refine congrArg (_ ++ ·) ?_
  rw [List.flatMap_map]
  refine List.flatMap_congr fun s hs => ?_
  split_ifs with hsect
  · have hlookup := Ini.Dict.lookup_of_mem hwf.sections.1 hs
    rw [hsect, hoptions] at hlookup
    have hfilter : ∀ d : Ini.Dict (List Char),
        d.filter (fun o => decide (s.1 ≠ queueSection ∨ o.1 ≠ Ini.optionxform queueKeyOption)) =
          d.filter fun o => decide (o.1 ≠ Ini.optionxform queueKeyOption) := fun d =>
      List.filter_congr fun o _ => decide_eq_decide.mpr (or_iff_right fun hne => hne hsect)
    rw [hfilter, hfilter, Ini.Dict.filter_assign, Option.some.inj hlookup]
  · rfl

theorem ofIni_set {file : Config} (hwf : config.WellFormed) (hfile : Config.ofIni config = some file)
    (h : config.set queueSection queueKeyOption (strKeys queue) = some config') :
    Config.ofIni config' = some { file with queueKey := strList queue } := by
  obtain ⟨key, -, hkey⟩ := Option.bind_eq_some_iff.mp hfile
  have hget := Ini.Config.get_eq (Ini.Config.raw_set h) (percent_not_mem_strKeys queue)
  rw [Config.ofIni, hget, otherOptions_set hwf h, ← Option.some.inj hkey]
  exact congrArg (fun k => some (Config.mk k _)) (encode_strKeys queue)

end Set

namespace Files

variable [Ini.StrLower] {files files' : Files} {key : Nat} {entries : List (Nat × List Nat)}

/-- What is found in a file, and what `toDirectory` finds. -/
theorem toDirectory_ini (files : Files) (key : Nat) :
    (files.toDirectory.ini key).map Config.queueKey =
      ((files.config key).bind (·.get queueSection queueKeyOption)).map encode := by
  unfold toDirectory Files.config
  dsimp only
  cases files.ini key with
  | none => rfl
  | some content =>
    change ((Ini.read content).bind Config.ofIni).map Config.queueKey = _
    dsimp only
    cases Ini.read content with
    | none => rfl
    | some config =>
      unfold Config.ofIni
      change ((config.get queueSection queueKeyOption).bind _).map Config.queueKey = _
      dsimp only [Option.bind_some]
      cases config.get queueSection queueKeyOption <;> rfl

/-- A file whose text says something has been read as a well-formed configuration. -/
theorem exists_config (h : (files.toDirectory.ini key).isSome) :
    ∃ config file, files.config key = some config ∧ config.WellFormed ∧ Config.ofIni config = some file ∧
      files.toDirectory.ini key = some file := by
  obtain ⟨file, hfile⟩ := Option.isSome_iff_exists.mp h
  obtain ⟨content, hcontent, hrest⟩ := Option.bind_eq_some_iff.mp hfile
  obtain ⟨config, hread, hofIni⟩ := Option.bind_eq_some_iff.mp hrest
  refine ⟨config, file, ?_, Ini.wellFormed_of_read hread, hofIni, hfile⟩
  rw [Files.config, hcontent]
  exact hread

theorem toDirectory_createUnlock (files : Files) (key : Nat) :
    (files.createUnlock key).toDirectory = files.toDirectory.createUnlock key := by
  unfold createUnlock Directory.createUnlock
  split_ifs with h1 h2 h2
  · rfl
  · exact absurd h1 h2
  · exact absurd h2 h1
  · rfl

theorem toDirectory_renameUnlock (files : Files) (key : Nat) :
    (files.renameUnlock key).map toDirectory = files.toDirectory.renameUnlock key := by
  unfold renameUnlock Directory.renameUnlock
  split_ifs with h1 h2 h2
  · rfl
  · exact absurd h1 h2
  · exact absurd h2 h1
  · rfl

/-- What is written is read again. -/
theorem toDirectory_writeConfig {config : Ini.Config} {file : Config} (hwf : config.WellFormed)
    (hfile : Config.ofIni config = some file) (files : Files) (key : Nat) :
    (files.writeConfig key config).toDirectory = files.toDirectory.writeConfig key file := by
  unfold writeConfig toDirectory Directory.writeConfig
  dsimp only
  refine congrArg (fun ini => Directory.mk ini _ _ _) (funext fun key' => ?_)
  by_cases hkey : key' = key
  · subst hkey
    rw [Function.update_self, Function.update_self]
    change (Ini.read config.write).bind Config.ofIni = _
    rw [Ini.read_write hwf, Option.bind_some, hfile]
  · rw [Function.update_of_ne hkey, Function.update_of_ne hkey]

/-- The first loop on the texts does what it does on what they say. -/
theorem markChanged_toDirectory (entries : List (Nat × List Nat)) (newTaskFlag : Bool) (files : Files) :
    (markChanged entries newTaskFlag files).map id toDirectory =
      Node.markChanged entries newTaskFlag files.toDirectory := by
  induction entries generalizing newTaskFlag files with
  | nil => rfl
  | cons entry entries ih =>
    obtain ⟨key, queue⟩ := entry
    have hini := toDirectory_ini files key
    rw [markChanged, Node.markChanged]
    cases hkey : (files.config key).bind (·.get queueSection queueKeyOption) with
    | none =>
      rw [hkey, Option.map_none, Option.map_eq_none_iff] at hini
      rw [hini]
      rfl
    | some queueKey =>
      rw [hkey, Option.map_some] at hini
      obtain ⟨file, hfile, hqueueKey⟩ := Option.map_eq_some_iff.mp hini
      rw [hfile]
      dsimp only
      have hsame : queueKey = strKeys queue ↔ file.queueKey = strList queue := by
        rw [hqueueKey, ← encode_strKeys]
        exact ⟨congrArg encode, encode_injective⟩
      by_cases heq : queueKey = strKeys queue
      · rw [if_pos heq, if_pos (hsame.mp heq)]
        exact ih newTaskFlag files
      · rw [if_neg heq, if_neg (mt hsame.mpr heq), ← toDirectory_createUnlock]
        exact ih true (files.createUnlock key)

/-- So does the second loop. -/
theorem writeKeys_toDirectory (hini : ∀ e ∈ entries, (files.toDirectory.ini e.1).isSome) :
    (writeKeys entries files).map id toDirectory = Node.writeKeys entries files.toDirectory := by
  induction entries generalizing files with
  | nil => rfl
  | cons entry entries ih =>
    obtain ⟨key, queue⟩ := entry
    obtain ⟨config, file, hconfig, hwf, hofIni, hfile⟩ := exists_config (hini (key, queue) (List.mem_cons_self ..))
    have hget : (config.get queueSection queueKeyOption).isSome := by
      obtain ⟨value, hvalue, -⟩ := Option.bind_eq_some_iff.mp hofIni
      exact Option.isSome_of_eq_some hvalue
    obtain ⟨config', hset⟩ := set_of_get hget queue
    have hrename := toDirectory_renameUnlock files key
    rw [writeKeys, Node.writeKeys, hconfig, ← hrename]
    dsimp only
    cases hunlock : files.renameUnlock key with
    | none => rfl
    | some files₁ =>
      have hsame : files₁.toDirectory.ini = files.toDirectory.ini := by
        unfold renameUnlock at hunlock
        split_ifs at hunlock
        rw [← Option.some.inj hunlock]
        rfl
      have hwf' := hwf.set hset (good_queueKey queue)
      have hwrite := toDirectory_writeConfig hwf' (ofIni_set hwf hofIni hset) files₁ key
      rw [Option.map_some]
      dsimp only
      rw [hset, hsame, hfile]
      dsimp only
      rw [← hwrite]
      refine ih fun e he => ?_
      rw [hwrite]
      change (Function.update files₁.toDirectory.ini key _ e.1).isSome
      by_cases hkey : e.1 = key
      · rw [hkey, Function.update_self]
        rfl
      · rw [Function.update_of_ne hkey, hsame]
        exact hini e (List.mem_cons_of_mem _ he)

end Files

/-- `write2file` on the texts does what `write2file` does on what they say. -/
theorem write2file_toDirectory [Ini.StrLower] (received : Deployment) (files : Files) :
    (files.write2file received).map id Files.toDirectory = write2file received files.toDirectory := by
  have hmark := Files.markChanged_toDirectory received.entries false files
  unfold Files.write2file write2file
  rcases hfiles : Files.markChanged received.entries false files with ⟨flag, files₁⟩
  rw [hfiles] at hmark
  rw [← hmark]
  match flag with
  | none => rfl
  | some false => rfl
  | some true =>
    have hini : ∀ e ∈ received.entries, (files₁.toDirectory.ini e.1).isSome := by
      have hsome := markChanged_isSome hmark.symm
      obtain ⟨dir', hdir, hmarked⟩ := markChanged_marked false hsome
      rw [← hmark] at hdir
      rw [← show files₁.toDirectory = dir' from (Prod.mk.inj hdir).2] at hmarked
      rw [hmarked.ini]
      exact hsome
    have hwrite := Files.writeKeys_toDirectory hini
    rcases hkeys : Files.writeKeys received.entries files₁ with ⟨outcome, files₂⟩
    rw [hkeys] at hwrite
    dsimp only [Prod.map, id]
    rw [hkeys, ← hwrite]
    cases outcome <;> rfl

/-- A sensor with the key 1 and no queue keys. -/
def emptyQueue : Files where
  ini key :=
    if key = 1 then
      some (['['] ++ queueSection ++ [']', '\n'] ++ queueKeyOption ++ [' ', '=', ' ', '[', ']', '\n'])
    else none
  lock _ := false
  unlock _ := false
  json := []

theorem nodup_firstTask : ([(1, [10202])].map (Prod.fst : Nat × List Nat → Nat)).Nodup := by decide

def firstTask : Deployment := ⟨[(1, [10202])], nodup_firstTask⟩

/-- The first task of a sensor without tasks. -/
theorem write2file_toDirectory_firstTask :
    (@Files.write2file Ini.asciiLower emptyQueue firstTask).1 = .returned ∧
      (@Files.write2file Ini.asciiLower emptyQueue firstTask).map id (@Files.toDirectory Ini.asciiLower) =
        write2file firstTask (@Files.toDirectory Ini.asciiLower emptyQueue) :=
  ⟨by decide +kernel, @write2file_toDirectory Ini.asciiLower firstTask emptyQueue⟩

end Soar.Node
