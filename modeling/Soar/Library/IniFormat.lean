import Soar.Library.Text

/-! Ini files: how their text is read into sections with options, and how these are written. -/
namespace Soar.Library.Ini
open Soar.Library.Text

/-- A dictionary in the order of its entries. -/
abbrev Dict (α : Type) := List (List Char × α)

namespace Dict
variable {α β : Type}

def names (d : Dict α) : List (List Char) := d.map Prod.fst

/-- The entry `name` changed. -/
def modify (d : Dict α) (name : List Char) (f : α → α) : Dict α :=
  d.map fun e => if e.1 = name then (e.1, f e.2) else e

/-- The entry `name` replaced, or a new one. -/
def assign (d : Dict α) (name : List Char) (a : α) : Dict α :=
  if name ∈ d.names then d.modify name fun _ => a else d ++ [(name, a)]

def mapValues (f : α → β) (d : Dict α) : Dict β := d.map fun e => (e.1, f e.2)

end Dict

/-- What a parser knows: the options of the default section, and those of the others. -/
structure Config where
  defaults : Dict (List Char)
  sections : Dict (Dict (List Char))
deriving DecidableEq

def defaultSection : List Char := ['D', 'E', 'F', 'A', 'U', 'L', 'T']

/-- A character of ASCII in front of the small letters that is no letter. -/
def Uncased (c : Char) : Prop := c.toNat < 65 ∨ 90 < c.toNat ∧ c.toNat < 97

/-- `str.lower`. On ASCII it changes the letters; outside of it, only what reading a file rests on is said: that no other
character of ASCII comes, goes or has an influence, and no white space. -/
class StrLower where
  lower : List Char → List Char
  ascii : ∀ {text}, text.all (·.toNat < 128) → lower text = text.map Char.toLower
  lower_lower : ∀ text, lower (lower text) = lower text
  eq_nil : ∀ {text}, lower text = [] → text = []
  cons : ∀ {c text}, Uncased c → lower (c :: text) = c :: lower text
  head? : ∀ {c text}, Uncased c → (lower text).head? = some c → text.head? = some c
  mem : ∀ {c text}, Uncased c → c ∈ lower text → c ∈ text
  lstrip : ∀ text, lstrip (lower text) = lower (lstrip text)
  rstrip : ∀ text, rstrip (lower text) = lower (rstrip text)

/-- The names of options are in lower case. -/
def optionxform [StrLower] (name : List Char) : List Char := StrLower.lower name

def isDelimiter (c : Char) : Bool := c = '=' || c = ':'

def isComment (line : List Char) : Bool := line.head? = some '#' || line.head? = some ';'

/-- The name in a section header `[name]`, at the start of a stripped line. -/
def header? : List Char → Option (List Char)
  | '[' :: rest =>
    let name := rest.takeWhile (· ≠ ']')
    if name = [] ∨ name.length = rest.length then none else some name
  | _ => none

/-- The name and the value of a stripped option line, around its first delimiter. -/
def option? [StrLower] (line : List Char) : Option (List Char × List Char) :=
  match line.dropWhile (! isDelimiter ·) with
  | [] => none
  | _ :: value =>
    let name := rstrip (line.takeWhile (! isDelimiter ·))
    if name = [] then none else some (optionxform name, strip value)

/-- The state of the reader: values are lists of lines until the end. -/
structure Reading where
  defaults : Dict (List (List Char)) := []
  sections : Dict (Dict (List (List Char))) := []
  cursect : Option (List Char) := none
  optname : Option (List Char) := none
  indentLevel : Nat := 0

namespace Reading

/-- The options of the current section. -/
def options (st : Reading) : Dict (List (List Char)) :=
  match st.cursect with
  | none => []
  | some sectname =>
    if sectname = defaultSection then st.defaults else (st.sections.lookup sectname).getD []

def setOptions (st : Reading) (options : Dict (List (List Char))) : Reading :=
  match st.cursect with
  | none => st
  | some sectname =>
    if sectname = defaultSection then { st with defaults := options }
    else { st with sections := st.sections.modify sectname fun _ => options }

/-- A line more for the value of the current option. -/
def append (st : Reading) (value : List Char) : Reading :=
  match st.optname with
  | none => st
  | some optname => st.setOptions (st.options.modify optname (· ++ [value]))

/-- A section header; a section that is there already raises. -/
def readHeader (st : Reading) (sectname : List Char) (indent : Nat) : Option Reading :=
  if sectname = defaultSection then
    some { st with cursect := some sectname, optname := none, indentLevel := indent }
  else if sectname ∈ st.sections.names then none
  else some { st with
    sections := st.sections ++ [(sectname, [])], cursect := some sectname, optname := none, indentLevel := indent }

/-- An option line; it raises outside a section, without a name or a delimiter, and for a name that the section
has already. -/
def readOption [StrLower] (st : Reading) (value : List Char) (indent : Nat) : Option Reading :=
  if st.cursect = none then none
  else do
    let (optname, optval) ← option? value
    if optname ∈ st.options.names then none
    else some { st.setOptions (st.options ++ [(optname, [optval])]) with
      optname := some optname, indentLevel := indent }

end Reading

/-- A line of the file; `none` where the reader raises, at once or in the end. -/
def readLine [StrLower] (st : Reading) (line : List Char) : Option Reading :=
  let value := strip line
  let indent := (line.takeWhile isspace).length
  if isComment value then some st
  -- an empty line belongs to the value before it
  else if value = [] then some (st.append [])
  else if st.optname.isSome ∧ st.indentLevel < indent then some (st.append value)
  else
    match header? value with
    | some sectname => st.readHeader sectname indent
    | none => st.readOption value indent

/-- The value of an option from its lines. -/
def joinLines (value : List (List Char)) : List Char := rstrip (List.intercalate ['\n'] value)

/-- `_join_multiline_values`. -/
def Reading.joined (st : Reading) : Config :=
  { defaults := st.defaults.mapValues joinLines, sections := st.sections.mapValues (·.mapValues joinLines) }

/-- `_read` of a file with this content. -/
def read [StrLower] (content : List Char) : Option Config :=
  ((lines (universalNewlines content)).foldlM readLine {}).map Reading.joined

/-- `value.replace('\n', '\n\t')`. -/
def indentLines (value : List Char) : List Char := value.flatMap fun c => if c = '\n' then ['\n', '\t'] else [c]

def writeOption (option : List Char × List Char) : List Char :=
  option.1 ++ [' ', '=', ' '] ++ indentLines option.2 ++ ['\n']

def writeSection (s : List Char × Dict (List Char)) : List Char :=
  ['['] ++ s.1 ++ [']', '\n'] ++ s.2.flatMap writeOption ++ ['\n']

/-- `write`, with the spaces around delimiters. -/
def Config.write (config : Config) : List Char :=
  (if config.defaults = [] then [] else writeSection (defaultSection, config.defaults)) ++
    config.sections.flatMap writeSection

/-! Options by name. -/

/-- What `%` in a value stands for: itself, or the value of an option. -/
inductive Piece
  | char (c : Char)
  | reference (name : List Char)

/-- A value in pieces; the first argument is the part of a name `%(name)s` that has been read. -/
def pieces? [StrLower] : Option (List Char) → List Char → Option (List Piece)
  | none, [] => some []
  | none, '%' :: '%' :: rest => (pieces? none rest).map (.char '%' :: ·)
  | none, '%' :: '(' :: rest => pieces? (some []) rest
  | none, '%' :: _ => none
  | none, c :: rest => (pieces? none rest).map (.char c :: ·)
  | some _, [] => none
  | some name, ')' :: 's' :: rest =>
    if name = [] then none else (pieces? none rest).map (.reference (optionxform name) :: ·)
  | some _, ')' :: _ => none
  | some name, c :: rest => pieces? (some (name ++ [c])) rest

/-- `_interpolate_some`, from the depth that is left. -/
def interpolate [StrLower] (find : List Char → Option (List Char)) : Nat → List Char → Option (List Char)
  | 0, _ => none
  | depth + 1, value => do
    let texts ← (← pieces? none value).mapM fun
      | .char c => some [c]
      | .reference name => do
        let v ← find name
        if '%' ∈ v then interpolate find depth v else some v
    return texts.flatten

/-- `tmp_value.replace('%%', '')`. -/
def dropEscaped : List Char → List Char
  | '%' :: '%' :: rest => dropEscaped rest
  | c :: rest => c :: dropEscaped rest
  | [] => []

/-- Whether a `%` stays if references are removed; the first argument counts the characters of one to come. -/
def strayPercent : Nat → List Char → Bool
  | _, [] => false
  | skip + 1, _ :: rest => strayPercent skip rest
  | 0, c :: rest =>
    if c = '%' then
      let name := (rest.drop 1).takeWhile (· ≠ ')')
      if rest.head? = some '(' ∧ name ≠ [] ∧ (rest.drop (1 + name.length)).take 2 = [')', 's'] then
        strayPercent (name.length + 3) rest
      else true
    else strayPercent 0 rest

namespace Config

/-- The value as it stands in the section, or else in the default section. -/
def raw [StrLower] (config : Config) (sectname name : List Char) : Option (List Char) := do
  let options ← config.sections.lookup sectname
  (options.lookup (optionxform name)).or (config.defaults.lookup (optionxform name))

/-- `config[sectname][name]` for a section other than the default one. -/
def get [StrLower] (config : Config) (sectname name : List Char) : Option (List Char) := do
  interpolate (config.raw sectname) 10 (← config.raw sectname name)

/-- `config.set(sectname, name, value)` for a section other than the default one. -/
def set [StrLower] (config : Config) (sectname name value : List Char) : Option Config := do
  if strayPercent 0 (dropEscaped value) then none
  else
    let options ← config.sections.lookup sectname
    return { config with sections := config.sections.modify sectname fun _ => options.assign (optionxform name) value }

end Config

end Soar.Library.Ini
