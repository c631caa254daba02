import Mathlib.Data.List.Nodup
import Soar.Library.IniFormat

/-! What the reader of ini files accepts is well formed: the values that a configuration can have. -/
namespace Soar.Library.Ini
open Soar.Library.Text

namespace Dict
variable {α β : Type}

/-- A dictionary whose entries satisfy `P`. -/
def Each (P : List Char → α → Prop) (d : Dict α) : Prop := d.names.Nodup ∧ ∀ e ∈ d, P e.1 e.2

variable {P : List Char → α → Prop} {Q : List Char → β → Prop} {d : Dict α} {name : List Char}

@[simp] theorem names_modify (d : Dict α) (name : List Char) (f : α → α) : (d.modify name f).names = d.names := by
  unfold names modify
  rw [List.map_map]
  refine List.map_congr_left fun e _ => ?_
  rw [Function.comp_apply]
  split_ifs <;> rfl

@[simp] theorem names_mapValues (f : α → β) (d : Dict α) : (d.mapValues f).names = d.names := by
  unfold names mapValues
  rw [List.map_map]
  rfl

@[simp] theorem names_append (d d' : Dict α) : names (d ++ d') = d.names ++ d'.names := List.map_append

theorem Each.nil : Each P [] := ⟨List.nodup_nil, nofun⟩

theorem Each.modify {f : α → α} (h : d.Each P) (hf : ∀ a, (name, a) ∈ d → P name a → P name (f a)) :
    (d.modify name f).Each P := by
  refine ⟨by rw [names_modify]; exact h.1, fun e he => ?_⟩
  obtain ⟨e, hmem, rfl⟩ := List.mem_map.mp he
  split_ifs with hname
  · subst hname
    exact hf e.2 hmem (h.2 e hmem)
  · exact h.2 e hmem

theorem Each.concat {a : α} (h : d.Each P) (hname : name ∉ d.names) (ha : P name a) : Each P (d ++ [(name, a)]) := by
  refine ⟨?_, fun e he => ?_⟩
  · rw [names_append, List.nodup_append]
    refine ⟨h.1, List.nodup_singleton _, fun n hn m hm hnm => hname ?_⟩
    obtain rfl := List.mem_singleton.mp hm
    exact hnm ▸ hn
  · rcases List.mem_append.mp he with he | he
    · exact h.2 e he
    · rw [List.mem_singleton.mp he]
      exact ha

theorem Each.mapValues {f : α → β} (h : d.Each P) (hf : ∀ n a, P n a → Q n (f a)) : (d.mapValues f).Each Q := by
  refine ⟨by rw [names_mapValues]; exact h.1, fun e he => ?_⟩
  obtain ⟨e, hmem, rfl⟩ := List.mem_map.mp he
  exact hf e.1 e.2 (h.2 e hmem)

end Dict

section LowerCase

theorem toLower_eq_or (c : Char) :
    c.toLower = c ∨ (65 ≤ c.toNat ∧ c.toNat ≤ 90) ∧ 97 ≤ c.toLower.toNat ∧ c.toLower.toNat ≤ 122 := by
  unfold Char.toLower
  split_ifs with h
  · have h1 := UInt32.le_iff_toNat_le.mp h.1
    have h2 := UInt32.le_iff_toNat_le.mp h.2
    have hc : c.toNat = c.val.toNat := rfl
    have hadd : (c.val + ('a'.val - 'A'.val)).toNat = c.val.toNat + 32 := by
      rw [UInt32.toNat_add]
      change (c.val.toNat + 32) % 2 ^ 32 = c.val.toNat + 32
      change c.val.toNat ≤ 90 at h2
      omega
    change 65 ≤ c.val.toNat at h1
    change c.val.toNat ≤ 90 at h2
    refine .inr ⟨⟨by omega, by omega⟩, ?_⟩
    change 97 ≤ (c.val + ('a'.val - 'A'.val)).toNat ∧ (c.val + ('a'.val - 'A'.val)).toNat ≤ 122
    omega
  · exact .inl rfl

/-- What is no letter comes from itself only. -/
theorem toLower_eq_iff {c d : Char} (hd : Uncased d) : c.toLower = d ↔ c = d := by
  unfold Uncased at hd
  rcases toLower_eq_or c with h | ⟨h1, h2⟩
  · rw [h]
  · constructor
    · rintro rfl
      omega
    · rintro rfl
      omega

theorem toLower_toLower (c : Char) : c.toLower.toLower = c.toLower := by
  rcases toLower_eq_or c.toLower with h | ⟨h1, h2⟩
  · exact h
  · rcases toLower_eq_or c with h | ⟨h3, h4⟩
    · rw [h, h]
    · omega

private theorem isspace_eq_false {c : Char} (h : 33 ≤ c.toNat ∧ c.toNat ≤ 122) : isspace c = false := by
  unfold isspace
  simp only [Bool.or_eq_false_iff, Bool.and_eq_false_iff, decide_eq_false_iff_not, beq_eq_false_iff_ne]
  omega

theorem isspace_toLower (c : Char) : isspace c.toLower = isspace c := by
  rcases toLower_eq_or c with h | ⟨h1, h2⟩
  · rw [h]
  · rw [isspace_eq_false (by omega), isspace_eq_false (by omega)]

private theorem lstrip_map_toLower (text : List Char) :
    lstrip (text.map Char.toLower) = (lstrip text).map Char.toLower := by
  unfold lstrip
  rw [List.dropWhile_map, show isspace ∘ Char.toLower = isspace from funext isspace_toLower]

/-- For texts in ASCII. -/
@[reducible] def asciiLower : StrLower where
  lower text := text.map Char.toLower
  ascii _ := rfl
  lower_lower text := by
    rw [List.map_map]
    exact List.map_congr_left fun c _ => toLower_toLower c
  eq_nil := List.map_eq_nil_iff.mp
  cons hc := by
    rw [List.map_cons, (toLower_eq_iff hc).mpr rfl]
  head? {c text} hc hhead := by
    cases text with
    | nil => cases hhead
    | cons d text => rw [List.head?_cons, (toLower_eq_iff hc).mp (Option.some.inj hhead)]
  mem {c text} hc hmem := by
    obtain ⟨d, hd, hlower⟩ := List.mem_map.mp hmem
    rwa [(toLower_eq_iff hc).mp hlower] at hd
  lstrip := lstrip_map_toLower
  rstrip text := by
    unfold rstrip List.rdropWhile
    have h := lstrip_map_toLower text.reverse
    unfold lstrip at h
    rw [← List.map_reverse, h, List.map_reverse]

end LowerCase

section Names

variable [StrLower] {name : List Char} {c : Char}

theorem optionxform_of_ascii (h : name.all (·.toNat < 128)) : optionxform name = name.map Char.toLower :=
  StrLower.ascii h

@[simp] theorem optionxform_optionxform (name : List Char) : optionxform (optionxform name) = optionxform name :=
  StrLower.lower_lower name

theorem optionxform_ne_nil (h : name ≠ []) : optionxform name ≠ [] := mt StrLower.eq_nil h

theorem optionxform_cons (hc : Uncased c) (name : List Char) : optionxform (c :: name) = c :: optionxform name :=
  StrLower.cons hc

theorem mem_of_mem_optionxform (hc : Uncased c) (h : c ∈ optionxform name) : c ∈ name := StrLower.mem hc h

theorem head?_optionxform (hc : Uncased c) : (optionxform name).head? = some c ↔ name.head? = some c := by
  refine ⟨StrLower.head? hc, fun h => ?_⟩
  obtain ⟨rest, rfl⟩ := List.head?_eq_some_iff.mp h
  rw [optionxform_cons hc]
  rfl

theorem lstrip_optionxform (name : List Char) : lstrip (optionxform name) = optionxform (lstrip name) :=
  StrLower.lstrip name

theorem rstrip_optionxform (name : List Char) : rstrip (optionxform name) = optionxform (rstrip name) :=
  StrLower.rstrip name

theorem isDelimiter_of_mem_optionxform (h : ∀ c ∈ name, isDelimiter c = false) :
    ∀ c ∈ optionxform name, isDelimiter c = false := by
  intro c hc
  by_contra hdelimiter
  have hcases : c = '=' ∨ c = ':' := by
    simpa [isDelimiter, or_iff_not_imp_left] using hdelimiter
  have huncased : Uncased c := by rcases hcases with rfl | rfl <;> exact .inl (by decide)
  exact hdelimiter (h c (mem_of_mem_optionxform huncased hc))

end Names

/-- A text within one line. -/
structure InLine (text : List Char) : Prop where
  stripped : strip text = text
  newline : '\n' ∉ text
  ret : '\r' ∉ text

structure SectionName (name : List Char) : Prop where
  ne_nil : name ≠ []
  bracket : ']' ∉ name
  newline : '\n' ∉ name
  ret : '\r' ∉ name

/-- The first line of an option, before it is stripped. -/
def optionLine (name value : List Char) : List Char := name ++ [' ', '=', ' '] ++ value

/-- An option with the lines of its value. -/
structure OptionLines [StrLower] (name : List Char) (value : List (List Char)) : Prop where
  ne_nil : name ≠ []
  line : InLine name
  lower : optionxform name = name
  delimiter : ∀ c ∈ name, isDelimiter c = false
  comment : isComment name = false
  header : header? (strip (optionLine name (value.headD []))) = none
  value_ne_nil : value ≠ []
  lines : ∀ l ∈ value, InLine l
  comments : ∀ l ∈ value.tail, isComment l = false

/-- An option with its value. -/
structure Good [StrLower] (name value : List Char) : Prop where
  lines : OptionLines name (value.splitOn '\n')
  stripped : rstrip value = value

structure Config.WellFormed [StrLower] (config : Config) : Prop where
  defaults : config.defaults.Each Good
  sections : config.sections.Each fun name options => SectionName name ∧ name ≠ defaultSection ∧ options.Each Good

structure Reading.WellFormed [StrLower] (st : Reading) : Prop where
  defaults : st.defaults.Each OptionLines
  sections : st.sections.Each fun name options =>
    SectionName name ∧ name ≠ defaultSection ∧ options.Each OptionLines

section Header

private theorem ne_of_not_mem {text : List Char} {d : Char} (h : d ∉ text) :
    ∀ c ∈ text, decide (c ≠ d) = true := fun _ hc => decide_eq_true fun hcd => h (hcd ▸ hc)

theorem header?_of_head {line : List Char} (h : line.head? ≠ some '[') : header? line = none := by
  unfold header?
  split
  · exact absurd rfl h
  · rfl

theorem header?_eq_none_iff {rest : List Char} :
    header? ('[' :: rest) = none ↔ rest.head? = some ']' ∨ ']' ∉ rest := by
  have hlength : (rest.takeWhile (· ≠ ']')).length = rest.length ↔ ']' ∉ rest := by
    constructor
    · intro hlen hmem
      rw [← (List.takeWhile_prefix _).eq_of_length hlen] at hmem
      exact absurd (List.mem_takeWhile_imp hmem) (by decide)
    · intro hmem
      rw [List.takeWhile_eq_self_iff.mpr (ne_of_not_mem hmem)]
  have hnil : rest.takeWhile (· ≠ ']') = [] ↔ rest = [] ∨ rest.head? = some ']' := by
    cases rest with
    | nil => simp
    | cons c rest => by_cases hc : c = ']' <;> simp [hc]
  change (if rest.takeWhile (· ≠ ']') = [] ∨ _ then none else some (rest.takeWhile (· ≠ ']'))) = none ↔ _
  rw [ite_eq_left_iff]
  refine Iff.trans ?_ or_iff_not_imp_left.symm
  constructor
  · intro h hhead
    by_contra hmem
    refine absurd (h ?_) (by simp)
    rintro (h1 | h1)
    · rcases hnil.mp h1 with rfl | h1
      · cases hmem
      · exact hhead h1
    · exact hlength.mp h1 hmem
  · intro h hnot
    refine absurd ?_ hnot
    by_cases hhead : rest.head? = some ']'
    · exact .inl (hnil.mpr (.inr hhead))
    · exact .inr (hlength.mpr (h hhead))

/-- The name in a header is one that can be written. -/
theorem header?_sectionName {line name : List Char} (hline : InLine line) (h : header? line = some name) :
    SectionName name := by
  unfold header? at h
  split at h
  · next rest =>
    dsimp only at h
    split_ifs at h with hname
    obtain rfl := Option.some.inj h
    have hsubset : ∀ c, c ∈ rest.takeWhile (· ≠ ']') → c ∈ '[' :: rest := fun c hc =>
      List.mem_cons_of_mem _ ((List.takeWhile_prefix _).subset hc)
    exact {
      ne_nil := fun hnil => hname (.inl hnil)
      bracket := fun hmem => absurd (List.mem_takeWhile_imp hmem) (by decide)
      newline := fun hmem => hline.newline (hsubset _ hmem)
      ret := fun hmem => hline.ret (hsubset _ hmem) }
  · cases h

/-- A header as it is written is read again. -/
theorem header?_write {name : List Char} (h : SectionName name) : header? ('[' :: (name ++ [']'])) = some name := by
  have htake : (name ++ [']']).takeWhile (· ≠ ']') = name := by
    rw [List.takeWhile_append_of_pos (ne_of_not_mem h.bracket)]
    exact List.append_nil _
  change (if (name ++ [']']).takeWhile (· ≠ ']') = [] ∨ _ then none
    else some ((name ++ [']']).takeWhile (· ≠ ']'))) = some name
  rw [htake, if_neg]
  rintro (hnil | hlen)
  · exact h.ne_nil hnil
  · rw [List.length_append, List.length_singleton] at hlen
    omega

end Header

section OptionLine

variable {name value : List Char}

theorem InLine.lstrip (h : InLine value) : lstrip value = value := (strip_eq_self_iff.mp h.stripped).1

theorem InLine.rstrip (h : InLine value) : rstrip value = value := (strip_eq_self_iff.mp h.stripped).2

theorem InLine.head {c : Char} (h : InLine (c :: value)) : isspace c = false := lstrip_head h.lstrip

/-- An option line as it is written, stripped. -/
theorem strip_optionLine (hne : name ≠ []) (hname : InLine name) (hvalue : InLine value) {space : List Char}
    (hspace : ∀ c ∈ space, isspace c = true) :
    strip (optionLine name value ++ space) = name ++ [' ', '='] ++ if value = [] then [] else ' ' :: value := by
  have hl : lstrip (optionLine name value ++ space) = optionLine name value ++ space := by
    unfold optionLine
    rw [List.append_assoc, List.append_assoc, lstrip_append_of_ne_nil (by rwa [hname.lstrip]), hname.lstrip]
  rw [strip, hl, rstrip_append_space _ hspace]
  split_ifs with hnil
  · rw [hnil]
    unfold optionLine
    rw [List.append_nil, List.append_nil, show [' ', '=', ' '] = [' ', '='] ++ [' '] from rfl, ← List.append_assoc,
      rstrip_append_space _ (List.all_eq_true.mp rfl), rstrip_append_of_ne_nil _ (by decide)]
    rfl
  · unfold optionLine
    rw [rstrip_append_of_ne_nil _ (by rwa [hvalue.rstrip]), hvalue.rstrip, List.append_assoc, List.append_assoc]
    rfl

private theorem option?_eq_some [StrLower] {line : List Char} (h : option? line = some (name, value)) :
    ∃ key space d rest, line = key ++ (space ++ d :: rest) ∧ (∀ c ∈ space, isspace c = true) ∧
      isDelimiter d = true ∧ key ≠ [] ∧ rstrip key = key ∧ (∀ c ∈ key, isDelimiter c = false) ∧
      name = optionxform key ∧ value = strip rest := by
  unfold option? at h
  split at h
  · cases h
  · next d rest hdrop =>
    dsimp only at h
    split_ifs at h with hne
    obtain ⟨rfl, rfl⟩ := Prod.mk.inj (Option.some.inj h)
    obtain ⟨space, hspace, hkey⟩ := rstrip_append (line.takeWhile (! isDelimiter ·))
    have hd : isDelimiter d = true := by
      have hhead := List.head?_dropWhile_not (! isDelimiter ·) line
      rw [hdrop] at hhead
      simpa using hhead
    refine ⟨_, space, d, rest, ?_, hspace, hd, hne, rstrip_rstrip _, fun c hc => ?_, rfl, rfl⟩
    · rw [← List.append_assoc, ← hkey, ← hdrop, List.takeWhile_append_dropWhile]
    · simpa using List.mem_takeWhile_imp ((rstrip_initial _).subset hc)

private theorem header?_optionLine [StrLower] {line key space rest : List Char} {d : Char}
    (hline : line = key ++ (space ++ d :: rest)) (hspace : ∀ c ∈ space, isspace c = true) (hd : isDelimiter d = true)
    (hheader : header? line = none) (hne : key ≠ []) (hkey : InLine (optionxform key)) (hrest : InLine (strip rest)) :
    header? (strip (optionLine (optionxform key) (strip rest))) = none := by
  have hne' : optionxform key ≠ [] := optionxform_ne_nil hne
  have hwritten := strip_optionLine hne' hkey hrest (fun _ hc => absurd hc List.not_mem_nil)
  rw [List.append_nil] at hwritten
  rw [hwritten]
  obtain ⟨c, key, rfl⟩ := List.exists_cons_of_ne_nil hne
  by_cases hc : c = '['
  · subst hc
    subst hline
    rw [optionxform_cons (.inr (by decide))]
    refine header?_eq_none_iff.mpr ?_
    rcases header?_eq_none_iff.mp hheader with hhead | hmem
    · cases key with
      | nil =>
        -- white space or a delimiter follows the name
        exfalso
        cases space with
        | nil =>
          obtain rfl := Option.some.inj hhead
          exact absurd hd (by decide)
        | cons e space =>
          obtain rfl := Option.some.inj hhead
          exact absurd (hspace _ (List.mem_cons_self ..)) (by decide)
      | cons e key =>
        obtain rfl := Option.some.inj hhead
        rw [optionxform_cons (.inr (by decide))]
        exact .inl rfl
    · refine .inr fun hmem' => hmem ?_
      rcases List.mem_append.mp hmem' with hmem' | hmem'
      · rcases List.mem_append.mp hmem' with hmem' | hmem'
        · exact List.mem_append_left _ (mem_of_mem_optionxform (.inr (by decide)) hmem')
        · exact absurd hmem' (by decide)
      · split_ifs at hmem' with hnil
        · cases hmem'
        · have hstrip := (List.mem_cons.mp hmem').resolve_left (by decide)
          exact List.mem_append_right _ (List.mem_append_right _ (List.mem_cons_of_mem _ (mem_of_mem_strip hstrip)))
  · refine header?_of_head fun hhead => hc ?_
    rw [List.append_assoc, List.head?_append_of_ne_nil _ hne', head?_optionxform (.inr (by decide))] at hhead
    exact Option.some.inj hhead

/-- What is read as an option can be written. -/
theorem option?_optionLines [StrLower] {line : List Char} (hline : InLine line) (hcomment : isComment line = false)
    (hheader : header? line = none) (h : option? line = some (name, value)) : OptionLines name [value] := by
  obtain ⟨key, space, d, rest, hkey, hspace, hd, hne, hrstrip, hdelimiter, rfl, rfl⟩ := option?_eq_some h
  have hsubset : ∀ {c}, c ∈ key → c ∈ line := fun hc => hkey ▸ List.mem_append_left _ hc
  have hhead : key.head? = line.head? := by
    rw [hkey, List.head?_append_of_ne_nil _ hne]
  have hlstrip : lstrip key = key := by
    obtain ⟨c, key, rfl⟩ := List.exists_cons_of_ne_nil hne
    rw [hkey] at hline
    exact lstrip_eq_self hline.head _
  have hname : InLine (optionxform key) := {
    stripped := by rw [strip, lstrip_optionxform, rstrip_optionxform, hlstrip, hrstrip]
    newline := fun hmem => hline.newline (hsubset (mem_of_mem_optionxform (.inl (by decide)) hmem))
    ret := fun hmem => hline.ret (hsubset (mem_of_mem_optionxform (.inl (by decide)) hmem)) }
  have hrest : ∀ {c}, c ∈ strip rest → c ∈ line := fun hc => by
    rw [hkey]
    exact List.mem_append_right _ (List.mem_append_right _ (List.mem_cons_of_mem _ (mem_of_mem_strip hc)))
  have hvalue : InLine (strip rest) :=
    ⟨strip_strip rest, fun hmem => hline.newline (hrest hmem), fun hmem => hline.ret (hrest hmem)⟩
  exact {
    ne_nil := optionxform_ne_nil hne
    line := hname
    lower := optionxform_optionxform key
    delimiter := isDelimiter_of_mem_optionxform hdelimiter
    comment := by
      unfold isComment at hcomment ⊢
      rw [← hhead] at hcomment
      rw [← hcomment, decide_eq_decide.mpr (head?_optionxform (.inl (by decide))),
        decide_eq_decide.mpr (head?_optionxform (.inl (by decide)))]
    header := header?_optionLine hkey hspace hd hheader hne hname hvalue
    value_ne_nil := List.cons_ne_nil _ _
    lines := fun l hl => List.mem_singleton.mp hl ▸ hvalue
    comments := fun _ hl => absurd hl List.not_mem_nil }

end OptionLine

section Join

variable {name : List Char} {value : List (List Char)} {l : List Char}

/-- A line more of the value. -/
theorem OptionLines.concat [StrLower] (h : OptionLines name value) (hl : InLine l) (hcomment : isComment l = false) :
    OptionLines name (value ++ [l]) := by
  obtain ⟨first, rest, rfl⟩ := List.exists_cons_of_ne_nil h.value_ne_nil
  refine { h with value_ne_nil := List.cons_ne_nil _ _, lines := fun l' hl' => ?_, comments := fun l' hl' => ?_ }
  · rcases List.mem_append.mp hl' with hl' | hl'
    · exact h.lines l' hl'
    · exact List.mem_singleton.mp hl' ▸ hl
  · rcases List.mem_append.mp hl' with hl' | hl'
    · exact h.comments l' hl'
    · exact List.mem_singleton.mp hl' ▸ hcomment

theorem OptionLines.of_concat [StrLower] (h : OptionLines name (value ++ [l])) (hne : value ≠ []) :
    OptionLines name value := by
  obtain ⟨first, rest, rfl⟩ := List.exists_cons_of_ne_nil hne
  exact { h with
    value_ne_nil := List.cons_ne_nil _ _
    lines := fun l' hl' => h.lines l' (List.mem_append_left _ hl')
    comments := fun l' hl' => h.comments l' (List.mem_append_left _ hl') }

theorem intercalate_concat (hne : value ≠ []) (l : List Char) :
    List.intercalate ['\n'] (value ++ [l]) = List.intercalate ['\n'] value ++ '\n' :: l := by
  induction value with
  | nil => exact absurd rfl hne
  | cons first value ih =>
    cases value with
    | nil =>
      rw [List.singleton_append, List.intercalate_cons_cons, List.intercalate_singleton, List.intercalate_singleton,
        List.append_assoc]
      rfl
    | cons second value =>
      rw [List.cons_append, List.cons_append, List.intercalate_cons_cons, ← List.cons_append, ih (List.cons_ne_nil _ _),
        List.intercalate_cons_cons, List.append_assoc, List.append_assoc, List.append_assoc]

/-- An empty line at the end of a value is dropped. -/
theorem joinLines_concat_nil (value : List (List Char)) : joinLines (value ++ [[]]) = joinLines value := by
  unfold joinLines
  by_cases hne : value = []
  · rw [hne]
    rfl
  · rw [intercalate_concat hne, rstrip_append_space _ (List.all_eq_true.mp rfl)]

/-- The lines of a value are those that were read, up to empty ones at its end. -/
theorem OptionLines.good [StrLower] (h : OptionLines name value) : Good name (joinLines value) := by
  induction value using List.reverseRecOn with
  | nil => exact absurd rfl h.value_ne_nil
  | append_singleton value l ih =>
    have hl := h.lines l (by simp)
    by_cases hnil : l = []
    · subst hnil
      by_cases hne : value = []
      · subst hne
        exact ⟨h, rfl⟩
      · rw [joinLines_concat_nil]
        exact ih (h.of_concat hne)
    · have hjoin : joinLines (value ++ [l]) = List.intercalate ['\n'] (value ++ [l]) := by
        unfold joinLines
        by_cases hne : value = []
        · subst hne
          rw [List.nil_append, List.intercalate_singleton]
          exact hl.rstrip
        · rw [intercalate_concat hne, List.append_cons, rstrip_append_of_ne_nil _ (by rwa [hl.rstrip]), hl.rstrip]
      have hsplit : (joinLines (value ++ [l])).splitOn '\n' = value ++ [l] := by
        rw [hjoin, List.splitOn_intercalate _ (fun l' hl' => (h.lines l' hl').newline) h.value_ne_nil]
      exact ⟨by rw [hsplit]; exact h, rstrip_rstrip _⟩

end Join

namespace Reading

variable [StrLower] {st st' : Reading} {line : List Char}

theorem WellFormed.options (h : st.WellFormed) : st.options.Each OptionLines := by
  unfold Reading.options
  cases st.cursect with
  | none => exact .nil
  | some sectname =>
    dsimp only
    split_ifs with hdefault
    · exact h.defaults
    · cases hlookup : st.sections.lookup sectname with
      | none => exact .nil
      | some options =>
        obtain ⟨l₁, l₂, hsections, -⟩ := List.lookup_eq_some_iff.mp hlookup
        have hmem : (sectname, options) ∈ st.sections := hsections ▸ List.mem_append_right _ (List.mem_cons_self ..)
        exact (h.sections.2 _ hmem).2.2

theorem WellFormed.setOptions (h : st.WellFormed) {options : Dict (List (List Char))}
    (hoptions : options.Each OptionLines) : (st.setOptions options).WellFormed := by
  unfold Reading.setOptions
  cases st.cursect with
  | none => exact h
  | some sectname =>
    dsimp only
    split_ifs with hdefault
    · exact ⟨hoptions, h.sections⟩
    · exact ⟨h.defaults, h.sections.modify fun _ _ hsection => ⟨hsection.1, hsection.2.1, hoptions⟩⟩

theorem WellFormed.append (h : st.WellFormed) {value : List Char} (hvalue : InLine value)
    (hcomment : isComment value = false) : (st.append value).WellFormed := by
  unfold Reading.append
  cases st.optname with
  | none => exact h
  | some optname =>
    exact h.setOptions (h.options.modify fun _ _ hlines => hlines.concat hvalue hcomment)

theorem WellFormed.readHeader (h : st.WellFormed) {sectname : List Char} (hname : SectionName sectname) {indent : Nat}
    (hread : st.readHeader sectname indent = some st') : st'.WellFormed := by
  unfold Reading.readHeader at hread
  split_ifs at hread with hdefault hnew
  · rw [← Option.some.inj hread]
    exact ⟨h.defaults, h.sections⟩
  · rw [← Option.some.inj hread]
    exact ⟨h.defaults, h.sections.concat hnew ⟨hname, hdefault, .nil⟩⟩

/-- Reading an option keeps the reading well-formed. -/
theorem WellFormed.readOption (h : st.WellFormed) {value : List Char} (hvalue : InLine value)
    (hcomment : isComment value = false) (hheader : header? value = none) {indent : Nat}
    (hread : st.readOption value indent = some st') : st'.WellFormed := by
  unfold Reading.readOption at hread
  split_ifs at hread
  obtain ⟨⟨optname, optval⟩, hoption, hread⟩ := Option.bind_eq_some_iff.mp hread
  dsimp only at hread
  split_ifs at hread with hnew
  have hst := h.setOptions (h.options.concat hnew (option?_optionLines hvalue hcomment hheader hoption))
  rw [← Option.some.inj hread]
  exact ⟨hst.defaults, hst.sections⟩

/-- A line keeps what has been read well formed. -/
theorem WellFormed.readLine (h : st.WellFormed) (hline : InLine (strip line)) (hread : readLine st line = some st') :
    st'.WellFormed := by
  unfold Ini.readLine at hread
  dsimp only at hread
  split_ifs at hread with hcomment hnil hindent
  · exact Option.some.inj hread ▸ h
  · rw [← Option.some.inj hread]
    exact h.append ⟨rfl, List.not_mem_nil, List.not_mem_nil⟩ rfl
  · rw [← Option.some.inj hread]
    exact h.append hline (Bool.eq_false_iff.mpr hcomment)
  · cases hheader : header? (strip line) with
    | some sectname =>
      rw [hheader] at hread
      exact h.readHeader (header?_sectionName hline hheader) hread
    | none =>
      rw [hheader] at hread
      exact h.readOption hline (Bool.eq_false_iff.mpr hcomment) hheader hread

/-- So does reading any lines. -/
theorem WellFormed.readLines (h : st.WellFormed) {text : List (List Char)} (htext : ∀ l ∈ text, InLine (strip l))
    (hread : text.foldlM Ini.readLine st = some st') : st'.WellFormed := by
  induction text generalizing st with
  | nil => exact Option.some.inj hread ▸ h
  | cons l text ih =>
    obtain ⟨st₁, hfirst, hrest⟩ := Option.bind_eq_some_iff.mp hread
    exact ih (h.readLine (htext l (List.mem_cons_self ..)) hfirst)
      (fun l' hl' => htext l' (List.mem_cons_of_mem _ hl')) hrest

theorem WellFormed.joined (h : st.WellFormed) : st.joined.WellFormed :=
  ⟨h.defaults.mapValues fun _ _ hlines => hlines.good, h.sections.mapValues fun _ _ hsection =>
    ⟨hsection.1, hsection.2.1, hsection.2.2.mapValues fun _ _ hlines => hlines.good⟩⟩

end Reading

/-- What the reader accepts is well formed. -/
theorem wellFormed_of_read [StrLower] {content : List Char} {config : Config} (h : read content = some config) :
    config.WellFormed := by
  obtain ⟨st, hst, rfl⟩ := Option.map_eq_some_iff.mp h
  have hempty : Reading.WellFormed {} := ⟨.nil, .nil⟩
  refine (hempty.readLines (fun l hl => ?_) hst).joined
  exact ⟨strip_strip l, newline_not_mem_strip hl, fun hmem =>
    return_not_mem_universalNewlines content (mem_of_mem_lines hl (mem_of_mem_strip hmem))⟩

end Soar.Library.Ini
