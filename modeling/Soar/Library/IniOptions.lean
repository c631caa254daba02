import Soar.Library.IniRoundTrip

/-! Looking options up and setting them. -/
namespace Soar.Library.Ini
open Soar.Library.Text

namespace Dict
variable {α : Type} {d : Dict α} {name name' : List Char}

theorem lookup_isSome_iff : (List.lookup name d).isSome ↔ name ∈ d.names := by
  rw [List.lookup_isSome_iff]
  constructor
  · rintro ⟨e, he, hname⟩
    exact List.mem_map.mpr ⟨e, he, (beq_iff_eq.mp hname).symm⟩
  · intro h
    obtain ⟨e, he, hname⟩ := List.mem_map.mp h
    exact ⟨e, he, beq_iff_eq.mpr hname.symm⟩

theorem lookup_of_mem {e : List Char × α} (hnodup : d.names.Nodup) (h : e ∈ d) : List.lookup e.1 d = some e.2 := by
  induction d with
  | nil => cases h
  | cons e' d ih =>
    have hcons := List.nodup_cons.mp hnodup
    rw [List.lookup_cons]
    rcases List.mem_cons.mp h with rfl | h
    · rw [beq_self_eq_true]
    · rw [beq_eq_false_iff_ne.mpr fun hname : e.1 = e'.1 => hcons.1 (hname ▸ List.mem_map_of_mem h)]
      exact ih hcons.2 h

theorem lookup_modify_of_ne (h : name' ≠ name) (f : α → α) :
    List.lookup name' (d.modify name f) = List.lookup name' d := by
  induction d with
  | nil => rfl
  | cons e d ih =>
    unfold modify at ih ⊢
    rw [List.map_cons, List.lookup_cons, List.lookup_cons, ih]
    split_ifs with hname
    · rw [hname, beq_eq_false_iff_ne.mpr h]
    · rfl

theorem lookup_assign (d : Dict α) (name : List Char) (a : α) : List.lookup name (d.assign name a) = some a := by
  unfold assign
  split_ifs with h
  · exact lookup_modify h a
  · exact lookup_concat h a

theorem lookup_assign_of_ne (h : name' ≠ name) (a : α) :
    List.lookup name' (d.assign name a) = List.lookup name' d := by
  unfold assign
  split_ifs
  · exact lookup_modify_of_ne h _
  · rw [List.lookup_append, List.lookup_cons, beq_eq_false_iff_ne.mpr h]
    exact Option.or_none

theorem filter_modify (d : Dict α) (name : List Char) (f : α → α) :
    (d.modify name f).filter (fun e => e.1 ≠ name) = d.filter fun e => e.1 ≠ name := by
  unfold modify
  induction d with
  | nil => rfl
  | cons e d ih =>
    rw [List.map_cons, List.filter_cons, List.filter_cons, ih]
    split_ifs with h1 h2 h3 <;> simp_all

/-- The other entries stay. -/
theorem filter_assign (d : Dict α) (name : List Char) (a : α) :
    (d.assign name a).filter (fun e => e.1 ≠ name) = d.filter fun e => e.1 ≠ name := by
  unfold assign
  split_ifs
  · exact filter_modify d name _
  · rw [List.filter_append, List.filter_singleton]
    simp

theorem Each.assign {P : List Char → α → Prop} {a : α} (h : d.Each P) (ha : P name a) : (d.assign name a).Each P := by
  unfold Dict.assign
  split_ifs with hname
  · exact h.modify fun _ _ _ => ha
  · exact h.concat hname ha

end Dict

section Percent

variable {value : List Char}

private theorem pieces?_of_not_mem [StrLower] (h : '%' ∉ value) : pieces? none value = some (value.map .char) := by
  induction value with
  | nil => rfl
  | cons c value ih =>
    have hc : c ≠ '%' := fun hc => h (hc ▸ List.mem_cons_self ..)
    rw [pieces?, ih fun hmem => h (List.mem_cons_of_mem _ hmem)]
    · rfl
    · rintro _ rfl
      exact absurd rfl hc
    · rintro _ rfl
      exact absurd rfl hc
    · exact hc

private theorem mapM_char {f : Piece → Option (List Char)} (hf : ∀ c, f (.char c) = some [c]) (value : List Char) :
    (value.map Piece.char).mapM f = some (value.map fun c => [c]) := by
  induction value with
  | nil => rfl
  | cons c value ih =>
    rw [List.map_cons, List.mapM_cons, hf, ih]
    rfl

/-- A value without `%` stands for itself. -/
theorem interpolate_of_not_mem [StrLower] (find : List Char → Option (List Char)) (depth : Nat) (h : '%' ∉ value) :
    interpolate find (depth + 1) value = some value := by
  have hflatten : (value.map fun c => [c]).flatten = value := by
    induction value with
    | nil => rfl
    | cons c value ih =>
      rw [List.map_cons, List.flatten_cons, ih fun hmem => h (List.mem_cons_of_mem _ hmem)]
      rfl
  rw [interpolate, pieces?_of_not_mem h, Option.bind_eq_bind, Option.bind_some, mapM_char fun _ => rfl]
  exact congrArg some hflatten

theorem strayPercent_of_not_mem (h : '%' ∉ value) : strayPercent 0 (dropEscaped value) = false := by
  have hdrop : dropEscaped value = value := by
    induction value with
    | nil => rfl
    | cons c value ih =>
      rw [dropEscaped, ih fun hmem => h (List.mem_cons_of_mem _ hmem)]
      rintro _ rfl
      exact absurd (List.mem_cons_self ..) h
  rw [hdrop]
  clear hdrop
  induction value with
  | nil => rfl
  | cons c value ih =>
    rw [strayPercent, if_neg fun hc : c = '%' => h (hc ▸ List.mem_cons_self ..)]
    exact ih fun hmem => h (List.mem_cons_of_mem _ hmem)

end Percent

namespace Config
variable [StrLower] {config config' : Config} {sectname sectname' name name' value : List Char}

/-- A value without percent signs is set in a section that exists. -/
theorem set_eq_some (hvalue : '%' ∉ value) (hsect : (config.sections.lookup sectname).isSome) :
    ∃ config', config.set sectname name value = some config' := by
  obtain ⟨options, hoptions⟩ := Option.isSome_iff_exists.mp hsect
  refine ⟨{ config with
    sections := config.sections.modify sectname fun _ => options.assign (optionxform name) value }, ?_⟩
  rw [set, strayPercent_of_not_mem hvalue, if_neg Bool.false_ne_true, hoptions]
  rfl

theorem of_set (h : config.set sectname name value = some config') :
    ∃ options, config.sections.lookup sectname = some options ∧ config' =
      { config with sections := config.sections.modify sectname fun _ => options.assign (optionxform name) value } := by
  unfold set at h
  split_ifs at h
  obtain ⟨options, hoptions, h⟩ := Option.bind_eq_some_iff.mp h
  exact ⟨options, hoptions, (Option.some.inj h).symm⟩

/-- What is set is there. -/
theorem raw_set (h : config.set sectname name value = some config') : config'.raw sectname name = some value := by
  obtain ⟨options, hoptions, rfl⟩ := of_set h
  have hmem := Dict.lookup_isSome_iff.mp (Option.isSome_of_eq_some hoptions)
  rw [raw]
  dsimp only
  rw [Dict.lookup_modify hmem]
  change (List.lookup _ _).or _ = _
  rw [Dict.lookup_assign, Option.some_or]

/-- Every other option keeps its value. -/
theorem raw_set_of_ne (h : config.set sectname name value = some config')
    (hne : sectname' ≠ sectname ∨ optionxform name' ≠ optionxform name) :
    config'.raw sectname' name' = config.raw sectname' name' := by
  obtain ⟨options, hoptions, rfl⟩ := of_set h
  have hmem := Dict.lookup_isSome_iff.mp (Option.isSome_of_eq_some hoptions)
  unfold raw
  dsimp only
  by_cases hsect : sectname' = sectname
  · subst hsect
    rw [Dict.lookup_modify hmem, hoptions]
    change (List.lookup _ _).or _ = (List.lookup _ _).or _
    rw [Dict.lookup_assign_of_ne (hne.resolve_left fun hne => hne rfl)]
  · rw [Dict.lookup_modify_of_ne hsect]

/-- A value without percent signs is not interpolated. -/
theorem get_eq (h : config.raw sectname name = some value) (hvalue : '%' ∉ value) :
    config.get sectname name = some value := by
  rw [get, h]
  exact interpolate_of_not_mem _ _ hvalue

/-- Setting an option keeps the configuration well-formed. -/
theorem WellFormed.set (h : config.WellFormed) (hset : config.set sectname name value = some config')
    (hgood : Good (optionxform name) value) : config'.WellFormed := by
  obtain ⟨options, hoptions, rfl⟩ := of_set hset
  obtain ⟨l₁, l₂, hsections, -⟩ := List.lookup_eq_some_iff.mp hoptions
  have hsection := h.sections.2 (sectname, options) (hsections ▸ List.mem_append_right _ (List.mem_cons_self ..))
  have hassign := hsection.2.2.assign hgood
  exact ⟨h.defaults, h.sections.modify fun _ _ hs => ⟨hs.1, hs.2.1, hassign⟩⟩

end Config

/-- A value in one line for an option with a plain name in ASCII. -/
theorem Good.of_inLine [StrLower] {option name value : List Char} (hascii : option.all (·.toNat < 128))
    (hlower : option.map Char.toLower = name) (hne : name ≠ []) (hline : InLine name)
    (hdelimiter : name.all (! isDelimiter ·) = true) (hcomment : isComment name = false) (hhead : name.head? ≠ some '[')
    (hvalue : InLine value) : Good (optionxform option) value := by
  have hname : optionxform option = name := (optionxform_of_ascii hascii).trans hlower
  have hsplit : value.splitOn '\n' = [value] := List.splitOn_eq_singleton hvalue.newline
  refine ⟨?_, hvalue.rstrip⟩
  rw [hsplit]
  have hdelimiter' : ∀ c ∈ name, isDelimiter c = false := fun c hc => by
    simpa using List.all_eq_true.mp hdelimiter c hc
  have hsame : optionxform name = name := by rw [← hname, optionxform_optionxform]
  rw [hname]
  refine ⟨hne, hline, hsame, hdelimiter', hcomment, ?_, List.cons_ne_nil _ _, fun l hl => ?_,
    fun _ hl => absurd hl List.not_mem_nil⟩
  · have hwritten := strip_optionLine hne hline hvalue (fun _ hc => absurd hc List.not_mem_nil)
    rw [List.append_nil] at hwritten
    rw [List.headD_cons, hwritten]
    refine header?_of_head ?_
    obtain ⟨c, name, rfl⟩ := List.exists_cons_of_ne_nil hne
    exact hhead
  · exact List.mem_singleton.mp hl ▸ hvalue

end Soar.Library.Ini
