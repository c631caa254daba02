import Soar.Library.IniWellFormed

/-! A well-formed configuration is read again as it was written. -/
namespace Soar.Library.Ini
open Soar.Library.Text

namespace Dict
variable {α β : Type} {d : Dict α} {name : List Char} {a : α}

theorem modify_of_not_mem (h : name ∉ d.names) (f : α → α) : d.modify name f = d := by
  unfold modify
  conv_rhs => rw [← List.map_id d]
  refine List.map_congr_left fun e he => if_neg ?_
  rintro rfl
  exact h (List.mem_map_of_mem he)

theorem modify_concat (h : name ∉ d.names) (a : α) (f : α → α) :
    modify (d ++ [(name, a)]) name f = d ++ [(name, f a)] := by
  have hd := modify_of_not_mem h f
  unfold modify at hd ⊢
  rw [List.map_append, hd, List.map_singleton, if_pos rfl]

theorem lookup_concat (h : name ∉ d.names) (a : α) : List.lookup name (d ++ [(name, a)]) = some a := by
  have hnone : List.lookup name d = none := by
    refine List.lookup_eq_none_iff.mpr fun e he => bne_iff_ne.mpr ?_
    rintro rfl
    exact h (List.mem_map_of_mem he)
  rw [List.lookup_append, hnone, List.lookup_cons, beq_self_eq_true]
  rfl

theorem modify_modify (d : Dict α) (name : List Char) (f g : α → α) :
    (d.modify name f).modify name g = d.modify name (g ∘ f) := by
  unfold modify
  rw [List.map_map]
  refine List.map_congr_left fun e _ => ?_
  rw [Function.comp_apply]
  split_ifs with h <;> simp [h]

theorem lookup_modify (h : name ∈ d.names) (a : α) : List.lookup name (d.modify name fun _ => a) = some a := by
  induction d with
  | nil => cases h
  | cons e d ih =>
    unfold modify at ih ⊢
    rw [List.map_cons]
    split_ifs with hname
    · rw [List.lookup_cons, hname, beq_self_eq_true]
    · rw [List.lookup_cons, beq_eq_false_iff_ne.mpr (Ne.symm hname)]
      exact ih ((List.mem_cons.mp h).resolve_left (Ne.symm hname))

theorem mapValues_modify {f : α → β} {g : α → α} (h : ∀ a, f (g a) = f a) (d : Dict α) (name : List Char) :
    (d.modify name g).mapValues f = d.mapValues f := by
  unfold modify mapValues
  rw [List.map_map]
  refine List.map_congr_left fun e _ => ?_
  rw [Function.comp_apply]
  split_ifs
  · rw [h]
  · rfl

end Dict

namespace Reading
variable {st : Reading} {name : List Char} {options options' : Dict (List (List Char))}

/-- There are options to add to. -/
def Open (st : Reading) : Prop := ∃ sectname, st.cursect = some sectname ∧
  (sectname = defaultSection ∨ sectname ∈ st.sections.names)

/-- The same with another current option. -/
def withOption (st : Reading) (optname : Option (List Char)) (indent : Nat) : Reading :=
  { st with optname := optname, indentLevel := indent }

@[simp] theorem withOption_withOption (st : Reading) (n n' : Option (List Char)) (i i' : Nat) :
    (st.withOption n i).withOption n' i' = st.withOption n' i' := rfl

@[simp] theorem withOption_joined (st : Reading) (n : Option (List Char)) (i : Nat) :
    (st.withOption n i).joined = st.joined := rfl

@[simp] theorem withOption_options (st : Reading) (n : Option (List Char)) (i : Nat) :
    (st.withOption n i).options = st.options := rfl

@[simp] theorem withOption_setOptions (st : Reading) (n : Option (List Char)) (i : Nat)
    (options : Dict (List (List Char))) :
    (st.withOption n i).setOptions options = (st.setOptions options).withOption n i := by
  unfold withOption setOptions
  dsimp only
  split
  · rfl
  · split_ifs <;> rfl

theorem setOptions_of_default (h : st.cursect = some defaultSection) (options : Dict (List (List Char))) :
    st.setOptions options = { st with defaults := options } := by
  rw [setOptions, h]
  exact if_pos rfl

theorem setOptions_of_section (h : st.cursect = some name) (hname : name ≠ defaultSection)
    (options : Dict (List (List Char))) :
    st.setOptions options = { st with sections := st.sections.modify name fun _ => options } := by
  rw [setOptions, h]
  exact if_neg hname

@[simp] theorem setOptions_cursect (st : Reading) (options : Dict (List (List Char))) :
    (st.setOptions options).cursect = st.cursect := by
  unfold setOptions
  split
  · rfl
  · split_ifs <;> rfl

theorem options_setOptions (h : st.Open) (options : Dict (List (List Char))) :
    (st.setOptions options).options = options := by
  obtain ⟨sectname, hsect, hmem⟩ := h
  unfold Reading.options
  rw [setOptions_cursect, hsect]
  unfold setOptions
  rw [hsect]
  dsimp only
  split_ifs with hdefault
  · rfl
  · dsimp only
    rw [Dict.lookup_modify (hmem.resolve_left hdefault)]
    rfl

@[simp] theorem setOptions_setOptions (st : Reading) (options options' : Dict (List (List Char))) :
    (st.setOptions options).setOptions options' = st.setOptions options' := by
  have hsect' := setOptions_cursect st options
  cases hsect : st.cursect with
  | none =>
    rw [hsect] at hsect'
    rw [setOptions, hsect', setOptions, setOptions, hsect]
  | some sectname =>
    rw [hsect] at hsect'
    by_cases hdefault : sectname = defaultSection
    · subst hdefault
      rw [setOptions_of_default hsect', setOptions_of_default hsect, setOptions_of_default hsect]
    · rw [setOptions_of_section hsect' hdefault, setOptions_of_section hsect hdefault,
        setOptions_of_section hsect hdefault, Dict.modify_modify]
      rfl

theorem Open.setOptions (h : st.Open) (options : Dict (List (List Char))) : (st.setOptions options).Open := by
  obtain ⟨sectname, hsect, hmem⟩ := h
  refine ⟨sectname, (setOptions_cursect st options).trans hsect, hmem.imp_right fun hmem => ?_⟩
  by_cases hdefault : sectname = defaultSection
  · subst hdefault
    rw [setOptions_of_default hsect]
    exact hmem
  · rw [setOptions_of_section hsect hdefault, Dict.names_modify]
    exact hmem

theorem append_withOption (h : st.Open) (options : Dict (List (List Char))) (n : Option (List Char)) (i : Nat)
    (value : List Char) :
    ((st.setOptions options).withOption n i).append value =
      (st.setOptions (match n with
        | none => options
        | some name => options.modify name (· ++ [value]))).withOption n i := by
  cases n with
  | none => rfl
  | some name =>
    change ((st.setOptions options).withOption (some name) i).setOptions
      ((st.setOptions options).options.modify name (· ++ [value])) = _
    rw [withOption_setOptions, setOptions_setOptions, options_setOptions h]

end Reading

section Lines

variable {st : Reading} {name value : List Char}

private theorem takeWhile_isspace {c : Char} (hc : isspace c = false) (text : List Char) :
    (c :: text).takeWhile isspace = [] := by
  rw [List.takeWhile_cons, hc]
  rfl

/-- The line of a section opens it. -/
theorem readLine_header [StrLower] (st : Reading) (h : SectionName name) :
    readLine st ('[' :: (name ++ [']', '\n'])) = st.readHeader name 0 := by
  have hstrip : strip ('[' :: (name ++ [']', '\n'])) = '[' :: (name ++ [']']) := by
    rw [strip, lstrip_eq_self (by decide), show '[' :: (name ++ [']', '\n']) = '[' :: name ++ [']', '\n'] from rfl,
      rstrip_append_of_ne_nil _ (by decide)]
    rfl
  have hcomment : isComment ('[' :: (name ++ [']'])) = false := rfl
  unfold readLine
  dsimp only
  rw [takeWhile_isspace (by decide), hstrip, hcomment, if_neg Bool.false_ne_true, if_neg (List.cons_ne_nil _ _),
    if_neg fun hcon => Nat.not_lt_zero _ hcon.2, header?_write h]
  rfl

theorem readLine_blank [StrLower] (st : Reading) : readLine st ['\n'] = some (st.append []) := rfl

/-- A continuation line. -/
theorem readLine_continuation [StrLower] (hopt : st.optname.isSome) (hindent : st.indentLevel = 0)
    (hvalue : InLine value)
    (hcomment : isComment value = false) : readLine st ('\t' :: (value ++ ['\n'])) = some (st.append value) := by
  have hstrip : strip ('\t' :: (value ++ ['\n'])) = value := by
    rw [strip, lstrip, List.dropWhile_cons_of_pos (by decide)]
    cases value with
    | nil => rfl
    | cons c value =>
      rw [List.cons_append, List.dropWhile_cons_of_neg (by rw [hvalue.head]; exact Bool.false_ne_true),
        ← List.cons_append, rstrip_append_space _ (List.all_eq_true.mp rfl), hvalue.rstrip]
  have hpos : 0 < (('\t' :: (value ++ ['\n'])).takeWhile isspace).length := by
    rw [List.takeWhile_cons_of_pos (by decide)]
    exact Nat.succ_pos _
  unfold readLine
  dsimp only
  rw [hstrip, hcomment, hindent, if_neg Bool.false_ne_true]
  split_ifs with hnil hcon
  · rw [hnil]
  · rfl
  · exact absurd ⟨hopt, hpos⟩ hcon

/-- The first line of an option is read as the option with its first value. -/
theorem option?_write [StrLower] {values : List (List Char)} (h : OptionLines name (value :: values)) :
    option? (name ++ [' ', '='] ++ if value = [] then [] else ' ' :: value) = some (name, value) := by
  have hvalue : InLine value := h.lines value (List.mem_cons_self ..)
  have hkey : ∀ c ∈ name ++ [' '], (! isDelimiter c) = true := fun c hc => by
    rcases List.mem_append.mp hc with hc | hc
    · rw [h.delimiter c hc]
      rfl
    · rw [List.mem_singleton.mp hc]
      rfl
  have hdelimiter : ¬ (! isDelimiter '=') = true := by decide
  rw [show name ++ [' ', '='] = name ++ [' '] ++ ['='] by simp, List.append_assoc, List.singleton_append]
  unfold option?
  dsimp only
  rw [List.dropWhile_append_of_pos hkey, @List.dropWhile_cons_of_neg _ (! isDelimiter ·) _ _ hdelimiter,
    List.takeWhile_append_of_pos hkey, @List.takeWhile_cons_of_neg _ (! isDelimiter ·) _ _ hdelimiter, List.append_nil]
  dsimp only
  rw [rstrip_append_space _ (List.all_eq_true.mp rfl), h.line.rstrip, if_neg h.ne_nil, h.lower]
  split_ifs with hnil
  · rw [hnil]
    rfl
  · rw [strip, lstrip, List.dropWhile_cons_of_pos (by decide)]
    change some (name, strip value) = _
    rw [hvalue.stripped]

/-- The first line of an option. -/
theorem readLine_option [StrLower] {values : List (List Char)} (h : OptionLines name (value :: values))
    (hopen : st.Open)
    (hnew : name ∉ st.options.names) :
    readLine st (optionLine name value ++ ['\n']) =
      some ((st.setOptions (st.options ++ [(name, [value])])).withOption (some name) 0) := by
  have hvalue : InLine value := h.lines value (List.mem_cons_self ..)
  have hspace : ∀ c ∈ ['\n'], isspace c = true := List.all_eq_true.mp rfl
  have hstrip := strip_optionLine h.ne_nil h.line hvalue hspace
  have hheader := h.header
  rw [List.headD_cons, ← List.append_nil (optionLine name value),
    strip_optionLine h.ne_nil h.line hvalue fun _ hc => absurd hc List.not_mem_nil] at hheader
  obtain ⟨c, key, hname⟩ := List.exists_cons_of_ne_nil h.ne_nil
  have hc : isspace c = false := (hname ▸ h.line).head
  have hindent : (optionLine name value ++ ['\n']).takeWhile isspace = [] := by
    unfold optionLine
    rw [hname]
    exact takeWhile_isspace hc _
  have hcomment : isComment (name ++ [' ', '='] ++ if value = [] then [] else ' ' :: value) = false := by
    rw [← h.comment, hname]
    rfl
  obtain ⟨sectname, hsect, -⟩ := hopen
  unfold readLine
  dsimp only
  rw [hindent, hstrip, hcomment, hheader, if_neg Bool.false_ne_true, if_neg (by rw [hname]; exact List.cons_ne_nil _ _),
    if_neg fun hcon => Nat.not_lt_zero _ hcon.2]
  dsimp only
  unfold Reading.readOption
  rw [option?_write h, if_neg (by rw [hsect]; exact Option.some_ne_none _)]
  change (if _ then _ else _) = _
  rw [if_neg hnew]
  rfl

/-- The lines of an option after the first. -/
def continuations (values : List (List Char)) : List (List Char) := values.map fun l => '\t' :: (l ++ ['\n'])

/-- The lines of an option. -/
def optionLines (option : List Char × List (List Char)) : List (List Char) :=
  (optionLine option.1 (option.2.headD []) ++ ['\n']) :: continuations option.2.tail

/-- The further lines of a value are read as its continuation. -/
theorem readLines_continuations [StrLower] {st : Reading} (hopen : st.Open) {options : Dict (List (List Char))}
    (hnew : name ∉ options.names) (values : List (List Char)) {values' : List (List Char)}
    (hlines : ∀ l ∈ values', InLine l) (hcomments : ∀ l ∈ values', isComment l = false) :
    (continuations values').foldlM readLine ((st.setOptions (options ++ [(name, values)])).withOption (some name) 0) =
      some ((st.setOptions (options ++ [(name, values ++ values')])).withOption (some name) 0) := by
  induction values' generalizing values with
  | nil =>
    rw [List.append_nil]
    rfl
  | cons l values' ih =>
    have hl : readLine ((st.setOptions (options ++ [(name, values)])).withOption (some name) 0)
        ('\t' :: (l ++ ['\n'])) = _ :=
      readLine_continuation rfl rfl (hlines l (List.mem_cons_self ..)) (hcomments l (List.mem_cons_self ..))
    rw [Reading.append_withOption hopen] at hl
    dsimp only at hl
    rw [Dict.modify_concat hnew] at hl
    have hrest := ih (values ++ [l]) (fun l' hl' => hlines l' (List.mem_cons_of_mem _ hl'))
      fun l' hl' => hcomments l' (List.mem_cons_of_mem _ hl')
    rw [List.append_assoc, List.singleton_append] at hrest
    rw [continuations, List.map_cons, List.foldlM_cons, hl]
    exact hrest

/-- An option is added to those of the section. -/
theorem readLines_option [StrLower] {st : Reading} (hopen : st.Open) {options : Dict (List (List Char))}
    {o : List Char × List (List Char)} (ho : OptionLines o.1 o.2) (hnew : o.1 ∉ options.names)
    (n : Option (List Char)) (i : Nat) :
    (optionLines o).foldlM readLine ((st.setOptions options).withOption n i) =
      some ((st.setOptions (options ++ [o])).withOption (some o.1) 0) := by
  obtain ⟨name, value⟩ := o
  obtain ⟨first, values, rfl⟩ := List.exists_cons_of_ne_nil ho.value_ne_nil
  have hcurrent : ((st.setOptions options).withOption n i).Open := hopen.setOptions options
  have hfirst := readLine_option ho hcurrent (by rwa [Reading.withOption_options, Reading.options_setOptions hopen])
  rw [Reading.withOption_options, Reading.options_setOptions hopen, Reading.withOption_setOptions,
    Reading.setOptions_setOptions, Reading.withOption_withOption] at hfirst
  rw [optionLines, List.foldlM_cons, List.headD_cons, hfirst]
  exact readLines_continuations hopen hnew [first] (fun l hl => ho.lines l (List.mem_cons_of_mem _ hl)) ho.comments

/-- The lines of the options of a section are read as these options. -/
theorem readLines_options [StrLower] {st : Reading} (hopen : st.Open) {options options' : Dict (List (List Char))}
    (h : Dict.Each OptionLines (options ++ options')) (n : Option (List Char)) (i : Nat) :
    ∃ n' i', (options'.flatMap optionLines).foldlM readLine ((st.setOptions options).withOption n i) =
      some ((st.setOptions (options ++ options')).withOption n' i') := by
  induction options' generalizing options n i with
  | nil =>
    refine ⟨n, i, ?_⟩
    rw [List.append_nil]
    rfl
  | cons o options' ih =>
    have hnew : o.1 ∉ options.names := fun hmem => by
      have hnodup := h.1
      rw [Dict.names_append, List.nodup_append] at hnodup
      exact hnodup.2.2 _ hmem _ (List.mem_cons_self ..) rfl
    rw [List.append_cons] at h ⊢
    obtain ⟨n', i', hrest⟩ := ih h (some o.1) 0
    refine ⟨n', i', ?_⟩
    have ho : OptionLines o.1 o.2 := h.2 o (by simp)
    rw [List.flatMap_cons, List.foldlM_append, readLines_option hopen ho hnew n i]
    exact hrest

/-- The lines of a section. -/
def sectionLines (s : List Char × Dict (List (List Char))) : List (List Char) :=
  ('[' :: (s.1 ++ [']', '\n'])) :: (s.2.flatMap optionLines ++ [['\n']])

/-- After its header, a section is read with all its options. -/
theorem readLines_section [StrLower] {st st₀ : Reading} (hname : SectionName name)
    (hheader : st.readHeader name 0 = some ((st₀.setOptions []).withOption none 0)) (hopen : st₀.Open)
    {options : Dict (List (List Char))} (hoptions : options.Each OptionLines) :
    ∃ st', (sectionLines (name, options)).foldlM readLine st = some st' ∧
      st'.joined = (st₀.setOptions options).joined := by
  obtain ⟨n, i, hlines⟩ := readLines_options hopen (show Dict.Each OptionLines ([] ++ options) from hoptions) none 0
  rw [List.nil_append] at hlines
  refine ⟨((st₀.setOptions options).withOption n i).append [], ?_, ?_⟩
  · rw [sectionLines, List.foldlM_cons, readLine_header st hname, hheader]
    change (options.flatMap optionLines ++ [['\n']]).foldlM readLine _ = _
    rw [List.foldlM_append, hlines]
    exact readLine_blank _
  · rw [Reading.append_withOption hopen, Reading.withOption_joined]
    cases n with
    | none => rfl
    | some optname =>
      have hblank := Dict.mapValues_modify joinLines_concat_nil options optname
      obtain ⟨sectname, hsect, -⟩ := hopen
      by_cases hdefault : sectname = defaultSection
      · subst hdefault
        rw [Reading.setOptions_of_default hsect, Reading.setOptions_of_default hsect]
        exact congrArg (fun d => Config.mk d _) hblank
      · rw [Reading.setOptions_of_section hsect hdefault, Reading.setOptions_of_section hsect hdefault]
        refine congrArg (Config.mk _) ?_
        unfold Dict.modify Dict.mapValues at hblank ⊢
        rw [List.map_map, List.map_map]
        refine List.map_congr_left fun e _ => ?_
        rw [Function.comp_apply, Function.comp_apply]
        split_ifs
        · exact congrArg (Prod.mk _) hblank
        · rfl

end Lines

section Write

private theorem indentLines_of_newline {l : List Char} (h : '\n' ∉ l) (rest : List Char) :
    indentLines (l ++ rest) = l ++ indentLines rest := by
  induction l with
  | nil => rfl
  | cons c l ih =>
    have hc : c ≠ '\n' := fun hc => h (hc ▸ List.mem_cons_self ..)
    unfold indentLines at ih ⊢
    rw [List.cons_append, List.flatMap_cons, if_neg hc, ih fun hmem => h (List.mem_cons_of_mem _ hmem)]
    rfl

private theorem lines_indentLines {start first : List Char} (hstart : '\n' ∉ start) (hfirst : '\n' ∉ first)
    {values : List (List Char)} (hvalues : ∀ l ∈ values, '\n' ∉ l) (rest : List Char) :
    lines (start ++ indentLines (List.intercalate ['\n'] (first :: values)) ++ '\n' :: rest) =
      (start ++ first ++ ['\n']) :: (continuations values ++ lines rest) := by
  have hline : '\n' ∉ start ++ first := fun hmem => (List.mem_append.mp hmem).elim hstart hfirst
  induction values generalizing start first with
  | nil =>
    have hindent := indentLines_of_newline hfirst []
    rw [List.append_nil] at hindent
    rw [List.intercalate_singleton, hindent, show indentLines [] = [] from rfl, List.append_nil, lines_append hline]
    rfl
  | cons second values ih =>
    have hsecond := hvalues second (List.mem_cons_self ..)
    have hrest := ih (show '\n' ∉ ['\t'] by decide) hsecond (fun l hl => hvalues l (List.mem_cons_of_mem _ hl))
      fun hmem => (List.mem_append.mp hmem).elim (by decide) hsecond
    have hindent : indentLines (List.intercalate ['\n'] (first :: second :: values)) =
        first ++ '\n' :: '\t' :: indentLines (List.intercalate ['\n'] (second :: values)) := by
      rw [List.intercalate_cons_cons, List.append_assoc, indentLines_of_newline hfirst]
      rfl
    have htext : start ++ indentLines (List.intercalate ['\n'] (first :: second :: values)) ++ '\n' :: rest =
        start ++ first ++ '\n' ::
          (['\t'] ++ indentLines (List.intercalate ['\n'] (second :: values)) ++ '\n' :: rest) := by
      rw [hindent]
      simp
    rw [htext, lines_append hline, hrest]
    rfl

variable {name : List Char} {options : Dict (List Char)}

theorem lines_writeOption [StrLower] {value : List Char} (h : Good name value) (rest : List Char) :
    lines (writeOption (name, value) ++ rest) = optionLines (name, value.splitOn '\n') ++ lines rest := by
  obtain ⟨first, values, hsplit⟩ := List.exists_cons_of_ne_nil h.lines.value_ne_nil
  have hvalue := @List.intercalate_splitOn _ value _ _ '\n'
  have hlines := h.lines.lines
  rw [hsplit] at hvalue hlines
  have hstart : '\n' ∉ name ++ [' ', '=', ' '] := fun hmem =>
    (List.mem_append.mp hmem).elim h.lines.line.newline (by decide)
  have hrest := lines_indentLines hstart (hlines first (List.mem_cons_self ..)).newline
    (fun l hl => (hlines l (List.mem_cons_of_mem _ hl)).newline) rest
  rw [hvalue] at hrest
  rw [writeOption, List.append_assoc, List.singleton_append, hrest, optionLines, hsplit]
  rfl

theorem lines_writeOptions [StrLower] (h : ∀ o ∈ options, Good o.1 o.2) (rest : List Char) :
    lines (options.flatMap writeOption ++ rest) =
      (options.mapValues (List.splitOn '\n')).flatMap optionLines ++ lines rest := by
  induction options with
  | nil => rfl
  | cons o options ih =>
    rw [List.flatMap_cons, List.append_assoc, lines_writeOption (h o (List.mem_cons_self ..)),
      ih fun o' ho' => h o' (List.mem_cons_of_mem _ ho'), ← List.append_assoc]
    rfl

theorem lines_writeSection [StrLower] (hname : SectionName name) (h : ∀ o ∈ options, Good o.1 o.2) (rest : List Char) :
    lines (writeSection (name, options) ++ rest) =
      sectionLines (name, options.mapValues (List.splitOn '\n')) ++ lines rest := by
  have hheader : '\n' ∉ '[' :: (name ++ [']']) := fun hmem =>
    (List.mem_append.mp ((List.mem_cons.mp hmem).resolve_left (by decide))).elim hname.newline (by decide)
  have htext : writeSection (name, options) ++ rest =
      '[' :: (name ++ [']']) ++ '\n' :: (options.flatMap writeOption ++ '\n' :: rest) := by
    simp [writeSection]
  rw [htext, lines_append hheader, lines_writeOptions h, sectionLines]
  change _ :: (_ ++ ['\n'] :: lines rest) = _
  simp

/-- The lines of a value are joined to it. -/
theorem mapValues_joinLines [StrLower] (h : ∀ o ∈ options, Good o.1 o.2) :
    (options.mapValues (List.splitOn '\n')).mapValues joinLines = options := by
  unfold Dict.mapValues
  conv_rhs => rw [← List.map_id options]
  rw [List.map_map]
  refine List.map_congr_left fun o ho => ?_
  rw [Function.comp_apply, joinLines, List.intercalate_splitOn, (h o ho).stripped]
  rfl

theorem Dict.Each.optionLines [StrLower] (h : options.Each Good) :
    (options.mapValues (List.splitOn '\n')).Each OptionLines :=
  h.mapValues fun _ _ hgood => hgood.lines

/-- A section that is written is read as another one. -/
theorem readLines_writeSection [StrLower] {st : Reading} (hname : SectionName name) (hdefault : name ≠ defaultSection)
    (hnew : name ∉ st.sections.names) (h : options.Each Good) :
    ∃ st', (sectionLines (name, options.mapValues (List.splitOn '\n'))).foldlM readLine st = some st' ∧
      st'.joined = { st.joined with sections := st.joined.sections ++ [(name, options)] } := by
  let st₀ : Reading := { st with sections := st.sections ++ [(name, [])], cursect := some name }
  have hset : ∀ d, st₀.setOptions d = { st₀ with sections := st.sections ++ [(name, d)] } := fun d => by
    rw [Reading.setOptions_of_section rfl hdefault, Dict.modify_concat hnew]
  have hheader : st.readHeader name 0 = some ((st₀.setOptions []).withOption none 0) := by
    rw [hset, Reading.readHeader, if_neg hdefault, if_neg hnew]
    rfl
  have hopen : st₀.Open := ⟨name, rfl, .inr (by simp [st₀, Dict.names])⟩
  obtain ⟨st', hlines, hjoined⟩ := readLines_section hname hheader hopen h.optionLines
  refine ⟨st', hlines, ?_⟩
  rw [hjoined, hset]
  unfold Reading.joined Dict.mapValues
  dsimp only
  rw [List.map_append, List.map_singleton]
  exact congrArg (fun d => Config.mk _ (_ ++ [(name, d)])) (mapValues_joinLines h.2)

theorem sectionName_default : SectionName defaultSection := by constructor <;> decide

theorem readLines_writeDefaults [StrLower] (h : options.Each Good) :
    ∃ st', (sectionLines (defaultSection, options.mapValues (List.splitOn '\n'))).foldlM readLine {} = some st' ∧
      st'.joined = ⟨options, []⟩ := by
  let st₀ : Reading := { cursect := some defaultSection }
  have hset : ∀ d, st₀.setOptions d = { st₀ with defaults := d } := fun d => Reading.setOptions_of_default rfl d
  have hheader : Reading.readHeader {} defaultSection 0 = some ((st₀.setOptions []).withOption none 0) := by
    rw [hset]
    rfl
  have hopen : st₀.Open := ⟨defaultSection, rfl, .inl rfl⟩
  obtain ⟨st', hlines, hjoined⟩ := readLines_section sectionName_default hheader hopen h.optionLines
  refine ⟨st', hlines, ?_⟩
  rw [hjoined, hset]
  exact congrArg (fun d => Config.mk d []) (mapValues_joinLines h.2)

/-- The sections that are written follow those that have been read. -/
theorem readLines_writeSections [StrLower] {sections : Dict (Dict (List Char))} {st : Reading}
    (h : Dict.Each (fun name options => SectionName name ∧ name ≠ defaultSection ∧ options.Each Good)
      (st.joined.sections ++ sections)) :
    ∃ st', (lines (sections.flatMap writeSection)).foldlM readLine st = some st' ∧
      st'.joined = { st.joined with sections := st.joined.sections ++ sections } := by
  induction sections generalizing st with
  | nil => exact ⟨st, rfl, by rw [List.append_nil]⟩
  | cons s sections ih =>
    obtain ⟨hname, hdefault, hoptions⟩ := h.2 s (by simp)
    have hnew : s.1 ∉ st.sections.names := fun hmem => by
      have hnodup := h.1
      rw [Dict.names_append, List.nodup_append] at hnodup
      refine hnodup.2.2 s.1 ?_ s.1 (List.mem_cons_self ..) rfl
      unfold Reading.joined
      rwa [Dict.names_mapValues]
    obtain ⟨st₁, hfirst, hjoined⟩ := readLines_writeSection hname hdefault hnew hoptions
    rw [List.append_cons, ← show st₁.joined.sections = st.joined.sections ++ [s] by rw [hjoined]] at h
    obtain ⟨st', hrest, hjoined'⟩ := ih h
    refine ⟨st', ?_, ?_⟩
    · rw [List.flatMap_cons, lines_writeSection hname hoptions.2, List.foldlM_append, hfirst]
      exact hrest
    · rw [hjoined', hjoined, List.append_assoc]
      rfl

private theorem mem_intercalate {c d : Char} {text : List (List Char)} (h : c ∈ List.intercalate [d] text) :
    c = d ∨ ∃ l ∈ text, c ∈ l := by
  induction text with
  | nil => cases h
  | cons l text ih =>
    cases text with
    | nil =>
      rw [List.intercalate_singleton] at h
      exact .inr ⟨l, List.mem_cons_self .., h⟩
    | cons l' text =>
      rw [List.intercalate_cons_cons, List.mem_append, List.mem_append, List.mem_singleton] at h
      rcases h with (h | h) | h
      · exact .inr ⟨l, List.mem_cons_self .., h⟩
      · exact .inl h
      · refine (ih h).imp_right ?_
        rintro ⟨l'', hl'', hc⟩
        exact ⟨l'', List.mem_cons_of_mem _ hl'', hc⟩

theorem Good.ret [StrLower] {value : List Char} (h : Good name value) : '\r' ∉ value := fun hmem => by
  rw [← @List.intercalate_splitOn _ value _ _ '\n'] at hmem
  obtain ⟨l, hl, hmem⟩ := (mem_intercalate hmem).resolve_left (by decide)
  exact (h.lines.lines l hl).ret hmem

theorem ret_not_mem_writeSection [StrLower] (hname : SectionName name) (h : ∀ o ∈ options, Good o.1 o.2) :
    '\r' ∉ writeSection (name, options) := by
  have hoptions : '\r' ∉ options.flatMap writeOption := fun hmem => by
    obtain ⟨o, ho, hmem⟩ := List.mem_flatMap.mp hmem
    have hindent : '\r' ∉ indentLines o.2 := fun hmem => by
      obtain ⟨c, hc, hmem⟩ := List.mem_flatMap.mp hmem
      split_ifs at hmem
      · exact absurd hmem (by decide)
      · exact (h o ho).ret (List.mem_singleton.mp hmem ▸ hc)
    have hoption := (h o ho).lines.line.ret
    simp [writeOption, hoption, hindent] at hmem
  have hsection := hname.ret
  simp [writeSection, hsection, hoptions]

theorem ret_not_mem_write [StrLower] {config : Config} (h : config.WellFormed) : '\r' ∉ config.write := fun hmem => by
  rcases List.mem_append.mp hmem with hmem | hmem
  · split_ifs at hmem
    · cases hmem
    · exact ret_not_mem_writeSection sectionName_default h.defaults.2 hmem
  · obtain ⟨s, hs, hmem⟩ := List.mem_flatMap.mp hmem
    obtain ⟨hname, -, hoptions⟩ := h.sections.2 s hs
    exact ret_not_mem_writeSection hname hoptions.2 hmem

end Write

/-- A well-formed configuration is read as it was written. -/
theorem read_write [StrLower] {config : Config} (h : config.WellFormed) : read config.write = some config := by
  obtain ⟨st', hlines, hjoined⟩ : ∃ st', (lines config.write).foldlM readLine {} = some st' ∧ st'.joined = config := by
    unfold Config.write
    split_ifs with hnil
    · obtain ⟨st', hlines, hjoined⟩ := @readLines_writeSections _ config.sections {} h.sections
      refine ⟨st', hlines, ?_⟩
      rw [hjoined]
      exact congrArg (fun d => Config.mk d config.sections) hnil.symm
    · obtain ⟨st₁, hfirst, hjoined₁⟩ := readLines_writeDefaults h.defaults
      obtain ⟨st', hlines, hjoined⟩ := @readLines_writeSections _ config.sections st₁
        (by rw [hjoined₁]; exact h.sections)
      refine ⟨st', ?_, ?_⟩
      · rw [lines_writeSection sectionName_default h.defaults.2, List.foldlM_append, hfirst]
        exact hlines
      · rw [hjoined, hjoined₁]
        rfl
  rw [read, universalNewlines_eq (ret_not_mem_write h), hlines]
  exact congrArg some hjoined

end Soar.Library.Ini
