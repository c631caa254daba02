import Mathlib.Data.List.DropRight
import Mathlib.Data.List.TakeWhile
import Mathlib.Tactic.Common

/-! Texts as lists of characters: lines, white space and words. -/
namespace Soar.Library.Text

/-- The characters that count as white space. -/
def isspace (c : Char) : Bool :=
  (9 ≤ c.toNat && c.toNat ≤ 13) || (28 ≤ c.toNat && c.toNat ≤ 32) || c.toNat == 0x85 || c.toNat == 0xa0 ||
    c.toNat == 0x1680 || (0x2000 ≤ c.toNat && c.toNat ≤ 0x200a) || c.toNat == 0x2028 || c.toNat == 0x2029 ||
    c.toNat == 0x202f || c.toNat == 0x205f || c.toNat == 0x3000

/-- What a file in text mode reads: every kind of line end as `\n`. -/
def universalNewlines : List Char → List Char
  | [] => []
  | '\r' :: '\n' :: text => '\n' :: universalNewlines text
  | '\r' :: text => '\n' :: universalNewlines text
  | c :: text => c :: universalNewlines text

/-- The lines of a text with their line ends. -/
def lines : List Char → List (List Char)
  | [] => []
  | c :: text =>
    if c = '\n' then [c] :: lines text
    else match lines text with
      | [] => [[c]]
      | line :: rest => (c :: line) :: rest

def lstrip (text : List Char) : List Char := text.dropWhile isspace

def rstrip (text : List Char) : List Char := text.rdropWhile isspace

/-- The text without the white space around it. -/
def strip (text : List Char) : List Char := rstrip (lstrip text)

/-- The words between white space. -/
def split (text : List Char) : List (List Char) := (text.splitOnP isspace).filter (· ≠ [])

section Split

@[simp] theorem split_nil : split [] = [] := by simp [split]

/-- White space ends a word. -/
theorem split_append_cons {c : Char} (hc : isspace c = true) (text rest : List Char) :
    split (text ++ c :: rest) = split text ++ split rest := by
  unfold split
  rw [List.splitOnP_append_cons text rest hc, List.filter_append]

theorem split_cons {c : Char} (hc : isspace c = true) (text : List Char) : split (c :: text) = split text := by
  have h := split_append_cons hc [] text
  rwa [split_nil, List.nil_append, List.nil_append] at h

theorem split_eq_nil {space : List Char} (h : ∀ c ∈ space, isspace c = true) : split space = [] := by
  induction space with
  | nil => exact split_nil
  | cons c space ih =>
    rw [split_cons (h c (List.mem_cons_self ..))]
    exact ih fun d hd => h d (List.mem_cons_of_mem _ hd)

theorem split_append_space (text : List Char) {space : List Char} (h : ∀ c ∈ space, isspace c = true) :
    split (text ++ space) = split text := by
  cases space with
  | nil => rw [List.append_nil]
  | cons c space =>
    rw [split_append_cons (h c (List.mem_cons_self ..)), split_eq_nil fun d hd => h d (List.mem_cons_of_mem _ hd),
      List.append_nil]

/-- A text that does not begin with white space has a first word. -/
theorem split_ne_nil {c : Char} (hc : isspace c = false) (text : List Char) : split (c :: text) ≠ [] := by
  obtain ⟨word, words, hsplit⟩ := List.exists_cons_of_ne_nil (List.splitOnP_ne_nil isspace text)
  unfold split
  rw [List.splitOnP_cons_eq_if_modifyHead, hc, if_neg Bool.false_ne_true, hsplit]
  simp

end Split

section Strip

variable {p : Char → Bool}

theorem lstrip_head {text rest : List Char} {c : Char} (h : lstrip text = c :: rest) : isspace c = false := by
  have hhead := List.head?_dropWhile_not isspace text
  rw [show text.dropWhile isspace = c :: rest from h] at hhead
  exact hhead

theorem rstrip_append (text : List Char) : ∃ space, (∀ c ∈ space, isspace c = true) ∧ text = rstrip text ++ space :=
  ⟨text.rtakeWhile isspace, fun _ hc => List.mem_rtakeWhile_imp hc, (List.rdropWhile_append_rtakeWhile ..).symm⟩

/-- Stripping a text does not change the words before a mark that is not white space. -/
theorem split_takeWhile_lstrip (hp : ∀ c, isspace c = true → p c = true) (text : List Char) :
    split ((lstrip text).takeWhile p) = split (text.takeWhile p) := by
  unfold lstrip
  induction text with
  | nil => rfl
  | cons c text ih =>
    rw [List.dropWhile_cons]
    split_ifs with hc
    · rw [ih, List.takeWhile_cons_of_pos (hp c hc), split_cons hc]
    · rfl

theorem split_takeWhile_rstrip (hp : ∀ c, isspace c = true → p c = true) (text : List Char) :
    split ((rstrip text).takeWhile p) = split (text.takeWhile p) := by
  obtain ⟨space, hspace, htext⟩ := rstrip_append text
  conv_rhs => rw [htext, List.takeWhile_append]
  split_ifs with hlen
  · have hself : (rstrip text).takeWhile p = rstrip text := (List.takeWhile_prefix p).eq_of_length hlen
    rw [List.takeWhile_eq_self_iff.mpr fun c hc => hp c (hspace c hc), split_append_space _ hspace, hself]
  · rfl

theorem split_takeWhile_strip (hp : ∀ c, isspace c = true → p c = true) (text : List Char) :
    split ((strip text).takeWhile p) = split (text.takeWhile p) := by
  unfold strip
  rw [split_takeWhile_rstrip hp, split_takeWhile_lstrip hp]

end Strip

section Stripped

variable {text : List Char}

theorem rstrip_append_space (text : List Char) {space : List Char} (h : ∀ c ∈ space, isspace c = true) :
    rstrip (text ++ space) = rstrip text := by
  unfold rstrip
  induction space using List.reverseRecOn with
  | nil => rw [List.append_nil]
  | append_singleton space c ih =>
    rw [← List.append_assoc, List.rdropWhile_concat_pos _ _ _ (h c (by simp))]
    exact ih fun d hd => h d (List.mem_append_left _ hd)

/-- What follows is stripped alone, as long as something of it stays. -/
theorem rstrip_append_of_ne_nil (text : List Char) {rest : List Char} (h : rstrip rest ≠ []) :
    rstrip (text ++ rest) = text ++ rstrip rest := by
  unfold rstrip at h ⊢
  induction rest using List.reverseRecOn with
  | nil => exact absurd (List.rdropWhile_nil _) h
  | append_singleton rest c ih =>
    rw [← List.append_assoc, List.rdropWhile_concat, List.rdropWhile_concat]
    rw [List.rdropWhile_concat] at h
    split_ifs at h ⊢
    · exact ih h
    · rw [List.append_assoc]

theorem lstrip_append_of_ne_nil {rest : List Char} (h : lstrip text ≠ []) :
    lstrip (text ++ rest) = lstrip text ++ rest := by
  unfold lstrip at h ⊢
  rw [List.dropWhile_append, if_neg (by rwa [List.isEmpty_iff])]

theorem lstrip_suffix (text : List Char) : lstrip text <:+ text := List.dropWhile_suffix _

theorem rstrip_initial (text : List Char) : rstrip text <+: text := List.rdropWhile_prefix _ _

theorem mem_of_mem_strip {c : Char} (h : c ∈ strip text) : c ∈ text :=
  (lstrip_suffix text).subset ((rstrip_initial _).subset h)

theorem lstrip_eq_self {c : Char} (hc : isspace c = false) (text : List Char) : lstrip (c :: text) = c :: text :=
  List.dropWhile_cons_of_neg (by rw [hc]; exact Bool.false_ne_true)


@[simp] theorem rstrip_rstrip (text : List Char) : rstrip (rstrip text) = rstrip text := List.rdropWhile_idempotent _ _

theorem strip_eq_self_iff : strip text = text ↔ lstrip text = text ∧ rstrip text = text := by
  constructor
  · intro h
    have hl : lstrip text = text := by
      refine (lstrip_suffix text).eq_of_length (le_antisymm (lstrip_suffix text).length_le ?_)
      calc text.length = (rstrip (lstrip text)).length := (congrArg List.length h).symm
        _ ≤ (lstrip text).length := (rstrip_initial _).length_le
    rw [strip, hl] at h
    exact ⟨hl, h⟩
  · rintro ⟨hl, hr⟩
    rw [strip, hl, hr]

theorem lstrip_rstrip (text : List Char) : lstrip (rstrip (lstrip text)) = rstrip (lstrip text) := by
  cases hl : rstrip (lstrip text) with
  | nil => rfl
  | cons c rest =>
    obtain ⟨more, hmore⟩ := rstrip_initial (lstrip text)
    rw [hl] at hmore
    exact lstrip_eq_self (lstrip_head hmore.symm) rest

@[simp] theorem strip_strip (text : List Char) : strip (strip text) = strip text :=
  strip_eq_self_iff.mpr ⟨lstrip_rstrip text, rstrip_rstrip _⟩

end Stripped

section Lines

/-- The first line of a text. -/
theorem lines_append {line : List Char} (h : '\n' ∉ line) (rest : List Char) :
    lines (line ++ '\n' :: rest) = (line ++ ['\n']) :: lines rest := by
  induction line with
  | nil => rfl
  | cons c line ih =>
    rw [List.cons_append, lines, if_neg fun hc : c = '\n' => h (hc ▸ List.mem_cons_self ..),
      ih fun hmem => h (List.mem_cons_of_mem _ hmem)]
    rfl

/-- A line has its line end last, if at all. -/
theorem newline_not_mem_dropLast {text line : List Char} (h : line ∈ lines text) : '\n' ∉ line.dropLast := by
  induction text generalizing line with
  | nil => cases h
  | cons c text ih =>
    rw [lines] at h
    split_ifs at h with hc
    · rcases List.mem_cons.mp h with rfl | h
      · exact List.not_mem_nil
      · exact ih h
    · cases hlines : lines text with
      | nil =>
        rw [hlines, List.mem_singleton] at h
        rw [h]
        exact List.not_mem_nil
      | cons first others =>
        rw [hlines] at h ih
        rcases List.mem_cons.mp h with rfl | h
        · intro hmem
          cases first with
          | nil => cases hmem
          | cons d first =>
            rcases List.mem_cons.mp hmem with hcd | hmem
            · exact hc hcd.symm
            · exact ih (List.mem_cons_self ..) hmem
        · exact ih (List.mem_cons_of_mem _ h)

theorem mem_of_mem_lines {text line : List Char} {c : Char} (h : line ∈ lines text) (hc : c ∈ line) : c ∈ text := by
  have hflatten : (lines text).flatten = text := by
    clear h hc
    induction text with
    | nil => rfl
    | cons d text ih =>
      rw [lines]
      split_ifs
      · rw [List.flatten_cons, ih, List.singleton_append]
      · cases hlines : lines text with
        | nil => rw [← ih, hlines]; rfl
        | cons first others => rw [← ih, hlines]; rfl
  rw [← hflatten]
  exact List.mem_flatten.mpr ⟨line, h, hc⟩

theorem newline_not_mem_strip {text line : List Char} (h : line ∈ lines text) : '\n' ∉ strip line := by
  intro hmem
  have hdrop := newline_not_mem_dropLast h
  have hspace : ∀ c ∈ ['\n'], isspace c = true := List.all_eq_true.mp rfl
  cases line using List.reverseRecOn with
  | nil => cases hmem
  | append_singleton line c =>
    rw [List.dropLast_concat] at hdrop
    have hc : c = '\n' := by
      by_contra hne
      rcases List.mem_append.mp (mem_of_mem_strip hmem) with hmem | hmem
      · exact hdrop hmem
      · exact hne (List.mem_singleton.mp hmem).symm
    subst hc
    by_cases hl : lstrip line = []
    · have hstrip : lstrip (line ++ ['\n']) = [] := by
        unfold lstrip at hl ⊢
        rw [List.dropWhile_append, if_pos (List.isEmpty_iff.mpr hl)]
        rfl
      rw [strip, hstrip] at hmem
      cases hmem
    · rw [strip, lstrip_append_of_ne_nil hl, rstrip_append_space _ hspace] at hmem
      exact hdrop ((lstrip_suffix line).subset ((rstrip_initial _).subset hmem))

theorem return_not_mem_universalNewlines (text : List Char) : '\r' ∉ universalNewlines text := by
  induction text using universalNewlines.induct with
  | case1 => exact List.not_mem_nil
  | case2 text ih => exact List.not_mem_cons_of_ne_of_not_mem (by decide) ih
  | case3 text _ ih =>
    rw [universalNewlines]
    · exact List.not_mem_cons_of_ne_of_not_mem (by decide) ih
    · assumption
  | case4 c text h1 h2 ih =>
    rw [universalNewlines]
    · exact List.not_mem_cons_of_ne_of_not_mem (fun hc => h2 hc.symm) ih
    · assumption
    · assumption

/-- A text without carriage returns stays as it is. -/
theorem universalNewlines_eq {text : List Char} (h : '\r' ∉ text) : universalNewlines text = text := by
  induction text with
  | nil => rfl
  | cons c text ih =>
    have hc : c ≠ '\r' := fun hc => h (hc ▸ List.mem_cons_self ..)
    rw [universalNewlines, ih fun hmem => h (List.mem_cons_of_mem _ hmem)]
    · rintro _ rfl
      exact absurd rfl hc
    · exact hc

end Lines

end Soar.Library.Text
