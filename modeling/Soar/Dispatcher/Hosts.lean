import Soar.Dispatcher.Dictionary
import Soar.Library.Text

/-! The hosts file, from which the handlers take the names of the nodes. -/
namespace Soar.Dispatcher
open Soar.Library.Text

/-- Addresses with their names. -/
abbrev Hosts := List (String × List String)

/-- `line.split('#')[0].split()`. -/
def fields (line : List Char) : List String := (split (line.takeWhile (· ≠ '#'))).map String.ofList

/-- `hosts[ip] = hostnames` for a line; `[0]` raises on a line without a field. -/
def Hosts.addLine (hosts : Hosts) (line : List Char) : Option Hosts :=
  match fields line with
  | [] => none
  | ip :: hostnames => some (updateKey [] (fun _ => hostnames) ip hosts)

/-- The lines that are kept, stripped. -/
def keptLines (lines : List (List Char)) : List (List Char) :=
  (lines.filter fun line => line.head? ≠ some '#' ∧ strip line ≠ []).map strip

/-- `get_etc_hostnames` for the content of the file. -/
def getEtcHostnames (content : List Char) : Option Hosts :=
  (keptLines (lines (universalNewlines content))).foldlM Hosts.addLine []

/-- What a line of a hosts file says, if anything stands before its comment. -/
def hostsEntry (line : List Char) : Option (String × List String) :=
  match fields line with
  | [] => none
  | address :: names => some (address, names)

/-- The names of an address are those of its last entry. -/
def Hosts.Reads (hosts : Hosts) (content : List Char) : Prop :=
  ∀ address, hosts.lookup address = ((lines (universalNewlines content)).filterMap hostsEntry).reverse.lookup address

/-- A comment with white space before it. -/
def IndentedComment (line : List Char) : Prop := line.head? ≠ some '#' ∧ (lstrip line).head? = some '#'

instance (line : List Char) : Decidable (IndentedComment line) := inferInstanceAs (Decidable (_ ∧ _))

section Lines

variable {line : List Char}

private theorem ne_hash_of_isspace (c : Char) (hc : isspace c = true) : decide (c ≠ '#') = true := by
  apply decide_eq_true
  rintro rfl
  exact absurd hc (by decide)

theorem fields_strip (line : List Char) : fields (strip line) = fields line := by
  unfold fields
  rw [split_takeWhile_strip ne_hash_of_isspace]

theorem fields_lstrip (line : List Char) : fields (lstrip line) = fields line := by
  unfold fields
  rw [split_takeWhile_lstrip ne_hash_of_isspace]

private theorem IndentedComment.kept (h : IndentedComment line) : line.head? ≠ some '#' ∧ strip line ≠ [] := by
  refine ⟨h.1, fun hstrip => ?_⟩
  obtain ⟨rest, hrest⟩ := List.head?_eq_some_iff.mp h.2
  have hspace := List.rdropWhile_eq_nil_iff.mp hstrip '#' (hrest ▸ List.mem_cons_self ..)
  exact absurd hspace (by decide)

private theorem hostsEntry_of_not_kept (h : ¬ (line.head? ≠ some '#' ∧ strip line ≠ [])) : hostsEntry line = none := by
  have hfields : fields line = [] := by
    by_cases hhash : line.head? = some '#'
    · obtain ⟨rest, rfl⟩ := List.head?_eq_some_iff.mp hhash
      rfl
    · rw [← fields_strip, not_not.mp fun hne => h ⟨hhash, hne⟩]
      rfl
  unfold hostsEntry
  rw [hfields]

private theorem fields_eq_nil_iff (hkept : line.head? ≠ some '#' ∧ strip line ≠ []) :
    fields line = [] ↔ IndentedComment line := by
  cases hl : lstrip line with
  | nil => exact absurd (by rw [strip, hl]; rfl) hkept.2
  | cons c rest =>
    have hfields : fields line = fields (c :: rest) := by rw [← hl, fields_lstrip]
    by_cases hc : c = '#'
    · subst hc
      exact iff_of_true hfields ⟨hkept.1, congrArg List.head? hl⟩
    · refine iff_of_false (fun hnil => ?_) fun h => hc ?_
      · have hmark : decide (c ≠ '#') = true := decide_eq_true hc
        rw [hfields, fields, List.takeWhile_cons, if_pos hmark, List.map_eq_nil_iff] at hnil
        exact split_ne_nil (lstrip_head hl) _ hnil
      · exact Option.some.inj ((congrArg List.head? hl).symm.trans h.2)

end Lines

private theorem addLine_strip (hosts : Hosts) {line : List Char} (hkept : line.head? ≠ some '#' ∧ strip line ≠ [])
    (hline : ¬ IndentedComment line) :
    ∃ ip hostnames, hostsEntry line = some (ip, hostnames) ∧
      hosts.addLine (strip line) = some (updateKey [] (fun _ => hostnames) ip hosts) := by
  unfold hostsEntry Hosts.addLine
  rw [fields_strip]
  cases hfields : fields line with
  | nil => exact absurd ((fields_eq_nil_iff hkept).mp hfields) hline
  | cons ip hostnames => exact ⟨ip, hostnames, rfl, rfl⟩

private theorem foldlM_addLine {lines : List (List Char)} (h : ∀ line ∈ lines, ¬ IndentedComment line) (hosts : Hosts) :
    ∃ hosts', (keptLines lines).foldlM Hosts.addLine hosts = some hosts' ∧
      ∀ address, hosts'.lookup address =
        ((lines.filterMap hostsEntry).reverse.lookup address).or (hosts.lookup address) := by
  induction lines generalizing hosts with
  | nil => exact ⟨hosts, rfl, fun _ => rfl⟩
  | cons line lines ih =>
    obtain ⟨hline, h⟩ := List.forall_mem_cons.mp h
    unfold keptLines at ih ⊢
    rw [List.filter_cons]
    split_ifs with hkept
    · obtain ⟨ip, hostnames, hentry, hadd⟩ := addLine_strip hosts (of_decide_eq_true hkept) hline
      obtain ⟨hosts', hrun, hlookup⟩ := ih h (updateKey [] (fun _ => hostnames) ip hosts)
      refine ⟨hosts', ?_, fun address => ?_⟩
      · rw [List.map_cons, List.foldlM_cons, hadd]
        exact hrun
      · rw [hlookup, lookup_updateKey, List.filterMap_cons_some hentry, List.reverse_cons,
          List.lookup_append, Option.or_assoc]
        by_cases hip : address = ip
        · simp [hip]
        · rw [if_neg hip, List.lookup_cons, beq_false_of_ne hip, List.lookup_nil, Option.none_or]
    · obtain ⟨hosts', hrun, hlookup⟩ := ih h hosts
      refine ⟨hosts', hrun, fun address => ?_⟩
      rw [hlookup, List.filterMap_cons_none (hostsEntry_of_not_kept fun hk => hkept (decide_eq_true hk))]

private theorem foldlM_addLine_eq_none {lines : List (List Char)} {line : List Char} (hline : line ∈ lines)
    (hcomment : IndentedComment line) (hosts : Hosts) : (keptLines lines).foldlM Hosts.addLine hosts = none := by
  induction lines generalizing hosts with
  | nil => cases hline
  | cons l lines ih =>
    unfold keptLines at ih ⊢
    rw [List.filter_cons]
    rcases List.mem_cons.mp hline with rfl | hline
    · rw [if_pos (decide_eq_true hcomment.kept), List.map_cons, List.foldlM_cons]
      have hadd : hosts.addLine (strip line) = none := by
        unfold Hosts.addLine
        rw [fields_strip, (fields_eq_nil_iff hcomment.kept).mpr hcomment]
      rw [hadd]
      rfl
    · split_ifs
      · rw [List.map_cons, List.foldlM_cons]
        cases hosts.addLine (strip l) with
        | none => rfl
        | some hosts' => exact ih hline hosts'
      · exact ih hline hosts

/-- The function returns the entries of a file exactly if no comment in it has white space before it. -/
theorem getEtcHostnames_reads_iff (content : List Char) :
    (∃ hosts, getEtcHostnames content = some hosts ∧ hosts.Reads content) ↔
      ∀ line ∈ lines (universalNewlines content), ¬ IndentedComment line := by
  constructor
  · rintro ⟨hosts, hrun, -⟩ line hline hcomment
    rw [getEtcHostnames, foldlM_addLine_eq_none hline hcomment] at hrun
    cases hrun
  · intro h
    obtain ⟨hosts, hrun, hlookup⟩ := foldlM_addLine h []
    refine ⟨hosts, hrun, fun address => ?_⟩
    rw [hlookup, List.lookup_nil, Option.or_none]

/-- An address, and a comment on a line of its own after a blank. -/
def indentedComment : List Char := ['1', ' ', 'a', '\n', ' ', '#', '\n']

/-- `''.split()[0]` raises an `IndexError`. -/
theorem not_getEtcHostnames_indentedComment :
    getEtcHostnames indentedComment = none ∧
      ¬ ∃ hosts, getEtcHostnames indentedComment = some hosts ∧ hosts.Reads indentedComment := by
  have hnone : getEtcHostnames indentedComment = none := by decide
  refine ⟨hnone, ?_⟩
  rintro ⟨hosts, hrun, -⟩
  rw [hnone] at hrun
  cases hrun

end Soar.Dispatcher
