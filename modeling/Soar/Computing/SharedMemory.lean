import Mathlib.Data.List.Infix
import Mathlib.Data.UInt
import Mathlib.Tactic.Common
import Mathlib.Tactic.Ring

/-! Texts in shared-memory segments: `read_from_memory` and `write_to_memory` of
`utils/crossqueue.py`, and the decimal texts of the ring's indices. -/
namespace Soar.Computing

abbrev Bytes := List UInt8

/-- The four bytes of `b'\END'`. -/
def nullChar : Bytes := [92, 69, 78, 68]

/-- `bytes.find`, with `none` for `-1`. -/
def find (sub : Bytes) : Bytes → Option Nat
  | [] => if sub = [] then some 0 else none
  | b :: s => if sub <+: b :: s then some 0 else (find sub s).map (· + 1)

/-- `read_from_memory`, up to the conversion of the bytes. -/
def readFromMemory (memory : Bytes) : Bytes :=
  match find nullChar memory with
  | some i => memory.take i
  | none => memory

/-- `write_to_memory` overwrites the start of the segment, and raises if the text and its
sentinel do not fit. -/
def writeToMemory (s memory : Bytes) : Option Bytes :=
  if (s ++ nullChar).length ≤ memory.length then
    some (s ++ nullChar ++ memory.drop (s ++ nullChar).length)
  else none

/-- A text that `read_from_memory` does not cut. -/
def SentinelFree (s : Bytes) : Prop := ¬ nullChar <:+: s

instance (s : Bytes) : Decidable (SentinelFree s) := instDecidableNot

theorem sentinelFree_of_length {s : Bytes} (h : s.length < 4) : SentinelFree s := fun hs =>
  absurd hs.length_le (Nat.not_le.mpr h)

private theorem not_prefix_cons {b : UInt8} {s : Bytes} (hs : SentinelFree (b :: s)) (rest : Bytes) :
    ¬ nullChar <+: b :: (s ++ nullChar ++ rest) := by
  -- the sentinel's first byte occurs in it only once, so no occurrence straddles its start
  intro h
  obtain ⟨hb, h1⟩ := List.cons_prefix_cons.mp h
  rcases s with _ | ⟨c, s⟩
  · exact absurd (List.cons_prefix_cons.mp h1).1 (by decide)
  obtain ⟨hc, h2⟩ := List.cons_prefix_cons.mp h1
  rcases s with _ | ⟨d, s⟩
  · exact absurd (List.cons_prefix_cons.mp h2).1 (by decide)
  obtain ⟨hd, h3⟩ := List.cons_prefix_cons.mp h2
  rcases s with _ | ⟨e, s⟩
  · exact absurd (List.cons_prefix_cons.mp h3).1 (by decide)
  obtain ⟨he, -⟩ := List.cons_prefix_cons.mp h3
  subst hb hc hd he
  exact hs ⟨[], s, rfl⟩

theorem SentinelFree.tail {b : UInt8} {s : Bytes} (hs : SentinelFree (b :: s)) : SentinelFree s := by
  intro h
  exact hs (h.trans (List.suffix_cons b s).isInfix)

/-- The sentinel behind a text without sentinels is found at its end. -/
theorem find_append {s : Bytes} (hs : SentinelFree s) (rest : Bytes) :
    find nullChar (s ++ nullChar ++ rest) = some s.length := by
  induction s with
  | nil => exact if_pos ⟨rest, rfl⟩
  | cons b s ih =>
    rw [List.cons_append, List.cons_append, find, if_neg (not_prefix_cons hs rest), ih hs.tail]
    rfl

private theorem find_written (s rest : Bytes) :
    ∃ i ≤ s.length, find nullChar (s ++ nullChar ++ rest) = some i ∧ find nullChar (s ++ nullChar) = some i := by
  induction s with
  | nil => exact ⟨0, le_rfl, if_pos ⟨rest, rfl⟩, rfl⟩
  | cons b s ih =>
    obtain ⟨i, hi, hfind, hfind'⟩ := ih
    have hprefix : nullChar <+: b :: (s ++ nullChar ++ rest) ↔ nullChar <+: b :: (s ++ nullChar) := by
      refine ⟨fun h => ?_, fun h => h.trans ⟨rest, rfl⟩⟩
      apply List.prefix_of_prefix_length_le h ⟨rest, rfl⟩
      simp [nullChar]
    simp only [List.cons_append, find, hprefix, hfind, hfind']
    split_ifs
    · exact ⟨0, Nat.zero_le _, rfl, rfl⟩
    · exact ⟨i + 1, Nat.succ_le_succ hi, rfl, rfl⟩

/-- What is read of a text that was written. -/
def cut (s : Bytes) : Bytes := readFromMemory (s ++ nullChar)

/-- It does not depend on what the segment held. -/
theorem readFromMemory_written {s memory memory' : Bytes} (h : writeToMemory s memory = some memory') :
    readFromMemory memory' = cut s := by
  obtain ⟨-, h⟩ := Option.ite_none_right_eq_some.mp h
  obtain rfl := Option.some.inj h
  obtain ⟨i, hi, hfind, hfind'⟩ := find_written s (memory.drop (s ++ nullChar).length)
  rw [cut, readFromMemory, readFromMemory, hfind, hfind']
  dsimp only
  rw [List.append_assoc, List.take_append_of_le_length hi, List.take_append_of_le_length hi]

theorem cut_initial (s : Bytes) : cut s <+: s := by
  obtain ⟨i, hi, hfind, hfind'⟩ := find_written s []
  rw [cut, readFromMemory, hfind']
  dsimp only
  rw [List.take_append_of_le_length hi]
  exact List.take_prefix i s

theorem cut_eq_self_iff {s : Bytes} : cut s = s ↔ SentinelFree s := by
  constructor
  · rintro hcut ⟨start, rest, rfl⟩
    obtain ⟨i, hi, hfind, -⟩ := find_written start (rest ++ nullChar)
    have hlength := congrArg List.length hcut
    rw [cut, readFromMemory, List.append_assoc (start ++ nullChar), hfind] at hlength
    simp [nullChar] at hlength
    omega
  · intro hs
    have hfind := find_append hs []
    rw [List.append_nil] at hfind
    rw [cut, readFromMemory, hfind]
    exact List.take_left

/-- What is written is read back, whatever the segment held. -/
theorem readFromMemory_writeToMemory {s memory memory' : Bytes} (hs : SentinelFree s)
    (h : writeToMemory s memory = some memory') : readFromMemory memory' = s :=
  (readFromMemory_written h).trans (cut_eq_self_iff.mpr hs)

/-- What a get reads of a payload that was put. -/
def asRead {τ : Type} (x : Bytes × τ) : Bytes × τ := (cut x.1, x.2)

theorem asRead_eq {τ : Type} {x : Bytes × τ} (h : SentinelFree x.1) : asRead x = x :=
  Prod.ext (cut_eq_self_iff.mpr h) rfl

theorem mem_of_mem_readFromMemory {b : UInt8} {memory : Bytes} (h : b ∈ readFromMemory memory) : b ∈ memory := by
  unfold readFromMemory at h
  split at h
  · exact List.mem_of_mem_take h
  · exact h

/-! The decimal text of an index, `str` and `int` of the source. -/

def str (n : Nat) : Bytes := (Nat.toDigits 10 n).map Char.toUInt8

def isDigit (b : UInt8) : Bool := 48 ≤ b && b ≤ 57

/-- `int` on the texts the ring's segments hold: a decimal text, or a fresh segment's bytes,
on which it raises. -/
def int? (s : Bytes) : Option Nat :=
  if s ≠ [] ∧ s.all isDigit then some (Nat.ofDigitChars 10 (s.map Char.ofUInt8) 0) else none

/-- `try: x = int(read_from_memory(memory)) except: pass`. -/
def readInt (cached : Nat) (memory : Bytes) : Nat := (int? (readFromMemory memory)).getD cached

private theorem digit_cases {c : Char} (h : c.isDigit) :
    isDigit c.toUInt8 = true ∧ c.toUInt8 ≠ 92 ∧ Char.ofUInt8 c.toUInt8 = c := by
  have hc : 48 ≤ c.toNat ∧ c.toNat ≤ 57 := by
    simpa [Char.isDigit, UInt32.le_iff_toNat_le] using h
  have hmod : c.toUInt8.toNat = c.toNat := by
    have : c.toUInt8.toNat = c.toNat % 256 := UInt32.toNat_toUInt8 c.val
    omega
  refine ⟨?_, ?_, ?_⟩
  · simp [isDigit, UInt8.le_iff_toNat_le, hmod, hc]
  · intro he
    rw [he] at hmod
    simp at hmod
    omega
  · apply Char.ext
    apply UInt32.toNat.inj
    exact (UInt8.toNat_toUInt32 c.toUInt8).trans hmod

theorem str_ne_nil (n : Nat) : str n ≠ [] := by
  simp [str, Nat.toDigits_ne_nil]

theorem mem_str {n : Nat} {b : UInt8} (h : b ∈ str n) : isDigit b = true ∧ b ≠ 92 := by
  obtain ⟨c, hc, rfl⟩ := List.mem_map.mp h
  have hd := digit_cases (Nat.isDigit_of_mem_toDigits (by decide) (by decide) hc)
  exact ⟨hd.1, hd.2.1⟩

theorem sentinelFree_str (n : Nat) : SentinelFree (str n) := by
  intro h
  exact (mem_str (h.subset (List.mem_cons_self ..))).2 rfl

private theorem map_ofUInt8_str (n : Nat) : (str n).map Char.ofUInt8 = Nat.toDigits 10 n := by
  rw [str, List.map_map]
  refine (List.map_congr_left fun c hc => ?_).trans (List.map_id _)
  exact (digit_cases (Nat.isDigit_of_mem_toDigits (by decide) (by decide) hc)).2.2

theorem int?_str (n : Nat) : int? (str n) = some n := by
  have hall : (str n).all isDigit = true := List.all_eq_true.mpr fun _ hb => (mem_str hb).1
  rw [int?, if_pos ⟨str_ne_nil n, hall⟩, map_ofUInt8_str, Nat.ofDigitChars_ten_toDigits]

private theorem ofDigitChars_eq (l : List Char) (init : Nat) :
    Nat.ofDigitChars 10 l init = init * 10 ^ l.length + Nat.ofDigitChars 10 l 0 := by
  induction l generalizing init with
  | nil => simp
  | cons c l ih =>
    rw [Nat.ofDigitChars_cons, Nat.ofDigitChars_cons, ih, ih (10 * 0 + _), List.length_cons, pow_succ]
    ring

/-- `int(str(a) + str(b))`. -/
theorem int?_str_append (a b : Nat) :
    int? (str a ++ str b) = some (a * 10 ^ (Nat.toDigits 10 b).length + b) := by
  have hall : (str a ++ str b).all isDigit = true := by
    apply List.all_eq_true.mpr
    intro c hc
    rcases List.mem_append.mp hc with hc | hc
    · exact (mem_str hc).1
    · exact (mem_str hc).1
  have hne : str a ++ str b ≠ [] := List.append_ne_nil_of_left_ne_nil (str_ne_nil a) _
  rw [int?, if_pos ⟨hne, hall⟩, List.map_append, map_ofUInt8_str, map_ofUInt8_str, Nat.ofDigitChars_append,
    ofDigitChars_eq, Nat.ofDigitChars_ten_toDigits, Nat.ofDigitChars_ten_toDigits]

/-- After a write every process reads the index, whatever value it has cached. -/
theorem readInt_writeToMemory {n : Nat} {memory memory' : Bytes} (h : writeToMemory (str n) memory = some memory')
    (cached : Nat) : readInt cached memory' = n := by
  rw [readInt, readFromMemory_writeToMemory (sentinelFree_str n) h, int?_str]
  rfl

/-- A fresh segment is no index: the cached value stays. -/
theorem readInt_replicate {blank : UInt8} (hb : isDigit blank = false) (n cached : Nat) :
    readInt cached (List.replicate n blank) = cached := by
  have hnone : int? (readFromMemory (List.replicate n blank)) = none := by
    refine if_neg fun ⟨hne, hall⟩ => ?_
    obtain ⟨b, hmem⟩ := List.exists_mem_of_ne_nil _ hne
    have hdigit := List.all_eq_true.mp hall b hmem
    rw [List.eq_of_mem_replicate (mem_of_mem_readFromMemory hmem), hb] at hdigit
    exact Bool.noConfusion hdigit
  rw [readInt, hnone]
  rfl

@[simp] theorem readInt_readInt (cached : Nat) (memory : Bytes) :
    readInt (readInt cached memory) memory = readInt cached memory := by
  unfold readInt
  cases int? (readFromMemory memory) <;> rfl

end Soar.Computing
