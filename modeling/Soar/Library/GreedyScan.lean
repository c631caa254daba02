import Mathlib.Data.List.MinMax
import Mathlib.Data.List.Sort
import Mathlib.Data.Prod.Lex

/-! A scan in the order of one key for the least of another, with an early exit. -/
namespace Soar.Library

variable {α β γ : Type*} [LinearOrder β] [LinearOrder γ]

/-- The scan ends at the first element with `stop`; of those with `keep` the first of least cost stays. -/
def scan (stop keep : α → Prop) [DecidablePred stop] [DecidablePred keep] (cost : α → β) :
    List α → Option α → Option α
  | [], best => best
  | x :: l, best =>
    if stop x then best
    else scan stop keep cost l (if keep x then List.argAux (fun b c => cost b < cost c) best x else best)

/-- The lower of `x` and the element found so far, `x` itself on ties. -/
def lower (cost : α → β) (x : α) : Option α → Option α
  | none => some x
  | some c => if cost c < cost x then some c else some x

theorem argmin_cons_lower (cost : α → β) (x : α) (l : List α) :
    (x :: l).argmin cost = lower cost x (l.argmin cost) := by
  rw [List.argmin_cons]
  cases l.argmin cost <;> rfl

theorem argmin_map {δ : Type*} (cost : α → β) (f : δ → α) (l : List δ) :
    (l.map f).argmin cost = (l.argmin (cost ∘ f)).map f := by
  induction l with
  | nil => rfl
  | cons x l ih =>
    rw [List.map_cons, argmin_cons_lower, argmin_cons_lower, ih]
    cases l.argmin (cost ∘ f) with
    | none => rfl
    | some c =>
      simp only [Option.map_some, lower, Function.comp_apply]
      split_ifs <;> rfl

section Scan

variable {stop keep : α → Prop} [DecidablePred stop] [DecidablePred keep] {cost : α → β}

private theorem scan_eq_foldl {l : List α} (hkeep : ∀ x ∈ l, stop x → ¬ keep x)
    (hup : l.Pairwise fun x y => stop x → stop y) (best : Option α) :
    scan stop keep cost l best = (l.filter keep).foldl (List.argAux fun b c => cost b < cost c) best := by
  induction l generalizing best with
  | nil => rfl
  | cons x l ih =>
    obtain ⟨hx, hl⟩ := List.pairwise_cons.mp hup
    have hkeep' := fun y hy => hkeep y (List.mem_cons_of_mem _ hy)
    unfold scan
    split_ifs with hstop hk
    · have hnone : (x :: l).filter (fun y => decide (keep y)) = [] := by
        apply List.filter_eq_nil_iff.mpr
        intro y hy
        have hy' : stop y := by
          rcases List.mem_cons.mp hy with rfl | hmem
          · exact hstop
          · exact hx y hmem hstop
        simpa using hkeep y hy hy'
      rw [hnone]
      rfl
    · rw [ih hkeep' hl, List.filter_cons_of_pos (by simpa using hk), List.foldl_cons]
    · rw [ih hkeep' hl, List.filter_cons_of_neg (by simpa using hk)]

/-- An early exit that no kept element is behind does not change what the scan finds. -/
theorem scan_eq_argmin {l : List α} (hkeep : ∀ x ∈ l, stop x → ¬ keep x)
    (hup : l.Pairwise fun x y => stop x → stop y) :
    scan stop keep cost l none = (l.filter keep).argmin cost :=
  scan_eq_foldl hkeep hup none

/-- What the scan finds is kept, or was there before. -/
theorem scan_keeps {l : List α} {best : Option α} {x : α} (h : scan stop keep cost l best = some x) :
    best = some x ∨ x ∈ l ∧ keep x ∧ ¬ stop x := by
  induction l generalizing best with
  | nil => exact .inl h
  | cons y l ih =>
    unfold scan at h
    split_ifs at h with hstop hk
    · exact .inl h
    · rcases ih h with hbest | ⟨hmem, hx⟩
      · cases best with
        | none =>
          cases hbest
          exact .inr ⟨List.mem_cons_self .., hk, hstop⟩
        | some b =>
          simp only [List.argAux] at hbest
          split_ifs at hbest
          · cases hbest
            exact .inr ⟨List.mem_cons_self .., hk, hstop⟩
          · exact .inl hbest
      · exact .inr ⟨List.mem_cons_of_mem _ hmem, hx⟩
    · rcases ih h with hbest | ⟨hmem, hx⟩
      · exact .inl hbest
      · exact .inr ⟨List.mem_cons_of_mem _ hmem, hx⟩

end Scan

section SortedScan

variable {key : α → γ} {cost : α → β}

private theorem orderedInsert_of_key_le {x y : α} (l : List α) (h : key x ≤ key y) :
    (y :: l).orderedInsert (fun a b => key a ≤ key b) x = x :: y :: l :=
  List.orderedInsert_cons_of_le (fun a b => key a ≤ key b) l h

private theorem orderedInsert_of_key_lt {x y : α} (l : List α) (h : ¬ key x ≤ key y) :
    (y :: l).orderedInsert (fun a b => key a ≤ key b) x = y :: l.orderedInsert (fun a b => key a ≤ key b) x :=
  List.orderedInsert_of_not_le (fun a b => key a ≤ key b) l h

theorem pairwise_insertionSort_key (l : List α) :
    (l.insertionSort fun a b => key a ≤ key b).Pairwise fun a b => key a ≤ key b :=
  haveI : Std.Total fun a b : α => key a ≤ key b := ⟨fun a b => le_total (key a) (key b)⟩
  haveI : IsTrans α fun a b => key a ≤ key b := ⟨fun _ _ _ => le_trans⟩
  List.pairwise_insertionSort _ l

private theorem lower_lex_of_key_le {x c : α} (h : key x ≤ key c) :
    lower (fun a => toLex (cost a, key a)) x (some c) = lower cost x (some c) := by
  have hiff : toLex (cost c, key c) < toLex (cost x, key x) ↔ cost c < cost x := by
    rw [Prod.Lex.toLex_lt_toLex]
    exact ⟨fun hlt => hlt.resolve_right fun ⟨_, hk⟩ => absurd hk h.not_gt, .inl⟩
  simp only [lower, hiff]

private theorem lower_comm {x y : α} (h : key y < key x) (best : Option α) :
    lower cost y (lower (fun a => toLex (cost a, key a)) x best) =
      lower (fun a => toLex (cost a, key a)) x (lower cost y best) := by
  have hyx : toLex (cost y, key y) < toLex (cost x, key x) ↔ ¬ cost x < cost y := by
    rw [Prod.Lex.toLex_lt_toLex, not_lt, le_iff_lt_or_eq]
    simp [h]
  cases best with
  | none =>
    simp only [lower, hyx]
    split_ifs <;> rfl
  | some c =>
    rcases lt_or_ge (cost c) (cost y) with hcy | hcy
    · by_cases hcx : toLex (cost c, key c) < toLex (cost x, key x)
      · simp only [lower, hcx, hcy, if_true]
      · have hle : cost x ≤ cost c := by
          rw [Prod.Lex.toLex_lt_toLex] at hcx
          exact not_lt.mp fun hlt => hcx (.inl hlt)
        simp only [lower, hcx, hcy, hle.trans_lt hcy, if_true, if_false]
    · by_cases hcx : toLex (cost c, key c) < toLex (cost x, key x)
      · have hle : cost c ≤ cost x := by
          rcases Prod.Lex.toLex_lt_toLex.mp hcx with hlt | ⟨heq, -⟩
          · exact hlt.le
          · exact heq.le
        simp only [lower, hcx, hcy.not_gt, hyx, (hcy.trans hle).not_gt, if_true, if_false, not_false_iff]
      · simp only [lower, hcx, hcy.not_gt, hyx, if_false]
        split_ifs <;> rfl

private theorem argmin_orderedInsert (x : α) (l : List α) (hl : l.Pairwise fun a b => key a ≤ key b) :
    (l.orderedInsert (fun a b => key a ≤ key b) x).argmin cost =
      lower (fun a => toLex (cost a, key a)) x (l.argmin cost) := by
  induction l with
  | nil => rfl
  | cons y l ih =>
    obtain ⟨hy, hl'⟩ := List.pairwise_cons.mp hl
    by_cases hxy : key x ≤ key y
    · rw [orderedInsert_of_key_le _ hxy, argmin_cons_lower]
      cases hc : (y :: l).argmin cost with
      | none => rfl
      | some c =>
        have hkey : key x ≤ key c := by
          rcases List.mem_cons.mp (List.argmin_mem hc) with rfl | hmem
          · exact hxy
          · exact hxy.trans (hy c hmem)
        exact (lower_lex_of_key_le hkey).symm
    · rw [orderedInsert_of_key_lt _ hxy, argmin_cons_lower, argmin_cons_lower, ih hl']
      exact lower_comm (not_le.mp hxy) _

/-- The first of least cost in a list sorted by a key is the first of least cost, then key, in the list. -/
theorem argmin_insertionSort (l : List α) :
    (l.insertionSort fun a b => key a ≤ key b).argmin cost = l.argmin fun a => toLex (cost a, key a) := by
  induction l with
  | nil => rfl
  | cons x l ih =>
    rw [List.insertionSort_cons, argmin_orderedInsert x _ (pairwise_insertionSort_key l), ih, argmin_cons_lower]

private theorem filter_orderedInsert {keep : α → Prop} [DecidablePred keep] (x : α) (l : List α)
    (hl : l.Pairwise fun a b => key a ≤ key b) :
    (l.orderedInsert (fun a b => key a ≤ key b) x).filter keep =
      if keep x then (l.filter keep).orderedInsert (fun a b => key a ≤ key b) x else l.filter keep := by
  induction l with
  | nil => by_cases hx : keep x <;> simp [hx]
  | cons y l ih =>
    obtain ⟨hy, hl'⟩ := List.pairwise_cons.mp hl
    by_cases hxy : key x ≤ key y
    · rw [orderedInsert_of_key_le _ hxy]
      by_cases hx : keep x
      · rw [List.filter_cons_of_pos (by simpa using hx), if_pos hx]
        cases hf : (y :: l).filter (fun a => decide (keep a)) with
        | nil => rfl
        | cons z rest =>
          have hz : z ∈ y :: l := List.mem_of_mem_filter (hf ▸ List.mem_cons_self ..)
          have hxz : key x ≤ key z := by
            rcases List.mem_cons.mp hz with rfl | hmem
            · exact hxy
            · exact hxy.trans (hy z hmem)
          rw [orderedInsert_of_key_le _ hxz]
      · rw [List.filter_cons_of_neg (by simpa using hx), if_neg hx]
    · rw [orderedInsert_of_key_lt _ hxy]
      by_cases hk : keep y
      · rw [List.filter_cons_of_pos (by simpa using hk), List.filter_cons_of_pos (by simpa using hk), ih hl']
        split_ifs
        · rw [orderedInsert_of_key_lt _ hxy]
        · rfl
      · rw [List.filter_cons_of_neg (by simpa using hk), List.filter_cons_of_neg (by simpa using hk), ih hl']

theorem filter_insertionSort {keep : α → Prop} [DecidablePred keep] (l : List α) :
    (l.insertionSort fun a b => key a ≤ key b).filter keep =
      (l.filter keep).insertionSort fun a b => key a ≤ key b := by
  induction l with
  | nil => rfl
  | cons x l ih =>
    rw [List.insertionSort_cons, filter_orderedInsert x _ (pairwise_insertionSort_key l), ih]
    by_cases hx : keep x
    · rw [if_pos hx, List.filter_cons_of_pos (by simpa using hx), List.insertionSort_cons]
    · rw [if_neg hx, List.filter_cons_of_neg (by simpa using hx)]

/-- Scanning in the order of the key with an early exit finds the kept element of least cost, then
of least key, then of least index. -/
theorem scan_insertionSort {stop keep : α → Prop} [DecidablePred stop] [DecidablePred keep] {l : List α}
    (hkeep : ∀ x ∈ l, stop x → ¬ keep x) (hup : ∀ x y, key x ≤ key y → stop x → stop y) :
    scan stop keep cost (l.insertionSort fun a b => key a ≤ key b) none =
      (l.filter keep).argmin fun a => toLex (cost a, key a) := by
  have hkeep' : ∀ x ∈ l.insertionSort fun a b => key a ≤ key b, stop x → ¬ keep x :=
    fun x hx => hkeep x ((List.mem_insertionSort _).mp hx)
  rw [scan_eq_argmin hkeep' ((pairwise_insertionSort_key l).imp fun {x y} hxy hx => hup x y hxy hx),
    filter_insertionSort, argmin_insertionSort]

end SortedScan

end Soar.Library
