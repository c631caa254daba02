import Mathlib.Data.List.Perm.Basic
import Mathlib.Tactic.SplitIfs

/-! A binary heap in a vector whose comparison may fail, with the two sifts of Python's `heapq`. -/
namespace Soar.Library

variable {α : Type} {n : Nat}

section Operations

variable (lt : α → α → Option Bool)

/-- `_siftdown` to the root: the element at `pos` moves up while it is less than its parent. -/
def siftdown (heap : Vector α n) (pos : Nat) (h : pos < n) : Option (Vector α n) :=
  if h0 : 0 < pos then
    match lt heap[pos] heap[(pos - 1) / 2] with
    | none => none
    | some true => siftdown (heap.swap pos ((pos - 1) / 2)) ((pos - 1) / 2) (by omega)
    | some false => some heap
  else some heap
termination_by pos

/-- The left child, unless it is not less than the right one. -/
def smallerChild (heap : Vector α n) (childpos : Nat) (h : childpos < n) :
    Option { c : Nat // c < n ∧ (c = childpos ∨ c = childpos + 1) } :=
  if hr : childpos + 1 < n then
    match lt heap[childpos] heap[childpos + 1] with
    | none => none
    | some true => some ⟨childpos, h, Or.inl rfl⟩
    | some false => some ⟨childpos + 1, hr, Or.inr rfl⟩
  else some ⟨childpos, h, Or.inl rfl⟩

/-- `_siftup`: the element at `pos` moves down to a leaf along the smaller children, and from there up. -/
def siftup (heap : Vector α n) (pos : Nat) (h : pos < n) : Option (Vector α n) :=
  if hc : 2 * pos + 1 < n then
    match smallerChild lt heap (2 * pos + 1) hc with
    | none => none
    | some ⟨c, hcn, _⟩ => siftup (heap.swap pos c) c hcn
  else siftdown lt heap pos h
termination_by n - pos

def heappush (heap : Vector α n) (item : α) : Option (Vector α (n + 1)) :=
  siftdown lt (heap.push item) n (Nat.lt_succ_self n)

/-- The first element, and the heap in which the last one has taken its place. -/
def heappop (heap : Vector α (n + 1)) : Option (α × Vector α n) :=
  if h : 0 < n then
    let rest : Vector α n := heap.pop
    match siftup lt (rest.set 0 heap[n]) 0 h with
    | none => none
    | some rest' => some (heap[0], rest')
  else some (heap[0], heap.pop)

def heappushAll : List α → (Σ n, Vector α n) → Option (Σ n, Vector α n)
  | [], heap => some heap
  | item :: items, heap => do
    let heap' ← heappush lt heap.2 item
    heappushAll items ⟨heap.1 + 1, heap'⟩

/-- The elements in the order in which the heap yields them. -/
def heappopAll : {n : Nat} → Vector α n → Option (List α)
  | 0, _ => some []
  | _ + 1, heap => do
    let (item, rest) ← heappop lt heap
    return item :: (← heappopAll rest)

/-- The order in which the elements come out of an empty heap after all have been pushed. -/
def heapOrder (items : List α) : Option (List α) := do
  let heap ← heappushAll lt items ⟨0, #v[]⟩
  heappopAll lt heap.2

end Operations

/-- What an answer of the comparison says about a preorder. -/
structure Compares (lt : α → α → Option Bool) (le : α → α → Prop) : Prop where
  refl : ∀ a, le a a
  trans : ∀ {a b c}, le a b → le b c → le a c
  of_true : ∀ {a b}, lt a b = some true → le a b
  of_false : ∀ {a b}, lt a b = some false → le b a

section Order

variable (le : α → α → Prop)

/-- The element at `i` is not below its parent. -/
def Edge (heap : Vector α n) (i : Nat) : Prop := ∀ h : i < n, 0 < i → le heap[(i - 1) / 2] heap[i]

def IsHeap (heap : Vector α n) : Prop := ∀ i, Edge le heap i

/-- The parent of `pos` is not above the children of `pos`. -/
def Bridged (heap : Vector α n) (pos : Nat) : Prop :=
  ∀ c, (h : c < n) → 0 < c → (hc : (c - 1) / 2 = pos) → 0 < pos → le heap[(pos - 1) / 2] heap[c]

/-- A heap but for the edge above `pos`. -/
structure HeapBelow (heap : Vector α n) (pos : Nat) : Prop where
  edge : ∀ i, i ≠ pos → Edge le heap i
  bridged : Bridged le heap pos

/-- A heap but for the edges at `pos`. -/
structure HeapAround (heap : Vector α n) (pos : Nat) : Prop where
  edge : ∀ i, i ≠ pos → (0 < i → (i - 1) / 2 ≠ pos) → Edge le heap i
  bridged : Bridged le heap pos

variable {le} {lt : α → α → Option Bool} {heap heap' : Vector α n} {pos : Nat}

/-- The smallest element is at the root. -/
theorem IsHeap.root_le (hle : Compares lt le) (hheap : IsHeap le heap) {i : Nat} (h : i < n) : le heap[0] heap[i] := by
  induction i using Nat.strongRecOn with
  | _ i ih =>
    by_cases h0 : 0 < i
    · exact hle.trans (ih ((i - 1) / 2) (by omega) (by omega)) (hheap i h h0)
    · obtain rfl : i = 0 := by omega
      exact hle.refl _

theorem HeapBelow.swap (hle : Compares lt le) (hinv : HeapBelow le heap pos) (h : pos < n) (h0 : 0 < pos)
    (hlt : lt heap[pos] heap[(pos - 1) / 2] = some true) :
    HeapBelow le (heap.swap pos ((pos - 1) / 2)) ((pos - 1) / 2) := by
  have hnew : le heap[pos] heap[(pos - 1) / 2] := hle.of_true hlt
  constructor
  · intro i hi hin hi0
    simp only [Vector.getElem_swap]
    by_cases hip : i = pos
    · subst hip
      rw [if_neg (by omega), if_pos rfl, if_pos rfl]
      exact hnew
    · by_cases hpi : (i - 1) / 2 = pos
      · rw [if_pos hpi, if_neg hip, if_neg hi]
        exact hinv.bridged i hin hi0 hpi h0
      · rw [if_neg hpi, if_neg hip, if_neg hi]
        split_ifs with hpp
        · have := hinv.edge i hip hin hi0
          simp only [hpp] at this
          exact hle.trans hnew this
        · exact hinv.edge i hip hin hi0
  · intro c hc hc0 hcp hp0
    have hup : le heap[((pos - 1) / 2 - 1) / 2] heap[(pos - 1) / 2] :=
      hinv.edge ((pos - 1) / 2) (by omega) (by omega) hp0
    simp only [Vector.getElem_swap]
    rw [if_neg (by omega), if_neg (by omega)]
    by_cases hcpos : c = pos
    · rw [if_pos hcpos]
      exact hup
    · rw [if_neg hcpos, if_neg (by omega)]
      have := hinv.edge c hcpos hc hc0
      simp only [hcp] at this
      exact hle.trans hup this

/-- The child that `siftup` moves up is not above its sibling. -/
theorem smallerChild_le (hle : Compares lt le) {h : 2 * pos + 1 < n} {c : Nat} (hcn : c < n)
    (hor : c = 2 * pos + 1 ∨ c = 2 * pos + 1 + 1) (hc : smallerChild lt heap (2 * pos + 1) h = some ⟨c, hcn, hor⟩)
    {i : Nat} (hin : i < n) (hi0 : 0 < i) (hip : (i - 1) / 2 = pos) : le heap[c] heap[i] := by
  have hi : i = 2 * pos + 1 ∨ i = 2 * pos + 1 + 1 := by omega
  unfold smallerChild at hc
  split_ifs at hc with hr
  · split at hc
    · cases hc
    · rename_i hlt
      cases hc
      obtain rfl | rfl := hi
      · exact hle.refl _
      · exact hle.of_true hlt
    · rename_i hlt
      cases hc
      obtain rfl | rfl := hi
      · exact hle.of_false hlt
      · exact hle.refl _
  · cases hc
    obtain rfl | rfl := hi
    · exact hle.refl _
    · exact absurd hin hr

theorem HeapAround.swap (hinv : HeapAround le heap pos) {c : Nat} (h : pos < n) (hcn : c < n)
    (hc : c = 2 * pos + 1 ∨ c = 2 * pos + 1 + 1)
    (hmin : ∀ i, (hi : i < n) → 0 < i → (i - 1) / 2 = pos → le heap[c] heap[i]) :
    HeapAround le (heap.swap pos c) c := by
  constructor
  · intro i hic hpc hin hi0
    have hpc := hpc hi0
    simp only [Vector.getElem_swap]
    rw [if_neg hpc, if_neg hic]
    by_cases hip : i = pos
    · rw [if_neg (by omega), if_pos hip]
      exact hip ▸ hinv.bridged c hcn (by omega) (by omega) (by omega)
    · rw [if_neg hip]
      by_cases hpp : (i - 1) / 2 = pos
      · rw [if_pos hpp]
        exact hmin i hin hi0 hpp
      · rw [if_neg hpp]
        exact hinv.edge i hip (fun _ => hpp) hin hi0
  · intro d hd hd0 hdc hc0
    have hcp : (c - 1) / 2 = pos := by omega
    simp only [Vector.getElem_swap]
    rw [if_pos hcp, if_neg (by omega), if_neg (by omega)]
    have := hinv.edge d (by omega) (by omega) hd hd0
    simp only [hdc] at this
    exact this

/-- At a leaf only the edge above is left. -/
theorem HeapAround.below (hinv : HeapAround le heap pos) (hleaf : ¬2 * pos + 1 < n) : HeapBelow le heap pos where
  edge i hi hin hi0 := hinv.edge i hi (by omega) hin hi0
  bridged := hinv.bridged

/-- `siftdown` repairs a heap below the position. -/
theorem siftdown_isHeap (hle : Compares lt le) (h : pos < n) (hinv : HeapBelow le heap pos)
    (hs : siftdown lt heap pos h = some heap') : IsHeap le heap' := by
  fun_induction siftdown lt heap pos h with
  | case1 => cases hs
  | case2 heap pos h h0 hlt ih => exact ih (hinv.swap hle h h0 hlt) hs
  | case3 heap pos h h0 hlt =>
    cases hs
    intro i hin hi0
    by_cases hi : i = pos
    · subst hi
      exact hle.of_false hlt
    · exact hinv.edge i hi hin hi0
  | case4 heap pos h h0 =>
    cases hs
    exact fun i hin hi0 => hinv.edge i (by omega) hin hi0

theorem siftdown_perm (h : pos < n) (hs : siftdown lt heap pos h = some heap') : heap'.toList.Perm heap.toList := by
  fun_induction siftdown lt heap pos h with
  | case1 => cases hs
  | case2 heap pos h h0 hlt ih => exact (ih hs).trans (Vector.swap_perm h (by omega)).toList
  | case3 | case4 =>
    cases hs
    exact List.Perm.refl _

private theorem mem_swap {i j : Nat} {hi : i < n} {hj : j < n} {a : α} : a ∈ heap.swap i j ↔ a ∈ heap :=
  (Vector.swap_perm hi hj).mem_iff

theorem siftdown_isSome (hlt : ∀ a ∈ heap, ∀ b ∈ heap, (lt a b).isSome) (h : pos < n) :
    (siftdown lt heap pos h).isSome := by
  fun_induction siftdown lt heap pos h with
  | case1 heap pos h h0 hnone =>
    have := hlt heap[pos] (Vector.getElem_mem h) heap[(pos - 1) / 2] (Vector.getElem_mem (by omega))
    rw [hnone] at this
    cases this
  | case2 heap pos h h0 htrue ih =>
    exact ih fun a ha b hb => hlt a (mem_swap.mp ha) b (mem_swap.mp hb)
  | case3 | case4 => rfl

/-- `siftup` repairs a heap around the position. -/
theorem siftup_isHeap (hle : Compares lt le) (h : pos < n) (hinv : HeapAround le heap pos)
    (hs : siftup lt heap pos h = some heap') : IsHeap le heap' := by
  fun_induction siftup lt heap pos h with
  | case1 => cases hs
  | case2 heap pos h hc c hcn hor hsmall ih =>
    rw [hsmall] at hs
    exact ih (hinv.swap h hcn hor fun i => smallerChild_le hle hcn hor hsmall) hs
  | case3 heap pos h hleaf => exact siftdown_isHeap hle h (hinv.below hleaf) hs

theorem siftup_perm (h : pos < n) (hs : siftup lt heap pos h = some heap') : heap'.toList.Perm heap.toList := by
  fun_induction siftup lt heap pos h with
  | case1 => cases hs
  | case2 heap pos h hc c hcn hor hsmall ih =>
    rw [hsmall] at hs
    exact (ih hs).trans (Vector.swap_perm h hcn).toList
  | case3 heap pos h hleaf => exact siftdown_perm h hs

theorem smallerChild_isSome (hlt : ∀ a ∈ heap, ∀ b ∈ heap, (lt a b).isSome) {c : Nat} (h : c < n) :
    (smallerChild lt heap c h).isSome := by
  unfold smallerChild
  split_ifs with hr
  · have := hlt heap[c] (Vector.getElem_mem h) heap[c + 1] (Vector.getElem_mem hr)
    split
    · rename_i hnone
      rw [hnone] at this
      cases this
    · rfl
    · rfl
  · rfl

theorem siftup_isSome (hlt : ∀ a ∈ heap, ∀ b ∈ heap, (lt a b).isSome) (h : pos < n) :
    (siftup lt heap pos h).isSome := by
  fun_induction siftup lt heap pos h with
  | case1 heap pos h hc hnone =>
    have := smallerChild_isSome hlt hc
    rw [hnone] at this
    cases this
  | case2 heap pos h hc c hcn hor hsmall ih =>
    rw [hsmall]
    exact ih fun a ha b hb => hlt a (mem_swap.mp ha) b (mem_swap.mp hb)
  | case3 heap pos h hleaf => exact siftdown_isSome hlt h

/-- A push keeps the heap. -/
theorem heappush_isHeap (hle : Compares lt le) {item : α} {heap' : Vector α (n + 1)} (hheap : IsHeap le heap)
    (hs : heappush lt heap item = some heap') : IsHeap le heap' := by
  refine siftdown_isHeap hle (Nat.lt_succ_self n) ⟨?_, ?_⟩ hs
  · intro i hi hin hi0
    rw [Vector.getElem_push_lt (by omega), Vector.getElem_push_lt (by omega)]
    exact hheap i (by omega) hi0
  · intro c hc hc0 hcn _
    omega

/-- A push adds its item. -/
theorem heappush_perm {item : α} {heap' : Vector α (n + 1)} (hs : heappush lt heap item = some heap') :
    heap'.toList.Perm (item :: heap.toList) := by
  have hperm := siftdown_perm (Nat.lt_succ_self n) hs
  rw [Vector.toList_push] at hperm
  exact hperm.trans (List.perm_append_singleton item heap.toList)

/-- The heap yields its root, and what is left is a heap by `siftup`. -/
theorem heappop_cases {heap : Vector α (n + 1)} {rest : Vector α n} {item : α}
    (hs : heappop lt heap = some (item, rest)) :
    item = heap[0] ∧
      (n = 0 ∨ ∃ h : 0 < n, siftup lt ((heap.pop : Vector α n).set 0 heap[n]) 0 h = some rest) := by
  unfold heappop at hs
  split_ifs at hs with hn
  · dsimp only at hs
    split at hs
    · cases hs
    · rename_i rest' hsift
      cases hs
      exact ⟨rfl, Or.inr ⟨hn, hsift⟩⟩
  · cases hs
    exact ⟨rfl, Or.inl (by omega)⟩

/-- A pop keeps the heap. -/
theorem heappop_isHeap (hle : Compares lt le) {heap : Vector α (n + 1)} {rest : Vector α n} {item : α}
    (hheap : IsHeap le heap) (hs : heappop lt heap = some (item, rest)) : IsHeap le rest := by
  obtain ⟨-, rfl | ⟨hn, hsift⟩⟩ := heappop_cases hs
  · intro i hin
    omega
  · refine siftup_isHeap hle hn ⟨?_, ?_⟩ hsift
    · intro i hi hpi hin hi0
      have hpi := hpi hi0
      rw [Vector.getElem_set_ne _ _ (by omega), Vector.getElem_set_ne _ _ (by omega), Vector.getElem_pop',
        Vector.getElem_pop']
      exact hheap i (by omega) hi0
    · intro c hc hc0 hcp hlt
      omega

/-- The heap yields an element that no other is below. -/
theorem heappop_le (hle : Compares lt le) {heap : Vector α (n + 1)} {rest : Vector α n} {item : α}
    (hheap : IsHeap le heap) (hs : heappop lt heap = some (item, rest)) : ∀ a ∈ heap.toList, le item a := by
  intro a ha
  obtain ⟨i, hi, rfl⟩ := Vector.getElem_of_mem (Vector.mem_toList_iff.mp ha)
  rw [(heappop_cases hs).1]
  exact hheap.root_le hle hi

/-- A pop takes out the item that it returns. -/
theorem heappop_perm {heap : Vector α (n + 1)} {rest : Vector α n} {item : α}
    (hs : heappop lt heap = some (item, rest)) : heap.toList.Perm (item :: rest.toList) := by
  obtain ⟨rfl, hrest⟩ := heappop_cases hs
  have hsplit : heap.toList = (heap.pop : Vector α n).toList ++ [heap[n]] := by
    have hback := congrArg Vector.toList (Vector.push_pop_back heap)
    rw [Vector.toList_push] at hback
    exact hback.symm
  obtain rfl | ⟨hn, hsift⟩ := hrest
  · rw [hsplit, Vector.toList_eq_nil_iff.mpr rfl, Vector.toList_eq_nil_iff.mpr rfl]
    exact List.Perm.refl _
  · have hperm := siftup_perm hn hsift
    have hroot : (heap.pop : Vector α n).toList = heap[0] :: (heap.pop : Vector α n).toList.tail := by
      apply List.eq_cons_of_mem_head?
      rw [Option.mem_def, List.head?_eq_getElem?, Vector.getElem?_toList, Vector.getElem?_eq_getElem hn,
        Vector.getElem_pop']
    have hset : ((heap.pop : Vector α n).set 0 heap[n]).toList = heap[n] :: (heap.pop : Vector α n).toList.tail := by
      rw [Vector.toList_set, hroot]
      rfl
    rw [hset] at hperm
    rw [hsplit, hroot]
    exact ((List.perm_append_singleton _ _).trans hperm.symm).cons _

theorem heappop_isSome {heap : Vector α (n + 1)} (hlt : ∀ a ∈ heap, ∀ b ∈ heap, (lt a b).isSome) :
    (heappop lt heap).isSome := by
  unfold heappop
  split_ifs with hn
  · have hmem : ∀ a ∈ (heap.pop : Vector α n).set 0 heap[n], a ∈ heap := by
      intro a ha
      obtain ⟨i, hi, rfl⟩ := Vector.getElem_of_mem ha
      rw [Vector.getElem_set]
      split_ifs
      · exact Vector.getElem_mem _
      · rw [Vector.getElem_pop']
        exact Vector.getElem_mem _
    obtain ⟨rest, hrest⟩ := Option.isSome_iff_exists.mp
      (siftup_isSome (fun a ha b hb => hlt a (hmem a ha) b (hmem b hb)) hn)
    simp only [hrest, Option.isSome_some]
  · rfl

theorem isHeap_empty : IsHeap le (#v[] : Vector α 0) := fun i hin => by omega

theorem heappushAll_isHeap (hle : Compares lt le) {items : List α} {heap heap' : Σ n, Vector α n}
    (hheap : IsHeap le heap.2) (hs : heappushAll lt items heap = some heap') : IsHeap le heap'.2 := by
  induction items generalizing heap with
  | nil =>
    cases hs
    exact hheap
  | cons item items ih =>
    obtain ⟨next, hnext, hs⟩ := Option.bind_eq_some_iff.mp hs
    exact ih (heappush_isHeap hle hheap hnext) hs

theorem heappushAll_perm {items : List α} {heap heap' : Σ n, Vector α n}
    (hs : heappushAll lt items heap = some heap') : heap'.2.toList.Perm (items ++ heap.2.toList) := by
  induction items generalizing heap with
  | nil =>
    cases hs
    exact List.Perm.refl _
  | cons item items ih =>
    obtain ⟨next, hnext, hs⟩ := Option.bind_eq_some_iff.mp hs
    exact ((ih hs).trans ((heappush_perm hnext).append_left items)).trans List.perm_middle

theorem heappushAll_isSome {items : List α} {heap : Σ n, Vector α n}
    (hlt : ∀ a ∈ items ++ heap.2.toList, ∀ b ∈ items ++ heap.2.toList, (lt a b).isSome) :
    (heappushAll lt items heap).isSome := by
  induction items generalizing heap with
  | nil => rfl
  | cons item items ih =>
    have hpush : (heappush lt heap.2 item).isSome := by
      refine siftdown_isSome (fun a ha b hb => ?_) (Nat.lt_succ_self heap.1)
      have hmem : ∀ c ∈ heap.2.push item, c ∈ item :: items ++ heap.2.toList := by
        intro c hc
        rw [Vector.mem_push] at hc
        simp only [List.mem_append, List.mem_cons, Vector.mem_toList_iff]
        tauto
      exact hlt a (hmem a ha) b (hmem b hb)
    obtain ⟨next, hnext⟩ := Option.isSome_iff_exists.mp hpush
    unfold heappushAll
    rw [hnext]
    apply ih
    intro a ha b hb
    have hmem := fun c => ((((heappush_perm hnext).append_left items)).trans List.perm_middle).mem_iff (a := c)
    exact hlt a ((hmem a).mp ha) b ((hmem b).mp hb)

theorem heappopAll_perm {n : Nat} {heap : Vector α n} {items : List α} (hs : heappopAll lt heap = some items) :
    items.Perm heap.toList := by
  induction n generalizing items with
  | zero =>
    cases hs
    rw [Vector.toList_eq_nil_iff.mpr rfl]
  | succ n ih =>
    obtain ⟨⟨item, rest⟩, hpop, hs⟩ := Option.bind_eq_some_iff.mp hs
    obtain ⟨items', hrest, hs⟩ := Option.bind_eq_some_iff.mp hs
    cases hs
    exact ((ih hrest).cons item).trans (heappop_perm hpop).symm

/-- The heap yields its elements in order. -/
theorem heappopAll_pairwise (hle : Compares lt le) {n : Nat} {heap : Vector α n} {items : List α}
    (hheap : IsHeap le heap) (hs : heappopAll lt heap = some items) : items.Pairwise le := by
  induction n generalizing items with
  | zero =>
    cases hs
    exact List.Pairwise.nil
  | succ n ih =>
    obtain ⟨⟨item, rest⟩, hpop, hs⟩ := Option.bind_eq_some_iff.mp hs
    obtain ⟨items', hrest, hs⟩ := Option.bind_eq_some_iff.mp hs
    cases hs
    refine List.pairwise_cons.mpr ⟨fun a ha => ?_, ih (heappop_isHeap hle hheap hpop) hrest⟩
    refine heappop_le hle hheap hpop a ((heappop_perm hpop).mem_iff.mpr (List.mem_cons_of_mem _ ?_))
    exact (heappopAll_perm hrest).mem_iff.mp ha

theorem heappopAll_isSome {n : Nat} {heap : Vector α n} (hlt : ∀ a ∈ heap, ∀ b ∈ heap, (lt a b).isSome) :
    (heappopAll lt heap).isSome := by
  induction n with
  | zero => rfl
  | succ n ih =>
    obtain ⟨⟨item, rest⟩, hpop⟩ := Option.isSome_iff_exists.mp (heappop_isSome hlt)
    have hmem : ∀ a ∈ rest, a ∈ heap := by
      intro a ha
      rw [← Vector.mem_toList_iff] at ha ⊢
      exact (heappop_perm hpop).mem_iff.mpr (List.mem_cons_of_mem _ ha)
    obtain ⟨items, hitems⟩ := Option.isSome_iff_exists.mp (ih fun a ha b hb => hlt a (hmem a ha) b (hmem b hb))
    unfold heappopAll
    rw [hpop]
    simp only [Option.bind_eq_bind, Option.bind_some, hitems, Option.pure_def, Option.isSome_some]

/-- Nothing is lost on the way through the heap. -/
theorem heapOrder_perm {items order : List α} (h : heapOrder lt items = some order) : order.Perm items := by
  obtain ⟨heap, hpush, hpop⟩ := Option.bind_eq_some_iff.mp h
  have hperm := (heappopAll_perm hpop).trans (heappushAll_perm hpush)
  rwa [Vector.toList_eq_nil_iff.mpr rfl, List.append_nil] at hperm

/-- The order respects every preorder that the answers of the comparison respect. -/
theorem heapOrder_pairwise (hle : Compares lt le) {items order : List α} (h : heapOrder lt items = some order) :
    order.Pairwise le := by
  obtain ⟨heap, hpush, hpop⟩ := Option.bind_eq_some_iff.mp h
  exact heappopAll_pairwise hle (heappushAll_isHeap hle isHeap_empty hpush) hpop

/-- A comparison that always answers makes the heap answer. -/
theorem heapOrder_isSome {items : List α} (hlt : ∀ a ∈ items, ∀ b ∈ items, (lt a b).isSome) :
    (heapOrder lt items).isSome := by
  have hempty : (#v[] : Vector α 0).toList = [] := Vector.toList_eq_nil_iff.mpr rfl
  have hsome : (heappushAll lt items ⟨0, #v[]⟩).isSome := by
    apply heappushAll_isSome
    rwa [hempty, List.append_nil]
  obtain ⟨heap, hpush⟩ := Option.isSome_iff_exists.mp hsome
  have hperm := heappushAll_perm hpush
  rw [hempty, List.append_nil] at hperm
  have hmem : ∀ a ∈ heap.2, a ∈ items := fun a ha => hperm.mem_iff.mp (Vector.mem_toList_iff.mpr ha)
  unfold heapOrder
  rw [hpush]
  exact heappopAll_isSome fun a ha b hb => hlt a (hmem a ha) b (hmem b hb)

end Order

end Soar.Library
