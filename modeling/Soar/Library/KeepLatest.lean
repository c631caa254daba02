import Mathlib.Data.List.Basic
import Mathlib.Data.List.Nodup
import Soar.Library.AlongRun

/-! A bounded queue as a mailbox for the latest value: each producer puts a value, reads the size and gets one
value if there are several; consumers get values at any moment. -/
namespace Soar.Library.KeepLatest

/-- What a producer does next. -/
inductive Point
  | put
  | qsize
  | get
  | finished
deriving DecidableEq

/-- The queue holds values with their numbers; `history` has everything put so far. -/
structure Mailbox (ι α : Type) where
  queue : List (Nat × α) := []
  point : ι → Point := fun _ => .put
  history : List (Nat × α) := []
  discarded : List (Nat × α) := []
  taken : List (Nat × α) := []

inductive Turn (ι α : Type)
  | producer (i : ι) (value : α)
  | take

variable {ι α : Type}

/-- A put blocks while the queue is full, a get while it is empty. -/
def Mailbox.step [DecidableEq ι] (maxsize : Nat) (m : Mailbox ι α) : Turn ι α → Mailbox ι α
  | .producer i value =>
    match m.point i with
    | .put =>
      if m.queue.length < maxsize then
        { m with
          queue := m.queue ++ [(m.history.length, value)]
          history := m.history ++ [(m.history.length, value)]
          point := Function.update m.point i .qsize }
      else m
    | .qsize => { m with point := Function.update m.point i (if 1 < m.queue.length then .get else .finished) }
    | .get =>
      match m.queue with
      | [] => m
      | entry :: queue =>
        { m with queue := queue, discarded := m.discarded ++ [entry], point := Function.update m.point i .finished }
    | .finished => m
  | .take =>
    match m.queue with
    | [] => m
    | entry :: queue => { m with queue := queue, taken := m.taken ++ [entry] }

/-- A producer's get does not find one value only. -/
def Mailbox.Several (m : Mailbox ι α) : Turn ι α → Prop
  | .producer i _ => m.point i = .get → m.queue.length ≠ 1
  | .take => True

instance (m : Mailbox ι α) : DecidablePred m.Several
  | .producer _ _ => inferInstanceAs (Decidable (_ → _))
  | .take => instDecidableTrue

/-- A value is discarded only for a later one, and without a consumer the queue keeps the latest. -/
structure Mailbox.KeepsLatest (m : Mailbox ι α) : Prop where
  superseded : ∀ entry ∈ m.discarded, ∃ later, (later ∈ m.queue ∨ later ∈ m.taken) ∧ entry.1 < later.1
  latest : (∃ i, m.point i = .finished) → m.taken = [] →
    ∃ entry, m.history.getLast? = some entry ∧ m.queue.getLast? = some entry

/-- First in, first out: what has left the queue was put before what is in it. -/
structure Mailbox.Ordered (m : Mailbox ι α) : Prop where
  numbers : m.history.map Prod.fst = List.range m.history.length
  split : ∃ removed, m.history = removed ++ m.queue ∧ ∀ entry, entry ∈ removed ↔ entry ∈ m.discarded ∨ entry ∈ m.taken
  begun : ∀ i, m.point i ≠ .put → m.history ≠ []

/-- The latest value is not discarded. -/
def Mailbox.Good (m : Mailbox ι α) : Prop := ∀ entry, m.history.getLast? = some entry → entry ∉ m.discarded

variable {m : Mailbox ι α}

theorem Mailbox.Ordered.pairwise (h : m.Ordered) : m.history.Pairwise fun e e' => e.1 < e'.1 := by
  have hrange : (m.history.map Prod.fst).Pairwise (· < ·) := h.numbers ▸ List.pairwise_lt_range
  exact List.pairwise_map.mp hrange

theorem Mailbox.Ordered.mem_history (h : m.Ordered) {entry : Nat × α} :
    entry ∈ m.history ↔ (entry ∈ m.discarded ∨ entry ∈ m.taken) ∨ entry ∈ m.queue := by
  obtain ⟨removed, hsplit, hremoved⟩ := h.split
  rw [hsplit, List.mem_append, hremoved]

theorem Mailbox.Ordered.lt_last (h : m.Ordered) {entry last : Nat × α} (hmem : entry ∈ m.history)
    (hlast : m.history.getLast? = some last) : entry = last ∨ entry.1 < last.1 := by
  obtain ⟨before, hbefore⟩ := List.getLast?_eq_some_iff.mp hlast
  have hpairwise := h.pairwise
  rw [hbefore] at hmem hpairwise
  rcases List.mem_append.mp hmem with hmem | hmem
  · exact .inr ((List.pairwise_append.mp hpairwise).2.2 entry hmem last (List.mem_singleton_self _))
  · exact .inl (List.mem_singleton.mp hmem)

theorem Mailbox.Ordered.keepsLatest_iff (h : m.Ordered) : m.KeepsLatest ↔ m.Good := by
  constructor
  · intro hkeeps entry hlast hmem
    obtain ⟨later, hlater, hlt⟩ := hkeeps.superseded entry hmem
    have hhistory : later ∈ m.history := h.mem_history.mpr (hlater.elim .inr fun ht => .inl (.inr ht))
    rcases h.lt_last hhistory hlast with rfl | hlt'
    · exact Nat.lt_irrefl _ hlt
    · exact Nat.lt_asymm hlt hlt'
  · intro hgood
    have hlast : m.history ≠ [] → ∃ last, m.history.getLast? = some last ∧ (last ∈ m.queue ∨ last ∈ m.taken) := by
      intro hne
      refine ⟨_, List.getLast?_eq_some_getLast hne, ?_⟩
      have hmem := h.mem_history.mp (List.getLast_mem hne)
      have hnot := hgood _ (List.getLast?_eq_some_getLast hne)
      rcases hmem with (hmem | hmem) | hmem
      · exact absurd hmem hnot
      · exact .inr hmem
      · exact .inl hmem
    constructor
    · intro entry hmem
      have hhistory : entry ∈ m.history := h.mem_history.mpr (.inl (.inl hmem))
      obtain ⟨last, heq, hlast⟩ := hlast (List.ne_nil_of_mem hhistory)
      refine ⟨last, hlast, (h.lt_last hhistory heq).resolve_left fun h => ?_⟩
      exact hgood last heq (h ▸ hmem)
    · rintro ⟨i, hi⟩ htaken
      obtain ⟨last, heq, hlast⟩ := hlast (h.begun i (by simp [hi]))
      have hqueue : last ∈ m.queue := hlast.resolve_right (htaken ▸ List.not_mem_nil)
      obtain ⟨removed, hsplit, -⟩ := h.split
      refine ⟨last, heq, ?_⟩
      rw [hsplit, List.getLast?_append_of_ne_nil _ (List.ne_nil_of_mem hqueue)] at heq
      exact heq

/-- What a turn can do to the queue and the histories. -/
inductive Mailbox.Steps (m : Mailbox ι α) (t : Turn ι α) (m' : Mailbox ι α) : Prop
  | kept (queue : m'.queue = m.queue) (history : m'.history = m.history) (discarded : m'.discarded = m.discarded)
      (taken : m'.taken = m.taken) (several : m.Several t)
  | put (value : α) (queue : m'.queue = m.queue ++ [(m.history.length, value)])
      (history : m'.history = m.history ++ [(m.history.length, value)]) (discarded : m'.discarded = m.discarded)
      (taken : m'.taken = m.taken) (several : m.Several t)
  | discarded (entry : Nat × α) (queue : m.queue = entry :: m'.queue) (history : m'.history = m.history)
      (discarded : m'.discarded = m.discarded ++ [entry]) (taken : m'.taken = m.taken)
      (several : m.Several t ↔ m'.queue ≠ [])
  | took (entry : Nat × α) (queue : m.queue = entry :: m'.queue) (history : m'.history = m.history)
      (discarded : m'.discarded = m.discarded) (taken : m'.taken = m.taken ++ [entry]) (several : m.Several t)

section Step

variable [DecidableEq ι] {maxsize : Nat}

/-- All that a step can do. -/
theorem Mailbox.step_cases (maxsize : Nat) (m : Mailbox ι α) (t : Turn ι α) : m.Steps t (m.step maxsize t) := by
  cases t with
  | producer i value =>
    have hother : m.point i ≠ .get → m.Several (.producer i value) := fun hne hget => absurd hget hne
    cases hp : m.point i with
    | put =>
      simp only [Mailbox.step, hp]
      split_ifs
      · exact .put value rfl rfl rfl rfl (hother (by simp [hp]))
      · exact .kept rfl rfl rfl rfl (hother (by simp [hp]))
    | qsize =>
      simp only [Mailbox.step, hp]
      exact .kept rfl rfl rfl rfl (hother (by simp [hp]))
    | get =>
      cases hq : m.queue with
      | nil =>
        simp only [Mailbox.step, hp, hq]
        exact .kept rfl rfl rfl rfl fun _ => by simp [hq]
      | cons entry queue =>
        simp only [Mailbox.step, hp, hq]
        refine .discarded entry hq rfl rfl rfl ?_
        simp [Mailbox.Several, hp, hq]
    | finished =>
      simp only [Mailbox.step, hp]
      exact .kept rfl rfl rfl rfl (hother (by simp [hp]))
  | take =>
    cases hq : m.queue with
    | nil =>
      simp only [Mailbox.step, hq]
      exact .kept rfl rfl rfl rfl trivial
    | cons entry queue =>
      simp only [Mailbox.step, hq]
      exact .took entry hq rfl rfl rfl trivial

private theorem Mailbox.step_begun (h : ∀ i, m.point i ≠ .put → m.history ≠ []) (t : Turn ι α) (i : ι)
    (hi : (m.step maxsize t).point i ≠ .put) : (m.step maxsize t).history ≠ [] := by
  have hkept : ∀ j, m.point j ≠ .put → (m.step maxsize t).history ≠ [] := by
    intro j hj
    cases m.step_cases maxsize t with
    | kept _ history | discarded _ _ history | took _ _ history => exact history ▸ h j hj
    | put value _ history => simp [history]
  by_cases hbegun : m.point i = .put
  · cases t with
    | producer j value =>
      by_cases hj : m.point j = .put
      · simp only [Mailbox.step, hj] at *
        split_ifs at *
        · simp
        · exact absurd hbegun hi
      · exact hkept j hj
    | take =>
      refine absurd ?_ hi
      unfold Mailbox.step
      cases m.queue <;> exact hbegun
  · exact hkept i hbegun

theorem Mailbox.Ordered.step (h : m.Ordered) (t : Turn ι α) : (m.step maxsize t).Ordered := by
  refine ⟨?_, ?_, Mailbox.step_begun h.begun t⟩
  · cases m.step_cases maxsize t with
    | kept _ history | discarded _ _ history | took _ _ history => exact history ▸ h.numbers
    | put value _ history =>
      rw [history, List.map_append, h.numbers, List.length_append, List.length_singleton, List.range_succ]
      rfl
  · obtain ⟨removed, hsplit, hremoved⟩ := h.split
    cases m.step_cases maxsize t with
    | kept queue history discarded taken =>
      rw [queue, history, discarded, taken]
      exact ⟨removed, hsplit, hremoved⟩
    | put value queue history discarded taken =>
      rw [queue, history, discarded, taken, hsplit]
      exact ⟨removed, List.append_assoc .., hremoved⟩
    | discarded entry queue history discarded taken =>
      rw [history, discarded, taken, hsplit, queue]
      refine ⟨removed ++ [entry], by simp, fun e => ?_⟩
      rw [List.mem_append, List.mem_append, hremoved]
      exact or_right_comm
    | took entry queue history discarded taken =>
      rw [history, discarded, taken, hsplit, queue]
      refine ⟨removed ++ [entry], by simp, fun e => ?_⟩
      rw [List.mem_append, List.mem_append, hremoved, or_assoc]

/-- A step keeps the latest value exactly if it does not take the only entry. -/
theorem Mailbox.Ordered.good_step_iff (h : m.Ordered) (hgood : m.Good) (t : Turn ι α) :
    (m.step maxsize t).Good ↔ m.Several t := by
  unfold Mailbox.Good at *
  cases m.step_cases maxsize t with
  | kept queue history discarded taken several => exact iff_of_true (by rwa [history, discarded]) several
  | took entry queue history discarded taken several => exact iff_of_true (by rwa [history, discarded]) several
  | put value queue history discarded taken several =>
    refine iff_of_true (fun last hlast hmem => ?_) several
    rw [history, List.getLast?_concat] at hlast
    obtain rfl := Option.some.inj hlast
    -- a number that no value had before
    have hold : (m.history.length, value).1 ∈ m.history.map Prod.fst :=
      List.mem_map_of_mem (h.mem_history.mpr (.inl (.inl (discarded ▸ hmem))))
    rw [h.numbers] at hold
    exact Nat.lt_irrefl _ (List.mem_range.mp hold)
  | discarded entry queue history discarded taken several =>
    rw [several, history, discarded]
    obtain ⟨removed, hsplit, -⟩ := h.split
    constructor
    · intro hafter hempty
      rw [hempty] at queue
      refine hafter entry ?_ (List.mem_append_right _ (List.mem_singleton_self _))
      rw [hsplit, queue, List.getLast?_concat]
    · intro hne last hlast hmem
      rcases List.mem_append.mp hmem with hmem | hmem
      · exact hgood last hlast hmem
      · obtain rfl := List.mem_singleton.mp hmem
        have hpairwise := h.pairwise
        rw [hsplit, queue] at hlast hpairwise
        have hlast' : last ∈ (m.step maxsize t).queue := by
          rw [List.getLast?_append_cons, List.getLast?_cons_of_ne_nil hne] at hlast
          exact List.mem_of_getLast? hlast
        exact Nat.lt_irrefl _ ((List.pairwise_cons.mp (List.pairwise_append.mp hpairwise).2.1).1 last hlast')

end Step

theorem Mailbox.ordered_empty : ({} : Mailbox ι α).Ordered := ⟨rfl, ⟨[], rfl, by simp⟩, fun _ h => absurd rfl h⟩

theorem Mailbox.good_empty : ({} : Mailbox ι α).Good := nofun

/-- The rule for systems with a mailbox: `turn` says what a step of the system does to it. -/
theorem keepsLatest_run_iff [DecidableEq ι] {State Step : Type} {maxsize : Nat} {step : State → Step → State}
    (mailbox : State → Mailbox ι α) (turn : State → Step → Option (Turn ι α))
    (hstep : ∀ s t, mailbox (step s t) = (turn s t).elim (mailbox s) ((mailbox s).step maxsize))
    {s : State} (hordered : (mailbox s).Ordered) (hgood : (mailbox s).Good) (steps : List Step) :
    AlongRun step (fun s t => ∀ t' ∈ turn s t, (mailbox s).Several t') s steps ↔
      ∀ n ≤ steps.length, (mailbox ((steps.take n).foldl step s)).KeepsLatest := by
  refine @AlongRun.iff_forall_take _ _ _ _ _ _ (fun s => (mailbox s).Ordered)
    (fun s => (mailbox s).KeepsLatest) (fun s t hs => ?_) (fun s t hs hkeeps => ?_) hordered
      (hordered.keepsLatest_iff.mpr hgood)
  · rw [hstep]
    cases turn s t with
    | none => exact hs
    | some t' => exact hs.step t'
  · rw [hstep]
    cases turn s t with
    | none => exact iff_of_true hkeeps nofun
    | some t' =>
      rw [Option.elim_some, (hs.step t').keepsLatest_iff, hs.good_step_iff (hs.keepsLatest_iff.mp hkeeps)]
      simp

end Soar.Library.KeepLatest
