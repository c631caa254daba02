import Mathlib.Data.Finset.Image
import Mathlib.Logic.Relation
import Soar.Library.Program

/-! Threads that run programs over shared binary semaphores, in any interleaving. Where every program
takes the semaphores in the order of their ranks, no cycle of waiting threads arises. -/
namespace Soar.Library

variable {Tid Lock Lock' Seg Seg' β α γ σ ι : Type}

namespace Program

/-- The same program over other names. -/
def rename (lock : Lock → Lock') (seg : Seg → Seg') : Program Lock Seg β α → Program Lock' Seg' β α
  | .done a => .done a
  | .acquire l next => .acquire (lock l) (next.rename lock seg)
  | .release l next => .release (lock l) (next.rename lock seg)
  | .read s next => .read (seg s) fun b => (next b).rename lock seg
  | .write s f next => .write (seg s) f (next.rename lock seg)
  | .raise => .raise

variable [DecidableEq Lock] [DecidableEq Lock'] {rank : Lock → Nat} {raises : Finset Lock → Prop}
  {held mid after : Finset Lock}

/-- A thread that holds `held` takes only semaphores that rank above all that it holds, releases only what
it holds, and is left with `after`. It raises only while it holds what `raises` allows. -/
def Ordered (rank : Lock → Nat) (raises : Finset Lock → Prop) (after : Finset Lock) :
    Finset Lock → Program Lock Seg β α → Prop
  | held, .done _ => held = after
  | held, .acquire l next => (∀ l' ∈ held, rank l' < rank l) ∧ Ordered rank raises after (insert l held) next
  | held, .release l next => l ∈ held ∧ Ordered rank raises after (held.erase l) next
  | held, .read _ next => ∀ b, Ordered rank raises after held (next b)
  | held, .write _ _ next => raises held ∧ Ordered rank raises after held next
  | held, .raise => raises held

/-- The rule of sequence. -/
theorem Ordered.bind {p : Program Lock Seg β α} {f : α → Program Lock Seg β γ} (h : Ordered rank raises mid held p)
    (hf : ∀ a, Ordered rank raises after mid (f a)) : Ordered rank raises after held (p.bind f) := by
  induction p generalizing held with
  | done a =>
    obtain rfl : held = mid := h
    exact hf a
  | acquire l next ih => exact ⟨h.1, ih h.2⟩
  | release l next ih => exact ⟨h.1, ih h.2⟩
  | read s next ih => exact fun b => ih b (h b)
  | write s g next ih => exact ⟨h.1, ih h.2⟩
  | raise => exact h

theorem Ordered.rename {rank' : Lock' → Nat} {raises' : Finset Lock' → Prop} {lock : Lock ↪ Lock'} {seg : Seg → Seg'}
    (hrank : ∀ l, rank' (lock l) = rank l) (hraises : ∀ held, raises held → raises' (held.map lock))
    {p : Program Lock Seg β α} (h : Ordered rank raises after held p) :
    Ordered rank' raises' (after.map lock) (held.map lock) (p.rename lock seg) := by
  induction p generalizing held with
  | done a => exact congrArg (Finset.map lock) h
  | acquire l next ih =>
    refine ⟨fun l' hl' => ?_, ?_⟩
    · obtain ⟨i, hi, rfl⟩ := Finset.mem_map.mp hl'
      rw [hrank, hrank]
      exact h.1 i hi
    · rw [← Finset.map_insert]
      exact ih h.2
  | release l next ih =>
    refine ⟨Finset.mem_map_of_mem lock h.1, ?_⟩
    rw [← Finset.map_erase]
    exact ih h.2
  | read s next ih => exact fun b => ih b (h b)
  | write s g next ih => exact ⟨hraises held h.1, ih h.2⟩
  | raise => exact hraises held h

/-- Of the values `before`, the semaphores lack what is held. -/
def Lacks (before sem : Lock → Nat) (held : Finset Lock) : Prop :=
  ∀ l, sem l + (if l ∈ held then 1 else 0) = before l

theorem lacks_empty (sem : Lock → Nat) : Lacks sem sem ∅ := by
  intro l
  rw [if_neg (Finset.notMem_empty l), Nat.add_zero]

theorem Lacks.acquire {before sem : Lock → Nat} {l : Lock} (h : Lacks before sem held) (hl : l ∉ held)
    (hsem : sem l ≠ 0) : Lacks before (Function.update sem l (sem l - 1)) (insert l held) := by
  intro l'
  have hl' := h l'
  by_cases heq : l' = l
  · subst heq
    rw [if_neg hl] at hl'
    rw [Function.update_self, if_pos (Finset.mem_insert_self ..)]
    omega
  · rw [Function.update_of_ne heq, if_congr (Finset.mem_insert.trans (or_iff_right heq)) rfl rfl]
    exact hl'

theorem Lacks.release {before sem : Lock → Nat} {l : Lock} (h : Lacks before sem held) (hl : l ∈ held) :
    Lacks before (Function.update sem l (sem l + 1)) (held.erase l) := by
  intro l'
  have hl' := h l'
  by_cases heq : l' = l
  · subst heq
    rw [if_pos hl] at hl'
    rw [Function.update_self, if_neg (Finset.notMem_erase l' held)]
    omega
  · rw [Function.update_of_ne heq, if_congr (Finset.mem_erase.trans (and_iff_right heq)) rfl rfl]
    exact hl'

/-- What a program that runs alone still holds when it returns, and when it raises. -/
theorem Ordered.meets [DecidableEq Seg] {p : Program Lock Seg β α} {before : Lock → Nat} {st : Shared Lock Seg β}
    (h : Ordered rank raises after held p) (hst : Lacks before st.sem held) :
    p.Meets st ⟨fun _ st' => Lacks before st'.sem after,
      fun st' => ∃ held', raises held' ∧ Lacks before st'.sem held', True⟩ := by
  induction p generalizing held st with
  | done a =>
    obtain rfl : held = after := h
    exact hst
  | acquire l next ih =>
    refine meets_acquire (fun _ => trivial) fun hsem => ih h.2 (hst.acquire (fun hl => ?_) hsem)
    exact lt_irrefl _ (h.1 l hl)
  | release l next ih => exact ih h.2 (hst.release h.1)
  | read s next ih => exact ih _ (h _) hst
  | write s f next ih => exact meets_write (fun _ => ⟨held, h.1, hst⟩) fun b _ => ih h.2 hst
  | raise => exact ⟨held, h, hst⟩

end Program

section Tally

variable [DecidableEq Tid] [DecidableEq Lock]

/-- A semaphore is free and at 1, or at 0 and with its only holder. -/
structure Tally (sem : Lock → Nat) (held : Tid → Finset Lock) : Prop where
  free : ∀ l, (∀ t, l ∉ held t) → sem l = 1
  taken : ∀ l t, l ∈ held t → sem l = 0
  sole : ∀ l t t', l ∈ held t → l ∈ held t' → t = t'

variable {sem : Lock → Nat} {held : Tid → Finset Lock} {t : Tid} {l : Lock}

theorem Tally.acquire (h : Tally sem held) (hsem : sem l ≠ 0) :
    Tally (Function.update sem l (sem l - 1)) (Function.update held t (insert l (held t))) := by
  have hnone : ∀ t', l ∉ held t' := fun t' hl => hsem (h.taken l t' hl)
  have hheld : ∀ {l' : Lock} {t' : Tid}, l' ∈ Function.update held t (insert l (held t)) t' ↔
      l' = l ∧ t' = t ∨ l' ∈ held t' := by
    intro l' t'
    by_cases ht : t' = t
    · subst ht
      simp
    · simp [ht]
  constructor
  · intro l' hfree
    simp only [hheld, not_or] at hfree
    rw [Function.update_of_ne fun heq => (hfree t).1 ⟨heq, rfl⟩]
    exact h.free l' fun t' => (hfree t').2
  · intro l' t' hl
    rcases hheld.mp hl with ⟨rfl, -⟩ | hold
    · rw [Function.update_self, h.free l' hnone]
    · have hne : l' ≠ l := by
        rintro rfl
        exact hnone t' hold
      rw [Function.update_of_ne hne]
      exact h.taken l' t' hold
  · intro l' t' t'' hl hl'
    rcases hheld.mp hl with ⟨rfl, rfl⟩ | hold
    · rcases hheld.mp hl' with ⟨-, rfl⟩ | hold'
      · rfl
      · exact absurd hold' (hnone t'')
    · rcases hheld.mp hl' with ⟨rfl, rfl⟩ | hold'
      · exact absurd hold (hnone t')
      · exact h.sole l' t' t'' hold hold'

theorem Tally.release (h : Tally sem held) (hl : l ∈ held t) :
    Tally (Function.update sem l (sem l + 1)) (Function.update held t ((held t).erase l)) := by
  have hheld : ∀ {l' : Lock} {t' : Tid}, l' ∈ Function.update held t ((held t).erase l) t' ↔ l' ≠ l ∧ l' ∈ held t' := by
    intro l' t'
    by_cases ht : t' = t
    · subst ht
      simp
    · rw [Function.update_of_ne ht]
      refine ⟨fun hl' => ⟨?_, hl'⟩, fun hl' => hl'.2⟩
      rintro rfl
      exact ht (h.sole l' t' t hl' hl)
  constructor
  · intro l' hfree
    by_cases heq : l' = l
    · rw [heq, Function.update_self, h.taken l t hl]
    · rw [Function.update_of_ne heq]
      exact h.free l' fun t' hl' => hfree t' (hheld.mpr ⟨heq, hl'⟩)
  · intro l' t' hl'
    obtain ⟨hne, hl'⟩ := hheld.mp hl'
    rw [Function.update_of_ne hne]
    exact h.taken l' t' hl'
  · intro l' t' t'' hl' hl''
    exact h.sole l' t' t'' (hheld.mp hl').2 (hheld.mp hl'').2

end Tally

/-- A thread's variables, the calls that it still has to make, the call that it runs, and the semaphores
that it has taken and not released. A call ends with the new variables and with the calls to be made
before the next one. -/
structure Thread (Lock Seg β σ ι : Type) where
  vars : σ
  todo : List ι
  running : Option (Program Lock Seg β (σ × List ι))
  held : Finset Lock

structure Threads (Tid Lock Seg β σ ι : Type) where
  shared : Shared Lock Seg β
  thread : Tid → Thread Lock Seg β σ ι

variable {method : ι → σ → Program Lock Seg β (σ × List ι)} {rank : Lock → Nat}

namespace Thread

variable [DecidableEq Lock]

/-- The next step of a thread, if it can take one. -/
def step [DecidableEq Seg] (method : ι → σ → Program Lock Seg β (σ × List ι)) (shared : Shared Lock Seg β)
    (self : Thread Lock Seg β σ ι) : Option (Shared Lock Seg β × Thread Lock Seg β σ ι) :=
  match self.running with
  | none =>
    match self.todo with
    | [] => none
    | i :: todo => some (shared, { self with todo := todo, running := some (method i self.vars) })
  | some (.done (vars, again)) => some (shared, { self with vars := vars, todo := again ++ self.todo, running := none })
  | some (.acquire l next) =>
    if shared.sem l = 0 then none
    else some ({ shared with sem := Function.update shared.sem l (shared.sem l - 1) },
      { self with running := some next, held := insert l self.held })
  | some (.release l next) =>
    some ({ shared with sem := Function.update shared.sem l (shared.sem l + 1) },
      { self with running := some next, held := self.held.erase l })
  | some (.read s next) => some (shared, { self with running := some (next (shared.mem s)) })
  | some (.write s f next) =>
    match f (shared.mem s) with
    | some b => some ({ shared with mem := Function.update shared.mem s b }, { self with running := some next })
    | none => some (shared, { self with running := some .raise })
  | some .raise => none

/-- A thread holds nothing between calls, and takes semaphores in their order within one. -/
def Ordered (rank : Lock → Nat) (self : Thread Lock Seg β σ ι) : Prop :=
  match self.running with
  | none => self.held = ∅
  | some p => p.Ordered rank (fun _ => True) ∅ self.held

variable [DecidableEq Seg] {shared shared' : Shared Lock Seg β} {self self' : Thread Lock Seg β σ ι} {l : Lock}

private theorem step_cases (hmethod : ∀ i vars, (method i vars).Ordered rank (fun _ => True) ∅ ∅)
    (h : self.Ordered rank)
    (hstep : self.step method shared = some (shared', self')) : self'.Ordered rank ∧
      (shared'.sem = shared.sem ∧ self'.held = self.held ∨
      (∃ l, shared.sem l ≠ 0 ∧ shared'.sem = Function.update shared.sem l (shared.sem l - 1) ∧
        self'.held = insert l self.held) ∨
      ∃ l ∈ self.held, shared'.sem = Function.update shared.sem l (shared.sem l + 1) ∧
        self'.held = self.held.erase l) := by
  obtain ⟨vars, todo, running, held⟩ := self
  rcases running with _ | p
  · obtain rfl : held = ∅ := h
    rcases todo with _ | ⟨i, todo⟩
    · cases hstep
    · obtain ⟨rfl, rfl⟩ := Prod.mk.inj (Option.some.inj hstep)
      exact ⟨hmethod i vars, .inl ⟨rfl, rfl⟩⟩
  cases p with
  | done r =>
    obtain ⟨rfl, rfl⟩ := Prod.mk.inj (Option.some.inj hstep)
    exact ⟨h, .inl ⟨rfl, rfl⟩⟩
  | acquire l next =>
    obtain ⟨hsem, hstep⟩ := Option.ite_none_left_eq_some.mp hstep
    obtain ⟨rfl, rfl⟩ := Prod.mk.inj (Option.some.inj hstep)
    exact ⟨h.2, .inr (.inl ⟨l, hsem, rfl, rfl⟩)⟩
  | release l next =>
    obtain ⟨rfl, rfl⟩ := Prod.mk.inj (Option.some.inj hstep)
    exact ⟨h.2, .inr (.inr ⟨l, h.1, rfl, rfl⟩)⟩
  | read s next =>
    obtain ⟨rfl, rfl⟩ := Prod.mk.inj (Option.some.inj hstep)
    exact ⟨h _, .inl ⟨rfl, rfl⟩⟩
  | write s f next =>
    dsimp only [step] at hstep
    cases hf : f (shared.mem s) with
    | none =>
      rw [hf] at hstep
      obtain ⟨rfl, rfl⟩ := Prod.mk.inj (Option.some.inj hstep)
      exact ⟨trivial, .inl ⟨rfl, rfl⟩⟩
    | some b =>
      rw [hf] at hstep
      obtain ⟨rfl, rfl⟩ := Prod.mk.inj (Option.some.inj hstep)
      exact ⟨h.2, .inl ⟨rfl, rfl⟩⟩
  | raise => cases hstep

private theorem exists_step (h : self.Ordered rank) (hl : l ∈ self.held) (hraised : self.running ≠ some .raise)
    (hwaits : ∀ l next, self.running = some (.acquire l next) → shared.sem l ≠ 0) :
    (self.step method shared).isSome := by
  obtain ⟨vars, todo, running, held⟩ := self
  rcases running with _ | p
  · obtain rfl : held = ∅ := h
    cases hl
  cases p with
  | done r => rfl
  | acquire l next =>
    dsimp only [step]
    rw [if_neg (hwaits l next rfl)]
    rfl
  | release l next => rfl
  | read s next => rfl
  | write s f next =>
    dsimp only [step]
    cases f (shared.mem s) with
    | none => rfl
    | some b => rfl
  | raise => exact absurd rfl hraised

end Thread

namespace Threads

section

variable [DecidableEq Tid] [DecidableEq Lock] [DecidableEq Seg]

def step (method : ι → σ → Program Lock Seg β (σ × List ι)) (w : Threads Tid Lock Seg β σ ι) (t : Tid) :
    Option (Threads Tid Lock Seg β σ ι) :=
  ((w.thread t).step method w.shared).map fun r => ⟨r.1, Function.update w.thread t r.2⟩

/-- The threads take turns in the order of the schedule. A thread that cannot step loses its turn. -/
def run (method : ι → σ → Program Lock Seg β (σ × List ι)) (w : Threads Tid Lock Seg β σ ι) (schedule : List Tid) :
    Threads Tid Lock Seg β σ ι :=
  schedule.foldl (fun w t => (w.step method t).getD w) w

end

def WaitsAt (w : Threads Tid Lock Seg β σ ι) (t : Tid) (l : Lock) : Prop :=
  w.shared.sem l = 0 ∧ ∃ next, (w.thread t).running = some (.acquire l next)

/-- `t` waits for a semaphore that `t'` holds. -/
def WaitsFor (w : Threads Tid Lock Seg β σ ι) (t t' : Tid) : Prop := ∃ l, w.WaitsAt t l ∧ l ∈ (w.thread t').held

def Raised (w : Threads Tid Lock Seg β σ ι) (t : Tid) : Prop := (w.thread t).running = some .raise

structure Ordered [DecidableEq Lock] (rank : Lock → Nat) (w : Threads Tid Lock Seg β σ ι) : Prop where
  tally : Tally w.shared.sem fun t => (w.thread t).held
  thread : ∀ t, (w.thread t).Ordered rank

variable {w w' : Threads Tid Lock Seg β σ ι} {t t' : Tid} {l l' : Lock}

theorem WaitsAt.unique (h : w.WaitsAt t l) (h' : w.WaitsAt t l') : l = l' := by
  obtain ⟨-, next, hrun⟩ := h
  obtain ⟨-, next', hrun'⟩ := h'
  rw [hrun] at hrun'
  exact (Program.acquire.inj (Option.some.inj hrun')).1

namespace Ordered

variable [DecidableEq Lock]

section

variable [DecidableEq Tid] [DecidableEq Seg]

/-- A step keeps the order. -/
theorem step (hmethod : ∀ i vars, (method i vars).Ordered rank (fun _ => True) ∅ ∅) (h : w.Ordered rank)
    (hstep : w.step method t = some w') : w'.Ordered rank := by
  obtain ⟨⟨shared, self⟩, hself, rfl⟩ := Option.map_eq_some_iff.mp hstep
  obtain ⟨hordered, hcases⟩ := Thread.step_cases hmethod (h.thread t) hself
  have hheld : (fun t' => (Function.update w.thread t self t').held) =
      Function.update (fun t => (w.thread t).held) t self.held :=
    funext fun t' => Function.apply_update (fun _ => Thread.held) w.thread t self t'
  refine ⟨?_, fun t' => ?_⟩
  · dsimp only
    rw [hheld]
    rcases hcases with ⟨hsem, hkept⟩ | ⟨l, hfree, hsem, htaken⟩ | ⟨l, hl, hsem, hreleased⟩
    · rw [hsem, hkept, Function.update_eq_self]
      exact h.tally
    · rw [hsem, htaken]
      exact h.tally.acquire hfree
    · rw [hsem, hreleased]
      exact h.tally.release hl
  · dsimp only
    rw [Function.update_apply]
    split_ifs
    · exact hordered
    · exact h.thread t'

/-- Every run keeps the order of the semaphores. -/
theorem run (hmethod : ∀ i vars, (method i vars).Ordered rank (fun _ => True) ∅ ∅) (h : w.Ordered rank)
    (schedule : List Tid) :
    (w.run method schedule).Ordered rank := by
  induction schedule generalizing w with
  | nil => exact h
  | cons t schedule ih =>
    apply ih
    dsimp only
    cases hstep : w.step method t with
    | none => exact h
    | some w' => exact h.step hmethod hstep

/-- A thread that holds a semaphore can go on, unless it waits or has raised. -/
theorem exists_step (h : w.Ordered rank) (hl : l ∈ (w.thread t).held) (hwaits : ∀ l', ¬ w.WaitsAt t l')
    (hraised : ¬ w.Raised t) : ∃ w', w.step method t = some w' := by
  have hsome : ((w.thread t).step method w.shared).isSome :=
    Thread.exists_step (h.thread t) hl hraised fun l' next hrun hzero => hwaits l' ⟨hzero, next, hrun⟩
  obtain ⟨r, hr⟩ := Option.isSome_iff_exists.mp hsome
  exact ⟨_, Option.map_eq_some_iff.mpr ⟨r, hr, rfl⟩⟩

end

/-- What a waiting thread waits for has a holder. -/
theorem exists_holder (h : w.Ordered rank) (hwaits : w.WaitsAt t l) : ∃ t', l ∈ (w.thread t').held := by
  by_contra hnone
  have hone := h.tally.free l fun t' hl => hnone ⟨t', hl⟩
  rw [hwaits.1] at hone
  cases hone

/-- What a thread waits for ranks above all that it holds. -/
theorem rank_lt (h : w.Ordered rank) (hwaits : w.WaitsAt t l) (hl' : l' ∈ (w.thread t).held) : rank l' < rank l := by
  obtain ⟨-, next, hrun⟩ := hwaits
  have hself := h.thread t
  rw [Thread.Ordered, hrun] at hself
  exact hself.1 l' hl'

/-- Wherever a thread waits and ranks are bounded, some thread that does not wait holds a semaphore: follow
the holders up the ranks. -/
theorem exists_mover {bound : Nat} (hbound : ∀ l, rank l ≤ bound) (h : w.Ordered rank) (hwaits : w.WaitsAt t l) :
    ∃ t' l', l' ∈ (w.thread t').held ∧ ∀ l'', ¬ w.WaitsAt t' l'' := by
  induction hn : bound - rank l using Nat.strong_induction_on generalizing t l with
  | _ n ih =>
    obtain ⟨t', hl⟩ := h.exists_holder hwaits
    by_cases hwaits' : ∃ l', w.WaitsAt t' l'
    · obtain ⟨l', hwaits'⟩ := hwaits'
      have hlt := h.rank_lt hwaits' hl
      have hle := hbound l'
      exact ih (bound - rank l') (by omega) hwaits' rfl
    · exact ⟨t', l, hl, not_exists.mp hwaits'⟩

/-- Along waiting threads the ranks of what they wait for rise. -/
theorem rank_lt_of_transGen (h : w.Ordered rank) (hfor : Relation.TransGen w.WaitsFor t t')
    (hwaits : w.WaitsAt t l) (hwaits' : w.WaitsAt t' l') : rank l < rank l' := by
  induction hfor generalizing l' with
  | single hfor =>
    obtain ⟨i, hi, hheld⟩ := hfor
    rw [hwaits.unique hi]
    exact h.rank_lt hwaits' hheld
  | tail _ hfor ih =>
    obtain ⟨i, hi, hheld⟩ := hfor
    exact (ih hi).trans (h.rank_lt hwaits' hheld)

theorem acyclic (h : w.Ordered rank) (t : Tid) : ¬ Relation.TransGen w.WaitsFor t t := by
  intro hcycle
  obtain ⟨t', ⟨l, hwaits, -⟩, -⟩ := Relation.TransGen.head'_iff.mp hcycle
  exact lt_irrefl _ (h.rank_lt_of_transGen hcycle hwaits hwaits)

end Ordered

end Threads

end Soar.Library
