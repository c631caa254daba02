import Mathlib.Logic.Function.Basic
import Mathlib.Data.List.Basic

/-! Programs over counting semaphores and shared segments, as trees of their operations. A program may
raise; one that runs alone returns, raises or waits for ever. -/
namespace Soar.Library

inductive Program (Lock Seg β α : Type)
  | done (a : α)
  | acquire (l : Lock) (next : Program Lock Seg β α)
  | release (l : Lock) (next : Program Lock Seg β α)
  | read (s : Seg) (next : β → Program Lock Seg β α)
  | write (s : Seg) (f : β → Option β) (next : Program Lock Seg β α)
  | raise

/-- What the programs share. A semaphore is its value. -/
structure Shared (Lock Seg β : Type) where
  sem : Lock → Nat
  mem : Seg → β

inductive Ending (α : Type)
  | returned (a : α)
  | raised
  | blocked

/-- What is asked of a run: of the value that it returns, of the state that it raises in, and
whether it may wait for ever. -/
structure Post (Lock Seg β α : Type) where
  returned : α → Shared Lock Seg β → Prop
  raised : Shared Lock Seg β → Prop
  blocked : Prop

namespace Program

variable {Lock Seg β α γ : Type}

def bind : Program Lock Seg β α → (α → Program Lock Seg β γ) → Program Lock Seg β γ
  | .done a, f => f a
  | .acquire l next, f => .acquire l (next.bind f)
  | .release l next, f => .release l (next.bind f)
  | .read s next, f => .read s fun b => (next b).bind f
  | .write s g next, f => .write s g (next.bind f)
  | .raise, _ => .raise

instance : Monad (Program Lock Seg β) where
  pure := .done
  bind := bind

@[simp] theorem pure_eq (a : α) : (pure a : Program Lock Seg β α) = .done a := rfl
@[simp] theorem bind_eq (p : Program Lock Seg β α) (f : α → Program Lock Seg β γ) : p >>= f = p.bind f := rfl
@[simp] theorem bind_done (a : α) (f : α → Program Lock Seg β γ) : (done a).bind f = f a := rfl
@[simp] theorem bind_acquire (l : Lock) (next : Program Lock Seg β α) (f : α → Program Lock Seg β γ) :
    (acquire l next).bind f = .acquire l (next.bind f) := rfl
@[simp] theorem bind_release (l : Lock) (next : Program Lock Seg β α) (f : α → Program Lock Seg β γ) :
    (release l next).bind f = .release l (next.bind f) := rfl
@[simp] theorem bind_raise (f : α → Program Lock Seg β γ) : (raise : Program Lock Seg β α).bind f = .raise := rfl

section Run

variable [DecidableEq Lock] [DecidableEq Seg]

/-- A run of the program alone. -/
def run : Program Lock Seg β α → Shared Lock Seg β → Ending α × Shared Lock Seg β
  | .done a, st => (.returned a, st)
  | .acquire l next, st =>
    if st.sem l = 0 then (.blocked, st) else next.run { st with sem := Function.update st.sem l (st.sem l - 1) }
  | .release l next, st => next.run { st with sem := Function.update st.sem l (st.sem l + 1) }
  | .read s next, st => (next (st.mem s)).run st
  | .write s f next, st =>
    match f (st.mem s) with
    | some b => next.run { st with mem := Function.update st.mem s b }
    | none => (.raised, st)
  | .raise, st => (.raised, st)

/-- The run from `st` ends as `post` asks. -/
def Meets (p : Program Lock Seg β α) (st : Shared Lock Seg β) (post : Post Lock Seg β α) : Prop :=
  match p.run st with
  | (.returned a, st') => post.returned a st'
  | (.raised, st') => post.raised st'
  | (.blocked, _) => post.blocked

variable {st : Shared Lock Seg β} {post : Post Lock Seg β α}

@[simp] theorem meets_done (a : α) : (done a).Meets st post ↔ post.returned a st := Iff.rfl
@[simp] theorem meets_raise : raise.Meets st post ↔ post.raised st := Iff.rfl

@[simp] theorem meets_read (s : Seg) (next : β → Program Lock Seg β α) :
    (read s next).Meets st post ↔ (next (st.mem s)).Meets st post := Iff.rfl

@[simp] theorem meets_release (l : Lock) (next : Program Lock Seg β α) :
    (release l next).Meets st post ↔ next.Meets { st with sem := Function.update st.sem l (st.sem l + 1) } post :=
      Iff.rfl

/-- The rule for a semaphore. -/
theorem meets_acquire {l : Lock} {next : Program Lock Seg β α} (hzero : st.sem l = 0 → post.blocked)
    (hnext : st.sem l ≠ 0 → next.Meets { st with sem := Function.update st.sem l (st.sem l - 1) } post) :
    (acquire l next).Meets st post := by
  unfold Meets
  rw [run]
  split_ifs with hl
  · exact hzero hl
  · exact hnext hl

/-- The rule for a write to a segment. -/
theorem meets_write {s : Seg} {f : β → Option β} {next : Program Lock Seg β α}
    (hnone : f (st.mem s) = none → post.raised st)
    (hsome : ∀ b, f (st.mem s) = some b → next.Meets { st with mem := Function.update st.mem s b } post) :
    (write s f next).Meets st post := by
  unfold Meets
  rw [run]
  cases hf : f (st.mem s) with
  | none => exact hnone hf
  | some b => exact hsome b hf

/-- The rule for one program after another. -/
theorem meets_bind {p : Program Lock Seg β α} {f : α → Program Lock Seg β γ} {post : Post Lock Seg β γ} :
    (p.bind f).Meets st post ↔ p.Meets st ⟨fun a st' => (f a).Meets st' post, post.raised, post.blocked⟩ := by
  induction p generalizing st with
  | done a => rfl
  | acquire l next ih =>
    unfold Meets
    rw [bind, run, run]
    split_ifs with hl
    · rfl
    · exact ih
  | release l next ih => exact ih
  | read s next ih => exact ih _
  | write s g next ih =>
    unfold Meets
    rw [bind, run, run]
    cases g (st.mem s) with
    | none => rfl
    | some b => exact ih
  | raise => rfl

/-- The three ways in which a run can end as asked. -/
theorem Meets.ending {p : Program Lock Seg β α} (h : p.Meets st post) :
    (∃ a st', p.run st = (.returned a, st') ∧ post.returned a st') ∨
      (∃ st', p.run st = (.raised, st') ∧ post.raised st') ∨ ∃ st', p.run st = (.blocked, st') ∧ post.blocked := by
  unfold Meets at h
  cases hrun : p.run st with
  | mk ending st' =>
    rw [hrun] at h
    cases ending with
    | returned a => exact .inl ⟨a, st', rfl, h⟩
    | raised => exact .inr (.inl ⟨st', rfl, h⟩)
    | blocked => exact .inr (.inr ⟨st', rfl, h⟩)

/-- The rule of consequence. -/
theorem Meets.mono {p : Program Lock Seg β α} {post' : Post Lock Seg β α} (h : p.Meets st post)
    (hreturned : ∀ a st', post.returned a st' → post'.returned a st')
    (hraised : ∀ st', post.raised st' → post'.raised st') (hblocked : post.blocked → post'.blocked) :
    p.Meets st post' := by
  unfold Meets
  rcases h.ending with ⟨a, st', hrun, hpost⟩ | ⟨st', hrun, hpost⟩ | ⟨st', hrun, hpost⟩
  · rw [hrun]
    exact hreturned a st' hpost
  · rw [hrun]
    exact hraised st' hpost
  · rw [hrun]
    exact hblocked hpost

/-- The rule of sequence. -/
theorem Meets.bind {p : Program Lock Seg β α} {f : α → Program Lock Seg β γ} {post : Post Lock Seg β α}
    {post' : Post Lock Seg β γ} (h : p.Meets st post)
    (hreturned : ∀ a st', post.returned a st' → (f a).Meets st' post')
    (hraised : ∀ st', post.raised st' → post'.raised st') (hblocked : post.blocked → post'.blocked) :
    (p.bind f).Meets st post' :=
  meets_bind.mpr (h.mono hreturned hraised hblocked)

end Run

end Program

end Soar.Library
