import Mathlib.Logic.Function.Basic
import Mathlib.Data.Nat.ModEq

/-! Processes over shared segments and binary semaphores. A process is a local state and the
one operation that it does next; a blocked process keeps both. Last, the slots of a ring. -/
namespace Soar.Library

variable {Tid Lock Seg β γ σ : Type}

/-- One operation on a semaphore or on a segment, with the local state after it. An update
that the segment refuses leaves the process in `raised`. Its note goes to the history. -/
inductive Action (Lock Seg β γ σ : Type)
  | acquire (l : Lock) (next : σ)
  | release (l : Lock) (next : σ)
  | read (s : Seg) (next : β → σ)
  | update (s : Seg) (f : β → Option β) (note : γ → γ) (next raised : σ)
  | halt

/-- What the processes share: the segments, who holds which semaphore, and a history of the
updates that no process reads. -/
structure Store (Tid Lock Seg β γ : Type) where
  mem : Seg → β
  holder : Lock → Option Tid
  history : γ

section
variable [DecidableEq Lock] [DecidableEq Seg]

def Action.exec (a : Action Lock Seg β γ σ) (t : Tid) (st : Store Tid Lock Seg β γ) (loc : σ) :
    Store Tid Lock Seg β γ × σ :=
  match a with
  | .acquire l next =>
    if st.holder l = none then ({ st with holder := Function.update st.holder l (some t) }, next) else (st, loc)
  | .release l next => ({ st with holder := Function.update st.holder l none }, next)
  | .read s next => (st, next (st.mem s))
  | .update s f note next raised =>
    match f (st.mem s) with
    | some v => ({ st with mem := Function.update st.mem s v, history := note st.history }, next)
    | none => (st, raised)
  | .halt => (st, loc)

/-- The action gives semaphore `l` back. -/
def Action.Frees (l : Lock) : Action Lock Seg β γ σ → Prop
  | .release l' _ => l' = l
  | _ => False

/-- The action writes segment `s`. -/
def Action.Writes (s : Seg) : Action Lock Seg β γ σ → Prop
  | .update s' _ _ _ _ => s' = s
  | _ => False

/-- What the action adds to the history when it succeeds. -/
def Action.note : Action Lock Seg β γ σ → γ → γ
  | .update _ _ note _ _ => note
  | _ => id

variable {a : Action Lock Seg β γ σ} {t t' : Tid} {st : Store Tid Lock Seg β γ} {loc : σ} {l l' : Lock}

theorem update_acquired {holder : Lock → Option Tid} (hl : holder l = none) (h : holder l' = some t')
    (x : Option Tid) : Function.update holder l x l' = some t' := by
  have hne : l' ≠ l := by rintro rfl; simp [hl] at h
  exact (Function.update_of_ne hne ..).trans h

theorem update_released {holder : Lock → Option Tid} (hl : holder l = some t) (ht : t ≠ t')
    (h : holder l' = some t') (x : Option Tid) : Function.update holder l x l' = some t' := by
  have hne : l' ≠ l := by rintro rfl; exact ht (Option.some.inj (hl.symm.trans h))
  exact (Function.update_of_ne hne ..).trans h

/-- A semaphore stays with its holder while the other processes free only what they hold. -/
theorem Action.exec_holder (hfree : a.Frees l' → st.holder l' = some t) (ht : t ≠ t')
    (h : st.holder l' = some t') : (a.exec t st loc).1.holder l' = some t' := by
  cases a with
  | acquire l next =>
    by_cases hn : st.holder l = none
    · rw [exec, if_pos hn]
      exact update_acquired hn h _
    · rw [exec, if_neg hn]
      exact h
  | release l next =>
    by_cases hl : l = l'
    · exact absurd (Option.some.inj ((hfree hl).symm.trans h)) ht
    · exact (Function.update_of_ne (Ne.symm hl) ..).trans h
  | read s next => exact h
  | update s f note next raised =>
    rw [exec]
    split
    · exact h
    · exact h
  | halt => exact h

/-- A segment keeps its contents unless the action writes to it. -/
theorem Action.exec_mem {s : Seg} (hw : ¬ a.Writes s) : (a.exec t st loc).1.mem s = st.mem s := by
  cases a with
  | acquire l next => rw [exec]; split <;> rfl
  | release l next => rfl
  | read s next => rfl
  | update s' f note next raised =>
    rw [exec]
    split
    · exact Function.update_of_ne (Ne.symm hw) ..
    · rfl
  | halt => rfl

/-- An action appends to the history what it notes, or nothing. -/
theorem Action.exec_history (a : Action Lock Seg β γ σ) (t : Tid) (st : Store Tid Lock Seg β γ) (loc : σ) :
    (a.exec t st loc).1.history = st.history ∨ (a.exec t st loc).1.history = a.note st.history := by
  cases a with
  | acquire l next => rw [exec]; split <;> exact .inl rfl
  | release l next => exact .inl rfl
  | read s next => exact .inl rfl
  | update s f note next raised =>
    rw [exec]
    split
    · exact .inr rfl
    · exact .inl rfl
  | halt => exact .inl rfl

/-- The action of a process whose local state is a part of the state of another. -/
def Action.map {ρ : Type} (f : σ → ρ) : Action Lock Seg β γ σ → Action Lock Seg β γ ρ
  | .acquire l next => .acquire l (f next)
  | .release l next => .release l (f next)
  | .read s next => .read s fun b => f (next b)
  | .update s g note next raised => .update s g note (f next) (f raised)
  | .halt => .halt

/-- It does the same to the store, unless both wait for a semaphore. -/
theorem Action.exec_map {ρ : Type} (f : σ → ρ) (a : Action Lock Seg β γ σ) (t : Tid) (st : Store Tid Lock Seg β γ)
    (loc : σ) (loc' : ρ) : (a.map f).exec t st loc' = ((a.exec t st loc).1, f (a.exec t st loc).2) ∨
      (a.map f).exec t st loc' = (st, loc') ∧ a.exec t st loc = (st, loc) := by
  cases a with
  | acquire l next =>
    dsimp only [map, exec]
    split
    · exact .inl rfl
    · exact .inr ⟨rfl, rfl⟩
  | update s g note next raised =>
    dsimp only [map, exec]
    split <;> exact .inl rfl
  | halt => exact .inr ⟨rfl, rfl⟩
  | _ => exact .inl rfl

end

/-- Among `n` consecutive positions of a ring of `n` slots no two share a slot. -/
theorem mod_ne_of_window {a b n : Nat} (hab : a < b) (hb : b < a + n) : a % n ≠ b % n := by
  intro h
  have hd : n ∣ b - a := (Nat.modEq_iff_dvd' hab.le).mp h
  have := Nat.le_of_dvd (by omega) hd
  omega

end Soar.Library
