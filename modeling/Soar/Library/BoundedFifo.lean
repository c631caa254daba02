import Mathlib.Data.List.Chain
import Mathlib.Data.List.Infix

/-! A queue that drops entries while they wait: what is taken from it is part of what was put, in order. -/
namespace Soar.Library

variable {α : Type}

/-- What was taken and what waits are part of what was put, in this order. -/
def Fed (puts taken queue : List α) : Prop := (taken ++ queue).Sublist puts

variable {puts taken queue queue' : List α} {x : α}

theorem fed_start : Fed ([] : List α) [] [] := List.Sublist.refl []

/-- A put at the end that drops from the front. -/
theorem Fed.put (h : Fed puts taken queue) (hqueue : queue' <:+ queue ++ [x]) : Fed (puts ++ [x]) taken queue' := by
  have hput : (taken ++ (queue ++ [x])).Sublist (puts ++ [x]) := by
    rw [← List.append_assoc]
    exact List.Sublist.append_right h [x]
  exact ((List.append_sublist_append_left taken).mpr hqueue.sublist).trans hput

/-- A take that drops what is in front of the entry. -/
theorem Fed.take (h : Fed puts taken queue) (hqueue : x :: queue' <:+ queue) : Fed puts (taken ++ [x]) queue' := by
  rw [Fed, List.append_assoc, List.singleton_append]
  exact ((List.append_sublist_append_left taken).mpr hqueue.sublist).trans h

theorem Fed.sublist (h : Fed puts taken queue) : taken.Sublist puts := (List.sublist_append_left taken queue).trans h

end Soar.Library
