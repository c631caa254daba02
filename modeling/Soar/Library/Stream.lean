import Mathlib.Data.List.TakeDrop
import Mathlib.Tactic.Common

/-! A stream of bytes that arrives in pieces. -/
namespace Soar.Library

variable {α : Type*}

/-- The pieces in which a message arrives before the stream ends. -/
structure Arrival (message : List α) where
  chunks : List (List α)
  nonempty : [] ∉ chunks
  flatten : chunks.flatten = message

/-- A message that arrives in one piece. -/
def Arrival.whole {message : List α} (h : message ≠ []) : Arrival message where
  chunks := [message]
  nonempty hmem := h (List.mem_singleton.mp hmem).symm
  flatten := List.flatten_singleton

/-- `recv(bufSize)`: what has arrived, up to `bufSize` bytes, and nothing at the end of the stream. -/
def recv (bufSize : Nat) : List (List α) → List α × List (List α)
  | [] => ([], [])
  | chunk :: chunks =>
    (chunk.take bufSize, if chunk.length ≤ bufSize then chunks else chunk.drop bufSize :: chunks)

/-- What is received and what remains is the stream. -/
theorem recv_append (bufSize : Nat) (chunks : List (List α)) :
    (recv bufSize chunks).1 ++ (recv bufSize chunks).2.flatten = chunks.flatten := by
  cases chunks with
  | nil => rfl
  | cons chunk chunks =>
    unfold recv
    dsimp only
    split_ifs with hlen
    · rw [List.take_of_length_le hlen, List.flatten_cons]
    · rw [List.flatten_cons, List.flatten_cons, ← List.append_assoc, List.take_append_drop]

theorem recv_nonempty (bufSize : Nat) {chunks : List (List α)} (h : [] ∉ chunks) : [] ∉ (recv bufSize chunks).2 := by
  cases chunks with
  | nil => exact h
  | cons chunk chunks =>
    rw [List.mem_cons, not_or] at h
    unfold recv
    dsimp only
    split_ifs with hlen
    · exact h.2
    · rw [List.mem_cons, not_or]
      exact ⟨fun hnil => hlen (List.drop_eq_nil_iff.mp hnil.symm), h.2⟩

/-- Only the end of the stream is read as nothing. -/
theorem recv_eq_nil {bufSize : Nat} (hbuf : 0 < bufSize) {chunks : List (List α)} (h : [] ∉ chunks)
    (hrecv : (recv bufSize chunks).1 = []) : chunks = [] := by
  cases chunks with
  | nil => rfl
  | cons chunk chunks =>
    rcases List.take_eq_nil_iff.mp hrecv with hzero | hnil
    · omega
    · exact absurd (hnil ▸ List.mem_cons_self ..) h

/-- `while True`: receive until nothing comes. -/
def recvAll (bufSize : Nat) (chunks : List (List α)) : List α :=
  if (recv bufSize chunks).1.length > 0 then
    (recv bufSize chunks).1 ++ recvAll bufSize (recv bufSize chunks).2
  else []
termination_by chunks.flatten.length
decreasing_by
  have hlength := congrArg List.length (recv_append bufSize chunks)
  rw [List.length_append] at hlength
  omega

/-- Receiving until nothing comes receives the whole stream. -/
theorem recvAll_eq {bufSize : Nat} (hbuf : 0 < bufSize) (chunks : List (List α)) (h : [] ∉ chunks) :
    recvAll bufSize chunks = chunks.flatten := by
  fun_induction recvAll bufSize chunks with
  | case1 chunks hlength ih => rw [ih (recv_nonempty bufSize h), recv_append]
  | case2 chunks hlength =>
    rw [recv_eq_nil hbuf h (List.length_eq_zero_iff.mp (by omega)), List.flatten_nil]

/-- One call receives a whole message exactly if it arrives in one piece that fits the buffer. -/
theorem Arrival.recv_eq_iff {message : List α} (arrival : Arrival message) (bufSize : Nat) :
    (recv bufSize arrival.chunks).1 = message ↔ arrival.chunks.length ≤ 1 ∧ message.length ≤ bufSize := by
  obtain ⟨chunks, hnonempty, rfl⟩ := arrival
  dsimp only
  match chunks with
  | [] => simp [recv]
  | [chunk] => simp [recv, List.take_eq_self_iff]
  | chunk :: second :: chunks =>
    refine iff_of_false (fun hrecv => ?_) (by simp)
    have hsecond : second ≠ [] := fun hnil => hnonempty (by simp [hnil])
    have hpos := List.length_pos_iff.mpr hsecond
    have hlength := congrArg List.length hrecv
    simp only [recv, List.length_take, List.flatten_cons, List.length_append] at hlength
    omega

end Soar.Library
