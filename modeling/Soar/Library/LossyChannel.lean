import Mathlib.Data.List.Basic

/-! A channel that may lose messages and keeps their order. -/
namespace Soar.Library

/-- What was sent, what is on its way, what has arrived, and how many messages are lost. -/
structure Channel (Msg : Type) where
  sent : List Msg := []
  inFlight : List Msg := []
  received : List Msg := []
  lost : Nat := 0

namespace Channel

variable {Msg : Type} (c : Channel Msg)

def send (m : Msg) : Channel Msg := { c with sent := c.sent ++ [m], inFlight := c.inFlight ++ [m] }

/-- The message at a place of those on their way is lost. -/
def lose (k : Nat) : Channel Msg :=
  if k < c.inFlight.length then { c with inFlight := c.inFlight.eraseIdx k, lost := c.lost + 1 } else c

/-- The first message on its way arrives. -/
def receive : Option (Msg × Channel Msg) :=
  match c.inFlight with
  | [] => none
  | m :: rest => some (m, { c with inFlight := rest, received := c.received ++ [m] })

/-- What arrives was sent, in this order, and nothing arrives that is lost. -/
structure Ordered : Prop where
  sublist : (c.received ++ c.inFlight).Sublist c.sent
  count : c.received.length + c.inFlight.length + c.lost = c.sent.length

theorem ordered_start : Ordered ({} : Channel Msg) := ⟨List.Sublist.slnil, rfl⟩

variable {c} {c' : Channel Msg}

theorem Ordered.send (h : c.Ordered) (m : Msg) : (c.send m).Ordered where
  sublist := by
    rw [Channel.send]
    dsimp only
    rw [← List.append_assoc]
    exact h.sublist.append (List.Sublist.refl [m])
  count := by
    have hcount := h.count
    simp only [Channel.send, List.length_append, List.length_singleton]
    omega

theorem Ordered.lose (h : c.Ordered) (k : Nat) : (c.lose k).Ordered := by
  rw [Channel.lose]
  split
  · rename_i hk
    refine ⟨((List.Sublist.refl _).append (List.eraseIdx_sublist _ _)).trans h.sublist, ?_⟩
    have hcount := h.count
    have hlen := List.length_eraseIdx_of_lt hk
    dsimp only
    omega
  · exact h

theorem receive_eq_some {m : Msg} (h : c.receive = some (m, c')) :
    ∃ rest, c.inFlight = m :: rest ∧ c' = { c with inFlight := rest, received := c.received ++ [m] } := by
  rw [Channel.receive] at h
  split at h
  · cases h
  · rename_i m' rest hflight
    cases h
    exact ⟨rest, hflight, rfl⟩

/-- Receiving keeps the order of the channel. -/
theorem Ordered.receive (h : c.Ordered) {m : Msg} (hreceive : c.receive = some (m, c')) : c'.Ordered := by
  obtain ⟨rest, hflight, rfl⟩ := receive_eq_some hreceive
  obtain ⟨hsublist, hcount⟩ := h
  rw [hflight] at hsublist hcount
  refine ⟨?_, ?_⟩
  · dsimp only
    rwa [List.append_assoc, List.singleton_append]
  · simp only [List.length_append, List.length_cons, List.length_nil] at hcount ⊢
    omega

/-- Where nothing is lost, what arrives is the front of what was sent. -/
theorem Ordered.received_prefix (h : c.Ordered) (hlost : c.lost = 0) : c.received <+: c.sent := by
  have hlen : (c.received ++ c.inFlight).length = c.sent.length := by
    rw [List.length_append]
    have := h.count
    omega
  exact ⟨c.inFlight, h.sublist.eq_of_length hlen⟩

/-- A sublist stands at increasing places. -/
theorem exists_places {l l' : List Msg} (h : l.Sublist l') :
    ∃ ids : List Nat, ids.Pairwise (· < ·) ∧ ids.map (fun k => l'[k]?) = l.map some := by
  induction h with
  | slnil => exact ⟨[], List.Pairwise.nil, rfl⟩
  | @cons l l' m _ ih =>
    obtain ⟨ids, hincreasing, hids⟩ := ih
    refine ⟨ids.map (· + 1), hincreasing.map _ (fun _ _ h => Nat.succ_lt_succ h), ?_⟩
    rw [List.map_map, ← hids]
    rfl
  | @cons_cons l l' m _ ih =>
    obtain ⟨ids, hincreasing, hids⟩ := ih
    refine ⟨0 :: ids.map (· + 1), ?_, ?_⟩
    · rw [List.pairwise_cons]
      refine ⟨?_, hincreasing.map _ (fun _ _ h => Nat.succ_lt_succ h)⟩
      intro k hk
      obtain ⟨_, -, rfl⟩ := List.mem_map.mp hk
      exact Nat.succ_pos _
    · rw [List.map_cons, List.map_cons, List.map_map, ← hids]
      rfl

/-- The places in what was sent of what has arrived; where nothing is lost, they have no gap. -/
theorem Ordered.places (h : c.Ordered) :
    ∃ ids : List Nat, ids.Pairwise (· < ·) ∧ ids.map (fun k => c.sent[k]?) = c.received.map some ∧
      (c.lost = 0 → ids = List.range c.received.length) := by
  by_cases hlost : c.lost = 0
  · obtain ⟨rest, hrest⟩ := h.received_prefix hlost
    refine ⟨List.range c.received.length, List.pairwise_lt_range, ?_, fun _ => rfl⟩
    apply List.ext_getElem
    · rw [List.length_map, List.length_map, List.length_range]
    · intro k hk hk'
      rw [List.length_map] at hk'
      rw [List.getElem_map, List.getElem_map, List.getElem_range, ← hrest, List.getElem?_append_left hk',
        List.getElem?_eq_getElem hk']
  · obtain ⟨ids, hincreasing, hids⟩ := exists_places ((List.sublist_append_left _ _).trans h.sublist)
    exact ⟨ids, hincreasing, hids, fun h => absurd h hlost⟩

end Channel

end Soar.Library
