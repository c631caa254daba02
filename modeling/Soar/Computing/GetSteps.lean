import Soar.Computing.RingInvariant

/-! The steps of both versions of `get` keep the invariant of the ring. -/
namespace Soar.Computing
open Soar.Library

variable {τ : Type} {q : CrossQueue τ} {v : Version} {items : Nat → Bytes × τ} {ring : Ring} {p : Producer}
  {cs : Nat → Consumer τ} {c : Consumer τ} {k : Nat}

/-! What the consumer of one key does to the others. -/

private theorem getBy_frees (h : Key q v items ring p c k) {l : Semaphore} (hl : (q.getBy v k c).Frees l) :
    ring.holder l = some (.consumer k) := by
  rw [CrossQueue.getBy] at hl
  by_cases hr : c.raised
  · rw [if_pos hr] at hl
    exact hl.elim
  rw [if_neg hr] at hl
  cases hc : c.point with
  | emptyReleaseRear | releaseRear =>
    rw [hc] at hl
    obtain rfl := hl
    exact h.holdsRear (by simp [hc])
  | emptyReleaseFront | releaseFront | unlockFront =>
    rw [hc] at hl
    obtain rfl := hl
    exact h.holdsFront (by simp [hc])
  | readData =>
    simp only [hc] at hl
    split_ifs at hl <;> exact hl.elim
  | _ => rw [hc] at hl; exact hl.elim

private theorem getBy_writes {s : Segment} (hs : (q.getBy v k c).Writes s) : s = .front k := by
  rw [CrossQueue.getBy] at hs
  by_cases hr : c.raised
  · rw [if_pos hr] at hs
    exact hs.elim
  rw [if_neg hr] at hs
  cases hc : c.point with
  | writeFront => rw [hc] at hs; exact hs.symm
  | readData =>
    simp only [hc] at hs
    split_ifs at hs <;> exact hs.elim
  | _ => rw [hc] at hs; exact hs.elim

private theorem getBy_note (q : CrossQueue τ) (v : Version) (c : Consumer τ) {i k : Nat} (hi : i ≠ k)
    (history : Nat → List Move) : (q.getBy v k c).note history i = history i := by
  rw [CrossQueue.getBy]
  by_cases hr : c.raised
  · rw [if_pos hr]
    rfl
  rw [if_neg hr]
  cases hc : c.point with
  | writeFront => exact Function.update_of_ne hi ..
  | readData =>
    dsimp only
    split_ifs <;> rfl
  | _ => rfl

private theorem exec_keeps (h : Key q v items ring p c k) {t : Process} (ht : t ≠ .consumer k) {l : Semaphore}
    (hl : ring.holder l = some t) :
    ((q.getBy v k c).exec (.consumer k) ring c).1.holder l = some t :=
  Action.exec_holder (fun hf => getBy_frees h hf) ht.symm hl

private theorem exec_mem (ring : Ring) {s : Segment} (hs : s ≠ .front k) :
    ((q.getBy v k c).exec (.consumer k) ring c).1.mem s = ring.mem s :=
  Action.exec_mem fun hw => hs (getBy_writes hw)

private theorem sameRing_get (h : Key q v items ring p c k) {i : Nat} (hi : i ≠ k) :
    SameRing ring ((q.getBy v k c).exec (.consumer k) ring c).1 i where
  rear := exec_mem ring Segment.noConfusion
  front := exec_mem ring fun he => hi (Segment.front.inj he)
  history := by
    rcases Action.exec_history (q.getBy v k c) (.consumer k) ring c with he | he
    · rw [he]
    · rw [he, getBy_note q v c hi]
  holdsRear := exec_keeps h fun he => hi (Process.consumer.inj he)
  holdsFront := exec_keeps h fun he => hi (Process.consumer.inj he)

private theorem put_get (h : Key q v items ring p c k) (hput : Put q items ring p) :
    Put q items ((q.getBy v k c).exec (.consumer k) ring c).1 p where
  rear_text := by rw [exec_mem ring Segment.noConfusion]; exact hput.rear_text
  rear := hput.rear
  holdsRear hr := exec_keeps h Process.noConfusion (hput.holdsRear hr)
  holdsFront i hi := exec_keeps h Process.noConfusion (hput.holdsFront i hi)
  key := hput.key
  slot a ha hroom := by
    have hslot := hput.slot a ha hroom
    refine ⟨?_, ?_⟩
    · rw [exec_mem ring Segment.noConfusion]
      exact hslot.data
    · rw [exec_mem ring Segment.noConfusion]
      exact hslot.time
  data hd := by rw [exec_mem ring Segment.noConfusion]; exact hput.data hd
  time ht := by rw [exec_mem ring Segment.noConfusion]; exact hput.time ht

/-! What the consumer's steps do to its own key. -/

/-- The consumer has finished with the put at its front, or not looked at it yet. -/
theorem Key.away (h : Key q v items ring p c k) {c' : Consumer τ} {holder : Semaphore → Option Process}
    (hpast : ¬ c'.point.past) (hknows : ¬ c'.point.knowsFront v)
    (hrear : readInt c'.rear (ring.mem .rear) = p.count % q.maxLength)
    (hfront : readInt c'.front (ring.mem (.front k)) = (ring.history k).length % q.maxLength)
    (hdelivered : c'.delivered q = ((taken (ring.history k)).filter fun n => q.Shaped (items n).1).map items)
    (holdsRear : c'.point.holdsRear → holder .rear = some (.consumer k))
    (holdsFront : c'.point.holdsFront v → holder (.front k) = some (.consumer k)) :
    Key q v items { ring with holder := holder } p c' k :=
  { h with
    rear_text := hrear
    front_text := hfront
    past := fun hp => absurd hp hpast
    past_unchecked := fun hp => absurd hp hpast
    front := fun hk => absurd hk hknows
    data := fun hd => absurd hd.knowsFront hknows
    time := fun ht => absurd ht.knowsFront hknows
    holdsRear := holdsRear
    holdsFront := holdsFront
    delivered := hdelivered }

private theorem Key.delivers (h : Key q v items ring p c k) {c' : Consumer τ} (hc : c.point ≠ .unlockFront)
    (hc' : c'.point ≠ .unlockFront) (hr : c'.returned = c.returned) :
    c'.delivered q = ((taken (ring.history k)).filter fun n => q.Shaped (items n).1).map items := by
  have hd := h.delivered
  rw [Consumer.delivered, if_neg hc] at hd
  rw [Consumer.delivered, if_neg hc', hr, hd]

private theorem get_acquireRear (h : Key q v items ring p c k) (hc : c.point = .acquireRear) :
    Key q v items { ring with holder := Function.update ring.holder .rear (some (.consumer k)) } p
      { c with point := .acquireFront } k :=
  h.away id id h.rear_text h.front_text (h.delivers (by simp [hc]) (by simp) rfl)
    (fun _ => Function.update_self ..) False.elim

private theorem get_acquireFront (h : Key q v items ring p c k) (hc : c.point = .acquireFront)
    (hn : ring.holder (.front k) = none) :
    Key q v items { ring with holder := Function.update ring.holder (.front k) (some (.consumer k)) } p
      { c with point := .readFront } k :=
  h.away id id h.rear_text h.front_text (h.delivers (by simp [hc]) (by simp) rfl)
    (fun _ => update_acquired hn (h.holdsRear (by simp [hc])) _) (fun _ => Function.update_self ..)

private theorem get_readFront (h : Key q v items ring p c k) (hc : c.point = .readFront) :
    Key q v items ring p { c with point := .readRear, front := readInt c.front (ring.mem (.front k)) } k :=
  { h with
    front_text := by simpa using h.front_text
    past := False.elim
    past_unchecked := False.elim
    front := fun _ => h.front_text
    data := False.elim
    time := False.elim
    holdsRear := fun _ => h.holdsRear (by simp [hc])
    holdsFront := fun _ => h.holdsFront (by simp [hc])
    delivered := h.delivers (by simp [hc]) (by simp) rfl }

private theorem get_readRear (h : Key q v items ring p c k) (hput : Put q items ring p) (hc : c.point = .readRear) :
    Key q v items ring p { c with
      point := if readInt c.rear (ring.mem .rear) = c.front then .emptyReleaseRear else .releaseFront
      rear := readInt c.rear (ring.mem .rear) } k := by
  have hfront := h.front (by simp [hc])
  have hrear := h.holdsRear (by simp [hc])
  have hidle : ¬ p.point.checked k := by
    intro hch
    have hown := hput.holdsRear hch.hasTime.holdsRear
    exact Process.noConfusion (Option.some.inj (hown.symm.trans hrear))
  split_ifs with hif
  · exact h.away id id (by simpa using h.rear_text) h.front_text (h.delivers (by simp [hc]) (by simp) rfl)
      (fun _ => hrear) (fun _ => h.holdsFront (by simp [hc]))
  · have hle := h.le_unchecked hidle
    have hlt : (ring.history k).length < p.count := by
      refine lt_of_le_of_ne hle fun he => hif ?_
      rw [h.rear_text, hfront, he]
    exact { h with
      rear_text := by simpa using h.rear_text
      past := fun _ => hle
      past_unchecked := fun _ _ => hlt
      front := fun _ => hfront
      data := False.elim
      time := False.elim
      holdsRear := fun _ => hrear
      holdsFront := fun _ => h.holdsFront (by simp [hc])
      delivered := h.delivers (by simp [hc]) (by simp) rfl }

private theorem get_emptyReleaseRear (h : Key q v items ring p c k) (hc : c.point = .emptyReleaseRear) :
    Key q v items { ring with holder := Function.update ring.holder .rear none } p
      { c with point := .emptyReleaseFront } k :=
  h.away id id h.rear_text h.front_text (h.delivers (by simp [hc]) (by simp) rfl) False.elim
    (fun _ => by simpa using h.holdsFront (by simp [hc]))

private theorem get_emptyReleaseFront (h : Key q v items ring p c k) (hc : c.point = .emptyReleaseFront) :
    Key q v items { ring with holder := Function.update ring.holder (.front k) none } p
      { c with point := .acquireRear } k :=
  h.away id id h.rear_text h.front_text (h.delivers (by simp [hc]) (by simp) rfl) False.elim False.elim

private theorem get_releaseFront (h : Key q v items ring p c k) (hc : c.point = .releaseFront) :
    Key q v items { ring with holder := Function.update ring.holder (.front k) none } p
      { c with point := .releaseRear } k :=
  { h with
    past := fun _ => h.past (by simp [hc])
    past_unchecked := fun _ => h.past_unchecked (by simp [hc])
    front := fun _ => h.front (by simp [hc])
    data := False.elim
    time := False.elim
    holdsRear := fun _ => by simpa using h.holdsRear (by simp [hc])
    holdsFront := False.elim
    delivered := h.delivers (by simp [hc]) (by simp) rfl }

private theorem get_releaseRear (h : Key q v items ring p c k) (hc : c.point = .releaseRear) :
    Key q v items { ring with holder := Function.update ring.holder .rear none } p
      { c with point := v.afterCheck } k :=
  { h with
    past := fun _ => h.past (by simp [hc])
    past_unchecked := fun _ => h.past_unchecked (by simp [hc])
    front := fun _ => h.front (by simp [hc])
    data := fun hd => by cases v <;> simp [Version.afterCheck] at hd
    time := fun ht => by cases v <;> simp [Version.afterCheck] at ht
    holdsRear := fun hr => by cases v <;> exact hr.elim
    holdsFront := fun hf => by cases v <;> simp [Version.afterCheck] at hf
    delivered := h.delivers (by simp [hc]) (by cases v <;> simp [Version.afterCheck]) rfl }

private theorem get_readData (h : Key q v items ring p c k) (hput : Put q items ring p) (hc : c.point = .readData) :
    Key q v items ring p
      { c with point := .readTime, data := readFromMemory (ring.mem (.data c.front)) } k := by
  have hfront := h.front (by simp [hc])
  have hslot := h.holds hput (by simp [hc])
  exact { h with
    past := fun _ => h.past (by simp [hc])
    past_unchecked := fun _ => h.past_unchecked (by simp [hc])
    front := fun _ => hfront
    data := fun _ => by rw [hfront]; exact hslot.data
    time := False.elim
    holdsRear := False.elim
    holdsFront := fun hf => h.holdsFront (by rw [hc]; exact hf)
    delivered := h.delivers (by simp [hc]) (by simp) rfl }

private theorem get_readTime (h : Key q v items ring p c k) (hput : Put q items ring p) (hc : c.point = .readTime)
    {t : τ} (ht : q.timestamp.float? (readFromMemory (ring.mem (.time c.front))) = some t) :
    Key q v items ring p { c with point := v.afterTime, timestamp := some t } k := by
  have hfront := h.front (by simp [hc])
  have hslot := h.holds hput (by simp [hc])
  rw [hfront, hslot.time] at ht
  exact { h with
    past := fun _ => h.past (by simp [hc])
    past_unchecked := fun _ => h.past_unchecked (by simp [hc])
    front := fun _ => hfront
    data := fun _ => h.data (by simp [hc])
    time := fun _ => ht.symm
    holdsRear := fun hr => by cases v <;> exact hr.elim
    holdsFront := fun hf => by
      cases v with
      | cross => exact hf.elim
      | infer => exact h.holdsFront (by simp [hc])
    delivered := h.delivers (by simp [hc]) (by cases v <;> simp [Version.afterTime]) rfl }

private theorem get_lockFront (h : Key q v items ring p c k) (hc : c.point = .lockFront) :
    Key q v items { ring with holder := Function.update ring.holder (.front k) (some (.consumer k)) } p
      { c with point := .rereadFront } k :=
  { h with
    past := fun _ => h.past (by simp [hc])
    past_unchecked := fun _ => h.past_unchecked (by simp [hc])
    front := fun hv => h.front (by rw [hc]; exact hv)
    data := fun hv => h.data (by rw [hc]; exact hv)
    time := fun hv => h.time (by rw [hc]; exact hv)
    holdsRear := False.elim
    holdsFront := fun _ => by simp
    delivered := h.delivers (by simp [hc]) (by simp) rfl }

private theorem get_rereadFront (h : Key q v items ring p c k) (hc : c.point = .rereadFront) :
    Key q v items ring p { c with point := v.afterFront, front := readInt c.front (ring.mem (.front k)) } k :=
  { h with
    front_text := by simpa using h.front_text
    past := fun _ => h.past (by simp [hc])
    past_unchecked := fun _ => h.past_unchecked (by simp [hc])
    front := fun _ => h.front_text
    data := fun hd => h.data (by cases v <;> simp_all [Version.afterFront])
    time := fun ht => h.time (by cases v <;> simp_all [Version.afterFront])
    holdsRear := fun hr => by cases v <;> exact hr.elim
    holdsFront := fun _ => h.holdsFront (by simp [hc])
    delivered := h.delivers (by simp [hc]) (by cases v <;> simp [Version.afterFront]) rfl }

private theorem get_writeFront (h : Key q v items ring p c k) (hput : Put q items ring p) (hc : c.point = .writeFront)
    {text : Bytes} (hw : writeToMemory (str ((c.front + 1) % q.maxLength)) (ring.mem (.front k)) = some text) :
    Key q v items { ring with
        mem := Function.update ring.mem (.front k) text
        history := logMove k .taken ring.history } p
      { c with point := .unlockFront, front := (c.front + 1) % q.maxLength } k := by
  have hnext : (c.front + 1) % q.maxLength = ((ring.history k).length + 1) % q.maxLength := by
    rw [h.front (by simp [hc]), Nat.mod_add_mod]
  have hlen : (logMove k .taken ring.history k).length = (ring.history k).length + 1 := by
    simp [logMove]
  have htext : ∀ cached, readInt cached text = ((ring.history k).length + 1) % q.maxLength := fun cached => by
    rw [readInt_writeToMemory hw, hnext]
  have hroom := h.room
  have hpast := h.past (by simp [hc])
  exact { h with
    rear_text := by simpa using h.rear_text
    front_text := by simpa [hlen] using htext _
    fronts_text := by simpa [hlen] using htext _
    room := by rw [hlen]; omega
    room_checked := fun hch => by
      rw [hlen]
      have := h.room_checked hch
      omega
    full := fun hp => by
      have hown := hput.holdsFront k (by simp [hp])
      exact Process.noConfusion (Option.some.inj (hown.symm.trans (h.holdsFront (by simp [hc]))))
    le := by rw [hlen]; omega
    le_unchecked := fun hch => by rw [hlen]; exact h.past_unchecked (by simp [hc]) hch
    past := False.elim
    past_unchecked := False.elim
    front := False.elim
    data := False.elim
    time := False.elim
    holdsRear := False.elim
    holdsFront := fun _ => h.holdsFront (by simp [hc])
    delivered := by
      have hold : c.returned = ((taken (ring.history k)).filter fun n => q.Shaped (items n).1).map items := by
        simpa [Consumer.delivered, hc] using h.delivered
      have htaken : taken (logMove k .taken ring.history k) =
          taken (ring.history k) ++ [(ring.history k).length] := by
        simp [logMove, taken_snoc]
      rw [htaken, List.filter_append, List.map_append, ← hold]
      have hdata := h.data (by simp [hc])
      have htime := h.time (by simp [hc])
      by_cases hs : q.Shaped (items (ring.history k).length).1
      · simp [Consumer.delivered, CrossQueue.finish, hdata, htime, hs]
      · simp [Consumer.delivered, CrossQueue.finish, hdata, hs]
    overflow := fun n r hn => by
      simp only [logMove, Function.update_self] at hn
      rcases getElem?_snoc hn with hold | ⟨-, hnew⟩
      · exact h.overflow n r hold
      · exact Move.noConfusion hnew }

private theorem get_unlockFront (h : Key q v items ring p c k) (hc : c.point = .unlockFront) :
    Key q v items { ring with holder := Function.update ring.holder (.front k) none } p (q.finish c) k :=
  h.away id id h.rear_text h.front_text (by simpa [Consumer.delivered, hc, CrossQueue.finish] using h.delivered)
    False.elim False.elim

private theorem Key.get_step (h : Key q v items ring p c k) (hput : Put q items ring p) :
    Key q v items ((q.getBy v k c).exec (.consumer k) ring c).1 p ((q.getBy v k c).exec (.consumer k) ring c).2 k := by
  have hraised : Key q v items ring p { c with raised := true } k := { h with }
  rw [CrossQueue.getBy]
  by_cases hr : c.raised
  · rw [if_pos hr]
    exact h
  rw [if_neg hr]
  cases hc : c.point with
  | acquireRear =>
    dsimp only [Action.exec]
    split_ifs with hn
    · exact get_acquireRear h hc
    · exact h
  | acquireFront =>
    dsimp only [Action.exec]
    split_ifs with hn
    · exact get_acquireFront h hc hn
    · exact h
  | readFront => exact get_readFront h hc
  | readRear => exact get_readRear h hput hc
  | emptyReleaseRear => exact get_emptyReleaseRear h hc
  | emptyReleaseFront => exact get_emptyReleaseFront h hc
  | releaseFront => exact get_releaseFront h hc
  | releaseRear => exact get_releaseRear h hc
  | readData =>
    dsimp only
    split_ifs with hlt
    · dsimp only [Action.exec]
      split_ifs
      · exact get_readData h hput hc
      · simpa only [hc] using hraised
    · exact h
  | readTime =>
    dsimp only [Action.exec]
    split
    · exact get_readTime h hput hc ‹_›
    · simpa only [hc] using hraised
  | lockFront =>
    dsimp only [Action.exec]
    split_ifs with hn
    · exact get_lockFront h hc
    · exact h
  | rereadFront => exact get_rereadFront h hc
  | writeFront =>
    rw [Action.exec]
    split
    · exact get_writeFront h hput hc ‹_›
    · simpa only [hc] using hraised
  | unlockFront => exact get_unlockFront h hc

/-- A step of the consumer with key `k`. -/
theorem Inv.get_step (h : Inv q v items ring p cs) (hk : k < q.frontKeys) :
    Inv q v items ((q.getBy v k (cs k)).exec (.consumer k) ring (cs k)).1 p
      (Function.update cs k ((q.getBy v k (cs k)).exec (.consumer k) ring (cs k)).2) := by
  have hkey := h.key k hk
  refine ⟨put_get hkey h.put, fun i hi => ?_⟩
  by_cases hik : i = k
  · obtain rfl := hik
    rw [Function.update_self]
    exact hkey.get_step h.put
  · rw [Function.update_of_ne hik]
    exact (h.key i hi).congr (sameRing_get hkey hik) (SameKey.refl p i)

end Soar.Computing
