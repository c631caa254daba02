import Soar.Computing.RingInvariant

/-! The steps of `put` keep the invariant of the ring. -/
namespace Soar.Computing
open Soar.Library

variable {τ : Type} {q : CrossQueue τ} {v : Version} {items written : Nat → Bytes × τ} {ring ring' : Ring}
    {p p' : Producer}
  {cs : Nat → Consumer τ} {c : Consumer τ} {k : Nat}

private theorem Inv.congr (h : Inv q v items ring p cs) (hput : Put q items ring' p')
    (hr : ∀ k, SameRing ring ring' k) (hk : ∀ k < q.frontKeys, SameKey p p' k) : Inv q v items ring' p' cs :=
  ⟨hput, fun k hkey => (h.key k hkey).congr (hr k) (hk k hkey)⟩

private theorem nextKey_cases (q : CrossQueue τ) (k : Nat) :
    (k < q.frontKeys ∧ q.nextKey k = .acquireFront k) ∨
      (q.frontKeys ≤ k ∧ (q.nextKey k = .rereadRear ∨ q.nextKey k = .writeRear)) := by
  unfold CrossQueue.nextKey
  split_ifs with hk hr
  · exact .inl ⟨hk, rfl⟩
  · exact .inr ⟨not_lt.mp hk, .inl rfl⟩
  · exact .inr ⟨not_lt.mp hk, .inr rfl⟩

private theorem put_acquireRear (h : Inv q v items ring p cs) (hp : p.point = .acquireRear)
    (hn : ring.holder .rear = none) :
    Inv q v items { ring with holder := Function.update ring.holder .rear (some .producer) }
      { p with point := .readRear } cs := by
  refine h.congr ?_ (SameRing.acquired hn _) fun k hk => ?_
  · exact { h.put with
      rear := False.elim
      holdsRear := fun _ => by simp
      holdsFront := fun _ hk => hk.elim
      key := fun _ hk => hk.elim
      data := False.elim
      time := False.elim }
  · exact ⟨rfl, by simp [Producer.begun, hp], rfl, by simp [hp], by simp⟩

private theorem put_readRear (h : Inv q v items ring p cs) (hp : p.point = .readRear) :
    Inv q v items ring { p with point := .writeData, rear := readInt p.rear (ring.mem .rear) } cs := by
  refine h.congr ?_ (SameRing.refl ring) fun k hk => ?_
  · exact { h.put with
      rear_text := by simpa using h.put.rear_text
      rear := fun _ => h.put.rear_text
      holdsRear := fun _ => h.put.holdsRear (by simp [hp])
      holdsFront := fun _ hk => hk.elim
      key := fun _ hk => hk.elim
      data := False.elim
      time := False.elim }
  · exact ⟨rfl, by simp [Producer.begun, hp], rfl, by simp [hp], by simp⟩

private theorem Holds.update {mem : Segment → Bytes} {a n : Nat} (h : Holds q items mem a) (ha : a < n)
    (hn : n < a + q.maxLength) {s : Segment} (hs : s = .data (n % q.maxLength) ∨ s = .time (n % q.maxLength))
    (text : Bytes) : Holds q items (Function.update mem s text) a := by
  have hne : a % q.maxLength ≠ n % q.maxLength := mod_ne_of_window ha hn
  have hd : Segment.data (a % q.maxLength) ≠ s := by
    rcases hs with rfl | rfl
    · exact fun he => hne (Segment.data.inj he)
    · exact Segment.noConfusion
  have ht : Segment.time (a % q.maxLength) ≠ s := by
    rcases hs with rfl | rfl
    · exact Segment.noConfusion
    · exact fun he => hne (Segment.time.inj he)
  refine ⟨?_, ?_⟩
  · rw [Function.update_of_ne hd]
    exact h.data
  · rw [Function.update_of_ne ht]
    exact h.time

private theorem put_writeData (h : Inv q v items ring p cs) (hp : p.point = .writeData)
    (hread : items p.count = asRead (written p.count)) {text : Bytes}
    (hw : writeToMemory (written p.count).1 (ring.mem (.data p.rear)) = some text) :
    Inv q v items { ring with mem := Function.update ring.mem (.data p.rear) text }
      { p with point := .writeTime } cs := by
  have hrear : p.rear = p.count % q.maxLength := h.put.rear (by simp [hp])
  refine h.congr ?_ (fun k => SameRing.written Segment.noConfusion Segment.noConfusion text) fun k hk => ?_
  · exact { h.put with
      rear_text := by simpa using h.put.rear_text
      rear := fun _ => hrear
      holdsRear := fun _ => h.put.holdsRear (by simp [hp])
      holdsFront := fun _ hk => hk.elim
      key := fun _ hk => hk.elim
      slot := fun a ha hroom => (h.put.slot a ha hroom).update ha hroom (.inl (congrArg _ hrear)) text
      data := fun _ => by
        dsimp only
        rw [← hrear, Function.update_self, hread]
        exact readFromMemory_written hw
      time := False.elim }
  · exact ⟨rfl, by simp [Producer.begun, hp], rfl, by simp [hp], by simp⟩

private theorem put_writeTime (h : Inv q v items ring p cs) (hp : p.point = .writeTime)
    (hread : items p.count = asRead (written p.count)) {text : Bytes}
    (hw : writeToMemory (q.timestamp.str (written p.count).2) (ring.mem (.time p.rear)) = some text) :
    Inv q v items { ring with mem := Function.update ring.mem (.time p.rear) text }
      { p with point := q.nextKey 0 } cs := by
  have hrear : p.rear = p.count % q.maxLength := h.put.rear (by simp [hp])
  refine h.congr ?_ (fun k => SameRing.written Segment.noConfusion Segment.noConfusion text) fun k hk => ?_
  · exact { h.put with
      rear_text := by simpa using h.put.rear_text
      rear := fun _ => hrear
      holdsRear := fun _ => h.put.holdsRear (by simp [hp])
      holdsFront := fun k hk => by rcases nextKey_cases q 0 with ⟨-, he⟩ | ⟨-, he | he⟩ <;> simp [he] at hk
      key := fun k hk => by rcases nextKey_cases q 0 with ⟨h0, he⟩ | ⟨-, he | he⟩ <;> simp [he] at hk; omega
      slot := fun a ha hroom => (h.put.slot a ha hroom).update ha hroom (.inr (congrArg _ hrear)) text
      data := fun _ => by
        dsimp only
        rw [Function.update_of_ne Segment.noConfusion]
        exact h.put.data (by simp [hp])
      time := fun _ => by
        dsimp only
        rw [← hrear, Function.update_self, readFromMemory_writeToMemory (q.timestamp.sentinelFree_str _) hw, hread]
        exact q.timestamp.float?_str _ }
  · rcases nextKey_cases q 0 with ⟨-, he⟩ | ⟨h0, -⟩
    · exact ⟨rfl, by simp [Producer.begun, hp, he], rfl, by simp [hp, he], by simp [he]⟩
    · exact absurd hk (by omega)

private theorem put_acquireFront (h : Inv q v items ring p cs) (hp : p.point = .acquireFront k)
    (hn : ring.holder (.front k) = none) :
    Inv q v items { ring with holder := Function.update ring.holder (.front k) (some .producer) }
      { p with point := .readFront k } cs := by
  refine h.congr ?_ (SameRing.acquired hn _) fun i hi => ?_
  · exact { h.put with
      rear := fun _ => h.put.rear (by simp [hp])
      holdsRear := fun _ => update_acquired hn (h.put.holdsRear (by simp [hp])) (some .producer)
      holdsFront := fun _ hk => by obtain rfl := hk; simp
      key := fun _ hk => h.put.key _ (by rw [hp]; exact hk)
      data := fun _ => h.put.data (by simp [hp])
      time := fun _ => h.put.time (by simp [hp]) }
  · exact ⟨rfl, by simp [Producer.begun, hp], rfl, by simp [hp], by simp⟩

private theorem put_releaseFront (h : Inv q v items ring p cs) (hp : p.point = .releaseFront k) :
    Inv q v items { ring with holder := Function.update ring.holder (.front k) none }
      { p with point := q.nextKey (k + 1) } cs := by
  have hl : ring.holder (.front k) = some .producer := h.put.holdsFront k (by simp [hp])
  refine h.congr ?_ (fun i => SameRing.released hl Process.noConfusion none) fun i hi => ?_
  · exact { h.put with
      rear := fun _ => h.put.rear (by simp [hp])
      holdsRear := fun _ => by simpa using h.put.holdsRear (by simp [hp])
      holdsFront := fun i hi => by
        rcases nextKey_cases q (k + 1) with ⟨-, he⟩ | ⟨-, he | he⟩ <;> simp [he] at hi
      key := fun i hi => by
        rcases nextKey_cases q (k + 1) with ⟨hk, he⟩ | ⟨-, he | he⟩ <;> simp [he] at hi
        omega
      data := fun _ => h.put.data (by simp [hp])
      time := fun _ => h.put.time (by simp [hp]) }
  · rcases nextKey_cases q (k + 1) with ⟨-, he⟩ | ⟨hk, he | he⟩
    · exact ⟨rfl, by simp [Producer.begun, hp, he], rfl, by simp only [hp, he, PutPoint.checked]; omega, by simp [he]⟩
    · exact ⟨rfl, by simp [Producer.begun, hp, he], rfl, by simp [hp, he]; omega, by simp [he]⟩
    · exact ⟨rfl, by simp [Producer.begun, hp, he], rfl, by simp [hp, he]; omega, by simp [he]⟩

private theorem put_rereadRear (h : Inv q v items ring p cs) (hp : p.point = .rereadRear) :
    Inv q v items ring { p with point := .writeRear, rear := readInt p.rear (ring.mem .rear) } cs := by
  refine h.congr ?_ (SameRing.refl ring) fun k hk => ?_
  · exact { h.put with
      rear_text := by simpa using h.put.rear_text
      rear := fun _ => h.put.rear_text
      holdsRear := fun _ => h.put.holdsRear (by simp [hp])
      holdsFront := fun _ hk => hk.elim
      key := fun _ hk => hk.elim
      data := fun _ => h.put.data (by simp [hp])
      time := fun _ => h.put.time (by simp [hp]) }
  · exact ⟨rfl, by simp [Producer.begun, hp], rfl, by simp [hp], by simp⟩

private theorem put_releaseRear (h : Inv q v items ring p cs) (hp : p.point = .releaseRear) :
    Inv q v items { ring with holder := Function.update ring.holder .rear none }
      { p with point := .acquireRear } cs := by
  have hl : ring.holder .rear = some .producer := h.put.holdsRear (by simp [hp])
  refine h.congr ?_ (fun i => SameRing.released hl Process.noConfusion none) fun i hi => ?_
  · exact { h.put with
      rear := False.elim
      holdsRear := False.elim
      holdsFront := fun _ hk => hk.elim
      key := fun _ hk => hk.elim
      data := False.elim
      time := False.elim }
  · exact ⟨rfl, by simp [Producer.begun, hp], rfl, by simp [hp], by simp⟩

private theorem full_iff (h : Inv q v items ring p cs) (hp : p.point = .readFront k) :
    (p.rear + 1) % q.maxLength = (ring.history k).length % q.maxLength ↔
      p.count + 1 = (ring.history k).length + q.maxLength := by
  have hkey := h.key k (h.put.key k (by simp [hp]))
  have hle : (ring.history k).length ≤ p.count := hkey.le_unchecked (by simp [hp])
  rw [h.put.rear (by simp [hp]), Nat.mod_add_mod]
  constructor
  · intro he
    by_contra hne
    have hroom := hkey.room
    exact mod_ne_of_window (by omega) (by omega) he.symm
  · intro he
    rw [he, Nat.add_mod_right]

private theorem put_readFront (h : Inv q v items ring p cs) (hp : p.point = .readFront k) :
    Inv q v items ring { p with
      point := if (p.rear + 1) % q.maxLength = readInt (p.fronts k) (ring.mem (.front k)) then .writeFront k
        else .releaseFront k
      fronts := Function.update p.fronts k (readInt (p.fronts k) (ring.mem (.front k))) } cs := by
  have hkey := h.key k (h.put.key k (by simp [hp]))
  have hfull := full_iff h hp
  rw [← hkey.fronts_text] at hfull
  have hput : ∀ point : PutPoint, point = .writeFront k ∨ point = .releaseFront k →
      Put q items ring { p with
        point := point, fronts := Function.update p.fronts k (readInt (p.fronts k) (ring.mem (.front k))) } := by
    intro point hpoint
    exact { h.put with
      rear := fun _ => h.put.rear (by simp [hp])
      holdsRear := fun _ => h.put.holdsRear (by simp [hp])
      holdsFront := fun i hi => h.put.holdsFront i (by rcases hpoint with rfl | rfl <;> simpa [hp] using hi)
      key := fun i hi => h.put.key i (by rcases hpoint with rfl | rfl <;> simpa [hp] using hi)
      data := fun _ => h.put.data (by simp [hp])
      time := fun _ => h.put.time (by simp [hp]) }
  have hfronts : readInt (Function.update p.fronts k (readInt (p.fronts k) (ring.mem (.front k))) k)
      (ring.mem (.front k)) = (ring.history k).length % q.maxLength := by simpa using hkey.fronts_text
  split_ifs with hif
  · refine ⟨hput _ (.inl rfl), fun i hi => ?_⟩
    by_cases hik : i = k
    · subst hik
      exact { hkey with
        fronts_text := hfronts
        room_checked := fun hc => absurd hc (lt_irrefl _)
        full := fun _ => ⟨by simpa using hkey.fronts_text, hfull.mp hif⟩
        le_unchecked := fun _ => hkey.le_unchecked (by simp [hp])
        past_unchecked := fun hc _ => hkey.past_unchecked hc (by simp [hp])
        overflow := by simpa [Producer.begun, hp] using hkey.overflow }
    · refine (h.key i hi).congr (SameRing.refl ring i) ⟨rfl, by simp [Producer.begun, hp], ?_, by simp [hp], ?_⟩
      · exact Function.update_of_ne hik ..
      · exact fun he => absurd (PutPoint.writeFront.inj he).symm hik
  · refine ⟨hput _ (.inr rfl), fun i hi => ?_⟩
    by_cases hik : i = k
    · subst hik
      have hne : p.count + 1 ≠ (ring.history i).length + q.maxLength := mt hfull.mpr hif
      exact { hkey with
        fronts_text := hfronts
        room_checked := fun _ => lt_of_le_of_ne hkey.room hne
        full := fun he => PutPoint.noConfusion he
        le_unchecked := fun hc => absurd le_rfl hc
        past_unchecked := fun _ hc => absurd le_rfl hc
        overflow := by simpa [Producer.begun, hp] using hkey.overflow }
    · refine (h.key i hi).congr (SameRing.refl ring i) ⟨rfl, by simp [Producer.begun, hp], ?_, ?_, ?_⟩
      · exact Function.update_of_ne hik ..
      · simpa [hp] using (Ne.le_iff_lt hik)
      · exact fun he => PutPoint.noConfusion he

private theorem put_writeFront (h : Inv q v items ring p cs) (hp : p.point = .writeFront k)
    (hquiet : ¬ (cs k).point.knowsFront v) {text : Bytes}
    (hw : writeToMemory (str ((p.fronts k + 1) % q.maxLength)) (ring.mem (.front k)) = some text) :
    Inv q v items { ring with
        mem := Function.update ring.mem (.front k) text
        history := logMove k (.overflow p.count) ring.history }
      { p with
        point := .releaseFront k, fronts := Function.update p.fronts k ((p.fronts k + 1) % q.maxLength) } cs := by
  have htwo := q.two_le_maxLength
  have hkey := h.key k (h.put.key k (by simp [hp]))
  obtain ⟨hfront, hfull⟩ := hkey.full hp
  refine ⟨?_, fun i hi => ?_⟩
  · exact { h.put with
      rear_text := by simpa using h.put.rear_text
      rear := fun _ => h.put.rear (by simp [hp])
      holdsRear := fun _ => h.put.holdsRear (by simp [hp])
      holdsFront := fun i hi => h.put.holdsFront i (by rw [hp]; exact hi)
      key := fun i hi => h.put.key i (by rw [hp]; exact hi)
      slot := fun a ha hroom => by
        have hslot := h.put.slot a ha hroom
        exact ⟨by simpa using hslot.data, by simpa using hslot.time⟩
      data := fun _ => by simpa using h.put.data (by simp [hp])
      time := fun _ => by simpa using h.put.time (by simp [hp]) }
  · by_cases hik : i = k
    · subst hik
      have hnext : (p.fronts i + 1) % q.maxLength = ((ring.history i).length + 1) % q.maxLength := by
        rw [hfront, Nat.mod_add_mod]
      have hlen : (logMove i (.overflow p.count) ring.history i).length = (ring.history i).length + 1 := by
        simp [logMove]
      have htext : ∀ cached, readInt cached text = ((ring.history i).length + 1) % q.maxLength := fun cached => by
        rw [readInt_writeToMemory hw, hnext]
      exact { hkey with
        rear_text := by simpa using hkey.rear_text
        front_text := by simpa [hlen] using htext _
        fronts_text := by simpa [hlen] using htext _
        room := by rw [hlen]; dsimp only; omega
        room_checked := fun _ => by rw [hlen]; dsimp only; omega
        full := fun he => PutPoint.noConfusion he
        le := by rw [hlen]; dsimp only; omega
        le_unchecked := fun hc => absurd le_rfl hc
        past := fun _ => by rw [hlen]; dsimp only; omega
        past_unchecked := fun _ hc => absurd le_rfl hc
        front := fun hc => absurd hc hquiet
        data := fun hc => absurd hc.knowsFront hquiet
        time := fun hc => absurd hc.knowsFront hquiet
        delivered := by
          have : taken (logMove i (.overflow p.count) ring.history i) = taken (ring.history i) := by
            simp [logMove, taken_snoc]
          rw [this]
          exact hkey.delivered
        overflow := fun n r hn => by
          simp only [logMove, Function.update_self] at hn
          rcases getElem?_snoc hn with hold | ⟨rfl, hnew⟩
          · obtain ⟨hr, hlt⟩ := hkey.overflow n r hold
            exact ⟨hr, by simpa [Producer.begun, hp] using hlt⟩
          · obtain rfl := Move.overflow.inj hnew
            exact ⟨by omega, by simp [Producer.begun]⟩ }
    · have hseg : Segment.front k ≠ .front i := fun he => hik (Segment.front.inj he).symm
      refine (h.key i hi).congr ⟨?_, ?_, ?_, id, id⟩ ⟨rfl, by simp [Producer.begun, hp], ?_, ?_, ?_⟩
      · have hrear : Segment.rear ≠ .front k := Segment.noConfusion
        exact Function.update_of_ne hrear text ring.mem
      · exact Function.update_of_ne hseg.symm ..
      · exact Function.update_of_ne hik ..
      · exact Function.update_of_ne hik ..
      · simpa [hp] using Ne.le_iff_lt hik
      · exact fun he => PutPoint.noConfusion he

private theorem put_writeRear (h : Inv q v items ring p cs) (hp : p.point = .writeRear) {text : Bytes}
    (hw : writeToMemory (str ((p.rear + 1) % q.maxLength)) (ring.mem .rear) = some text) :
    Inv q v items { ring with mem := Function.update ring.mem .rear text }
      { p with point := .releaseRear, rear := (p.rear + 1) % q.maxLength, count := p.count + 1 } cs := by
  have htext : ∀ cached, readInt cached text = (p.count + 1) % q.maxLength := fun cached => by
    rw [readInt_writeToMemory hw, h.put.rear (by simp [hp]), Nat.mod_add_mod]
  refine ⟨?_, fun i hi => ?_⟩
  · exact { h.put with
      rear_text := by simpa using htext _
      rear := False.elim
      holdsRear := fun _ => h.put.holdsRear (by simp [hp])
      holdsFront := fun _ hk => hk.elim
      key := fun _ hk => hk.elim
      slot := fun a ha hroom => by
        have hslot : Holds q items ring.mem a := by
          rcases (Nat.lt_succ_iff.mp ha).lt_or_eq with hlt | rfl
          · exact h.put.slot a hlt (by dsimp only at hroom; omega)
          · exact ⟨h.put.data (by simp [hp]), h.put.time (by simp [hp])⟩
        exact ⟨by simpa using hslot.data, by simpa using hslot.time⟩
      data := False.elim
      time := False.elim }
  · have hkey := h.key i hi
    have hroom := hkey.room_checked (by simp [hp])
    have hle := hkey.le
    exact { hkey with
      rear_text := by simpa using htext _
      front_text := by simpa using hkey.front_text
      fronts_text := by simpa using hkey.fronts_text
      room := hroom
      room_checked := False.elim
      full := fun he => PutPoint.noConfusion he
      le := by dsimp only; omega
      le_unchecked := fun _ => hle
      past := fun hc => (hkey.past hc).trans (Nat.le_succ _)
      past_unchecked := fun hc _ => Nat.lt_succ_of_le (hkey.past hc)
      overflow := by simpa [Producer.begun, hp] using hkey.overflow }

/-- A step of the producer that moves no front which its consumer has cached. -/
theorem Inv.put_step (h : Inv q v items ring p cs) (hread : ∀ n, items n = asRead (written n))
    (hquiet : ∀ k, p.point = .writeFront k → ¬ (cs k).point.knowsFront v) :
    Inv q v items ((q.put written p).exec .producer ring p).1 ((q.put written p).exec .producer ring p).2 cs := by
  have hraised : Inv q v items ring { p with raised := true } cs :=
    h.congr { h.put with } (SameRing.refl ring) fun k hk => ⟨rfl, le_rfl, rfl, Iff.rfl, id⟩
  rw [CrossQueue.put]
  by_cases hr : p.raised
  · rw [if_pos hr]
    exact h
  rw [if_neg hr]
  cases hp : p.point with
  | acquireRear =>
    dsimp only [Action.exec]
    split_ifs with hn
    · exact put_acquireRear h hp hn
    · exact h
  | readRear => exact put_readRear h hp
  | writeData =>
    dsimp only
    split_ifs with hlt
    · rw [Action.exec]
      split
      · exact put_writeData h hp (hread _) ‹_›
      · simpa only [hp] using hraised
    · exact h
  | writeTime =>
    rw [Action.exec]
    split
    · exact put_writeTime h hp (hread _) ‹_›
    · simpa only [hp] using hraised
  | acquireFront k =>
    dsimp only [Action.exec]
    split_ifs with hn
    · exact put_acquireFront h hp hn
    · exact h
  | readFront k => exact put_readFront h hp
  | writeFront k =>
    rw [Action.exec]
    split
    · exact put_writeFront h hp (hquiet k hp) ‹_›
    · simpa only [hp] using hraised
  | releaseFront k => exact put_releaseFront h hp
  | rereadRear => exact put_rereadRear h hp
  | writeRear =>
    rw [Action.exec]
    split
    · exact put_writeRear h hp ‹_›
    · simpa only [hp] using hraised
  | releaseRear => exact put_releaseRear h hp

end Soar.Computing
