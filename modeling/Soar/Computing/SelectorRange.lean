import Soar.Computing.QueueSize

/-! The list that `gettime` returns is as long as `size` has promised, whatever puts there are meanwhile. -/
namespace Soar.Computing
open Soar.Library

namespace JobPoint

/-- `size` has read the front and has not returned. -/
def sizing (p : JobPoint) : Prop := p.betweenReads ∨ p = .sizeReleaseRear

/-- `gettime` runs. -/
@[simp] def listing : JobPoint → Prop
  | timeAcquireRear | timeReadRear | timeAcquireFront | timeReadFront | timeReadTime | timeReleaseFront
  | timeReleaseRear => True
  | _ => False

theorem listing.not_sizing {p : JobPoint} (h : p.listing) : ¬ p.sizing := by
  cases p <;> simp [sizing, betweenReads] at h ⊢

theorem listing.not_get {p : JobPoint} (h : p.listing) (agent : Agent) : p ≠ .get agent := by
  rintro rfl
  exact h

end JobPoint

section
variable {τ : Type}

/-- `size` never promises more than there is, and `gettime` finds what is promised. -/
structure Ranged (q : CrossQueue τ) (w : JobSystem τ) : Prop where
  sizing : w.jobs.point.sizing → ∃ F, SizeRead q F w
  enough : w.jobs.point.listing → w.AtLeast w.jobs.top
  short : w.jobs.point = .timeReadTime → w.jobs.times.length < w.jobs.top
  listed : w.jobs.point = .timeReleaseFront ∨ w.jobs.point = .timeReleaseRear → w.jobs.times.length = w.jobs.top
  raised : ¬ w.jobs.raised

variable {q : CrossQueue τ} {items sent : Nat → Bytes × τ} {w w' : JobSystem τ}

private theorem Ranged.away (hraised : ¬ w.jobs.raised) (hsizing : ¬ w.jobs.point.sizing)
    (hlisting : ¬ w.jobs.point.listing) : Ranged q w where
  sizing h := absurd h hsizing
  enough h := absurd h hlisting
  short h := by
    rw [h] at hlisting
    exact absurd trivial hlisting
  listed h := by
    rcases h with h | h <;> rw [h] at hlisting <;> exact absurd trivial hlisting
  raised := hraised

private theorem Ranged.size (hraised : ¬ w.jobs.raised) (hlisting : ¬ w.jobs.point.listing) {F : Nat}
    (hread : SizeRead q F w) : Ranged q w where
  sizing _ := ⟨F, hread⟩
  enough h := absurd h hlisting
  short h := by
    rw [h] at hlisting
    exact absurd trivial hlisting
  listed h := by
    rcases h with h | h <;> rw [h] at hlisting <;> exact absurd trivial hlisting
  raised := hraised

private theorem Ranged.list (h : Ranged q w) (hpoint : w.jobs.point.listing) (hmoves : w'.moves = w.moves)
    (hproducer : w'.producer = w.producer) (htop : w'.jobs.top = w.jobs.top) (hraised : w'.jobs.raised = w.jobs.raised)
    (hlisting : w'.jobs.point.listing) (hshort : w'.jobs.point = .timeReadTime → w'.jobs.times.length < w'.jobs.top)
    (hlisted : w'.jobs.point = .timeReleaseFront ∨ w'.jobs.point = .timeReleaseRear →
      w'.jobs.times.length = w'.jobs.top) : Ranged q w' where
  sizing hs := absurd hs hlisting.not_sizing
  enough _ := by
    have henough := h.enough hpoint
    refine ⟨?_, fun hunchecked => ?_⟩
    · rw [hmoves, hproducer, htop]
      exact henough.le
    · rw [hproducer] at hunchecked
      rw [hmoves, hproducer, htop]
      exact henough.unchecked hunchecked
  short := hshort
  listed := hlisted
  raised := hraised ▸ h.raised

private theorem Ranged.list_head (h : Ranged q w) (hpoint : w.jobs.point.listing) (hmoves : w'.moves = w.moves)
    (hproducer : w'.producer = w.producer) (htop : w'.jobs.top = w.jobs.top) (hraised : w'.jobs.raised = w.jobs.raised)
    (hhead : w'.jobs.point = .timeReadRear ∨ w'.jobs.point = .timeAcquireFront ∨ w'.jobs.point = .timeReadFront) :
    Ranged q w' := by
  refine h.list hpoint hmoves hproducer htop hraised ?_ ?_ ?_ <;>
    rcases hhead with hnext | hnext | hnext <;> simp [hnext]

private theorem Ranged.starts (hraised : ¬ w.jobs.raised) (hpoint : w.jobs.point = .timeAcquireRear)
    (henough : w.AtLeast w.jobs.top) : Ranged q w where
  sizing h := by simp [hpoint, JobPoint.sizing, JobPoint.betweenReads] at h
  enough _ := henough
  short h := by simp [hpoint] at h
  listed h := by simp [hpoint] at h
  raised := hraised

private theorem nextTime_cases {s : Jobs τ} {ring : Ring} {p : Producer} (h : Serving q items ⟨ring, p, s.nextTime⟩)
    (hkey : 0 < q.frontKeys) (hrear : (s.object .scheduler).rear = p.count % q.maxLength) (hle : s.times.length ≤ s.top)
    (henough : (ring.history 0).length + s.top ≤ p.count) :
    s.nextTime.point = .timeReadTime ∧ s.times.length < s.top ∨
      s.nextTime.point = .timeReleaseFront ∧ s.times.length = s.top := by
  have hroom : p.count + 1 ≤ (ring.history 0).length + q.maxLength := (h.inv.key 0 hkey).room
  have htimed : Timed q items ring p s.nextTime := h.selecting.timed
      (by unfold Jobs.nextTime; dsimp only; split_ifs <;> trivial)
  have hlength : (ring.history 0).length + s.times.length ≤ p.count := htimed.le
  have hfront : s.timeFront = ((ring.history 0).length + s.times.length) % q.maxLength := htimed.timeFront
  by_cases hstop : s.times.length = s.top ∨ s.timeFront = (s.object .scheduler).rear
  · refine .inr ⟨if_pos hstop, ?_⟩
    rcases hstop with htop | hend
    · exact htop
    · have hall : (ring.history 0).length + s.times.length = p.count := by
        by_contra hne
        apply mod_ne_of_window (n := q.maxLength) (lt_of_le_of_ne hlength hne) (by omega)
        rw [← hfront, hend, hrear]
      omega
  · exact .inl ⟨if_neg hstop, lt_of_le_of_ne hle fun htop => hstop (.inl htop)⟩

private theorem Ranged.nextTime (h : Ranged q w) (hlisting : w.jobs.point.listing) {s : Jobs τ}
    (hs : Serving q items ⟨w.ring, w.producer, s.nextTime⟩) (hkey : 0 < q.frontKeys)
    (hrear : (s.object .scheduler).rear = w.producer.count % q.maxLength) (htop : s.top = w.jobs.top)
    (hraised : s.raised = w.jobs.raised) (hle : s.times.length ≤ s.top) (henough : w.moves + s.top ≤ w.producer.count) :
    Ranged q ⟨w.ring, w.producer, s.nextTime⟩ := by
  rcases nextTime_cases hs hkey hrear hle henough with ⟨hpoint, hlt⟩ | ⟨hpoint, heq⟩
  · refine h.list hlisting rfl rfl htop hraised ?_ (fun _ => hlt) ?_
    · rw [hpoint]
      trivial
    · rw [hpoint]
      exact nofun
  · refine h.list hlisting rfl rfl htop hraised ?_ ?_ fun _ => heq
    · rw [hpoint]
      trivial
    · rw [hpoint]
      exact nofun

/-- `size` never returns more than there is. -/
theorem SizeRead.atLeast {F : Nat} (hread : SizeRead q F w) (h : Serving q items w) (hkey : 0 < q.frontKeys)
    (hpoint : w.jobs.point = .sizeReleaseRear) : w.AtLeast (q.returnedSize (w.jobs.object .scheduler)) := by
  have htwo := q.two_le_maxLength
  rw [hread.returnedSize_eq h hkey hpoint]
  split_ifs with hmoved
  · obtain ⟨-, hle, -⟩ := h.idle_put hkey (by simp [hpoint])
    unfold JobSystem.unread
    exact ⟨by omega, fun _ => by omega⟩
  · have hlt := Nat.mod_lt (w.moves - F - 1) (show 0 < q.maxLength by omega)
    exact (hread.since.resolve_left hmoved).mono (by omega)

private theorem Ranged.put_step (h : Ranged q w) (hs : Serving q items w) (hkey : 0 < q.frontKeys) :
    Ranged q (w.step q sent .producer) := by
  by_cases hrear : w.jobs.point.holdsRear
  · rw [hs.put_blocked hrear]
    exact h
  · refine ⟨?_, fun hlisting => ?_, fun hshort => ?_, fun hlisted => ?_, h.raised⟩
    · rintro (hbetween | hend)
      · obtain ⟨F, hread⟩ := h.sizing (.inl hbetween)
        exact ⟨F, hread.step hs hkey hbetween .producer⟩
      · rw [show w.jobs.point = _ from hend] at hrear
        exact absurd trivial hrear
    · exact (hs.turned hkey hlisting.not_get .producer).atLeast (h.enough hlisting)
    · exact h.short hshort
    · exact h.listed hlisted

private theorem Ranged.between_step (h : Ranged q w) (hs : Serving q items w) (hkey : 0 < q.frontKeys) (choice : Choice)
    (hbetween : w.jobs.point.betweenReads) : Ranged q (w.step q sent (.consumer choice)) := by
  obtain ⟨F, hread⟩ := h.sizing (.inl hbetween)
  have hnext : (w.step q sent (.consumer choice)).jobs.raised = w.jobs.raised ∧
      ¬ (w.step q sent (.consumer choice)).jobs.point.listing := by
    simp only [JobSystem.step, CrossQueue.schedule, if_neg h.raised]
    cases hp : w.jobs.point <;> simp only [hp, JobPoint.betweenReads, List.mem_cons, reduceCtorEq, List.not_mem_nil,
      or_false, false_or, or_self] at hbetween
    case sizeReleaseFront => exact ⟨rfl, id⟩
    case sizeReadRear => exact ⟨rfl, id⟩
    case sizeAcquireRear =>
      dsimp only [Action.exec]
      split_ifs
      · exact ⟨rfl, id⟩
      · exact ⟨rfl, by simp [hp]⟩
  exact Ranged.size (hnext.1 ▸ h.raised) hnext.2 (hread.step hs hkey hbetween _)

private theorem Ranged.size_step (h : Ranged q w) (hs : Serving q items w) (hkey : 0 < q.frontKeys) (choice : Choice)
    (hp : w.jobs.point = .sizeAcquireFront ∨ w.jobs.point = .sizeReadFront ∨ w.jobs.point = .sizeReleaseRear) :
    Ranged q (w.step q sent (.consumer choice)) := by
  rcases hp with hp | hp | hp
  · simp only [JobSystem.step, CrossQueue.schedule, if_neg h.raised, hp]
    dsimp only [Action.exec]
    split_ifs
    · exact Ranged.away h.raised (by simp [JobPoint.sizing, JobPoint.betweenReads]) id
    · exact h
  · have hread : SizeRead q w.moves (w.step q sent (.consumer choice)) := hs.readsFront h.raised hp choice
    refine Ranged.size ?_ ?_ hread
    · simp only [JobSystem.step, CrossQueue.schedule, if_neg h.raised, hp]
      exact h.raised
    · simp only [JobSystem.step, CrossQueue.schedule, if_neg h.raised, hp]
      exact id
  · obtain ⟨F, hread⟩ := h.sizing (.inr hp)
    have hatLeast := hread.atLeast hs hkey hp
    simp only [JobSystem.step, CrossQueue.schedule, if_neg h.raised, hp]
    dsimp only [Action.exec]
    split_ifs with hzero hone
    · exact Ranged.away h.raised (by simp [JobPoint.sizing, JobPoint.betweenReads]) id
    · have henough := hatLeast.mono (show 1 ≤ q.returnedSize
          (w.jobs.object .scheduler) from Nat.one_le_iff_ne_zero.mpr hzero)
      exact Ranged.starts h.raised rfl ⟨henough.le, henough.unchecked⟩
    · have htwo : 2 ≤ q.returnedSize (w.jobs.object .scheduler) := by
        have hzero' : q.returnedSize (w.jobs.object .scheduler) ≠ 0 := hzero
        have hone' : q.returnedSize (w.jobs.object .scheduler) ≠ 1 := hone
        omega
      have henough := hatLeast.mono htwo
      exact Ranged.starts h.raised rfl ⟨henough.le, henough.unchecked⟩

private theorem Ranged.gettime_step (h : Ranged q w) (hs : Serving q items w) (hread : ∀ n, items n = asRead (sent n))
    (hkey : 0 < q.frontKeys) (choice : Choice) (hlisting : w.jobs.point.listing) :
    Ranged q (w.step q sent (.consumer choice)) := by
  have hnext : Serving q items (w.step q sent (.consumer choice)) := hs.step hread hkey (.consumer choice)
  simp only [JobSystem.step, CrossQueue.schedule, if_neg h.raised] at hnext ⊢
  have henough : w.jobs.point.holdsRear → w.moves + w.jobs.top ≤ w.producer.count := fun hrear =>
    (h.enough hlisting).unchecked (hs.idle_put hkey hrear).1
  cases hp : w.jobs.point with
  | timeAcquireRear | timeAcquireFront =>
    dsimp only [Action.exec]
    split_ifs
    · exact h.list_head hlisting rfl rfl rfl rfl (by simp)
    · exact h
  | timeReadRear => exact h.list_head hlisting rfl rfl rfl rfl (.inr (.inl rfl))
  | timeReadFront =>
    simp only [hp] at hnext
    refine h.nextTime hlisting hnext hkey ?_ rfl rfl (Nat.zero_le _) (henough (by simp [hp]))
    dsimp only [Jobs.cache]
    rw [Function.update_self]
    exact hs.selecting.rear (by simp [hp])
  | timeReadTime =>
    have hslot : w.jobs.timeFront < q.maxLength := by
      have htwo := q.two_le_maxLength
      rw [(hs.selecting.timed (by simp [hp])).timeFront]
      exact Nat.mod_lt _ (by omega)
    have htime := hs.float?_time hkey (hs.selecting.room hp) (hs.selecting.timed (by simp [hp]))
    simp only [hp, if_pos hslot, Action.exec, htime] at hnext ⊢
    refine h.nextTime hlisting hnext hkey (hs.selecting.rear (by simp [hp])) rfl rfl ?_ (henough (by simp [hp]))
    rw [List.length_append, List.length_singleton]
    exact h.short hp
  | timeReleaseFront =>
    refine h.list hlisting rfl rfl rfl rfl trivial (fun hnext => ?_) fun _ => h.listed (.inl hp)
    cases hnext
  | timeReleaseRear =>
    dsimp only [Action.exec, Jobs.chosen]
    rw [if_pos (h.listed (.inr hp))]
    cases choice.agent with
    | none => exact Ranged.away h.raised (by simp [JobPoint.sizing, JobPoint.betweenReads]) id
    | some agent => exact Ranged.away h.raised (by simp [JobPoint.sizing, JobPoint.betweenReads, Jobs.begin]) id
  | _ => exact absurd hlisting (by simp [hp])

private theorem Ranged.get_step (h : Ranged q w) (choice : Choice) {agent : Agent}
    (hpoint : w.jobs.point = .get agent) :
    Ranged q (w.step q sent (.consumer choice)) := by
  simp only [JobSystem.step, CrossQueue.schedule, if_neg h.raised, hpoint]
  rcases Action.exec_map (q.called w.jobs agent) (InferQueue.get q 0 w.jobs.call)
      (.consumer 0) w.ring w.jobs.call w.jobs
    with heq | ⟨heq, -⟩
  · rw [heq, CrossQueue.called]
    split_ifs
    · exact Ranged.away h.raised (by simp [JobPoint.sizing, JobPoint.betweenReads]) id
    · exact Ranged.away h.raised (by simp [JobPoint.sizing, JobPoint.betweenReads, Jobs.cache, hpoint])
        (by simp [Jobs.cache, hpoint])
  · rw [heq]
    exact Ranged.away h.raised (by simp [JobPoint.sizing, JobPoint.betweenReads, hpoint]) (by simp [hpoint])

/-- Every step keeps what `size` has promised to `gettime`. -/
theorem Ranged.step (h : Ranged q w) (hs : Serving q items w) (hread : ∀ n, items n = asRead (sent n))
    (hkey : 0 < q.frontKeys) (turn : JobTurn) : Ranged q (w.step q sent turn) := by
  cases turn with
  | producer => exact h.put_step hs hkey
  | consumer choice =>
    cases hpoint : w.jobs.point with
    | get agent => exact h.get_step choice hpoint
    | sizeAcquireFront | sizeReadFront | sizeReleaseRear => exact h.size_step hs hkey choice (by simp [hpoint])
    | sizeReleaseFront | sizeAcquireRear | sizeReadRear =>
      exact h.between_step hs hkey choice (by simp [hpoint, JobPoint.betweenReads])
    | _ => exact h.gettime_step hs hread hkey choice (by simp [hpoint])

/-- It holds in every state that a run reaches. -/
theorem Ranged.run (sent : Nat → Bytes × τ) (hkey : 0 < q.frontKeys) (turns : List JobTurn) :
    Ranged q (JobSystem.run q sent turns) := by
  induction turns using List.reverseRecOn with
  | nil =>
    refine Ranged.away Bool.false_ne_true ?_ id
    simp [JobPoint.sizing, JobPoint.betweenReads, JobSystem.run, CrossQueue.createJobs]
  | append_singleton turns turn ih =>
    have hstep := ih.step (Serving.run sent hkey turns) (fun _ => rfl) hkey turn
    rwa [JobSystem.run, List.foldl_append]

/-- The call of `size` that returns `size` is about to return, or the `gettime` that follows it runs. -/
private def ListsFor (q : CrossQueue τ) (size : Nat) (s : Jobs τ) : Prop :=
  s.point = .sizeReleaseRear ∧ q.returnedSize (s.object .scheduler) = size ∨
    s.point.listing ∧ s.top = if size = 1 then 1 else 2

private theorem nextTime_listing (s : Jobs τ) : s.nextTime.point.listing := by
  unfold Jobs.nextTime
  dsimp only
  split_ifs <;> trivial

private theorem ListsFor.step {size : Nat} (h : ListsFor q size w.jobs) (hsize : size ≠ 0) (hraised : ¬ w.jobs.raised)
    (hend : w.jobs.point ≠ .timeReleaseRear) (turn : JobTurn) : ListsFor q size (w.step q sent turn).jobs := by
  cases turn with
  | producer => exact h
  | consumer choice =>
    simp only [JobSystem.step, CrossQueue.schedule, if_neg hraised]
    rcases h with ⟨hp, hreturned⟩ | ⟨hlisting, htop⟩
    · have hsize' :
          ((w.jobs.object .scheduler).rear + q.maxLength - (w.jobs.object .scheduler).front) % q.maxLength = size :=
        hreturned
      simp only [hp, Action.exec, hsize', if_neg hsize]
      exact .inr ⟨trivial, rfl⟩
    · cases hp : w.jobs.point with
      | timeAcquireRear | timeAcquireFront =>
        dsimp only [Action.exec]
        split_ifs
        · exact .inr ⟨trivial, htop⟩
        · exact .inr ⟨hlisting, htop⟩
      | timeReadRear | timeReleaseFront => exact .inr ⟨trivial, htop⟩
      | timeReadFront => exact .inr ⟨nextTime_listing _, htop⟩
      | timeReadTime =>
        dsimp only
        split_ifs
        · dsimp only [Action.exec]
          split
          · exact .inr ⟨nextTime_listing _, htop⟩
          · exact .inr ⟨trivial, htop⟩
        · exact .inr ⟨hlisting, htop⟩
      | timeReleaseRear => exact absurd hp hend
      | _ => exact absurd hlisting (by simp [hp])

/-- The selector never looks behind the end of the list that `gettime` returns: after `size` has returned 1 it
has one time, and after it has returned 2 or more it has two, whatever puts there are meanwhile. -/
theorem queue_times_in_range (q : CrossQueue τ) (sent : Nat → Bytes × τ) (hkey : q.frontKeys = 1)
    (turns : List JobTurn) :
    let w := JobSystem.run q sent turns
    ¬ w.jobs.raised ∧ ∀ call : List JobTurn, w.jobs.point = .sizeReleaseRear →
      AlongRun (JobSystem.step q sent) (fun w _ => w.jobs.point ≠ .timeReleaseRear) w call →
      (call.foldl (JobSystem.step q sent) w).jobs.point = .timeReleaseRear →
      let size := q.returnedSize (w.jobs.object .scheduler)
      let times := (call.foldl (JobSystem.step q sent) w).jobs.times
      (size = 1 → times.length = 1) ∧ (2 ≤ size → times.length = 2) := by
  intro w
  have hpos : 0 < q.frontKeys := hkey ▸ Nat.one_pos
  have hranged : Ranged q w := Ranged.run sent hpos turns
  refine ⟨hranged.raised, ?_⟩
  intro call hreturns hcall hend size times
  have hlength : size ≠ 0 → times.length = if size = 1 then 1 else 2 := by
    intro hsize
    obtain ⟨-, hranged', hlists⟩ := @AlongRun.inv _ _ _ _
      (fun w : JobSystem τ => Serving q (fun n => asRead (sent n)) w ∧ Ranged q w ∧ ListsFor q size w.jobs)
      (fun w turn hinv hpoint => ⟨hinv.1.step (fun _ => rfl) hpos turn, hinv.2.1.step hinv.1 (fun _ => rfl) hpos turn,
        hinv.2.2.step hsize hinv.2.1.raised hpoint turn⟩)
      w ⟨Serving.run sent hpos turns, hranged, .inl ⟨hreturns, rfl⟩⟩ _ hcall
    rcases hlists with ⟨hpoint, -⟩ | ⟨-, htop⟩
    · rw [hend] at hpoint
      cases hpoint
    · exact (hranged'.listed (.inr hend)).trans htop
  refine ⟨fun hone => ?_, fun htwo => ?_⟩
  · rw [hlength (by omega), if_pos hone]
  · rw [hlength (by omega), if_neg (by omega)]

end

/-- `size` returns 1, a put enters a second item, then `gettime` reads. -/
def putBeforeTimes : List JobTurn :=
  .consumer .skip :: List.replicate 9 .producer ++ List.replicate 6 (.consumer .skip)

/-- One time is listed of two items, as `size` has returned 1. -/
theorem queue_times_in_range_putBeforeTimes :
    let w := JobSystem.run threeSlots payloads (List.replicate 9 .producer ++ List.replicate 5 (.consumer .skip))
    let w' := putBeforeTimes.foldl (JobSystem.step threeSlots payloads) w
    threeSlots.returnedSize (w.jobs.object .scheduler) = 1 ∧ w'.unread = 2 ∧ w'.jobs.times.length = 1 := by
  obtain ⟨-, hrange⟩ := queue_times_in_range threeSlots payloads rfl
    (List.replicate 9 .producer ++ List.replicate 5 (.consumer .skip))
  have hone : threeSlots.returnedSize ((JobSystem.run threeSlots payloads
      (List.replicate 9 .producer ++ List.replicate 5 (.consumer .skip))).jobs.object .scheduler) = 1 := by
    decide +kernel
  have htimes := hrange putBeforeTimes (by decide +kernel) (by decide +kernel) (by decide +kernel)
  exact ⟨hone, by decide +kernel, htimes.1 hone⟩

end Soar.Computing
