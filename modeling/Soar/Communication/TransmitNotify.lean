import Soar.Communication.TransmitProgress

/-! The threads of `libroad_tx.cpp` with `cv_push` and `cv_pop`: a thread that waits sleeps until another one notifies
it, and each `notify_all` comes after its `unlock`. -/
namespace Soar.Communication
open Soar.Library

def TxTurn.party : TxTurn → TxParty
  | .lidar _ => .lidar
  | .result _ => .result
  | .main => .main

namespace Transmitter

/-- The thread is at a `wait` whose condition does not hold. -/
def waits (w : Transmitter) : TxParty → Bool
  | .lidar =>
    match w.lidar with
    | .push _ => maxQueueSize ≤ w.packetQueue.length
    | _ => false
  | .result =>
    match w.result with
    | .push => maxQueueSize ≤ w.packetQueue.length
    | _ => false
  | .main =>
    match w.main with
    | .pop => w.packetQueue.isEmpty
    | _ => false

def unlocks (w : Transmitter) : TxParty → Bool
  | .lidar =>
    match w.lidar with
    | .unlock => true
    | _ => false
  | .result =>
    match w.result with
    | .unlock => true
    | _ => false
  | .main =>
    match w.main with
    | .unlock _ => true
    | _ => false

end Transmitter

/-- The threads, which of them sleep in a `wait`, and which are between `unlock` and `notify_all`. -/
structure NotifiedTransmitter where
  threads : Transmitter
  asleep : TxParty → Bool := fun _ => false
  notifying : TxParty → Bool := fun _ => false

/-- A turn of a thread, or a thread that wakes up without being notified. -/
inductive NotifyTurn
  | thread (t : TxTurn)
  | wakeUp (party : TxParty)

namespace NotifiedTransmitter

variable (s : NotifiedTransmitter)

/-- The main loop notifies `cv_push`, where the others sleep, and the others notify `cv_pop`. -/
def notifyAll : TxParty → TxParty → Bool
  | .main, .main => s.asleep .main
  | .main, _ => false
  | _, .main => false
  | _, party => s.asleep party

def stepThread (t : TxTurn) : NotifiedTransmitter :=
  if s.asleep t.party then s
  else if s.notifying t.party then
    { s with asleep := s.notifyAll t.party, notifying := Function.update s.notifying t.party false }
  else
    { threads := s.threads.step t
      asleep := if s.threads.waits t.party then Function.update s.asleep t.party true else s.asleep
      notifying := if s.threads.unlocks t.party then Function.update s.notifying t.party true else s.notifying }

def step : NotifyTurn → NotifiedTransmitter
  | .thread t => s.stepThread t
  | .wakeUp party => { s with asleep := Function.update s.asleep party false }

def run (turns : List NotifyTurn) : NotifiedTransmitter := turns.foldl step s

end NotifiedTransmitter

/-- No datagram arrives in the turn. -/
def NotifyTurn.NoReception : NotifyTurn → Prop
  | .thread (.result (some _)) => False
  | _ => True

/-- The callback and the main loop take turns of their own, without new packets. -/
def NotifyTurn.OnItsOwn (t : NotifyTurn) : Prop := t = .thread (.lidar none) ∨ t = .thread .main

theorem NotifyTurn.OnItsOwn.noReception {t : NotifyTurn} (h : t.OnItsOwn) : t.NoReception := by
  rcases h with rfl | rfl <;> trivial

namespace NotifiedTransmitter

/-- What holds while no datagram arrives. A sleeping thread has nothing to do, or is about to be notified. -/
structure Wakeful (s : NotifiedTransmitter) : Prop where
  guarded : s.threads.Guarded
  owned : s.threads.Owned
  result : s.threads.result = .recv ∨ s.threads.result = .finished
  resultAwake : s.asleep .result = false ∧ s.notifying .result = false
  mainAsleep : s.asleep .main = true → s.threads.main = .acquire ∧
    (s.threads.packetQueue = [] ∨ s.threads.lidar = .unlock ∨ s.notifying .lidar = true)
  lidarAsleep : s.asleep .lidar = true → (∃ buf, s.threads.lidar = .acquire buf) ∧
    (maxQueueSize ≤ s.threads.packetQueue.length ∨ (∃ buf, s.threads.main = .unlock buf) ∨ s.notifying .main = true)
  mainNotifying : s.notifying .main = true → ∃ buf, s.threads.main = .send buf
  lidarNotifying : s.notifying .lidar = true → s.threads.lidar = .idle

theorem wakeful_start (memory : Pointer → Buffer) : Wakeful { threads := { memory := memory } } where
  guarded := Transmitter.guarded_start memory
  owned := Transmitter.owned_start memory
  result := .inl rfl
  resultAwake := ⟨rfl, rfl⟩
  mainAsleep := nofun
  lidarAsleep := nofun
  mainNotifying := nofun
  lidarNotifying := nofun

section Step

variable {s : NotifiedTransmitter}

theorem stepThread_asleep {t : TxTurn} (hasleep : s.asleep t.party = true) : s.stepThread t = s := if_pos hasleep

/-- A thread that can take its next step takes it. -/
theorem stepThread_eq {t : TxTurn} (hawake : s.asleep t.party = false) (hdone : s.notifying t.party = false) :
    s.stepThread t =
      { threads := s.threads.step t
        asleep := if s.threads.waits t.party then Function.update s.asleep t.party true else s.asleep
        notifying := if s.threads.unlocks t.party then Function.update s.notifying t.party true else s.notifying } := by
  unfold stepThread
  rw [if_neg (by rw [hawake]; decide), if_neg (by rw [hdone]; decide)]

theorem stepThread_notify {t : TxTurn} (hawake : s.asleep t.party = false) (hnotify : s.notifying t.party = true) :
    s.stepThread t =
      { s with asleep := s.notifyAll t.party, notifying := Function.update s.notifying t.party false } := by
  unfold stepThread
  rw [if_neg (by rw [hawake]; decide), if_pos hnotify]

private theorem Wakeful.keep_lidar (h : s.Wakeful) {w : Transmitter} (hguarded : w.Guarded) (howned : w.Owned)
    (hmain : w.main = s.threads.main) (hresult : w.result = s.threads.result)
    (hqueue : w.packetQueue = s.threads.packetQueue) (hawake : s.asleep .lidar = false)
    (hdone : s.notifying .lidar = false) (hlidar : s.threads.lidar ≠ .unlock) :
    Wakeful { s with threads := w } where
  guarded := hguarded
  owned := howned
  result := by
    rw [hresult]
    exact h.result
  resultAwake := h.resultAwake
  mainAsleep hasleep := by
    obtain ⟨hacquire, hempty | hunlock | hnotify⟩ := h.mainAsleep hasleep
    · exact ⟨hmain.trans hacquire, .inl (hqueue.trans hempty)⟩
    · exact absurd hunlock hlidar
    · exact absurd (hdone.symm.trans hnotify) Bool.false_ne_true
  lidarAsleep hasleep := absurd (hawake.symm.trans hasleep) Bool.false_ne_true
  mainNotifying hnotify := by
    rw [hmain]
    exact h.mainNotifying hnotify
  lidarNotifying hnotify := absurd (hdone.symm.trans hnotify) Bool.false_ne_true

private theorem Wakeful.stepLidar (h : s.Wakeful) (data : Option LidarPacket) :
    (s.stepThread (.lidar data)).Wakeful := by
  have hguarded : (s.threads.stepLidar data).Guarded := h.guarded.step (.lidar data)
  have howned : (s.threads.stepLidar data).Owned := h.owned.step (.lidar data) trivial
  cases hasleep : s.asleep .lidar with
  | true =>
    rw [stepThread_asleep hasleep]
    exact h
  | false =>
    cases hnotify : s.notifying .lidar with
    | true =>
      rw [stepThread_notify hasleep hnotify]
      refine ⟨h.guarded, h.owned, h.result, h.resultAwake, nofun, fun hlidar => ?_, fun hmain => ?_, fun hlidar => ?_⟩
      · exact absurd (hasleep.symm.trans hlidar) Bool.false_ne_true
      · exact h.mainNotifying hmain
      · exact absurd hlidar Bool.false_ne_true
    | false =>
      rw [stepThread_eq hasleep hnotify]
      change Wakeful { threads := s.threads.stepLidar data, asleep := _, notifying := _ }
      unfold TxTurn.party Transmitter.waits Transmitter.unlocks
      unfold Transmitter.stepLidar at hguarded howned ⊢
      cases hp : s.threads.lidar with
      | idle =>
        rw [hp] at hguarded howned
        dsimp only at hguarded howned ⊢
        have hne : s.threads.lidar ≠ .unlock := by rw [hp]; rintro ⟨⟩
        cases data with
        | none => exact h.keep_lidar hguarded howned rfl rfl rfl hasleep hnotify hne
        | some packet =>
          dsimp only at hguarded howned ⊢
          by_cases hkind : packet.dataType = kExtendCartesian
          · rw [if_pos hkind] at hguarded howned ⊢
            exact h.keep_lidar hguarded howned rfl rfl rfl hasleep hnotify hne
          · rw [if_neg hkind] at hguarded howned ⊢
            exact h.keep_lidar hguarded howned rfl rfl rfl hasleep hnotify hne
      | copy txBuf packet =>
        rw [hp] at hguarded howned
        exact h.keep_lidar hguarded howned rfl rfl rfl hasleep hnotify (by rw [hp]; rintro ⟨⟩)
      | acquire txBuf =>
        rw [hp] at hguarded howned
        dsimp only [Transmitter.lock] at hguarded howned ⊢
        have hne : s.threads.lidar ≠ .unlock := by rw [hp]; rintro ⟨⟩
        by_cases hfree : s.threads.mutex = none
        · rw [if_pos hfree] at hguarded howned ⊢
          exact h.keep_lidar hguarded howned rfl rfl rfl hasleep hnotify hne
        · rw [if_neg hfree] at hguarded howned ⊢
          exact h.keep_lidar hguarded howned rfl rfl rfl hasleep hnotify hne
      | push txBuf =>
        rw [hp] at hguarded howned
        dsimp only at hguarded howned ⊢
        by_cases hroom : s.threads.packetQueue.length < maxQueueSize
        · rw [if_pos hroom] at hguarded howned ⊢
          rw [if_neg (by simpa using hroom)]
          refine ⟨hguarded, howned, h.result, h.resultAwake, fun hmain => ?_, fun hlidar => ?_, h.mainNotifying,
            fun hlidar => ?_⟩
          · exact ⟨(h.mainAsleep hmain).1, .inr (.inl rfl)⟩
          · exact absurd (hasleep.symm.trans hlidar) Bool.false_ne_true
          · exact absurd (hnotify.symm.trans hlidar) Bool.false_ne_true
        · rw [if_neg hroom] at hguarded howned ⊢
          rw [if_pos (by simpa using hroom)]
          refine ⟨hguarded, howned, h.result, h.resultAwake, fun hmain => ?_, fun _ => ?_, h.mainNotifying,
            fun hlidar => ?_⟩
          · obtain ⟨hacquire, hempty | hunlock | hdone⟩ := h.mainAsleep hmain
            · exact ⟨hacquire, .inl hempty⟩
            · rw [hp] at hunlock
              cases hunlock
            · exact absurd (hnotify.symm.trans hdone) Bool.false_ne_true
          · exact ⟨⟨txBuf, rfl⟩, .inl (Nat.le_of_not_lt hroom)⟩
          · exact absurd (hnotify.symm.trans hlidar) Bool.false_ne_true
      | unlock =>
        rw [hp] at hguarded howned
        dsimp only at hguarded howned ⊢
        refine ⟨hguarded, howned, h.result, h.resultAwake, fun hmain => ?_, fun hlidar => ?_, h.mainNotifying,
          fun _ => rfl⟩
        · exact ⟨(h.mainAsleep hmain).1, .inr (.inr rfl)⟩
        · exact absurd (hasleep.symm.trans hlidar) Bool.false_ne_true

private theorem Wakeful.keep_main (h : s.Wakeful) {w : Transmitter} (hguarded : w.Guarded) (howned : w.Owned)
    (hlidar : w.lidar = s.threads.lidar) (hresult : w.result = s.threads.result)
    (hqueue : w.packetQueue = s.threads.packetQueue) (hawake : s.asleep .main = false)
    (hdone : s.notifying .main = false) (hmain : ∀ buf, s.threads.main ≠ .unlock buf) :
    Wakeful { s with threads := w } where
  guarded := hguarded
  owned := howned
  result := by
    rw [hresult]
    exact h.result
  resultAwake := h.resultAwake
  mainAsleep hasleep := absurd (hawake.symm.trans hasleep) Bool.false_ne_true
  lidarAsleep hasleep := by
    obtain ⟨⟨txBuf, hacquire⟩, hfull | ⟨buf, hunlock⟩ | hnotify⟩ := h.lidarAsleep hasleep
    · exact ⟨⟨txBuf, hlidar.trans hacquire⟩, .inl (hqueue ▸ hfull)⟩
    · exact absurd hunlock (hmain buf)
    · exact absurd (hdone.symm.trans hnotify) Bool.false_ne_true
  mainNotifying hnotify := absurd (hdone.symm.trans hnotify) Bool.false_ne_true
  lidarNotifying hnotify := by
    rw [hlidar]
    exact h.lidarNotifying hnotify

private theorem Wakeful.stepMain (h : s.Wakeful) : (s.stepThread .main).Wakeful := by
  have hguarded : s.threads.stepMain.Guarded := h.guarded.step .main
  have howned : s.threads.stepMain.Owned := h.owned.step .main trivial
  cases hasleep : s.asleep .main with
  | true =>
    rw [stepThread_asleep hasleep]
    exact h
  | false =>
    cases hnotify : s.notifying .main with
    | true =>
      rw [stepThread_notify hasleep hnotify]
      refine ⟨h.guarded, h.owned, h.result, ⟨rfl, h.resultAwake.2⟩, fun hmain => ?_, nofun, fun hmain => ?_,
        fun hlidar => ?_⟩
      · exact absurd (hasleep.symm.trans hmain) Bool.false_ne_true
      · exact absurd hmain Bool.false_ne_true
      · exact h.lidarNotifying hlidar
    | false =>
      rw [stepThread_eq hasleep hnotify]
      change Wakeful { threads := s.threads.stepMain, asleep := _, notifying := _ }
      unfold TxTurn.party Transmitter.waits Transmitter.unlocks
      unfold Transmitter.stepMain at hguarded howned ⊢
      cases hp : s.threads.main with
      | acquire =>
        rw [hp] at hguarded howned
        dsimp only [Transmitter.lock] at hguarded howned ⊢
        have hne : ∀ buf, s.threads.main ≠ .unlock buf := by rw [hp]; rintro _ ⟨⟩
        by_cases hfree : s.threads.mutex = none
        · rw [if_pos hfree] at hguarded howned ⊢
          exact h.keep_main hguarded howned rfl rfl rfl hasleep hnotify hne
        · rw [if_neg hfree] at hguarded howned ⊢
          exact h.keep_main hguarded howned rfl rfl rfl hasleep hnotify hne
      | pop =>
        rw [hp] at hguarded howned
        dsimp only at hguarded howned ⊢
        cases hq : s.threads.packetQueue with
        | nil =>
          rw [hq] at hguarded howned
          refine ⟨hguarded, howned, h.result, h.resultAwake, fun _ => ⟨rfl, .inl rfl⟩, fun hlidar => ?_,
            fun hmain => ?_, h.lidarNotifying⟩
          · obtain ⟨hacquire, hfull | ⟨buf, hunlock⟩ | hdone⟩ := h.lidarAsleep hlidar
            · rw [hq] at hfull
              exact absurd hfull (by decide)
            · rw [hp] at hunlock
              cases hunlock
            · exact absurd (hnotify.symm.trans hdone) Bool.false_ne_true
          · exact absurd (hnotify.symm.trans hmain) Bool.false_ne_true
        | cons buf packetQueue =>
          rw [hq] at hguarded howned
          refine ⟨hguarded, howned, h.result, h.resultAwake, fun hmain => ?_, fun hlidar => ?_, fun hmain => ?_,
            h.lidarNotifying⟩
          · exact absurd (hasleep.symm.trans hmain) Bool.false_ne_true
          · exact ⟨(h.lidarAsleep hlidar).1, .inr (.inl ⟨buf, rfl⟩)⟩
          · exact absurd (hnotify.symm.trans hmain) Bool.false_ne_true
      | unlock buf =>
        rw [hp] at hguarded howned
        dsimp only at hguarded howned ⊢
        refine ⟨hguarded, howned, h.result, h.resultAwake, fun hmain => ?_, fun hlidar => ?_, fun _ => ⟨buf, rfl⟩,
          h.lidarNotifying⟩
        · exact absurd (hasleep.symm.trans hmain) Bool.false_ne_true
        · exact ⟨(h.lidarAsleep hlidar).1, .inr (.inr rfl)⟩
      | send buf =>
        rw [hp] at hguarded howned
        exact h.keep_main hguarded howned rfl rfl rfl hasleep hnotify (by rw [hp]; rintro _ ⟨⟩)
      | delete buf =>
        rw [hp] at hguarded howned
        exact h.keep_main hguarded howned rfl rfl rfl hasleep hnotify (by rw [hp]; rintro _ ⟨⟩)

private theorem Wakeful.stepResult (h : s.Wakeful) : (s.stepThread (.result none)).Wakeful := by
  obtain ⟨hasleep, hnotify⟩ := h.resultAwake
  have hguarded : (s.threads.stepResult none).Guarded := h.guarded.step (.result none)
  rw [stepThread_eq hasleep hnotify]
  change Wakeful { threads := s.threads.stepResult none, asleep := _, notifying := _ }
  unfold TxTurn.party Transmitter.waits Transmitter.unlocks
  have howned : (s.threads.stepResult none).Owned := by
    refine h.owned.step (.result none) fun hpush => ?_
    rcases h.result with hp | hp <;> rw [hp] at hpush <;> cases hpush
  unfold Transmitter.stepResult at hguarded howned ⊢
  rcases h.result with hp | hp <;> rw [hp] at hguarded howned ⊢
  · exact ⟨hguarded, howned, .inr rfl, h.resultAwake, h.mainAsleep, h.lidarAsleep, h.mainNotifying, h.lidarNotifying⟩
  · exact h

/-- Every step without a datagram keeps a thread awake that can go on, or about to be notified. -/
theorem Wakeful.step (h : s.Wakeful) {t : NotifyTurn} (hno : t.NoReception) : (s.step t).Wakeful := by
  cases t with
  | thread t =>
    cases t with
    | lidar data => exact h.stepLidar data
    | result datagram =>
      cases datagram with
      | none => exact h.stepResult
      | some _ => exact False.elim hno
    | main => exact h.stepMain
  | wakeUp party =>
    have hupdate : ∀ party', Function.update s.asleep party false party' = true → s.asleep party' = true := by
      intro party' hasleep
      rw [Function.update_apply] at hasleep
      split_ifs at hasleep
      exact hasleep
    refine ⟨h.guarded, h.owned, h.result, ⟨?_, h.resultAwake.2⟩, fun hmain => h.mainAsleep (hupdate _ hmain),
      fun hlidar => h.lidarAsleep (hupdate _ hlidar), h.mainNotifying, h.lidarNotifying⟩
    change Function.update s.asleep party false .result = false
    rw [Function.update_apply, h.resultAwake.1, ite_self]

/-- So does every run without datagrams. -/
theorem Wakeful.run (h : s.Wakeful) {turns : List NotifyTurn} (hno : ∀ t ∈ turns, t.NoReception) :
    (s.run turns).Wakeful := by
  unfold NotifiedTransmitter.run
  induction turns generalizing s with
  | nil => exact h
  | cons t turns ih =>
    obtain ⟨ht, hturns⟩ := List.forall_mem_cons.mp hno
    exact ih (h.step ht) hturns

/-- Sleeping and notifying only leave out turns of the threads. -/
theorem exists_foldl (s : NotifiedTransmitter) (turns : List NotifyTurn) :
    ∃ taken : List TxTurn, (s.run turns).threads = taken.foldl Transmitter.step s.threads := by
  have hstep (s : NotifiedTransmitter) (t : NotifyTurn) :
      ∃ taken : List TxTurn, (s.step t).threads = taken.foldl Transmitter.step s.threads := by
    cases t with
    | thread t =>
      change ∃ taken : List TxTurn, (s.stepThread t).threads = _
      cases hasleep : s.asleep t.party with
      | true => exact ⟨[], congrArg threads (stepThread_asleep hasleep)⟩
      | false =>
        cases hnotify : s.notifying t.party with
        | true => exact ⟨[], (congrArg threads (stepThread_notify hasleep hnotify)).trans rfl⟩
        | false => exact ⟨[t], congrArg threads (stepThread_eq hasleep hnotify)⟩
    | wakeUp party => exact ⟨[], rfl⟩
  unfold NotifiedTransmitter.run
  induction turns generalizing s with
  | nil => exact ⟨[], rfl⟩
  | cons t turns ih =>
    obtain ⟨first, hfirst⟩ := hstep s t
    obtain ⟨taken, htaken⟩ := ih (s.step t)
    refine ⟨first ++ taken, ?_⟩
    rw [List.foldl_append, ← hfirst]
    exact htaken

/-- The steps to an empty queue, and the two notifications on the way. -/
def notifyRank (s : NotifiedTransmitter) : Nat :=
  2 * s.threads.drainRank + (s.notifying .lidar).toNat + (s.notifying .main).toNat

private theorem lower_thread {t : TxTurn} (hawake : s.asleep t.party = false) (hdone : s.notifying t.party = false)
    (hlt : (s.threads.step t).drainRank < s.threads.drainRank) (hparty : t.party ≠ .result) :
    (s.stepThread t).notifyRank < s.notifyRank := by
  rw [stepThread_eq hawake hdone]
  unfold notifyRank
  cases hp : t.party with
  | lidar =>
    rw [hp] at hdone
    have hone := Bool.toNat_le ((if s.threads.unlocks .lidar then Function.update s.notifying .lidar true
      else s.notifying) .lidar)
    have hmain : (if s.threads.unlocks .lidar then Function.update s.notifying .lidar true else s.notifying) .main =
        s.notifying .main := by
      split_ifs
      · exact Function.update_of_ne (by decide) _ _
      · rfl
    dsimp only
    rw [hmain]
    omega
  | result => exact absurd hp hparty
  | main =>
    rw [hp] at hdone
    have hone := Bool.toNat_le ((if s.threads.unlocks .main then Function.update s.notifying .main true
      else s.notifying) .main)
    have hlidar : (if s.threads.unlocks .main then Function.update s.notifying .main true else s.notifying) .lidar =
        s.notifying .lidar := by
      split_ifs
      · exact Function.update_of_ne (by decide) _ _
      · rfl
    dsimp only
    rw [hlidar]
    omega

private theorem lower_notify {t : TxTurn} (hawake : s.asleep t.party = false) (hnotify : s.notifying t.party = true)
    (hparty : t.party ≠ .result) : (s.stepThread t).notifyRank < s.notifyRank := by
  rw [stepThread_notify hawake hnotify]
  unfold notifyRank
  dsimp only
  cases hp : t.party with
  | lidar =>
    rw [hp] at hnotify
    rw [hnotify, Function.update_self, Function.update_of_ne (by decide)]
    simp
  | result => exact absurd hp hparty
  | main =>
    rw [hp] at hnotify
    rw [hnotify, Function.update_self, Function.update_of_ne (by decide)]
    simp

/-- The callback or the main loop comes closer to an empty queue, or notifies the other one. -/
theorem Wakeful.exists_lower (h : s.Wakeful) (hnot : ¬ s.threads.Drained) :
    ∃ t : NotifyTurn, t.OnItsOwn ∧ (s.step t).notifyRank < s.notifyRank := by
  cases hmutex : s.threads.mutex with
  | some party =>
    have hinside := (h.guarded.mutex party).mp hmutex
    have hlt := h.guarded.lower_inside hmutex
    cases party with
    | lidar =>
      have hawake : s.asleep .lidar = false := by
        by_contra hasleep
        obtain ⟨⟨buf, hacquire⟩, -⟩ := h.lidarAsleep (Bool.eq_true_of_not_eq_false hasleep)
        rw [Transmitter.Inside, hacquire] at hinside
        exact hinside
      have hdone : s.notifying .lidar = false := by
        by_contra hnotify
        rw [Transmitter.Inside, h.lidarNotifying (Bool.eq_true_of_not_eq_false hnotify)] at hinside
        exact hinside
      exact ⟨_, .inl rfl, lower_thread hawake hdone hlt (by decide)⟩
    | result =>
      rw [Transmitter.Inside] at hinside
      rcases h.result with hp | hp <;> rw [hp] at hinside <;> exact False.elim hinside
    | main =>
      have hawake : s.asleep .main = false := by
        by_contra hasleep
        rw [Transmitter.Inside, (h.mainAsleep (Bool.eq_true_of_not_eq_false hasleep)).1] at hinside
        exact hinside
      have hdone : s.notifying .main = false := by
        by_contra hnotify
        obtain ⟨buf, hsend⟩ := h.mainNotifying (Bool.eq_true_of_not_eq_false hnotify)
        rw [Transmitter.Inside, hsend] at hinside
        exact hinside
      exact ⟨_, .inr rfl, lower_thread hawake hdone hlt (by decide)⟩
  | none =>
    cases hasleep : s.asleep .main with
    | true =>
      -- the queue is not empty, so the callback has pushed and not notified yet
      obtain ⟨hacquire, hempty | hunlock | hnotify⟩ := h.mainAsleep hasleep
      · exact absurd ⟨hmutex, hempty, hacquire⟩ hnot
      · exact absurd (by rw [Transmitter.Inside, hunlock]; trivial) (h.guarded.not_inside hmutex .lidar)
      · have hawake : s.asleep .lidar = false := by
          by_contra hlidar
          obtain ⟨⟨buf, hlidar⟩, -⟩ := h.lidarAsleep (Bool.eq_true_of_not_eq_false hlidar)
          cases (h.lidarNotifying hnotify).symm.trans hlidar
        exact ⟨_, .inl rfl, lower_notify hawake hnotify (by decide)⟩
    | false =>
      cases hnotify : s.notifying .main with
      | true => exact ⟨_, .inr rfl, lower_notify hasleep hnotify (by decide)⟩
      | false => exact ⟨_, .inr rfl, lower_thread hasleep hnotify (h.guarded.lower_main hmutex hnot) (by decide)⟩

/-- From every wakeful state on the threads can empty the queue on their own. -/
theorem Wakeful.drains (h : s.Wakeful) :
    ∃ turns : List NotifyTurn, (∀ t ∈ turns, t.OnItsOwn) ∧ (s.run turns).threads.Drained := by
  induction hr : s.notifyRank using Nat.strong_induction_on generalizing s with
  | h r ih =>
    by_cases hdone : s.threads.Drained
    · exact ⟨[], nofun, hdone⟩
    · obtain ⟨t, ht, hlt⟩ := h.exists_lower hdone
      obtain ⟨turns, hown, hturns⟩ := ih _ (hr ▸ hlt) (h.step ht.noReception) rfl
      exact ⟨t :: turns, List.forall_mem_cons.mpr ⟨ht, hown⟩, hturns⟩

private theorem Wakeful.lidar_free (h : s.Wakeful) (hdrained : s.threads.Drained) {p : Pointer}
    (hp : Transmitter.unpushed s.threads.lidar = some p) : s.asleep .lidar = false ∧ s.notifying .lidar = false := by
  constructor
  · by_contra hasleep
    obtain ⟨-, hfull | ⟨buf, hunlock⟩ | hnotify⟩ := h.lidarAsleep (Bool.eq_true_of_not_eq_false hasleep)
    · rw [hdrained.packetQueue] at hfull
      exact absurd hfull (by decide)
    · cases hdrained.main.symm.trans hunlock
    · obtain ⟨buf, hsend⟩ := h.mainNotifying hnotify
      cases hdrained.main.symm.trans hsend
  · by_contra hnotify
    rw [h.lidarNotifying (Bool.eq_true_of_not_eq_false hnotify)] at hp
    cases hp

private theorem Wakeful.pushes_acquire (h : s.Wakeful) (hdrained : s.threads.Drained) {p : Pointer}
    (hp : s.threads.lidar = .acquire p) :
    p ∈ (s.run [.thread (.lidar none), .thread (.lidar none)]).threads.pushed.map Prod.fst := by
  obtain ⟨hawake, hdone⟩ := h.lidar_free hdrained (congrArg Transmitter.unpushed hp)
  have hlock : s.threads.step (.lidar none) = { s.threads with mutex := some .lidar, lidar := .push p } := by
    change s.threads.stepLidar none = _
    unfold Transmitter.stepLidar
    rw [hp]
    dsimp only [Transmitter.lock]
    rw [if_pos hdrained.mutex]
  have hfirst : s.stepThread (.lidar none) =
      { s with threads := { s.threads with mutex := some .lidar, lidar := .push p } } := by
    rw [stepThread_eq hawake hdone, hlock]
    unfold TxTurn.party Transmitter.waits Transmitter.unlocks
    rw [hp]
    rfl
  have hroom : s.threads.packetQueue.length < maxQueueSize := by
    rw [hdrained.packetQueue]
    decide
  change p ∈ ((s.stepThread (.lidar none)).stepThread (.lidar none)).threads.pushed.map Prod.fst
  rw [hfirst, stepThread_eq hawake hdone]
  change p ∈ (Transmitter.stepLidar { s.threads with mutex := some .lidar, lidar := .push p } none).pushed.map Prod.fst
  unfold Transmitter.stepLidar
  dsimp only
  rw [if_pos hroom, Transmitter.push]
  simp

/-- From an empty queue the callback pushes what it has allocated. -/
theorem Wakeful.pushes (h : s.Wakeful) (hdrained : s.threads.Drained) {p : Pointer}
    (hp : Transmitter.unpushed s.threads.lidar = some p) :
    ∃ turns : List NotifyTurn, (∀ t ∈ turns, t.OnItsOwn) ∧ p ∈ (s.run turns).threads.pushed.map Prod.fst := by
  have hturn : NotifyTurn.OnItsOwn (.thread (.lidar none)) := .inl rfl
  cases hl : s.threads.lidar with
  | idle | unlock =>
    rw [hl] at hp
    cases hp
  | push txBuf => exact absurd (by rw [Transmitter.Inside, hl]; trivial) (h.guarded.not_inside hdrained.mutex .lidar)
  | acquire txBuf =>
    rw [hl] at hp
    obtain rfl := Option.some.inj hp
    exact ⟨_, by simp [hturn], h.pushes_acquire hdrained hl⟩
  | copy txBuf packet =>
    obtain ⟨hawake, hdone⟩ := h.lidar_free hdrained hp
    rw [hl] at hp
    obtain rfl := Option.some.inj hp
    have hthreads : (s.step (.thread (.lidar none))).threads = s.threads.stepLidar none :=
      congrArg threads (stepThread_eq hawake hdone)
    have hcopy : (s.threads.stepLidar none).Drained ∧ (s.threads.stepLidar none).lidar = .acquire txBuf := by
      unfold Transmitter.stepLidar
      rw [hl]
      exact ⟨⟨hdrained.mutex, hdrained.packetQueue, hdrained.main⟩, rfl⟩
    rw [← hthreads] at hcopy
    have hmem := (h.step hturn.noReception).pushes_acquire hcopy.1 hcopy.2
    exact ⟨[.thread (.lidar none), .thread (.lidar none), .thread (.lidar none)], by simp [hturn], hmem⟩

/-- What the callback holds is pushed and the queue is drained once more. -/
theorem Wakeful.progress (h : s.Wakeful) :
    ∃ more : List NotifyTurn, (∀ t ∈ more, t.OnItsOwn) ∧ (s.run more).threads.Drained ∧
      Transmitter.Continues s.threads (s.run more).threads ∧
        ∀ p, Transmitter.unpushed s.threads.lidar = some p → p ∈ (s.run more).threads.pushed.map Prod.fst := by
  have hcontinues (s : NotifiedTransmitter) (turns : List NotifyTurn) :
      Transmitter.Continues s.threads (s.run turns).threads := by
    obtain ⟨taken, htaken⟩ := exists_foldl s turns
    exact htaken ▸ Transmitter.continues s.threads taken
  have hrun (first last : List NotifyTurn) : s.run (first ++ last) = (s.run first).run last := List.foldl_append
  obtain ⟨first, hfirst, hdrained⟩ := h.drains
  have hno {turns : List NotifyTurn} (hown : ∀ t ∈ turns, t.OnItsOwn) : ∀ t ∈ turns, t.NoReception :=
    fun t ht => (hown t ht).noReception
  have h₁ := h.run (hno hfirst)
  cases hp : Transmitter.unpushed s.threads.lidar with
  | none => exact ⟨first, hfirst, hdrained, hcontinues s first, nofun⟩
  | some p =>
    have hpush : ∃ push : List NotifyTurn, (∀ t ∈ push, t.OnItsOwn) ∧
        p ∈ ((s.run first).run push).threads.pushed.map Prod.fst := by
      rcases (hcontinues s first).unpushed p hp with hstill | hdone
      · exact h₁.pushes hdrained hstill
      · exact ⟨[], nofun, hdone⟩
    obtain ⟨push, hpushOwn, hmem⟩ := hpush
    obtain ⟨last, hlast, hdrained'⟩ := (h₁.run (hno hpushOwn)).drains
    refine ⟨first ++ push ++ last, ?_, ?_, hcontinues s _, fun p' heq => ?_⟩
    · intro t ht
      rcases List.mem_append.mp ht with ht | ht
      · exact (List.mem_append.mp ht).elim (hfirst t) (hpushOwn t)
      · exact hlast t ht
    · rw [hrun, hrun]
      exact hdrained'
    · obtain rfl := Option.some.inj heq
      rw [hrun, hrun]
      exact ((hcontinues _ last).pushed.map Prod.fst).subset hmem

end Step

end NotifiedTransmitter

/-- In every run without datagrams the mutex belongs to the thread inside, the queue holds at most its bound and is
first in, first out, and each array is sent and deleted as it was pushed. From every state the callback and the main
loop can go on, with no wake-up but those they notify, until all that was pushed, and what the callback was about to
push, has been sent. -/
theorem transmit_guarded_progress (memory : Pointer → Buffer) {turns : List NotifyTurn}
    (hno : ∀ t ∈ turns, t.NoReception) :
    let s := NotifiedTransmitter.run { threads := { memory := memory } } turns
    s.threads.Guarded ∧ s.threads.Integrity ∧
      ∃ more : List NotifyTurn, (∀ t ∈ more, t.OnItsOwn) ∧
        let w := (s.run more).threads
        w.Drained ∧ w.sent.map Prod.fst = w.pushed.map Prod.fst ∧ s.threads.pushed <+: w.pushed ∧
          ∀ p, Transmitter.unpushed s.threads.lidar = some p → p ∈ w.sent.map Prod.fst := by
  intro s
  have h : s.Wakeful := (NotifiedTransmitter.wakeful_start memory).run hno
  obtain ⟨more, hown, hdrained, hcontinues, hunpushed⟩ := h.progress
  have hsent := (h.run fun t ht => (hown t ht).noReception).guarded.sent_of_drained hdrained
  refine ⟨h.guarded, h.owned.integrity, more, hown, hdrained, hsent, hcontinues.pushed, fun p hp => ?_⟩
  rw [hsent]
  exact hunpushed p hp

def cartesianPacket : LidarPacket := ⟨kExtendCartesian, 7, [.ofNat 1], by decide⟩

/-- The main loop sleeps at the empty queue when the callback is called. -/
def mainSleeps : List NotifyTurn :=
  [.thread .main, .thread .main, .thread (.lidar (some cartesianPacket)), .thread (.lidar none), .thread .main]

/-- The main loop sleeps when the first packets come, and is woken. -/
theorem transmit_guarded_progress_mainSleeps :
    let s := NotifiedTransmitter.run { threads := { memory := fun _ _ => 0 } } mainSleeps
    s.asleep .main = true ∧ Transmitter.unpushed s.threads.lidar = some (.heap 0) ∧
      ∃ more : List NotifyTurn, (∀ t ∈ more, t.OnItsOwn) ∧ Pointer.heap 0 ∈ (s.run more).threads.sent.map Prod.fst := by
  have hno : ∀ t ∈ mainSleeps, t.NoReception := by
    unfold mainSleeps
    simp [NotifyTurn.NoReception]
  obtain ⟨-, -, more, hown, -, -, -, hsent⟩ := transmit_guarded_progress (fun _ _ => 0) hno
  exact ⟨rfl, rfl, more, hown, hsent _ rfl⟩

end Soar.Communication
