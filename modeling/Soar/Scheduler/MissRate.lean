import Soar.Library.Loops
import Soar.Scheduler.Results

/-! The windows of 500 calls after which the miss rates are uploaded. -/
namespace Soar.Scheduler
open Soar.Library
open Soar.Dispatcher (updateKey lookup_updateKey keys_updateKey nodup_keys_updateKey)

/-- `upload_miss_rate`'s quotients, `none` where the division by zero is raised. -/
def uploadMissRate (rate : MissingRate) : Option (List (Int × ℚ)) :=
  rate.mapM fun (app, n) => if n.1 = 0 then none else some (app, (n.2 : ℚ) / n.1)

/-- The numbers of an app, zero before its first job. -/
def counts (rate : MissingRate) (app : Int) : Nat × Nat := (rate.lookup app).getD (0, 0)

/-- The snapshots that the calls put on `miss_queue`. -/
def snapshots (s : Results) (calls : List Report) : List MissingRate :=
  (calls.foldl writeToResults s).missQueue.drop s.missQueue.length

/-- The calls between the snapshots `n - 1` and `n`. -/
def window (calls : List Report) (n : Nat) : List Report := (calls.drop (500 * n)).take 500

/-- Every entry has a job, no more missed ones than jobs, and the jobs are those of the app among the calls. -/
def Covers (calls : List Report) (snapshot : MissingRate) : Prop :=
  ∀ entry ∈ snapshot, 0 < entry.2.1 ∧ entry.2.2 ≤ entry.2.1 ∧ entry.2.1 = calls.countP (·.appid = entry.1)

/-- Every snapshot covers its window, and the upload of it divides by no zero. -/
def SnapshotsCover (s : Results) (calls : List Report) : Prop :=
  ∀ n snapshot, (snapshots s calls)[n]? = some snapshot →
    Covers (window calls n) snapshot ∧ (uploadMissRate snapshot).isSome

theorem uploadMissRate_eq {rate : MissingRate} (h : ∀ entry ∈ rate, 0 < entry.2.1) :
    uploadMissRate rate = some (rate.map fun (app, n) => (app, (n.2 : ℚ) / n.1)) :=
  mapM_eq_map fun entry hentry => if_neg (h entry hentry).ne'

section Tally

theorem counts_tally (rate : MissingRate) (c : Report) (app : Int) :
    counts (tally rate c) app = if app = c.appid then
      ((counts rate app).1 + 1, (counts rate app).2 + if c.Missed then 1 else 0) else counts rate app := by
  unfold counts tally
  by_cases hmissed : c.Missed
  · by_cases happ : app = c.appid <;> simp [hmissed, happ, lookup_updateKey]
  · by_cases happ : app = c.appid <;> simp [hmissed, happ, lookup_updateKey]

/-- The counts of a list of calls: its reports of an application, and the missed ones of them. -/
theorem counts_foldl_tally (rate : MissingRate) (calls : List Report) (app : Int) :
    counts (calls.foldl tally rate) app =
      ((counts rate app).1 + calls.countP (·.appid = app),
        (counts rate app).2 + calls.countP fun c => c.appid = app ∧ c.Missed) := by
  induction calls generalizing rate with
  | nil => rfl
  | cons c calls ih =>
    rw [List.foldl_cons, ih, counts_tally, List.countP_cons, List.countP_cons]
    by_cases happ : app = c.appid
    · subst happ
      by_cases hmissed : c.Missed <;> simp [hmissed] <;> omega
    · simp [happ, Ne.symm happ]

theorem mem_keys_tally {rate : MissingRate} {c : Report} {app : Int} :
    app ∈ (tally rate c).map Prod.fst ↔ app ∈ rate.map Prod.fst ∨ app = c.appid := by
  have hkeys : ∀ f : Nat × Nat → Nat × Nat, ∀ d : MissingRate,
      app ∈ (updateKey (0, 0) f c.appid d).map Prod.fst ↔ app ∈ d.map Prod.fst ∨ app = c.appid := by
    intro f d
    rw [keys_updateKey]
    split_ifs with hmem
    · refine (or_iff_left_of_imp ?_).symm
      rintro rfl
      exact hmem
    · rw [List.mem_append, List.mem_singleton]
  unfold tally
  dsimp only
  split_ifs
  · rw [hkeys, hkeys, or_assoc, or_self]
  · exact hkeys _ _

theorem mem_keys_foldl_tally {rate : MissingRate} {calls : List Report} {app : Int} :
    app ∈ (calls.foldl tally rate).map Prod.fst ↔
      app ∈ rate.map Prod.fst ∨ ∃ c ∈ calls, c.appid = app := by
  induction calls generalizing rate with
  | nil => simp
  | cons c calls ih =>
    rw [List.foldl_cons, ih, mem_keys_tally, List.exists_mem_cons_iff, or_assoc, eq_comm]

theorem nodup_keys_foldl_tally {rate : MissingRate} (h : (rate.map Prod.fst).Nodup) (calls : List Report) :
    ((calls.foldl tally rate).map Prod.fst).Nodup := by
  induction calls generalizing rate with
  | nil => exact h
  | cons c calls ih =>
    apply ih
    unfold tally
    dsimp only
    split_ifs
    · exact nodup_keys_updateKey (nodup_keys_updateKey h)
    · exact nodup_keys_updateKey h

theorem counts_of_mem {rate : MissingRate} (h : (rate.map Prod.fst).Nodup) {entry : Int × (Nat × Nat)}
    (hentry : entry ∈ rate) : counts rate entry.1 = entry.2 := by
  induction rate with
  | nil => exact absurd hentry List.not_mem_nil
  | cons e rate ih =>
    obtain ⟨hnotMem, hnodup⟩ := List.nodup_cons.mp h
    unfold counts at ih ⊢
    rcases List.mem_cons.mp hentry with rfl | hmem
    · rw [List.lookup_cons_self]
      rfl
    · have hne : entry.1 ≠ e.1 := fun heq => hnotMem (heq ▸ List.mem_map_of_mem hmem)
      rw [List.lookup_cons, beq_false_of_ne hne]
      exact ih hnodup hmem

end Tally

section Windows

variable {s : Results}

/-- A call within the window. -/
theorem writeToResults_of_ne {c : Report} (h : (s.count + 1) % 500 ≠ 0) : writeToResults s c =
    { s with
      results := updateKey [] (fun _ => [c.data]) c.startTime s.results
      count := s.count + 1
      missingRate := tally s.missingRate c } :=
  if_neg h

/-- The call that fills the window. -/
theorem writeToResults_of_eq {c : Report} (h : (s.count + 1) % 500 = 0) : writeToResults s c =
    { s with
      results := updateKey [] (fun _ => [c.data]) c.startTime s.results
      count := s.count + 1
      missingRate := updateKey (0, 0) (fun _ => (0, 0)) c.appid (tally s.missingRate c)
      missQueue := s.missQueue ++ [tally s.missingRate c] } :=
  if_pos h

/-- Calls that do not fill the window leave `MISSING_RATE` to the tally. -/
theorem foldl_writeToResults {calls : List Report} (h : s.count % 500 + calls.length < 500) :
    (calls.foldl writeToResults s).count = s.count + calls.length ∧
      (calls.foldl writeToResults s).missingRate = calls.foldl tally s.missingRate ∧
      (calls.foldl writeToResults s).missQueue = s.missQueue := by
  induction calls generalizing s with
  | nil => exact ⟨rfl, rfl, rfl⟩
  | cons c calls ih =>
    rw [List.length_cons] at h
    have hmod : (s.count + 1) % 500 ≠ 0 := by omega
    have hroom : (writeToResults s c).count % 500 + calls.length < 500 := by
      rw [writeToResults_of_ne hmod]
      dsimp only
      omega
    obtain ⟨hcount, hrate, hqueue⟩ := ih hroom
    rw [List.foldl_cons, List.foldl_cons, hcount, hrate, hqueue, writeToResults_of_ne hmod, List.length_cons]
    exact ⟨by dsimp only; omega, rfl, rfl⟩

/-- The call that fills the window puts the tally on the queue and resets its own app. -/
theorem foldl_window {calls : List Report} {c : Report} (hs : s.count % 500 = 0) (hlen : calls.length = 499) :
    ((calls ++ [c]).foldl writeToResults s).count % 500 = 0 ∧
      ((calls ++ [c]).foldl writeToResults s).missQueue = s.missQueue ++ [(calls ++ [c]).foldl tally s.missingRate] ∧
      ((calls ++ [c]).foldl writeToResults s).missingRate =
        updateKey (0, 0) (fun _ => (0, 0)) c.appid ((calls ++ [c]).foldl tally s.missingRate) := by
  have hroom : s.count % 500 + calls.length < 500 := by omega
  obtain ⟨hcount, hrate, hqueue⟩ := foldl_writeToResults hroom
  have hmod : ((calls.foldl writeToResults s).count + 1) % 500 = 0 := by omega
  rw [List.foldl_append, List.foldl_append, List.foldl_cons, List.foldl_nil, List.foldl_cons, List.foldl_nil,
    writeToResults_of_eq hmod, hrate, hqueue]
  exact ⟨hmod, rfl, rfl⟩

/-- A snapshot that has been put is never taken back. -/
theorem missQueue_isPrefix (s : Results) (calls : List Report) :
    s.missQueue <+: (calls.foldl writeToResults s).missQueue := by
  induction calls generalizing s with
  | nil => exact List.prefix_rfl
  | cons c calls ih =>
    refine List.IsPrefix.trans ?_ (ih (writeToResults s c))
    unfold writeToResults
    dsimp only
    split_ifs
    · exact List.prefix_append ..
    · exact List.prefix_rfl

theorem snapshots_of_short {calls : List Report} (hs : s.count % 500 = 0) (hlen : calls.length < 500) :
    snapshots s calls = [] := by
  have hroom : s.count % 500 + calls.length < 500 := by omega
  unfold snapshots
  rw [(foldl_writeToResults hroom).2.2, List.drop_length]

/-- A full window is followed by the snapshots of what comes later. -/
theorem snapshots_append {calls rest : List Report} {snapshot : MissingRate}
    (h : (calls.foldl writeToResults s).missQueue = s.missQueue ++ [snapshot]) :
    snapshots s (calls ++ rest) = snapshot :: snapshots (calls.foldl writeToResults s) rest := by
  obtain ⟨more, hmore⟩ := missQueue_isPrefix (calls.foldl writeToResults s) rest
  unfold snapshots
  rw [List.foldl_append, ← hmore, h, List.drop_left, List.append_assoc, List.drop_left, List.singleton_append]

theorem window_zero {calls : List Report} (hlen : calls.length = 500) (rest : List Report) :
    window (calls ++ rest) 0 = calls := by
  unfold window
  rw [Nat.mul_zero, List.drop_zero, ← hlen, List.take_left]

theorem window_succ {calls : List Report} (hlen : calls.length = 500) (rest : List Report) (n : Nat) :
    window (calls ++ rest) (n + 1) = window rest n := by
  unfold window
  rw [Nat.mul_succ, Nat.add_comm, ← List.drop_drop, ← hlen, List.drop_left]

theorem take_windows_succ {calls : List Report} (hlen : calls.length = 500) (rest : List Report) (n : Nat) :
    (calls ++ rest).take (500 * (n + 1)) = calls ++ rest.take (500 * n) := by
  rw [Nat.mul_succ, Nat.add_comm, ← hlen, List.take_length_add_append]

/-- The rule for a full window: its own snapshot, and those of the calls after it. -/
theorem snapshotsCover_window {calls rest : List Report} {snapshot : MissingRate} (hlen : calls.length = 500)
    (h : (calls.foldl writeToResults s).missQueue = s.missQueue ++ [snapshot]) :
    SnapshotsCover s (calls ++ rest) ↔
      Covers calls snapshot ∧ SnapshotsCover (calls.foldl writeToResults s) rest := by
  unfold SnapshotsCover
  rw [snapshots_append h]
  constructor
  · intro hall
    refine ⟨?_, fun n later hlater => ?_⟩
    · exact window_zero hlen rest ▸ (hall 0 snapshot rfl).1
    · exact window_succ hlen rest n ▸ hall (n + 1) later hlater
  · rintro ⟨hcovers, hrest⟩ n later hlater
    cases n with
    | zero =>
      obtain rfl : snapshot = later := Option.some_inj.mp hlater
      rw [window_zero hlen]
      rw [uploadMissRate_eq fun entry hentry => (hcovers entry hentry).1]
      exact ⟨hcovers, rfl⟩
    | succ n =>
      rw [window_succ hlen]
      exact hrest n later hlater

end Windows

section Coverage

variable {rate : MissingRate} {calls : List Report}

theorem counts_of_notMem {app : Int} (h : app ∉ rate.map Prod.fst) : counts rate app = (0, 0) := by
  have hnone : rate.lookup app = none := by
    rw [List.lookup_eq_none_iff]
    intro entry hentry
    exact bne_iff_ne.mpr fun heq => h (heq ▸ List.mem_map_of_mem hentry)
  unfold counts
  rw [hnone]
  rfl

/-- A tally covers the calls exactly if the entries it began with were empty and their apps are among the calls. -/
theorem covers_foldl_tally_iff (hnodup : (rate.map Prod.fst).Nodup)
    (hle : ∀ app, (counts rate app).2 ≤ (counts rate app).1) :
    Covers calls (calls.foldl tally rate) ↔
      ∀ app ∈ rate.map Prod.fst, (counts rate app).1 = 0 ∧ ∃ c ∈ calls, c.appid = app := by
  have hentries := nodup_keys_foldl_tally hnodup calls
  constructor
  · intro h app happ
    have hkey : app ∈ (calls.foldl tally rate).map Prod.fst := mem_keys_foldl_tally.mpr (.inl happ)
    obtain ⟨entry, hentry, rfl⟩ := List.mem_map.mp hkey
    obtain ⟨hpos, -, htotal⟩ := h entry hentry
    have hcounts := counts_of_mem hentries hentry
    rw [counts_foldl_tally] at hcounts
    have hfirst := congrArg Prod.fst hcounts
    dsimp only at hfirst
    obtain ⟨c, hc, happ'⟩ := List.countP_pos_iff.mp (htotal ▸ hpos)
    exact ⟨by omega, c, hc, of_decide_eq_true happ'⟩
  · intro h entry hentry
    have hcounts := counts_of_mem hentries hentry
    rw [counts_foldl_tally] at hcounts
    have hmono : calls.countP (fun c => c.appid = entry.1 ∧ c.Missed) ≤ calls.countP (·.appid = entry.1) := by
      apply List.countP_mono_left
      intro c _ hc
      exact decide_eq_true (of_decide_eq_true hc).1
    have hempty : (counts rate entry.1).1 = 0 ∧ ∃ c ∈ calls, c.appid = entry.1 := by
      by_cases hmem : entry.1 ∈ rate.map Prod.fst
      · exact h entry.1 hmem
      · refine ⟨by rw [counts_of_notMem hmem], ?_⟩
        exact (mem_keys_foldl_tally.mp (List.mem_map_of_mem hentry)).resolve_left hmem
    obtain ⟨hzero, c, hc, happ⟩ := hempty
    have hpos : 0 < calls.countP (·.appid = entry.1) := List.countP_pos_iff.mpr ⟨c, hc, decide_eq_true happ⟩
    have hmissed := hle entry.1
    rw [← hcounts]
    dsimp only
    omega

theorem nodup_keys_nil : (([] : MissingRate).map Prod.fst).Nodup := List.nodup_nil

theorem covers_tally_nil (calls : List Report) : Covers calls (calls.foldl tally []) :=
  (covers_foldl_tally_iff nodup_keys_nil fun _ => Nat.le_refl 0).mpr fun _ hnone => absurd hnone List.not_mem_nil

/-- After a reset: the entry of `app` is empty, every other one has a job. -/
structure Reset (rate : MissingRate) (app : Int) : Prop where
  nodup : (rate.map Prod.fst).Nodup
  mem : app ∈ rate.map Prod.fst
  zero : (counts rate app).1 = 0
  pos : ∀ other ∈ rate.map Prod.fst, other ≠ app → 0 < (counts rate other).1
  le : ∀ other, (counts rate other).2 ≤ (counts rate other).1

theorem Reset.covers_iff {app : Int} (h : Reset rate app) : Covers calls (calls.foldl tally rate) ↔
    (∀ other ∈ rate.map Prod.fst, other = app) ∧ ∃ c ∈ calls, c.appid = app := by
  rw [covers_foldl_tally_iff h.nodup h.le]
  constructor
  · intro hall
    refine ⟨fun other hother => ?_, (hall app h.mem).2⟩
    by_contra hne
    exact (h.pos other hother hne).ne' (hall other hother).1
  · rintro ⟨honly, hoccurs⟩ other hother
    obtain rfl := honly other hother
    exact ⟨h.zero, hoccurs⟩

theorem mem_keys_reset {app other : Int} (happ : app ∈ rate.map Prod.fst) :
    other ∈ (updateKey (0, 0) (fun _ => (0, 0)) app rate).map Prod.fst ↔ other ∈ rate.map Prod.fst := by
  rw [keys_updateKey, if_pos happ]

theorem counts_reset (app other : Int) :
    counts (updateKey (0, 0) (fun _ => (0, 0)) app rate) other = if other = app then (0, 0) else counts rate other := by
  unfold counts
  rw [lookup_updateKey]
  split_ifs <;> rfl

/-- The reset at the end of a window that the snapshot has covered. -/
theorem reset_of_covers (hnodup : (rate.map Prod.fst).Nodup) {c : Report} (hc : c ∈ calls)
    (hcovers : Covers calls (calls.foldl tally rate)) :
    Reset (updateKey (0, 0) (fun _ => (0, 0)) c.appid (calls.foldl tally rate)) c.appid := by
  have hkeys : c.appid ∈ (calls.foldl tally rate).map Prod.fst := mem_keys_foldl_tally.mpr (.inr ⟨c, hc, rfl⟩)
  have hentries := nodup_keys_foldl_tally hnodup calls
  have hbound : ∀ app ∈ (calls.foldl tally rate).map Prod.fst, 0 < (counts (calls.foldl tally rate) app).1 ∧
      (counts (calls.foldl tally rate) app).2 ≤ (counts (calls.foldl tally rate) app).1 := by
    intro app happ
    obtain ⟨entry, hentry, rfl⟩ := List.mem_map.mp happ
    rw [counts_of_mem hentries hentry]
    exact ⟨(hcovers entry hentry).1, (hcovers entry hentry).2.1⟩
  constructor
  · exact nodup_keys_updateKey hentries
  · exact (mem_keys_reset hkeys).mpr hkeys
  · rw [counts_reset, if_pos rfl]
  · intro other hother hne
    rw [counts_reset, if_neg hne]
    exact (hbound other ((mem_keys_reset hkeys).mp hother)).1
  · intro other
    rw [counts_reset]
    split_ifs with heq
    · exact Nat.le_refl 0
    · by_cases hother : other ∈ (calls.foldl tally rate).map Prod.fst
      · exact (hbound other hother).2
      · rw [counts_of_notMem hother]

end Coverage

section Runs

variable {s : Results} {calls : List Report}

/-- The first full window of the calls, with the call that fills it. -/
theorem exists_full_window (h : 500 ≤ calls.length) :
    ∃ before c rest, calls = (before ++ [c]) ++ rest ∧ before.length = 499 ∧ (before ++ [c]).length = 500 ∧
      calls.length = 500 + rest.length := by
  have hlen : (calls.take 500).length = 500 := List.length_take_of_le h
  obtain hnil | ⟨before, c, hwindow⟩ := List.eq_nil_or_concat' (calls.take 500)
  · rw [hnil] at hlen
    exact absurd hlen (by decide)
  · have hbefore := hwindow ▸ hlen
    rw [List.length_append, List.length_singleton] at hbefore
    refine ⟨before, c, calls.drop 500, ?_, by omega, hwindow ▸ hlen, ?_⟩
    · rw [← hwindow, List.take_append_drop]
    · rw [List.length_drop]
      omega

/-- The apps in `MISSING_RATE` after a window. -/
theorem mem_keys_window {before : List Report} {c : Report} {app : Int} (hs : s.count % 500 = 0)
    (hlen : before.length = 499) :
    app ∈ ((before ++ [c]).foldl writeToResults s).missingRate.map Prod.fst ↔
      app ∈ s.missingRate.map Prod.fst ∨ ∃ c' ∈ before ++ [c], c'.appid = app := by
  have hc : c ∈ before ++ [c] := List.mem_append_right _ (List.mem_singleton_self c)
  rw [(foldl_window hs hlen).2.2, mem_keys_reset (mem_keys_foldl_tally.mpr (.inr ⟨c, hc, rfl⟩)), mem_keys_foldl_tally]

theorem snapshotsCover_of_short (hs : s.count % 500 = 0) (h : calls.length < 500) : SnapshotsCover s calls := by
  intro n snapshot hget
  rw [snapshots_of_short hs h] at hget
  exact absurd hget nofun

/-- After a reset, all snapshots cover their windows exactly if only the app that has been reset calls before the
last window, and it calls in the last one. -/
theorem snapshotsCover_iff_of_reset {app : Int} (windows : Nat) (hs : s.count % 500 = 0) (h : Reset s.missingRate app)
    (hlen : calls.length / 500 = windows + 1) :
    SnapshotsCover s calls ↔ (∀ other ∈ s.missingRate.map Prod.fst, other = app) ∧
      (∀ c ∈ calls.take (500 * windows), c.appid = app) ∧ ∃ c ∈ window calls windows, c.appid = app := by
  induction windows generalizing s calls app with
  | zero =>
    obtain ⟨before, c, rest, rfl, hbefore, hfull, hrest⟩ := exists_full_window (show 500 ≤ calls.length by omega)
    obtain ⟨hcount, hqueue, -⟩ := foldl_window (c := c) hs hbefore
    rw [snapshotsCover_window hfull hqueue, and_iff_left (snapshotsCover_of_short hcount (by omega)), h.covers_iff,
      window_zero hfull, Nat.mul_zero, List.take_zero]
    exact and_congr_right fun _ => (and_iff_right fun c' hc' => absurd hc' List.not_mem_nil).symm
  | succ windows ih =>
    obtain ⟨before, c, rest, rfl, hbefore, hfull, hlength⟩ := exists_full_window (show 500 ≤ calls.length by omega)
    have hrest : rest.length / 500 = windows + 1 := by omega
    have hc : c ∈ before ++ [c] := List.mem_append_right _ (List.mem_singleton_self c)
    obtain ⟨hcount, hqueue, hrate⟩ := foldl_window (c := c) hs hbefore
    have hkeys (other : Int) : other ∈ ((before ++ [c]).foldl writeToResults s).missingRate.map Prod.fst ↔ _ :=
      mem_keys_window hs hbefore
    rw [snapshotsCover_window hfull hqueue, window_succ hfull, take_windows_succ hfull, h.covers_iff]
    -- once the first window is covered, the app of its last call has been reset
    have hreset : (∀ other ∈ s.missingRate.map Prod.fst, other = app) → (∃ c' ∈ before ++ [c], c'.appid = app) →
        Reset ((before ++ [c]).foldl writeToResults s).missingRate c.appid := fun honly hoccurs =>
      hrate ▸ reset_of_covers h.nodup hc (h.covers_iff.mpr ⟨honly, hoccurs⟩)
    constructor
    · rintro ⟨⟨honly, hoccurs⟩, hlater⟩
      obtain ⟨hsame, htail, hlast⟩ := (ih hcount (hreset honly hoccurs) hrest).mp hlater
      have happ : app = c.appid := hsame app ((hkeys app).mpr (.inl h.mem))
      refine ⟨honly, ?_, happ ▸ hlast⟩
      intro c' hc'
      rcases List.mem_append.mp hc' with hfirst | hsecond
      · exact (hsame c'.appid ((hkeys _).mpr (.inr ⟨c', hfirst, rfl⟩))).trans happ.symm
      · exact (htail c' hsecond).trans happ.symm
    · rintro ⟨honly, hall, hlast⟩
      have happ : c.appid = app := hall c (List.mem_append_left _ hc)
      refine ⟨⟨honly, c, hc, happ⟩, (ih hcount (hreset honly ⟨c, hc, happ⟩) hrest).mpr ⟨?_, ?_, happ ▸ hlast⟩⟩
      · intro other hother
        rcases (hkeys other).mp hother with hold | ⟨c', hc', rfl⟩
        · exact (honly other hold).trans happ.symm
        · exact (hall c' (List.mem_append_left _ hc')).trans happ.symm
      · exact fun c' hc' => (hall c' (List.mem_append_right _ hc')).trans happ.symm

/-- The first snapshot covers its window, and the app of its last call has been reset. -/
theorem snapshotsCover_iff_of_windows {windows : Nat} (hlen : calls.length / 500 = windows + 2) :
    SnapshotsCover {} calls ↔ ∃ app, (∀ c ∈ calls.take (500 * (windows + 1)), c.appid = app) ∧
      ∃ c ∈ window calls (windows + 1), c.appid = app := by
  obtain ⟨before, c, rest, rfl, hbefore, hfull, hlength⟩ := exists_full_window (show 500 ≤ calls.length by omega)
  have hrest : rest.length / 500 = windows + 1 := by omega
  have hc : c ∈ before ++ [c] := List.mem_append_right _ (List.mem_singleton_self c)
  obtain ⟨hcount, hqueue, hrate⟩ := foldl_window (s := {}) (c := c) rfl hbefore
  have hcovers := covers_tally_nil (before ++ [c])
  have hreset : Reset ((before ++ [c]).foldl writeToResults {}).missingRate c.appid :=
    hrate ▸ reset_of_covers nodup_keys_nil hc hcovers
  have hkeys : ∀ other, other ∈ ((before ++ [c]).foldl writeToResults {}).missingRate.map Prod.fst ↔
      ∃ c' ∈ before ++ [c], c'.appid = other := by
    intro other
    rw [mem_keys_window rfl hbefore]
    exact or_iff_right List.not_mem_nil
  rw [snapshotsCover_window hfull hqueue, and_iff_right hcovers,
      snapshotsCover_iff_of_reset windows hcount hreset hrest,
    window_succ hfull, take_windows_succ hfull]
  constructor
  · rintro ⟨hsame, htail, hlast⟩
    refine ⟨c.appid, fun c' hc' => ?_, hlast⟩
    rcases List.mem_append.mp hc' with hfirst | hsecond
    · exact hsame c'.appid ((hkeys _).mpr ⟨c', hfirst, rfl⟩)
    · exact htail c' hsecond
  · rintro ⟨app, hall, hlast⟩
    obtain rfl : c.appid = app := hall c (List.mem_append_left _ hc)
    refine ⟨fun other hother => ?_, fun c' hc' => hall c' (List.mem_append_right _ hc'), hlast⟩
    obtain ⟨c', hc', rfl⟩ := (hkeys other).mp hother
    exact hall c' (List.mem_append_left _ hc')

end Runs

/-- The snapshots of a run cover their windows exactly if there is at most one, or one app alone calls before the
last full window, and it calls in that one too. -/
theorem snapshotsCover_iff (calls : List Report) :
    SnapshotsCover {} calls ↔ calls.length / 500 ≤ 1 ∨
      ∃ app, (∀ c ∈ calls.take (500 * (calls.length / 500 - 1)), c.appid = app) ∧
        ∃ c ∈ window calls (calls.length / 500 - 1), c.appid = app := by
  rcases hlen : calls.length / 500 with _ | _ | windows
  · exact iff_of_true (snapshotsCover_of_short rfl (by omega)) (.inl (by decide))
  · refine iff_of_true ?_ (.inl (by decide))
    obtain ⟨before, c, rest, rfl, hbefore, hfull, hrest⟩ := exists_full_window (show 500 ≤ calls.length by omega)
    obtain ⟨hcount, hqueue, -⟩ := foldl_window (s := {}) (c := c) rfl hbefore
    exact (snapshotsCover_window hfull hqueue).mpr ⟨covers_tally_nil _, snapshotsCover_of_short hcount (by omega)⟩
  · rw [snapshotsCover_iff_of_windows hlen]
    exact (or_iff_right (by omega)).symm

/-- A job of the app that has ended in time. -/
def promptJob (app : Int) : Report := ⟨app, 10, 101 / 10, 102 / 10, 0, 1, 1⟩

/-- App 1 is silent in the second window, and the upload divides by its empty entry. -/
theorem not_snapshotsCover_silentApp : ¬∀ calls, SnapshotsCover {} calls := by
  intro h
  have hfull : (List.replicate 500 (promptJob 1)).length = 500 := List.length_replicate
  have hlen : (List.replicate 500 (promptJob 1) ++ List.replicate 500 (promptJob 2)).length / 500 = 0 + 2 := by
    rw [List.length_append, List.length_replicate, List.length_replicate]
  obtain ⟨app, hall, c, hc, happ⟩ := (snapshotsCover_iff_of_windows hlen).mp (h _)
  rw [window_succ hfull] at hc
  have hsecond : c = promptJob 2 := List.eq_of_mem_replicate (List.mem_of_mem_drop (List.mem_of_mem_take hc))
  have hfirst : (1 : Int) = app := by
    apply hall (promptJob 1)
    rw [take_windows_succ hfull]
    exact List.mem_append_left _ (List.mem_replicate.mpr ⟨by decide, rfl⟩)
  subst hsecond
  exact absurd (happ.trans hfirst.symm) (by decide)

end Soar.Scheduler
