import Liano.Efi
import Mathlib.Data.List.Perm.Basic
import Mathlib.Data.List.Pairwise
import Mathlib.Algebra.BigOperators.Group.List.Basic

/-! The timer database of the DXE core: the events with their times, the list of the queued ones and the
system time. `timerPeriod` is what `gTimer->GetTimerPeriod` returns. The locks and the dispatch of the
notifications are left out: a notification function runs between two calls of the functions here. -/
namespace Liano.Timer

open Function (update update_of_ne update_self)
open List

abbrev EventId := Nat

def timerCancel : UInt32 := 0
def timerPeriodic : UInt32 := 1
def timerRelative : UInt32 := 2

/-- IEVENT: whether it has `EVENT_SIGNATURE`, `EVT_TIMER` in its type, and a forward link in `Timer.Link`. -/
structure IEvent where
  signature : Bool
  timer : Bool
  linked : Bool
  triggerTime : UInt64
  period : UInt64

structure Timers where
  event : EventId → IEvent
  timerList : List EventId
  systemTime : UInt64
  /-- `mEfiCheckTimerEvent` has been signalled. -/
  checkTimerEvent : Bool

namespace Timers

section
variable (s : Timers) (e : EventId)

def setEvent (f : IEvent → IEvent) : Timers :=
  { s with event := update s.event e (f (s.event e)) }

/-- RemoveEntryList, and the forward link cleared. -/
def unlink : Timers :=
  { s.setEvent e (fun x => { x with linked := false }) with timerList := s.timerList.erase e }

def setTimes (triggerTime period : UInt64) : Timers :=
  s.setEvent e fun x => { x with triggerTime := triggerTime, period := period }

def triggerTime : UInt64 := (s.event e).triggerTime

def period : UInt64 := (s.event e).period

end

end Timers

open Timers

def insertTimer (triggerTime : EventId → UInt64) (e : EventId) : List EventId → List EventId
  | [] => [e]
  | e2 :: l => if triggerTime e2 > triggerTime e then e :: e2 :: l else e2 :: insertTimer triggerTime e l

def coreInsertEventTimer (s : Timers) (e : EventId) : Timers :=
  { s.setEvent e (fun x => { x with linked := true }) with
    timerList := insertTimer s.triggerTime e s.timerList }

def rearm (systemTime : UInt64) (s : Timers) (e : EventId) : Timers :=
  let next := s.triggerTime e + s.period e
  if next ≤ systemTime then
    coreInsertEventTimer { s.setTimes e systemTime (s.period e) with checkTimerEvent := true } e
  else coreInsertEventTimer (s.setTimes e next (s.period e)) e

def expire (systemTime : UInt64) (s : Timers) (e : EventId) : Timers := let s := s.unlink e
  if s.period e ≠ 0 then rearm systemTime s e else s

/-- The loop of CoreCheckTimers with the events that it signals. -/
def checkLoop (systemTime : UInt64) : Nat → Timers → Option (List EventId × Timers)
  | 0, _ => none
  | fuel+1, s =>
    match s.timerList with
    | [] => some ([], s)
    | e :: _ =>
      if s.triggerTime e > systemTime then some ([], s)
      else (checkLoop systemTime fuel (expire systemTime s e)).map fun r => (e :: r.1, r.2)

/-- A call of CoreCheckTimers that returns. -/
def CoreCheckTimers (s : Timers) (signaled : List EventId) (s' : Timers) : Prop :=
  ∃ fuel, checkLoop s.systemTime fuel s = some (signaled,s')

def coreTimerTick (s : Timers) (duration : UInt64) : Timers :=
  let s := { s with systemTime := s.systemTime + duration }
  match s.timerList with
  | [] => s
  | e :: _ => if s.triggerTime e ≤ s.systemTime then { s with checkTimerEvent := true } else s

def coreSetTimer (timerPeriod : UInt64) (s : Timers) (e : EventId) (type : UInt32)
    (triggerTime : UInt64) : EfiStatus × Timers :=
  if (s.event e).signature = false then (.invalidParameter, s)
  else if type > timerRelative ∨ (s.event e).timer = false then (.invalidParameter, s)
  else
    let s := if (s.event e).linked then s.unlink e else s
    let s := s.setTimes e 0 0
    if type = timerCancel then (.success, s)
    else
      let triggerTime := if type = timerPeriodic ∧ triggerTime = 0 then timerPeriod else triggerTime
      let period := if type = timerPeriodic then triggerTime else 0
      let s := coreInsertEventTimer (s.setTimes e (s.systemTime+triggerTime) period) e
      (.success, if triggerTime = 0 then { s with checkTimerEvent := true } else s)

def coreCloseEvent (timerPeriod : UInt64) (s : Timers) (e : EventId) : EfiStatus × Timers :=
  if (s.event e).signature = false then (.invalidParameter, s)
  else
    let s := if (s.event e).timer then (coreSetTimer timerPeriod s e timerCancel 0).2 else s
    (.success, s.setEvent e fun x => { x with signature := false })

structure Ok (s : Timers) : Prop where
  sorted : s.timerList.Pairwise fun a b => s.triggerTime a ≤ s.triggerTime b
  nodup : s.timerList.Nodup
  linked : ∀ e, (s.event e).linked = true ↔ e ∈ s.timerList

section
variable {s : Timers} {e a : EventId} {l : List EventId} {t p now : UInt64}

theorem insertTimer_perm (f : EventId → UInt64) (e : EventId) (l : List EventId) :
    (insertTimer f e l).Perm (e :: l) := by
  induction l with
  | nil => exact .refl _
  | cons b l ih =>
    rw [insertTimer]
    split
    · exact .refl _
    · exact (ih.cons b).trans (.swap e b l)

theorem insertTimer_sorted {f : EventId → UInt64} (h : l.Pairwise fun a b => f a ≤ f b) :
    (insertTimer f e l).Pairwise fun a b => f a ≤ f b := by
  induction l with
  | nil => exact pairwise_singleton _ _
  | cons b l ih =>
    obtain ⟨hb,hl⟩ := pairwise_cons.mp h
    rw [insertTimer]
    split
    · rename_i hlater
      have hle : f e ≤ f b := UInt64.le_of_lt hlater
      refine pairwise_cons.mpr ⟨fun c hc => ?_, h⟩
      rcases mem_cons.mp hc with rfl | hc
      · exact hle
      · exact UInt64.le_trans hle (hb c hc)
    rename_i hnot
    refine pairwise_cons.mpr ⟨fun c hc => ?_, ih hl⟩
    rcases mem_cons.mp ((insertTimer_perm f e l).mem_iff.mp hc) with rfl | hc
    · exact UInt64.not_lt.mp hnot
    · exact hb c hc

@[simp] theorem triggerTime_unlink : (s.unlink e).triggerTime = s.triggerTime := by
  funext a
  by_cases h : a = e <;> simp [triggerTime, unlink, setEvent, h]

@[simp] theorem period_unlink : (s.unlink e).period = s.period := by
  funext a
  by_cases h : a = e <;> simp [period, unlink, setEvent, h]

@[simp] theorem triggerTime_insert : (coreInsertEventTimer s e).triggerTime = s.triggerTime := by
  funext a
  by_cases h : a = e <;> simp [triggerTime, coreInsertEventTimer, setEvent, h]

@[simp] theorem period_insert : (coreInsertEventTimer s e).period = s.period := by
  funext a
  by_cases h : a = e <;> simp [period, coreInsertEventTimer, setEvent, h]

@[simp] theorem triggerTime_setTimes : (s.setTimes e t p).triggerTime = update s.triggerTime e t := by
  funext a
  by_cases h : a = e <;> simp [triggerTime, setTimes, setEvent, h]

@[simp] theorem period_setTimes : (s.setTimes e t p).period = update s.period e p := by
  funext a
  by_cases h : a = e <;> simp [period, setTimes, setEvent, h]

theorem mem_insert : a ∈ (coreInsertEventTimer s e).timerList ↔ a = e ∨ a ∈ s.timerList :=
  (insertTimer_perm s.triggerTime e s.timerList).mem_iff.trans mem_cons

theorem Ok.mem_unlink (h : Ok s) : a ∈ (s.unlink e).timerList ↔ a ≠ e ∧ a ∈ s.timerList :=
  h.nodup.mem_erase_iff

theorem Ok.unlink (h : Ok s) (e : EventId) : Ok (s.unlink e) where
  sorted := by
    rw [triggerTime_unlink]
    exact h.sorted.sublist erase_sublist
  nodup := h.nodup.erase e
  linked := by
    intro a
    rw [h.mem_unlink, ← h.linked]
    by_cases ha : a = e <;> simp [Timers.unlink, setEvent, ha]

theorem Ok.setTimes (h : Ok s) (he : e ∉ s.timerList) (t p : UInt64) : Ok (s.setTimes e t p) where
  sorted := by
    have hne : ∀ a ∈ s.timerList, a ≠ e := fun a ha hae => he (hae ▸ ha)
    rw [triggerTime_setTimes]
    refine h.sorted.imp_of_mem fun {a b} ha hb hab => ?_
    rwa [update_of_ne (hne a ha), update_of_ne (hne b hb)]
  nodup := h.nodup
  linked := by
    intro a
    rw [show (s.setTimes e t p).timerList = s.timerList from rfl, ← h.linked]
    by_cases ha : a = e <;> simp [Timers.setTimes, setEvent, ha]

theorem Ok.insert (h : Ok s) (he : e ∉ s.timerList) : Ok (coreInsertEventTimer s e) where
  sorted := by
    rw [triggerTime_insert]
    exact insertTimer_sorted h.sorted
  nodup := (insertTimer_perm _ _ _).nodup_iff.mpr (nodup_cons.mpr ⟨he, h.nodup⟩)
  linked := by
    intro a
    rw [mem_insert, ← h.linked]
    by_cases ha : a = e <;> simp [coreInsertEventTimer, setEvent, ha]

theorem Ok.signalCheck (h : Ok s) : Ok { s with checkTimerEvent := true } := ⟨h.sorted, h.nodup, h.linked⟩

def nextTrigger (now : UInt64) (s : Timers) (e : EventId) : UInt64 :=
  if s.triggerTime e + s.period e ≤ now then now else s.triggerTime e + s.period e

/-- What the removal of the expired event `e` leaves. -/
structure Expired (now : UInt64) (s : Timers) (e : EventId) (s' : Timers) : Prop where
  ok : Ok s'
  time : s'.systemTime = s.systemTime
  period : s'.period = s.period
  list : s'.timerList.Perm (if s.period e ≠ 0 then e :: s.timerList.erase e else s.timerList.erase e)
  triggerTime : s'.triggerTime =
    if s.period e ≠ 0 then update s.triggerTime e (nextTrigger now s e) else s.triggerTime

theorem rearm_eq (now : UInt64) (s : Timers) (e : EventId) : ∃ b, rearm now s e =
      { coreInsertEventTimer (s.setTimes e (nextTrigger now s e) (s.period e)) e with
        checkTimerEvent := b } := by
  unfold rearm nextTrigger
  dsimp only
  split
  · exact ⟨true, rfl⟩
  · exact ⟨s.checkTimerEvent, rfl⟩

theorem Ok.expired (h : Ok s) (now : UInt64) (e : EventId) : Expired now s e (expire now s e) := by
  have hunlink := h.unlink e
  have hout : e ∉ (s.unlink e).timerList := fun he => (h.mem_unlink.mp he).1 rfl
  unfold expire
  dsimp only
  rw [period_unlink]
  by_cases hp : s.period e ≠ 0
  · obtain ⟨b,hb⟩ := rearm_eq now (s.unlink e) e
    have hnext : nextTrigger now (s.unlink e) e = nextTrigger now s e := by
      simp only [nextTrigger, triggerTime_unlink, period_unlink]
    rw [if_pos hp, hb, hnext, period_unlink]
    have hok := (hunlink.setTimes hout (nextTrigger now s e) (s.period e)).insert hout
    refine ⟨⟨hok.sorted, hok.nodup, hok.linked⟩, rfl, ?_, ?_, ?_⟩
    · change (coreInsertEventTimer _ e).period = _
      rw [period_insert, period_setTimes, period_unlink, Function.update_eq_self]
    · rw [if_pos hp]
      exact insertTimer_perm _ _ _
    · change (coreInsertEventTimer _ e).triggerTime = _
      rw [triggerTime_insert, triggerTime_setTimes, triggerTime_unlink, if_pos hp]
  · rw [if_neg hp]
    refine ⟨hunlink, rfl, period_unlink, ?_, ?_⟩
    · rw [if_neg hp]
      exact .refl _
    · rw [if_neg hp, triggerTime_unlink]

/-- What a check at the time `now` leaves. -/
structure Checked (now : UInt64) (s : Timers) (signaled : List EventId) (s' : Timers) : Prop where
  ok : Ok s'
  time : s'.systemTime = s.systemTime
  period : s'.period = s.period
  later : ∀ a ∈ s'.timerList, now < s'.triggerTime a
  periodic : ∀ a, s.period a ≠ 0 → (a ∈ s'.timerList ↔ a ∈ s.timerList)
  trigger : ∀ a, s.period a = 0 → s'.triggerTime a = s.triggerTime a
  signaled : ∀ a, s.period a = 0 → (a ∈ signaled ↔ a ∈ s.timerList ∧ s.triggerTime a ≤ now)
  left : ∀ a, s.period a = 0 → (a ∈ s'.timerList ↔ a ∈ s.timerList ∧ now < s.triggerTime a)

theorem Ok.checked_of_later (h : Ok s) (hlater : ∀ a ∈ s.timerList, now < s.triggerTime a) :
    Checked now s [] s where
  ok := h
  time := rfl
  period := rfl
  later := hlater
  periodic := fun _ _ => Iff.rfl
  trigger := fun _ _ => rfl
  signaled := fun a _ => ⟨nofun, fun ⟨ha, hle⟩ => absurd (hlater a ha) (UInt64.not_lt.mpr hle)⟩
  left := fun a _ => ⟨fun ha => ⟨ha, hlater a ha⟩, And.left⟩

variable {s₁ : Timers} {signaled : List EventId}

theorem Checked.cons {s' : Timers} (h : Ok s) (hmem : e ∈ s.timerList)
    (hle : s.triggerTime e ≤ now) (h1 : Expired now s e s₁) (hrest : Checked now s₁ signaled s') :
    Checked now s (e :: signaled) s' := by
  have hin : ∀ a, a ∈ s₁.timerList ↔ (s.period e ≠ 0 ∧ a = e) ∨ (a ≠ e ∧ a ∈ s.timerList) := by
    intro a
    rw [h1.list.mem_iff]
    by_cases hp : s.period e ≠ 0 <;> simp [hp, h.nodup.mem_erase_iff]
  have htrigger : ∀ a, s.period a = 0 → s₁.triggerTime a = s.triggerTime a := by
    intro a ha
    rw [h1.triggerTime]
    split
    · rename_i hp
      exact update_of_ne (fun hae : a = e => hp (hae ▸ ha)) _ _
    · rfl
  refine ⟨hrest.ok, hrest.time.trans h1.time, hrest.period.trans h1.period, hrest.later, ?_, ?_, ?_, ?_⟩
  · intro a ha
    rw [hrest.periodic a (h1.period ▸ ha), hin]
    by_cases hae : a = e
    · subst hae
      simp [ha, hmem]
    · simp [hae]
  · intro a ha
    rw [hrest.trigger a (h1.period ▸ ha), htrigger a ha]
  · intro a ha
    rw [mem_cons, hrest.signaled a (h1.period ▸ ha), hin, htrigger a ha]
    by_cases hae : a = e
    · subst hae
      simp [hmem, hle]
    · simp [hae]
  · intro a ha
    rw [hrest.left a (h1.period ▸ ha), hin, htrigger a ha]
    by_cases hae : a = e
    · subst hae
      simp [ha, UInt64.not_lt.mpr hle]
    · simp [hae]

theorem checkLoop_checked {fuel : Nat} {s' : Timers} (h : Ok s)
    (hloop : checkLoop now fuel s = some (signaled,s')) : Checked now s signaled s' := by
  induction fuel generalizing s signaled s' with
  | zero => cases hloop
  | succ fuel ih =>
    rw [checkLoop] at hloop
    split at hloop
    · rename_i hlist
      cases hloop
      exact h.checked_of_later (by rw [hlist]; nofun)
    rename_i e rest hlist
    split at hloop
    · rename_i hlater
      cases hloop
      refine h.checked_of_later fun a ha => ?_
      have hsorted := h.sorted
      rw [hlist] at ha hsorted
      rcases mem_cons.mp ha with rfl | ha
      · exact hlater
      · exact UInt64.lt_of_lt_of_le hlater ((pairwise_cons.mp hsorted).1 a ha)
    · rename_i hle
      obtain ⟨⟨signaled',t⟩,hrest,heq⟩ := Option.map_eq_some_iff.mp hloop
      cases heq
      have hexpired := h.expired now e
      exact Checked.cons h (by rw [hlist]; exact mem_cons_self) (UInt64.not_lt.mp hle) hexpired
        (ih hexpired.ok hrest)

def CatchesUp (now : UInt64) (s : Timers) : Prop :=
  ∀ e ∈ s.timerList, s.period e ≠ 0 → s.triggerTime e ≤ now →
    now < s.triggerTime e + s.period e ∨ now.toNat + (s.period e).toNat < 2^64

def rounds (now : UInt64) (s : Timers) (e : EventId) : Nat :=
  if s.triggerTime e ≤ now then if now < s.triggerTime e + s.period e then 1 else 2 else 0

theorem lt_add_of_noWrap (hp : p ≠ 0) (h : now.toNat+p.toNat < 2^64) : now < now+p := by
  have hpos : p.toNat ≠ 0 := fun h0 => hp (UInt64.toNat_inj.mp h0)
  rw [UInt64.lt_iff_toNat_lt, UInt64.toNat_add]
  omega

theorem Expired.catchesUp (hcatch : CatchesUp now s) (hmem : e ∈ s.timerList)
    (hle : s.triggerTime e ≤ now) (h1 : Expired now s e s₁) : CatchesUp now s₁ := by
  intro a ha hpa
  rw [h1.period] at hpa ⊢
  rw [h1.list.mem_iff] at ha
  rw [h1.triggerTime]
  by_cases hae : a = e
  · subst hae
    rw [if_pos hpa, update_self]
    rcases hcatch a hmem hpa hle with hnext | hfits
    · intro hnow
      rw [nextTrigger, if_neg (UInt64.not_le.mpr hnext)] at hnow
      exact absurd hnext (UInt64.not_lt.mpr hnow)
    · exact fun _ => .inr hfits
  · have htrigger : (if s.period e ≠ 0 then update s.triggerTime e (nextTrigger now s e)
        else s.triggerTime) a = s.triggerTime a := by
      split
      · exact update_of_ne hae _ _
      · rfl
    rw [htrigger]
    refine hcatch a ?_ hpa
    split at ha
    · exact mem_of_mem_erase ((mem_cons.mp ha).resolve_left hae)
    · exact mem_of_mem_erase ha

theorem Expired.rounds_lt (h : Ok s) (hcatch : CatchesUp now s) (hmem : e ∈ s.timerList)
    (hle : s.triggerTime e ≤ now) (h1 : Expired now s e s₁) :
    (s₁.timerList.map (rounds now s₁)).sum < (s.timerList.map (rounds now s)).sum := by
  have hothers : (s.timerList.erase e).map (rounds now s₁) = (s.timerList.erase e).map (rounds now s) := by
    refine map_congr_left fun a ha => ?_
    have hae : a ≠ e := (h.nodup.mem_erase_iff.mp ha).1
    rw [rounds, rounds, h1.period, h1.triggerTime]
    split <;> simp only [update_of_ne hae]
  rw [((perm_cons_erase hmem).map _).sum_eq, map_cons, sum_cons, (h1.list.map _).sum_eq]
  by_cases hp : s.period e ≠ 0
  · rw [if_pos hp, map_cons, sum_cons, hothers]
    refine Nat.add_lt_add_right ?_ _
    have htrigger : s₁.triggerTime e = nextTrigger now s e := by
      rw [h1.triggerTime, if_pos hp, update_self]
    rw [rounds, rounds, if_pos hle, htrigger, h1.period, nextTrigger]
    by_cases hnext : now < s.triggerTime e + s.period e
    · rw [if_neg (UInt64.not_le.mpr hnext), if_neg (UInt64.not_le.mpr hnext), if_pos hnext]
      decide
    · have hfits := lt_add_of_noWrap hp ((hcatch e hmem hp hle).resolve_left hnext)
      rw [if_pos (UInt64.not_lt.mp hnext), if_pos (UInt64.le_refl now), if_pos hfits, if_neg hnext]
      decide
  · rw [if_neg hp, hothers, rounds, if_pos hle]
    split <;> omega

theorem coreCheckTimers_returns (h : Ok s) (hcatch : CatchesUp now s) :
    ∃ fuel r, checkLoop now fuel s = some r := by
  obtain ⟨n,hn⟩ : ∃ n, (s.timerList.map (rounds now s)).sum < n := ⟨_, Nat.lt_succ_self _⟩
  induction n generalizing s with
  | zero => exact absurd hn (Nat.not_lt_zero _)
  | succ n ih =>
    cases hlist : s.timerList with
    | nil => exact ⟨1, _, by rw [checkLoop, hlist]⟩
    | cons e rest =>
      by_cases hlater : s.triggerTime e > now
      · refine ⟨1, ([], s), ?_⟩
        rw [checkLoop, hlist]
        exact if_pos hlater
      have hmem : e ∈ s.timerList := by rw [hlist]; exact mem_cons_self
      have hle := UInt64.not_lt.mp hlater
      have h1 := h.expired now e
      have hlt := h1.rounds_lt h hcatch hmem hle
      obtain ⟨fuel,r,hr⟩ := ih h1.ok (h1.catchesUp hcatch hmem hle) (by omega)
      refine ⟨fuel+1, (e :: r.1, r.2), ?_⟩
      rw [checkLoop, hlist]
      dsimp only
      rw [if_neg hlater, hr]
      rfl

end
end Liano.Timer
