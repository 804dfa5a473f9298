import Liano.Timer.Database

/-! The timer database over runs of the calls that change it. -/
namespace Liano.Timer

open Function (update_of_ne update_self)
open List hiding after set

open Timers

inductive Action
  | setTimer (timerPeriod : UInt64) (e : EventId) (type : UInt32) (triggerTime : UInt64)
  | timerTick (duration : UInt64)
  | checkTimers
  | closeEvent (timerPeriod : UInt64) (e : EventId)

/-- The action sets, cancels or closes the timer `e`. -/
def Action.Sets (e : EventId) : Action → Prop
  | .setTimer _ a _ _ => a = e
  | .closeEvent _ a => a = e
  | _ => False

/-- A call of CoreCheckTimers: the system time it read and the timers it signalled. -/
structure Check where
  time : UInt64
  signaled : List EventId

/-- CoreDispatchEventNotifies has cleared `mEfiCheckTimerEvent` when it calls CoreCheckTimers. -/
def dispatched (s : Timers) : Timers := { s with checkTimerEvent := false }

inductive Step (s : Timers) : Action → List Check → Timers → Prop
  | setTimer (timerPeriod : UInt64) (e : EventId) (type : UInt32) (t : UInt64) :
      Step s (.setTimer timerPeriod e type t) [] (coreSetTimer timerPeriod s e type t).2
  | timerTick (duration : UInt64) : Step s (.timerTick duration) [] (coreTimerTick s duration)
  | checkTimers {signaled : List EventId} {s' : Timers} (h : CoreCheckTimers (dispatched s) signaled s') :
      Step s .checkTimers [⟨s.systemTime, signaled⟩] s'
  | closeEvent (timerPeriod : UInt64) (e : EventId) :
      Step s (.closeEvent timerPeriod e) [] (coreCloseEvent timerPeriod s e).2

/-- A run of calls that meet `P`, with its checks in their order. -/
inductive Run (P : Timers → Action → Prop) (s₀ : Timers) : List Check → Timers → Prop
  | start : Run P s₀ [] s₀
  | next {checks new : List Check} {s s' : Timers} {a : Action} :
      Run P s₀ checks s → P s a → Step s a new s' → Run P s₀ (checks ++ new) s'

/-- No sum of times wraps where the wrapped one would be taken for an earlier time, and a timer that is set
without a period gets one. -/
def Meets (s : Timers) : Action → Prop
  | .setTimer timerPeriod _ type t =>
    (type = timerRelative → s.systemTime.toNat+t.toNat < 2^64) ∧
      (type = timerPeriodic → t = 0 → timerPeriod ≠ 0)
  | .checkTimers => CatchesUp s.systemTime s
  | _ => True

section
variable {timerPeriod t : UInt64} {s s' : Timers} {e a : EventId} {type : UInt32}
  {P : Timers → Action → Prop} {checks new : List Check} {act : Action}

/-- The times of `a` and its place in or out of the list are kept. -/
def Keeps (a : EventId) (s s' : Timers) : Prop :=
  s'.triggerTime a = s.triggerTime a ∧ s'.period a = s.period a ∧ (a ∈ s'.timerList ↔ a ∈ s.timerList)

theorem unlinkIfLinked (h : Ok s) (e : EventId) : Ok (if (s.event e).linked then s.unlink e else s) ∧
      e ∉ (if (s.event e).linked then s.unlink e else s).timerList ∧
      (if (s.event e).linked then s.unlink e else s).systemTime = s.systemTime ∧
      ∀ a ≠ e, Keeps a s (if (s.event e).linked then s.unlink e else s) := by
  by_cases hl : (s.event e).linked = true
  · rw [if_pos hl]
    refine ⟨h.unlink e, fun he => (h.mem_unlink.mp he).1 rfl, rfl, fun a ha => ⟨?_, ?_, ?_⟩⟩
    · rw [triggerTime_unlink]
    · rw [period_unlink]
    · rw [h.mem_unlink]
      simp [ha]
  · rw [if_neg hl]
    exact ⟨h, mt (h.linked e).mpr hl, rfl, fun a _ => ⟨rfl, rfl, Iff.rfl⟩⟩

theorem keeps_setTimes (ha : a ≠ e) (t p : UInt64) : Keeps a s (s.setTimes e t p) := by
  refine ⟨?_, ?_, Iff.rfl⟩
  · rw [triggerTime_setTimes, update_of_ne ha]
  · rw [period_setTimes, update_of_ne ha]

theorem keeps_insert (ha : a ≠ e) : Keeps a s (coreInsertEventTimer s e) := by
  refine ⟨?_, ?_, ?_⟩
  · rw [triggerTime_insert]
  · rw [period_insert]
  · rw [mem_insert]
    simp [ha]

theorem Keeps.trans {s₁ s₂ : Timers} (h : Keeps a s s₁) (h' : Keeps a s₁ s₂) : Keeps a s s₂ :=
  ⟨h'.1.trans h.1, h'.2.1.trans h.2.1, h'.2.2.trans h.2.2⟩

def periodOf (timerPeriod : UInt64) (type : UInt32) (t : UInt64) : UInt64 :=
  if type = timerPeriodic then if t = 0 then timerPeriod else t else 0

/-- A call of CoreSetTimer: the list stays as it should be, the other timers are kept, and a timer that is
set is queued with its time. -/
structure SetTo (timerPeriod : UInt64) (s : Timers) (e : EventId) (type : UInt32) (t : UInt64)
    (r : EfiStatus × Timers) : Prop where
  ok : Ok r.2
  others : ∀ a ≠ e, Keeps a s r.2
  queued : r.1 = .success → type ≠ timerCancel →
    e ∈ r.2.timerList ∧ r.2.period e = periodOf timerPeriod type t
  trigger : r.1 = .success → type = timerRelative → r.2.triggerTime e = s.systemTime+t

theorem SetTo.refused (h : Ok s) : SetTo timerPeriod s e type t (.invalidParameter, s) where
  ok := h
  others := fun _ _ => ⟨rfl, rfl, Iff.rfl⟩
  queued := nofun
  trigger := nofun

theorem Ok.setTimer (h : Ok s) (timerPeriod : UInt64) (e : EventId) (type : UInt32) (t : UInt64) :
    SetTo timerPeriod s e type t (coreSetTimer timerPeriod s e type t) := by
  obtain ⟨hok,hout,htime,hkeep⟩ := unlinkIfLinked h e
  unfold coreSetTimer
  generalize (if (s.event e).linked then s.unlink e else s) = s₁ at hok hout htime hkeep ⊢
  have hok := hok.setTimes hout 0 0
  have hkeep := fun a ha => (hkeep a ha).trans (keeps_setTimes ha 0 0)
  split
  · exact .refused h
  split
  · exact .refused h
  dsimp only
  split
  · rename_i hcancel
    exact ⟨hok, hkeep, fun _ hne => absurd hcancel hne, fun _ hrel => by rw [hcancel] at hrel; cases hrel⟩
  generalize htt : (if type = timerPeriodic ∧ t = 0 then timerPeriod else t) = tt
  have hperiod : (if type = timerPeriodic then tt else 0) = periodOf timerPeriod type t := by
    rw [← htt, periodOf]
    split <;> simp_all
  have hset : SetTo timerPeriod s e type t (.success, coreInsertEventTimer
      ((s₁.setTimes e 0 0).setTimes e (s₁.systemTime+tt) (periodOf timerPeriod type t)) e) := by
    refine ⟨(hok.setTimes hout _ _).insert hout,
      fun a ha => ((hkeep a ha).trans (keeps_setTimes ha _ _)).trans (keeps_insert ha),
      fun _ _ => ⟨mem_insert.mpr (.inl rfl), ?_⟩, fun _ hrel => ?_⟩
    · rw [period_insert, period_setTimes, update_self]
    · rw [triggerTime_insert, triggerTime_setTimes, update_self, htime, ← htt, hrel]
      rfl
  rw [hperiod]
  split
  · exact ⟨hset.ok.signalCheck, hset.others, hset.queued, hset.trigger⟩
  · exact hset

theorem coreTimerTick_keeps (s : Timers) (duration : UInt64) :
    (Ok s → Ok (coreTimerTick s duration)) ∧ ∀ a, Keeps a s (coreTimerTick s duration) := by
  unfold coreTimerTick
  dsimp only
  split
  · exact ⟨fun h => ⟨h.sorted, h.nodup, h.linked⟩, fun _ => ⟨rfl, rfl, Iff.rfl⟩⟩
  · split <;> exact ⟨fun h => ⟨h.sorted, h.nodup, h.linked⟩, fun _ => ⟨rfl, rfl, Iff.rfl⟩⟩

theorem clearSignature_keeps (s : Timers) (e : EventId) :
    (Ok s → Ok (s.setEvent e fun x => { x with signature := false })) ∧
      ∀ a, Keeps a s (s.setEvent e fun x => { x with signature := false }) := by
  have hfld : ∀ {β : Type} (field : IEvent → β),
      (∀ x : IEvent, field { x with signature := false } = field x) → ∀ a,
        field ((s.setEvent e fun x => { x with signature := false }).event a) = field (s.event a) := by
    intro β field hfld a
    by_cases ha : a = e
    · subst ha
      exact (congrArg field (update_self ..)).trans (hfld _)
    · exact congrArg field (update_of_ne ha ..)
  have htrigger : (s.setEvent e fun x => { x with signature := false }).triggerTime = s.triggerTime :=
    funext (hfld IEvent.triggerTime fun _ => rfl)
  refine ⟨fun h => ⟨?_, h.nodup, fun a => ?_⟩, fun a => ⟨congrFun htrigger a, ?_, Iff.rfl⟩⟩
  · rw [htrigger]
    exact h.sorted
  · rw [hfld IEvent.linked fun _ => rfl]
    exact h.linked a
  · exact hfld IEvent.period (fun _ => rfl) a

theorem coreCloseEvent_keeps (timerPeriod : UInt64) (h : Ok s) (e : EventId) :
    Ok (coreCloseEvent timerPeriod s e).2 ∧ ∀ a ≠ e, Keeps a s (coreCloseEvent timerPeriod s e).2 := by
  unfold coreCloseEvent
  split
  · exact ⟨h, fun _ _ => ⟨rfl, rfl, Iff.rfl⟩⟩
  dsimp only
  split
  · have hset := h.setTimer timerPeriod e timerCancel 0
    have hclear := clearSignature_keeps (coreSetTimer timerPeriod s e timerCancel 0).2 e
    exact ⟨hclear.1 hset.ok, fun a ha => (hset.others a ha).trans (hclear.2 a)⟩
  · exact ⟨(clearSignature_keeps s e).1 h, fun a _ => (clearSignature_keeps s e).2 a⟩

theorem Ok.dispatched (h : Ok s) : Ok (dispatched s) := ⟨h.sorted, h.nodup, h.linked⟩

theorem Ok.checked (h : Ok s) {signaled : List EventId} (hchk : CoreCheckTimers (Timer.dispatched s) signaled s') :
    Checked s.systemTime s signaled s' := by
  obtain ⟨fuel,hloop⟩ := hchk
  exact { checkLoop_checked h.dispatched hloop with }

theorem Step.ok (h : Ok s) (hs : Step s act new s') : Ok s' := by
  cases hs with
  | setTimer timerPeriod e type t => exact (h.setTimer timerPeriod e type t).ok
  | timerTick duration => exact (coreTimerTick_keeps s duration).1 h
  | checkTimers hcheck => exact (h.checked hcheck).ok
  | closeEvent timerPeriod e => exact (coreCloseEvent_keeps timerPeriod h e).1

theorem Step.keeps (h : Ok s) (hs : Step s act new s') (hset : ¬ act.Sets e) :
    (∃ signaled, new = [⟨s.systemTime, signaled⟩] ∧ Checked s.systemTime s signaled s') ∨
      new = [] ∧ Keeps e s s' := by
  cases hs with
  | setTimer timerPeriod a type t => exact .inr ⟨rfl, (h.setTimer timerPeriod a type t).others e (Ne.symm hset)⟩
  | timerTick duration => exact .inr ⟨rfl, (coreTimerTick_keeps s duration).2 e⟩
  | checkTimers hcheck => exact .inl ⟨_, rfl, h.checked hcheck⟩
  | closeEvent timerPeriod a => exact .inr ⟨rfl, (coreCloseEvent_keeps timerPeriod h a).2 e (Ne.symm hset)⟩

theorem Run.ok {s₀ : Timers} (h : Ok s₀) (hr : Run P s₀ checks s) : Ok s := by
  induction hr with
  | start => exact h
  | next _ _ hs ih => exact hs.ok ih

theorem Run.periodic {s₀ : Timers} (h : Ok s₀) (hmem : e ∈ s₀.timerList) (hp : s₀.period e ≠ 0)
    (hr : Run P s₀ checks s) (hP : ∀ s a, P s a → ¬ a.Sets e) :
    e ∈ s.timerList ∧ s.period e ≠ 0 := by
  induction hr with
  | start => exact ⟨hmem, hp⟩
  | next hr hmeets hs ih =>
    obtain ⟨hin,hperiod⟩ := ih
    rcases hs.keeps (hr.ok h) (hP _ _ hmeets) with ⟨signaled,-,hchk⟩ | ⟨-,-,hkeep,hlist⟩
    · exact ⟨(hchk.periodic e hperiod).mpr hin, by rwa [hchk.period]⟩
    · exact ⟨hlist.mpr hin, by rwa [hkeep]⟩

/-- No check has come to the time `t`, and none has signalled `e`. -/
def Waiting (e : EventId) (t : Nat) (checks : List Check) : Prop :=
  ∀ c ∈ checks, c.time.toNat < t ∧ e ∉ c.signaled

/-- Of the checks, the first at or behind the time `t` signals `e`, and no other. -/
def SignaledFirst (e : EventId) (t : Nat) (checks : List Check) : Prop :=
  Waiting e t checks ∨ ∃ before c after, checks = before ++ c :: after ∧ Waiting e t before ∧
    t ≤ c.time.toNat ∧ e ∈ c.signaled ∧ ∀ c ∈ after, e ∉ c.signaled

theorem waiting_concat {t : Nat} {c : Check} :
    Waiting e t (checks ++ [c]) ↔ Waiting e t checks ∧ c.time.toNat < t ∧ e ∉ c.signaled := by
  rw [Waiting, forall_mem_append, forall_mem_singleton]
  rfl

theorem SignaledFirst.concat {t : Nat} {c : Check} (h : SignaledFirst e t checks)
    (hc : e ∈ c.signaled ↔ Waiting e t checks ∧ t ≤ c.time.toNat) : SignaledFirst e t (checks ++ [c]) := by
  rcases h with hwait | ⟨before,first,after,rfl,hbef,hle,hsig,hafter⟩
  · by_cases hle : t ≤ c.time.toNat
    · exact .inr ⟨checks, c, [], rfl, hwait, hle, hc.mpr ⟨hwait, hle⟩, nofun⟩
    · exact .inl (waiting_concat.mpr ⟨hwait, not_le.mp hle, fun he => hle (hc.mp he).2⟩)
  have hnot : e ∉ c.signaled := fun he =>
    absurd ((hc.mp he).1 first (mem_append_right _ mem_cons_self)).1 (not_lt.mpr hle)
  refine .inr ⟨before, first, after ++ [c], by simp, hbef, hle, hsig, ?_⟩
  rw [forall_mem_append, forall_mem_singleton]
  exact ⟨hafter, hnot⟩

/-- A one-shot timer is queued as long as no check has come to its time, and no more afterwards. -/
theorem Run.oneShot {s₀ : Timers} (h : Ok s₀) (hmem : e ∈ s₀.timerList) (hp : s₀.period e = 0)
    (ht : s₀.triggerTime e = t) (hr : Run P s₀ checks s) (hP : ∀ s a, P s a → ¬ a.Sets e) :
    s.period e = 0 ∧ s.triggerTime e = t ∧ SignaledFirst e t.toNat checks ∧
      (e ∈ s.timerList ↔ Waiting e t.toNat checks) := by
  induction hr with
  | start => exact ⟨hp, ht, .inl nofun, fun _ => nofun, fun _ => hmem⟩
  | @next checks new s s' a hr hmeets hs ih =>
    obtain ⟨hperiod,htrigger,hfst,hlist⟩ := ih
    rcases hs.keeps (hr.ok h) (hP _ _ hmeets) with ⟨signaled,rfl,hchk⟩ | ⟨rfl,hkt,hkp,hkl⟩
    · have hsig := hchk.signaled e hperiod
      have hleft := hchk.left e hperiod
      rw [hlist, htrigger, UInt64.le_iff_toNat_le] at hsig
      rw [hlist, htrigger, UInt64.lt_iff_toNat_lt] at hleft
      refine ⟨by rw [hchk.period, hperiod], (hchk.trigger e hperiod).trans htrigger, hfst.concat hsig, ?_⟩
      rw [hleft, waiting_concat]
      exact and_congr_right fun _ =>
        ⟨fun hlt => ⟨hlt, fun he => not_le.mpr hlt (hsig.mp he).2⟩, And.left⟩
    · rw [append_nil]
      exact ⟨hkp.trans hperiod, hkt.trans htrigger, hfst, hkl.trans hlist⟩

end

/-- What the timer database is for. The list is sorted and holds each event once. A tick asks for a check as soon
as a timer has expired. A check returns, and leaves only timers whose time is to come. A periodic timer stays in
the list, and a one-shot timer is signalled by the first check at or behind its exact time, until the timer is set
again. -/
structure Promise (s : Timers) : Prop where
  sorted : s.timerList.Pairwise fun a b => s.triggerTime a ≤ s.triggerTime b
  nodup : s.timerList.Nodup
  due : ∀ duration, ∀ a ∈ s.timerList, s.triggerTime a ≤ s.systemTime+duration →
    (coreTimerTick s duration).checkTimerEvent = true
  returns : Meets s .checkTimers → ∃ signaled s', CoreCheckTimers (dispatched s) signaled s'
  later : ∀ {signaled s'}, CoreCheckTimers (dispatched s) signaled s' →
    ∀ a ∈ s'.timerList, s'.systemTime < s'.triggerTime a
  set : ∀ {timerPeriod e type t checks s'}, Meets s (.setTimer timerPeriod e type t) →
    (coreSetTimer timerPeriod s e type t).1 = .success →
    Run (fun s a => Meets s a ∧ ¬ a.Sets e) (coreSetTimer timerPeriod s e type t).2 checks s' →
      (type = timerPeriodic → e ∈ s'.timerList) ∧
      (type = timerRelative → SignaledFirst e (s.systemTime.toNat+t.toNat) checks)

theorem Ok.due {s : Timers} (h : Ok s) (duration : UInt64) {a : EventId} (ha : a ∈ s.timerList)
    (hle : s.triggerTime a ≤ s.systemTime+duration) : (coreTimerTick s duration).checkTimerEvent = true := by
  have hsort := h.sorted
  unfold coreTimerTick
  cases hlist : s.timerList with
  | nil =>
    rw [hlist] at ha
    exact absurd ha not_mem_nil
  | cons e l =>
    rw [hlist] at ha hsort
    have hfirst : s.triggerTime e ≤ s.triggerTime a := by
      rcases mem_cons.mp ha with rfl | ha
      · exact UInt64.le_refl _
      · exact (pairwise_cons.mp hsort).1 a ha
    exact congrArg checkTimerEvent (if_pos (UInt64.le_trans hfirst hle))

/-- In a run from an empty list, whose calls meet the condition, every state keeps the promise. -/
theorem timers_keep {s₀ s : Timers} {checks : List Check}
    (hlist : s₀.timerList = []) (hlinked : ∀ e, (s₀.event e).linked = false)
    (hrun : Run Meets s₀ checks s) : Promise s := by
  have h₀ : Ok s₀ := by
    refine ⟨?_, ?_, fun e => ?_⟩
    · rw [hlist]
      exact .nil
    · rw [hlist]
      exact .nil
    · rw [hlist, hlinked]
      exact ⟨nofun, nofun⟩
  have h := hrun.ok h₀
  refine ⟨h.sorted, h.nodup, fun duration _ => h.due duration, fun hmeets => ?_, fun hcheck a ha => ?_, ?_⟩
  · obtain ⟨fuel,⟨signaled,s'⟩,hr⟩ := coreCheckTimers_returns h.dispatched hmeets
    exact ⟨signaled, s', fuel, hr⟩
  · have hchk := h.checked hcheck
    rw [hchk.time]
    exact hchk.later a ha
  · intro timerPeriod e type t checks s' hmeets hsuccess hrun'
    have hset := h.setTimer timerPeriod e type t
    refine ⟨fun htype => ?_, fun htype => ?_⟩
    · subst htype
      obtain ⟨hmem,hperiod⟩ := hset.queued hsuccess (by decide)
      refine (Run.periodic hset.ok hmem ?_ hrun' fun _ _ hP => hP.2).1
      rw [hperiod, periodOf, if_pos rfl]
      split
      · exact hmeets.2 rfl ‹_›
      · assumption
    · subst htype
      obtain ⟨hmem,hperiod⟩ := hset.queued hsuccess (by decide)
      have hfst := (Run.oneShot hset.ok hmem hperiod (hset.trigger hsuccess rfl) hrun'
        fun _ _ hP => hP.2).2.2.1
      rwa [UInt64.toNat_add, Nat.mod_eq_of_lt (hmeets.1 rfl)] at hfst

def idleTimers : Timers := ⟨fun _ => ⟨true, true, false, 0, 0⟩, [], 5, false⟩

/-- A periodic timer that has missed an expiry and a one-shot timer between the two. -/
theorem setTimer_keepsPromise : ∃ s, Run Meets idleTimers [⟨9, [0, 1, 0]⟩] s ∧ s.timerList = [0] ∧
    s.triggerTime 0 = 11 ∧ Promise s := by
  have hstart : Run Meets idleTimers [] idleTimers := .start
  have hperiodic := hstart.next (a := .setTimer 1 0 timerPeriodic 2)
    ⟨fun h => absurd h (by decide), fun _ h => absurd h (by decide)⟩ (.setTimer 1 0 timerPeriodic 2)
  have hrelative := hperiodic.next (a := .setTimer 1 1 timerRelative 3)
    ⟨fun _ => by decide, fun h => absurd h (by decide)⟩ (.setTimer 1 1 timerRelative 3)
  have hticked := hrelative.next (a := .timerTick 4) trivial (.timerTick 4)
  have hchecked := hticked.next (a := .checkTimers) (by unfold Meets CatchesUp; decide)
    (.checkTimers ⟨4, show _ = some ([0, 1, 0],_) from rfl⟩)
  exact ⟨_, hchecked, by decide, by decide, timers_keep rfl (fun _ => rfl) hchecked⟩

theorem checkLoop_spins {s : Timers} (h : Ok s) (hlist : s.timerList = [0])
    (hp : s.period 0 = 0xffffffffffffffff) (ht : s.triggerTime 0 = 4 ∨ s.triggerTime 0 = 5)
    (fuel : Nat) : checkLoop 5 fuel s = none := by
  induction fuel generalizing s with
  | zero => rfl
  | succ fuel ih =>
    have h1 := h.expired 5 0
    have hne : s.period 0 ≠ 0 := by
      rw [hp]
      decide
    have hnext : nextTrigger 5 s 0 = 5 := by
      rw [nextTrigger, hp]
      rcases ht with ht | ht <;> rw [ht] <;> decide
    have hperm := h1.list
    have htrigger := h1.triggerTime
    rw [if_pos hne, hlist] at hperm
    rw [if_pos hne, hnext] at htrigger
    rw [checkLoop, hlist]
    dsimp only
    rw [if_neg (by rcases ht with ht | ht <;> rw [ht] <;> decide),
      ih h1.ok (perm_singleton.mp hperm) (h1.period ▸ hp) (.inr (by rw [htrigger, update_self]))]
    rfl

/-- A period that leads past the last time: the timer has expired as soon as it is set, and the check sets it to
the current time for ever. -/
theorem longPeriod_never_returns :
    (coreSetTimer 1 idleTimers 0 timerPeriodic 0xffffffffffffffff).1 = .success ∧
      ¬ ∃ signaled s', CoreCheckTimers
        (coreSetTimer 1 idleTimers 0 timerPeriodic 0xffffffffffffffff).2 signaled s' := by
  have hidle : Ok idleTimers := ⟨.nil, .nil, fun _ => ⟨nofun, nofun⟩⟩
  refine ⟨by decide, fun ⟨signaled, s', fuel, hloop⟩ => ?_⟩
  have hspins := checkLoop_spins (hidle.setTimer 1 0 timerPeriodic 0xffffffffffffffff).ok
    (by decide) (by decide) (.inl (by decide)) fuel
  exact nomatch hspins.symm.trans hloop

end Liano.Timer
