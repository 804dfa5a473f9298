import Liano.DiskIo.Tasks

/-! Every request of a token finishes exactly once. -/
namespace Liano.DiskIo

open Function (update_of_ne update_self)
open List

variable {d d' : Instance} {n m link : Nat} {t : Task} {s : Subtask} {rest : List Subtask} {ok : Bool}

/-- A live task: it is in the queue, the block layer has its submitted subtasks, its token is signalled when it
is gone, and after the return of its call it waits for completions or has lost its token. -/
structure TaskOk (d : Instance) (n : Nat) (t : Task) : Prop where
  linked : n ∈ d.taskQueue
  known : n < d.nextCall
  inflight : d.inflight n = t.submitted
  signals : d.signals n = if t.token then 0 else 1
  phase : d.active n ∧ d.returned n = none ∨
    ¬d.active n ∧ d.returned n = some true ∧ t.waiting = [] ∧ (t.submitted = [] → t.token = false)

/-- A call without a task: it is linked nowhere, and its token is signalled if it returned success. -/
structure FreedOk (d : Instance) (n : Nat) : Prop where
  unlinked : n ∉ d.taskQueue
  inflight : d.inflight n = []
  idle : ¬d.active n
  fresh : d.nextCall ≤ n → d.signals n = 0 ∧ d.returned n = none
  done : n < d.nextCall → d.returned n = some true ∧ d.signals n = 1 ∨ d.returned n = some false ∧ d.signals n = 0

def CallOk (d : Instance) (n : Nat) : Prop :=
  (∃ t, d.tasks n = some t ∧ TaskOk d n t) ∨ (d.tasks n = none ∧ FreedOk d n)

structure Good (d : Instance) : Prop where
  call : ∀ n, CallOk d n
  apart : ∀ n, d.submitting = some n → n ∉ d.creating
  fault : d.fault = false

theorem Good.task (h : Good d) (ht : d.tasks n = some t) : TaskOk d n t := by
  obtain ⟨u,hu,hok⟩ | ⟨hn,-⟩ := h.call n
  · rw [ht] at hu
    cases hu
    exact hok
  · rw [ht] at hn
    cases hn

theorem Good.freed (h : Good d) (hn : d.tasks n = none) : FreedOk d n := by
  obtain ⟨u,hu,-⟩ | ⟨-,hok⟩ := h.call n
  · rw [hn] at hu
    cases hu
  · exact hok

theorem Good.live (h : Good d) (hq : n ∈ d.taskQueue) : ∃ t, d.tasks n = some t := by
  obtain ⟨t,ht,-⟩ | ⟨-,hok⟩ := h.call n
  · exact ⟨t, ht⟩
  · exact absurd hq hok.unlinked

theorem CallOk.frame (h : CallOk d n) (ht : d'.tasks n = d.tasks n) (hi : d'.inflight n = d.inflight n)
    (hs : d'.signals n = d.signals n) (hr : d'.returned n = d.returned n)
    (hq : n ∈ d'.taskQueue ↔ n ∈ d.taskQueue) (ha : d'.active n ↔ d.active n)
    (hc : d.nextCall ≤ d'.nextCall) (hfresh : d.nextCall ≤ n → d'.nextCall ≤ n) : CallOk d' n := by
  unfold CallOk
  rw [ht]
  obtain ⟨t,htask,hok⟩ | ⟨hnone,hok⟩ := h
  · refine .inl ⟨t, htask, hq.mpr hok.linked, Nat.lt_of_lt_of_le hok.known hc, ?_, ?_, ?_⟩
    · rw [hi]
      exact hok.inflight
    · rw [hs]
      exact hok.signals
    · rw [ha, hr]
      exact hok.phase
  · refine .inr ⟨hnone, fun hin => hok.unlinked (hq.mp hin), ?_, fun hact => hok.idle (ha.mp hact), ?_, ?_⟩
    · rw [hi]
      exact hok.inflight
    · intro hle
      rw [hs, hr]
      exact hok.fresh (Nat.le_trans hc hle)
    · intro hlt
      rw [hs, hr]
      refine hok.done (Nat.lt_of_not_le fun hle => ?_)
      exact absurd (hfresh hle) (Nat.not_le.mpr hlt)

theorem good_initial : Good Instance.initial where
  call := fun n => .inr ⟨rfl, not_mem_nil, rfl,
    fun ha => ha.elim not_mem_nil (fun h => absurd h (Option.some_ne_none n).symm), fun _ => ⟨rfl, rfl⟩,
    fun hlt => absurd hlt (Nat.not_lt_zero n)⟩
  apart := fun _ _ => not_mem_nil
  fault := rfl

theorem completed_iff :
    d.completed n = true ↔ ∃ t, d.tasks n = some t ∧ t.submitted = [] ∧ t.waiting = [] := by
  unfold Instance.completed
  cases d.tasks n with
  | none => simp
  | some t => simp [Task.isEmpty]

/-- With no call between its insertion and its return the completed tasks are removed without a fault. -/
theorem Good.removeCompletedTask (h : Good d) (hidle : ∀ n, ¬d.active n) : Good (removeCompletedTask d) := by
  have hdone (n : Nat) (t : Task) (ht : d.tasks n = some t) :
      d.returned n = some true ∧ t.waiting = [] ∧ (t.submitted = [] → t.token = false) := by
    obtain ⟨ha,-⟩ | ⟨-,hr⟩ := (h.task ht).phase
    · exact absurd ha (hidle n)
    · exact hr
  constructor
  · intro n
    obtain ⟨t,ht,hok⟩ | ⟨hn,hok⟩ := h.call n
    · by_cases hc : d.completed n = true
      · obtain ⟨u,hu,hsub,-⟩ := completed_iff.mp hc
        rw [ht] at hu
        cases hu
        obtain ⟨hr,-,htoken⟩ := hdone n t ht
        refine .inr ⟨if_pos ⟨hok.linked, hc⟩, ?_, ?_, hidle n, ?_, ?_⟩
        · intro hin
          have hkept := (mem_filter.mp hin).2
          rw [hc] at hkept
          cases hkept
        · exact hok.inflight.trans hsub
        · exact fun hle => absurd hok.known (Nat.not_lt.mpr hle)
        · intro _
          refine .inl ⟨hr, ?_⟩
          have hs := hok.signals
          rw [htoken hsub] at hs
          exact hs
      · refine CallOk.frame (h.call n) (if_neg fun hin => hc hin.2) rfl rfl rfl ?_ Iff.rfl (Nat.le_refl _) id
        constructor
        · exact fun hin => (mem_filter.mp hin).1
        · intro hin
          refine mem_filter.mpr ⟨hin, ?_⟩
          rw [Bool.eq_false_iff.mpr hc]
          rfl
    · refine CallOk.frame (h.call n) (if_neg fun hin => hok.unlinked hin.1) rfl rfl rfl ?_ Iff.rfl
        (Nat.le_refl _) id
      exact ⟨fun hin => (mem_filter.mp hin).1, fun hin => absurd hin hok.unlinked⟩
  · exact h.apart
  · have hnone : (d.taskQueue.any fun n => d.dangling n || d.tokenLeft n) = false := by
      refine any_eq_false.mpr fun n hn => ?_
      obtain ⟨t,ht⟩ := h.live hn
      have hleft := (hdone n t ht).2.2
      unfold Instance.dangling Instance.tokenLeft Task.isEmpty
      rw [ht]
      simpa using fun hsub _ => hleft hsub
    unfold DiskIo.removeCompletedTask
    rw [h.fault, hnone]
    rfl

theorem Good.beginCall (h : Good d) (hs : d.submitting = none) (allocated : Bool) :
    Good (beginCall d allocated) := by
  have hnew : d.tasks d.nextCall = none := by
    cases ht : d.tasks d.nextCall with
    | none => rfl
    | some t => exact absurd (h.task ht).known (Nat.lt_irrefl _)
  have hfreed := h.freed hnew
  unfold DiskIo.beginCall
  split
  · refine ⟨fun n => ?_, ?_, h.fault⟩
    · by_cases hn : n = d.nextCall
      · subst hn
        refine .inl ⟨_, update_self _ _ _, ?_, Nat.lt_succ_self _, hfreed.inflight, ?_, ?_⟩
        · exact mem_append.mpr (.inr (mem_singleton.mpr rfl))
        · exact (hfreed.fresh (Nat.le_refl _)).1
        · exact .inl ⟨.inl mem_cons_self, (hfreed.fresh (Nat.le_refl _)).2⟩
      refine (h.call n).frame (update_of_ne hn _ _) rfl rfl rfl ?_ ?_ (Nat.le_succ _) ?_
      · simp [hn]
      · simp [Instance.active, hn]
      · exact fun hle => Nat.lt_of_le_of_ne hle (Ne.symm hn)
    · intro n hn
      rw [hs] at hn
      cases hn
  · refine ⟨fun n => ?_, h.apart, h.fault⟩
    by_cases hn : n = d.nextCall
    · subst hn
      refine .inr ⟨hnew, hfreed.unlinked, hfreed.inflight, hfreed.idle, ?_, ?_⟩
      · exact fun hle => absurd hle (Nat.not_succ_le_self _)
      · exact fun _ => .inr ⟨update_self _ _ _, (hfreed.fresh (Nat.le_refl _)).1⟩
    · refine (h.call n).frame rfl rfl rfl (update_of_ne hn _ _) Iff.rfl Iff.rfl (Nat.le_succ _) ?_
      exact fun hle => Nat.lt_of_le_of_ne hle (Ne.symm hn)

theorem Good.active_task (h : Good d) (ha : d.active n) :
    ∃ t, d.tasks n = some t ∧ TaskOk d n t ∧ d.returned n = none := by
  obtain ⟨t,ht,hok⟩ | ⟨-,hok⟩ := h.call n
  · obtain ⟨-,hr⟩ | ⟨hn,-⟩ := hok.phase
    · exact ⟨t, ht, hok, hr⟩
    · exact absurd ha hn
  · exact absurd ha hok.idle

theorem Good.createSubtasks (h : Good d) (hn : n ∈ d.creating) (hs : d.submitting = none)
    (blocking : List Bool) : Good (createSubtasks d n (some blocking)) := by
  obtain ⟨t,ht,hok,hr⟩ := h.active_task (.inl hn)
  have hout : n ∉ d.creating.filter fun m => m != n := by simp
  unfold DiskIo.createSubtasks
  refine ⟨fun m => ?_, ?_, h.fault⟩
  · by_cases hm : m = n
    · subst hm
      refine .inl ⟨{ t with waiting := numbered blocking }, ?_, hok.linked, hok.known, hok.inflight,
        hok.signals, .inl ⟨.inr rfl, hr⟩⟩
      rw [ht]
      exact update_self _ _ _
    · refine (h.call m).frame (update_of_ne hm _ _) rfl rfl rfl Iff.rfl ?_ (Nat.le_refl _) id
      simp [Instance.active, hm, hs, Ne.symm hm]
  · intro m hm
    obtain rfl : n = m := Option.some.inj hm
    exact hout

section Submitting

variable (h : Good d) (hs : d.submitting = some n) (ht : d.tasks n = some t)
include h hs ht

theorem Good.submitting_ok : TaskOk d n t ∧ d.returned n = none := by
  obtain ⟨u,hu,hok,hr⟩ := h.active_task (.inr hs)
  rw [ht] at hu
  cases hu
  exact ⟨hok, hr⟩

omit ht in
theorem Good.idle_after (hd : d'.creating = d.creating) (hs' : d'.submitting = none) : ¬d'.active n := by
  rintro (hin | hsub)
  · rw [hd] at hin
    exact h.apart n hs hin
  · rw [hs'] at hsub
    cases hsub

omit h ht in
theorem active_other (hd : d'.creating = d.creating) (hs' : d'.submitting = none) (hm : m ≠ n) :
    d'.active m ↔ d.active m := by
  unfold Instance.active
  rw [hd, hs', hs]
  simp [Ne.symm hm]

theorem Good.failCall (hsub : t.submitted = []) (htoken : t.token = true) (rest : List Subtask) :
    Good (failCall d n { t with waiting := rest }) := by
  obtain ⟨hok,-⟩ := h.submitting_ok hs ht
  unfold DiskIo.failCall
  rw [if_pos (by simp [hsub])]
  refine ⟨fun m => ?_, ?_, h.fault⟩
  · by_cases hm : m = n
    · subst hm
      refine .inr ⟨update_self _ _ _, by simp, hok.inflight.trans hsub,
        h.idle_after hs rfl rfl, fun hle => absurd hok.known (Nat.not_lt.mpr hle), fun _ => ?_⟩
      have hsig := hok.signals
      rw [htoken] at hsig
      exact .inr ⟨update_self _ _ _, hsig⟩
    · refine (h.call m).frame (update_of_ne hm _ _) rfl rfl (update_of_ne hm _ _) ?_
        (active_other hs rfl rfl hm) (Nat.le_refl _) id
      simp [hm]
  · intro m hm
    cases hm

theorem Good.submitSubtask (hsound : ok = false → t.submitted = [] ∧ t.token = true) (s : Subtask)
    (rest : List Subtask) : Good (submitSubtask d n t s rest ok) := by
  obtain ⟨hok,hr⟩ := h.submitting_ok hs ht
  unfold DiskIo.submitSubtask
  cases ok with
  | false => exact h.failCall hs ht (hsound rfl).1 (hsound rfl).2 rest
  | true =>
    simp only [Bool.not_true, Bool.false_eq_true, if_false]
    split
    · refine ⟨fun m => ?_, h.apart, h.fault⟩
      by_cases hm : m = n
      · subst hm
        exact .inl ⟨_, update_self _ _ _, hok.linked, hok.known, hok.inflight, hok.signals,
          .inl ⟨.inr hs, hr⟩⟩
      · exact (h.call m).frame (update_of_ne hm _ _) rfl rfl rfl Iff.rfl Iff.rfl (Nat.le_refl _) id
    refine ⟨fun m => ?_, h.apart, h.fault⟩
    by_cases hm : m = n
    · subst hm
      refine .inl ⟨_, update_self _ _ _, hok.linked, hok.known, ?_, hok.signals, .inl ⟨.inr hs, hr⟩⟩
      dsimp only
      rw [update_self, hok.inflight]
    · exact (h.call m).frame (update_of_ne hm _ _) (update_of_ne hm _ _) rfl rfl Iff.rfl
        Iff.rfl (Nat.le_refl _) id

theorem Good.finishCall (hw : t.waiting = []) : Good (finishCall d n t) := by
  obtain ⟨hok,hr⟩ := h.submitting_ok hs ht
  unfold DiskIo.finishCall
  split
  · next hempty =>
    have hsub : t.submitted = [] := by
      unfold Task.isEmpty at hempty
      simp only [Bool.and_eq_true, List.isEmpty_iff] at hempty
      exact hempty.1
    refine ⟨fun m => ?_, ?_, h.fault⟩
    · by_cases hm : m = n
      · subst hm
        refine .inr ⟨update_self _ _ _, by simp, hok.inflight.trans hsub,
          h.idle_after hs rfl rfl, fun hle => absurd hok.known (Nat.not_lt.mpr hle), fun _ => ?_⟩
        refine .inl ⟨update_self _ _ _, ?_⟩
        dsimp only
        rw [update_self, hok.signals]
        cases t.token <;> rfl
      · refine (h.call m).frame (update_of_ne hm _ _) rfl (update_of_ne hm _ _)
          (update_of_ne hm _ _) ?_ (active_other hs rfl rfl hm) (Nat.le_refl _) id
        simp [hm]
    · intro m hm
      cases hm
  · next hempty =>
    refine ⟨fun m => ?_, ?_, h.fault⟩
    · by_cases hm : m = n
      · subst hm
        refine .inl ⟨t, ht, hok.linked, hok.known, hok.inflight, hok.signals, .inr
          ⟨h.idle_after hs rfl rfl, update_self _ _ _, hw, fun hsub => ?_⟩⟩
        exact absurd (by simp [Task.isEmpty, hsub, hw]) hempty
      · exact (h.call m).frame rfl rfl rfl (update_of_ne hm _ _) Iff.rfl
          (active_other hs rfl rfl hm) (Nat.le_refl _) id
    · intro m hm
      cases hm

end Submitting

theorem Good.onComplete (h : Good d) (ht : d.tasks n = some t) (link : Nat) (ok : Bool) :
    Good (onComplete d n link t ok) := by
  have hok := h.task ht
  unfold DiskIo.onComplete
  split
  · next hlast =>
    rw [Bool.and_eq_true] at hlast
    refine ⟨fun m => ?_, h.apart, h.fault⟩
    by_cases hm : m = n
    · subst hm
      refine .inl ⟨_, update_self _ _ _, hok.linked, hok.known, ?_, ?_, ?_⟩
      · dsimp only
        rw [update_self, hok.inflight]
      · dsimp only
        rw [update_self, hok.signals, hlast.2]
        rfl
      · obtain hact | ⟨hidle,hr,hw,-⟩ := hok.phase
        · exact .inl hact
        · exact .inr ⟨hidle, hr, hw, fun _ => rfl⟩
    · exact (h.call m).frame (update_of_ne hm _ _) (update_of_ne hm _ _)
        (update_of_ne hm _ _) rfl Iff.rfl Iff.rfl (Nat.le_refl _) id
  · next hlast =>
    refine ⟨fun m => ?_, h.apart, h.fault⟩
    by_cases hm : m = n
    · subst hm
      refine .inl ⟨_, update_self _ _ _, hok.linked, hok.known, ?_, hok.signals, ?_⟩
      · dsimp only
        rw [update_self, hok.inflight]
      · obtain hact | ⟨hidle,hr,hw,-⟩ := hok.phase
        · exact .inl hact
        refine .inr ⟨hidle, hr, hw, fun hsub => ?_⟩
        -- the last subtask is gone, so the token was gone before
        refine Bool.eq_false_iff.mpr fun htoken => hlast ?_
        unfold Task.isEmpty
        rw [htoken, hsub, hw]
        simp
    · exact (h.call m).frame (update_of_ne hm _ _) (update_of_ne hm _ _) rfl rfl Iff.rfl
        Iff.rfl (Nat.le_refl _) id

theorem Good.cancel (h : Good d) : Good (cancel d) := by
  refine ⟨fun n => ?_, h.apart, ?_⟩
  · obtain ⟨t,ht,hok⟩ | ⟨hn,hok⟩ := h.call n
    · refine .inl ⟨{ t with token := false }, ?_, hok.linked, hok.known, hok.inflight, ?_, ?_⟩
      · unfold DiskIo.cancel
        dsimp only
        rw [if_pos hok.linked, ht]
        rfl
      · unfold DiskIo.cancel Instance.hasToken
        dsimp only
        rw [ht, hok.signals]
        cases htoken : t.token <;> simp [hok.linked, htoken]
      · obtain hact | ⟨hidle,hr,hw,-⟩ := hok.phase
        · exact .inl hact
        · exact .inr ⟨hidle, hr, hw, fun _ => rfl⟩
    · refine CallOk.frame (h.call n) (if_neg hok.unlinked) rfl ?_ rfl Iff.rfl Iff.rfl (Nat.le_refl _) id
      unfold DiskIo.cancel
      simp [hok.unlinked]
  · have hnone : d.taskQueue.any d.dangling = false := by
      refine any_eq_false.mpr fun n hn => ?_
      obtain ⟨t,ht⟩ := h.live hn
      unfold Instance.dangling
      rw [ht]
      exact Bool.false_ne_true
    unfold DiskIo.cancel
    rw [h.fault, hnone]
    rfl

/-- When an event does no harm: no call comes in while the task of another has no subtasks yet, the subtasks
of a call are made, and where a submission fails the block layer has no other subtask of the task and its
token is not signalled. -/
def Event.Sound (d : Instance) : Event → Prop
  | .begin _ => d.creating = []
  | .poll => d.creating = []
  | .create _ blocking => blocking ≠ none
  | .submit _ t _ _ ok => ok = false → t.submitted = [] ∧ t.token = true
  | .finish _ _ => True
  | .complete _ _ _ => True
  | .cancel => True

def SoundEvents : List Event → Instance → Prop
  | [], _ => True
  | e :: es, d => e.Enabled d ∧ e.Sound d ∧ SoundEvents es (step d e)

theorem not_active (hc : d.creating = []) (hs : d.submitting = none) (n : Nat) : ¬d.active n := by
  unfold Instance.active
  rw [hc, hs]
  simp

theorem Good.step (h : Good d) (e : Event) (he : e.Enabled d) (hsound : e.Sound d) : Good (step d e) := by
  cases e with
  | begin allocated => exact (h.removeCompletedTask (not_active hsound he)).beginCall he allocated
  | poll => exact h.removeCompletedTask (not_active hsound he)
  | create n blocking =>
    cases blocking with
    | none => exact absurd rfl hsound
    | some blocking => exact h.createSubtasks he.1 he.2 blocking
  | submit n t s rest ok => exact h.submitSubtask he.1 he.2.1 hsound s rest
  | finish n t => exact h.finishCall he.1 he.2.1 he.2.2
  | complete n link ok =>
    change Good (completeSubtask d n link ok)
    unfold completeSubtask
    have hin : link ∈ d.inflight n := he
    cases ht : d.tasks n with
    | none =>
      rw [(h.freed ht).inflight] at hin
      exact absurd hin not_mem_nil
    | some t => exact h.onComplete ht link ok
  | cancel => exact h.cancel

theorem Good.runEvents : ∀ (es : List Event) (d : Instance), Good d → SoundEvents es d →
    Good (runEvents es d) := by
  intro es
  induction es with
  | nil =>
    intro d h _
    exact h
  | cons e rest ih =>
    intro d h hsound
    exact ih (DiskIo.step d e) (h.step e hsound.1 hsound.2.1) hsound.2.2

/-- In a good instance no call is signalled after an error, a call that returned success is signalled once its
completions have arrived, and never twice. -/
theorem Good.signalled (h : Good d) (n : Nat) :
    d.signals n ≤ 1 ∧ (d.returned n = some false → d.signals n = 0) ∧
      (d.returned n = some true → d.inflight n = [] → d.signals n = 1) := by
  obtain ⟨t,-,hok⟩ | ⟨-,hok⟩ := h.call n
  · refine ⟨?_, fun hr => ?_, fun hr hi => ?_⟩
    · rw [hok.signals]
      split <;> omega
    · obtain ⟨-,hr'⟩ | ⟨-,hr',-⟩ := hok.phase <;> rw [hr'] at hr <;> cases hr
    · obtain ⟨-,hr'⟩ | ⟨-,-,-,htoken⟩ := hok.phase
      · rw [hr'] at hr
        cases hr
      · rw [hok.signals, htoken (hok.inflight.symm.trans hi)]
        rfl
  · by_cases hlt : n < d.nextCall
    · obtain ⟨hr,hs⟩ | ⟨hr,hs⟩ := hok.done hlt <;> rw [hr, hs] <;> simp
    · obtain ⟨hs,hr⟩ := hok.fresh (Nat.le_of_not_lt hlt)
      rw [hr, hs]
      simp

/-- When every completion has arrived the next call finds every task complete, without its token. -/
theorem Good.drained (h : Good d) (hidle : ∀ n, ¬d.active n) (harrived : ∀ n, d.inflight n = []) :
    (DiskIo.removeCompletedTask d).taskQueue = [] ∧ (DiskIo.removeCompletedTask d).fault = false ∧
      ∀ n, (DiskIo.removeCompletedTask d).tasks n = none := by
  have hcompl (n : Nat) (hq : n ∈ d.taskQueue) : d.completed n = true := by
    obtain ⟨t,ht⟩ := h.live hq
    have hok := h.task ht
    obtain ⟨ha,-⟩ | ⟨-,-,hw,-⟩ := hok.phase
    · exact absurd ha (hidle n)
    · exact completed_iff.mpr ⟨t, ht, hok.inflight.symm.trans (harrived n), hw⟩
  refine ⟨?_, (h.removeCompletedTask hidle).fault, fun n => ?_⟩
  · refine filter_eq_nil_iff.mpr fun n hn => ?_
    rw [hcompl n hn]
    exact Bool.false_ne_true
  · unfold DiskIo.removeCompletedTask
    dsimp only
    cases ht : d.tasks n with
    | none => split <;> rfl
    | some t => exact if_pos ⟨(h.task ht).linked, hcompl n (h.task ht).linked⟩

def twoSubtasks : List Event :=
  [.begin true, .create 0 (some [false, false]), .submit 0 ⟨true, [], [⟨0, false⟩, ⟨1, false⟩]⟩ ⟨0, false⟩
    [⟨1, false⟩] true, .submit 0 ⟨true, [0], [⟨1, false⟩]⟩ ⟨1, false⟩ [] true,
    .finish 0 ⟨true, [0, 1], []⟩, .complete 0 1 true, .complete 0 0 true]

end Liano.DiskIo
