import Liano.Lib.Ring
import Liano.Lib.Run
import Liano.Virtio.Ring
import Mathlib.Data.Nat.Basic
import Mathlib.Data.List.Basic

/-! A driver and a host in lock-step over one virtio ring. The bookkeeping counts the entries without bound:
those made available, those the host has been told of, and those it has completed. -/
namespace Liano.Virtio

open Function (update update_of_ne update_self)
open List

open Lib (Ring.slot_register Ring.register_eq_iff)

/-- What the host did with an available entry: the chain it found and the length it reported. -/
structure Completion where
  chain : List Buffer
  len : UInt32
deriving DecidableEq, Repr

/-- A successful flush: its entry, the buffers appended since the last `VirtioPrepare`, `*UsedLen`, and the
assertion `UsedElem->Id == Indices->HeadDescIdx`. -/
structure Flushed where
  entry : Nat
  built : List Buffer
  usedLen : UInt32
  idMatches : Bool
deriving DecidableEq, Repr

structure LockStep where
  ring : Vring
  indices : Option DescIndices
  polling : Option Polling
  built : List Buffer
  available : Nat
  notified : Nat
  completed : List Completion
  flushed : List Flushed

def LockStep.initial (queueSize : Nat) : LockStep := ⟨virtioRingInit queueSize, none, none, [], 0, 0, [], []⟩

inductive Action
  | prepare
  | appendDesc (buffer : Buffer)
  /-- `VirtioFlush` up to the notification, which succeeds or not. -/
  | flush (notifies : Bool)
  /-- The condition of the polling loop is looked at. -/
  | poll
  /-- The host consumes the next entry it has been told of. -/
  | consume (len : UInt32)
deriving DecidableEq, Repr

section
variable (s : LockStep)

def LockStep.nextHead : Nat := s.ring.availRing (s.completed.length % s.ring.queueSize)

def LockStep.afterPrepare : LockStep := { s with
    ring := (virtioPrepare s.ring).1
    indices := some (virtioPrepare s.ring).2
    built := [] }

def LockStep.afterAppend (buffer : Buffer) (indices : DescIndices) : LockStep := { s with
    ring := (virtioAppendDesc s.ring buffer indices).1
    indices := some (virtioAppendDesc s.ring buffer indices).2
    built := s.built ++ [buffer] }

def LockStep.afterFlush (indices : DescIndices) (notifies : Bool) : LockStep := { s with
    ring := makeAvailable s.ring indices
    polling := if notifies then some ⟨toUint16 (s.ring.availIdx+1), s.ring.availIdx⟩ else none
    available := s.available+1
    notified := if notifies then s.available+1 else s.notified }

def LockStep.afterDone (indices : DescIndices) (polling : Polling) : LockStep := { s with
    polling := none
    flushed := s.flushed ++ [⟨s.available-1, s.built, (usedElemOf s.ring polling).len,
      (usedElemOf s.ring polling).id == indices.headDescIdx⟩] }

def LockStep.afterConsume (len : UInt32) : LockStep := { s with
    ring := publish s.ring s.nextHead len
    completed := s.completed ++ [⟨chainFrom s.ring s.ring.queueSize s.nextHead, len⟩] }

def step : Action → Option LockStep
  | .prepare => if s.polling.isNone then some s.afterPrepare else none
  | .appendDesc buffer =>
    match s.polling, s.indices with
    | none, some indices => some (s.afterAppend buffer indices)
    | _, _ => none
  | .flush notifies =>
    match s.polling, s.indices with
    | none, some indices => some (s.afterFlush indices notifies)
    | _, _ => none
  | .poll =>
    match s.polling, s.indices with
    | some polling, some indices => some (if isDone s.ring polling then s.afterDone indices polling else s)
    | _, _ => none
  | .consume len => if s.completed.length < s.notified then some (s.afterConsume len) else none

def isChain : List Buffer → Bool
  | [] => false
  | [buffer] => !buffer.hasNext
  | buffer :: next :: rest => buffer.hasNext && isChain (next :: rest)

/-- What the callers see to: a request has at most QueueSize buffers and its NEXT flags link it. -/
def Legal : Action → Prop
  | .appendDesc _ => s.built.length < s.ring.queueSize
  | .flush _ => isChain s.built = true
  | _ => True

def FewFailures : Action → Prop
  | .flush true => s.available-s.notified < 65535
  | _ => True

end

/-- The host has published the entry of the flush, its chain is the one that was built, and `*UsedLen` is
the length it reported for it. -/
structure Fulfilled (s : LockStep) (f : Flushed) : Prop where
  idMatches : f.idMatches = true
  completed : s.completed[f.entry]? = some ⟨f.built, f.usedLen⟩

/-- The descriptor table holds the buffers appended so far, each linked to the next slot. -/
structure Built (s : LockStep) (indices : DescIndices) : Prop where
  head : indices.headDescIdx = 0
  next : indices.nextDescIdx = s.built.length
  fits : s.built.length ≤ s.ring.queueSize
  desc : ∀ i (h : i < s.built.length), s.ring.desc i =
    ⟨s.built[i].addr, s.built[i].len, s.built[i].flags, (i+1) % s.ring.queueSize⟩

structure Waiting (s : LockStep) (polling : Polling) : Prop where
  next : polling.nextAvailIdx = s.available % 2^16
  last : polling.lastUsedIdx = (s.available-1) % 2^16
  pos : 0 < s.available
  notified : s.notified = s.available
  behind : s.available < s.completed.length + 2^16
  chain : isChain s.built = true
  elem : s.completed.length = s.available → ∃ len, s.completed[s.available-1]? = some ⟨s.built, len⟩ ∧
    s.ring.usedElem ((s.available-1) % s.ring.queueSize) = ⟨0, len⟩

structure Inv (s : LockStep) : Prop where
  size : s.ring.queueSize ∣ 2^16 ∧ s.ring.queueSize ≤ 2^15
  availIdx : s.ring.availIdx = s.available % 2^16
  usedIdx : s.ring.usedIdx = s.completed.length % 2^16
  heads : ∀ i, s.ring.availRing i = 0
  built : ∀ indices, s.indices = some indices → Built s indices
  order : s.completed.length ≤ s.notified ∧ s.notified ≤ s.available
  idle : s.polling = none → s.completed.length = s.notified
  waiting : ∀ polling, s.polling = some polling → Waiting s polling ∧ s.indices.isSome
  flushed : ∀ f ∈ s.flushed, Fulfilled s f

theorem Inv.initial {queueSize : Nat} (h : queueSize ∣ 2^16 ∧ queueSize ≤ 2^15) :
    Inv (LockStep.initial queueSize) where
  size := h
  availIdx := rfl
  usedIdx := rfl
  heads := fun _ => rfl
  built := fun _ h => nomatch h
  order := ⟨le_refl _, le_refl _⟩
  idle := fun _ => rfl
  waiting := fun _ h => nomatch h
  flushed := fun _ h => nomatch h

variable {s s' : LockStep} {indices : DescIndices} {polling : Polling}

theorem toUint16_succ (n : Nat) : toUint16 (n % 2^16 + 1) = (n+1) % 2^16 := by
  simp only [toUint16, Nat.mod_add_mod]

theorem Inv.afterPrepare (h : Inv s) (hidle : s.polling = none) : Inv s.afterPrepare where
  size := h.size
  availIdx := h.availIdx
  usedIdx := h.usedIdx
  heads := h.heads
  built := by
    intro indices hi
    obtain rfl : (⟨0, 0⟩ : DescIndices) = indices := Option.some.inj hi
    exact ⟨rfl, rfl, Nat.zero_le _, fun i hi => absurd hi (Nat.not_lt_zero i)⟩
  order := h.order
  idle := h.idle
  waiting := fun polling hp => absurd (hidle.symm.trans hp) (by simp)
  flushed := fun f hf => ⟨(h.flushed f hf).idMatches, (h.flushed f hf).completed⟩

theorem Built.afterAppend (h : Inv s) (hb : Built s indices) (hfits : s.built.length < s.ring.queueSize)
    (buffer : Buffer) : Built (s.afterAppend buffer indices) (virtioAppendDesc s.ring buffer indices).2 := by
  have hsize := h.size.2
  have hslot : indices.nextDescIdx % s.ring.queueSize = s.built.length := by
    rw [hb.next, Nat.mod_eq_of_lt hfits]
  have hnext : toUint16 (indices.nextDescIdx+1) = s.built.length+1 := by
    rw [hb.next]
    exact Nat.mod_eq_of_lt (by omega)
  refine ⟨hb.head, ?_, ?_, ?_⟩
  · simp only [virtioAppendDesc, LockStep.afterAppend, hnext, length_append, length_singleton]
  · simp only [LockStep.afterAppend, virtioAppendDesc, length_append, length_singleton]
    exact hfits
  · intro i hi
    simp only [LockStep.afterAppend, virtioAppendDesc, length_append, length_singleton, hslot, hnext] at hi ⊢
    by_cases hlast : i = s.built.length
    · subst hlast
      simp only [update_self, getElem_concat_length]
    · have hlt : i < s.built.length := by omega
      rw [update_of_ne hlast, hb.desc i hlt]
      simp only [getElem_append_left hlt]

theorem Inv.afterAppend (h : Inv s) (hidle : s.polling = none) (hi : s.indices = some indices)
    (hfits : s.built.length < s.ring.queueSize) (buffer : Buffer) : Inv (s.afterAppend buffer indices) where
  size := h.size
  availIdx := h.availIdx
  usedIdx := h.usedIdx
  heads := h.heads
  built := by
    intro indices' hi'
    obtain rfl : (virtioAppendDesc s.ring buffer indices).2 = indices' := Option.some.inj hi'
    exact (h.built indices hi).afterAppend h hfits buffer
  order := h.order
  idle := h.idle
  waiting := fun polling hp => absurd (hidle.symm.trans hp) (by simp)
  flushed := fun f hf => ⟨(h.flushed f hf).idMatches, (h.flushed f hf).completed⟩

theorem heads_makeAvailable (h : Inv s) (hb : Built s indices) (i : Nat) :
    (makeAvailable s.ring indices).availRing i = 0 := by
  by_cases heq : i = s.ring.availIdx % s.ring.queueSize
  · subst heq
    simp only [makeAvailable, update_self, hb.head, Nat.zero_mod]
  · simp only [makeAvailable, update_of_ne heq, h.heads]

theorem Inv.afterFlush (h : Inv s) (hidle : s.polling = none) (hi : s.indices = some indices)
    (hch : isChain s.built = true) {notifies : Bool} (hfew : FewFailures s (.flush notifies)) :
    Inv (s.afterFlush indices notifies) := by
  have hb := h.built indices hi
  have hnext : toUint16 (s.ring.availIdx+1) = (s.available+1) % 2^16 := by rw [h.availIdx, toUint16_succ]
  have hdone := h.idle hidle
  have hord := h.order
  refine ⟨h.size, hnext, h.usedIdx, heads_makeAvailable h hb, ?_, ?_, ?_, ?_, ?_⟩
  · intro indices' hi'
    have hb' := h.built indices' hi'
    exact ⟨hb'.head, hb'.next, hb'.fits, hb'.desc⟩
  · cases notifies with
    | true => exact ⟨by simp only [LockStep.afterFlush, if_true]; omega, le_refl _⟩
    | false => exact ⟨hord.1, by simp only [LockStep.afterFlush, Bool.false_eq_true, if_false]; omega⟩
  · intro hp
    cases notifies with
    | true => simp [LockStep.afterFlush] at hp
    | false => exact hdone
  · intro polling hp
    cases notifies with
    | false => simp [LockStep.afterFlush] at hp
    | true =>
      obtain rfl : (⟨toUint16 (s.ring.availIdx+1), s.ring.availIdx⟩ : Polling) = polling := Option.some.inj hp
      simp only [FewFailures] at hfew
      refine ⟨⟨hnext, h.availIdx, Nat.succ_pos _, rfl, ?_, hch, ?_⟩, by simp [LockStep.afterFlush, hi]⟩
      · simp only [LockStep.afterFlush]
        omega
      · intro heq
        simp only [LockStep.afterFlush] at heq
        omega
  · intro f hf
    exact ⟨(h.flushed f hf).idMatches, (h.flushed f hf).completed⟩

theorem chainFrom_built (hb : Built s indices) (hch : isChain (s.built.drop i) = true) {fuel : Nat}
    (hfuel : s.built.length ≤ i+fuel) (hi : i < s.built.length) :
    chainFrom s.ring fuel i = s.built.drop i := by
  induction fuel generalizing i with
  | zero => omega
  | succ fuel ih =>
    have hdrop : s.built.drop i = s.built[i] :: s.built.drop (i+1) := drop_eq_getElem_cons hi
    have hbuf : (s.ring.desc i).buffer = s.built[i] := by
      rw [hb.desc i hi]
      rfl
    rw [chainFrom, hbuf, hdrop]
    congr 1
    by_cases hlast : i+1 < s.built.length
    · have hdrop' : s.built.drop (i+1) = s.built[i+1] :: s.built.drop (i+2) := drop_eq_getElem_cons hlast
      rw [hdrop, hdrop', isChain, ← hdrop', Bool.and_eq_true] at hch
      have hnext : (s.ring.desc i).next = i+1 := by
        have hfits := hb.fits
        rw [hb.desc i hi]
        exact Nat.mod_eq_of_lt (by omega)
      rw [if_pos hch.1, hnext]
      exact ih hch.2 (by omega) hlast
    · have hnil : s.built.drop (i+1) = [] := drop_eq_nil_of_le (by omega)
      rw [hdrop, hnil, isChain, Bool.not_eq_true'] at hch
      rw [hnil, if_neg (by simp [hch])]

theorem chainFrom_nextHead (h : Inv s) (hb : Built s indices) (hch : isChain s.built = true) :
    chainFrom s.ring s.ring.queueSize s.nextHead = s.built := by
  have hpos : 0 < s.built.length := by
    cases hnil : s.built with
    | nil => simp [hnil, isChain] at hch
    | cons buffer rest => simp
  have hhead : s.nextHead = 0 := h.heads _
  have hfits := hb.fits
  rw [hhead, chainFrom_built hb (by simpa using hch) (by omega) hpos, drop_zero]

theorem Inv.afterConsume (h : Inv s) (hlt : s.completed.length < s.notified) (len : UInt32) :
    Inv (s.afterConsume len) := by
  have hord := h.order
  have hslot : s.ring.usedIdx % s.ring.queueSize = s.completed.length % s.ring.queueSize := by
    rw [h.usedIdx, Ring.slot_register h.size.1]
  have hlen : (s.afterConsume len).completed.length = s.completed.length+1 := by
    simp [LockStep.afterConsume]
  have hhead : s.nextHead = 0 := h.heads _
  refine ⟨h.size, h.availIdx, ?_, h.heads, ?_, ?_, ?_, ?_, ?_⟩
  · rw [hlen]
    simp only [LockStep.afterConsume, publish, h.usedIdx, toUint16_succ]
  · intro indices hi
    have hb := h.built indices hi
    exact ⟨hb.head, hb.next, hb.fits, hb.desc⟩
  · rw [hlen]
    exact ⟨hlt, hord.2⟩
  · intro hp
    have := h.idle hp
    omega
  · intro polling hp
    obtain ⟨hw,hsome⟩ := h.waiting polling hp
    obtain ⟨indices,hi⟩ := Option.isSome_iff_exists.mp hsome
    refine ⟨⟨hw.next, hw.last, hw.pos, hw.notified, ?_, hw.chain, ?_⟩, hsome⟩
    · have := hw.behind
      exact lt_of_lt_of_le this (by omega)
    · intro heq
      rw [hlen] at heq
      have hlast : s.available-1 = s.completed.length := by
        have : s.completed.length+1 = s.available := heq
        omega
      refine ⟨len, ?_, ?_⟩
      · show (s.completed ++ _)[s.available-1]? = _
        rw [hlast, getElem?_concat_length, chainFrom_nextHead h (h.built indices hi) hw.chain]
        rfl
      · show update _ _ _ ((s.available-1) % s.ring.queueSize) = _
        rw [hlast, hslot, update_self, hhead]
  · intro f hf
    have hf' := h.flushed f hf
    exact ⟨hf'.idMatches, (List.getElem?_append_left (List.getElem?_eq_some_iff.mp hf'.completed).1).trans
      hf'.completed⟩

theorem isDone_iff (h : Inv s) (hw : Waiting s polling) :
    isDone s.ring polling = true ↔ s.completed.length = s.available := by
  have hord := h.order
  rw [isDone, beq_iff_eq, h.usedIdx, hw.next, eq_comm,
    Ring.register_eq_iff (hord.1.trans hord.2) hw.behind, eq_comm]

theorem Inv.afterDone (h : Inv s) (hp : s.polling = some polling) (hi : s.indices = some indices)
    (hdone : isDone s.ring polling = true) : Inv (s.afterDone indices polling) := by
  obtain ⟨hw,-⟩ := h.waiting polling hp
  have heq := (isDone_iff h hw).mp hdone
  obtain ⟨len,hent,helem⟩ := hw.elem heq
  have hused : usedElemOf s.ring polling = ⟨0, len⟩ := by
    rw [usedElemOf, hw.last, Ring.slot_register h.size.1, helem]
  refine ⟨h.size, h.availIdx, h.usedIdx, h.heads, ?_, h.order, ?_, fun _ hp' => (nomatch hp'), ?_⟩
  · intro indices' hi'
    have hb' := h.built indices' hi'
    exact ⟨hb'.head, hb'.next, hb'.fits, hb'.desc⟩
  · intro _
    exact heq.trans hw.notified.symm
  · intro f hf
    rcases mem_append.mp hf with hold | hnew
    · exact ⟨(h.flushed f hold).idMatches, (h.flushed f hold).completed⟩
    obtain rfl := mem_singleton.mp hnew
    refine ⟨?_, ?_⟩
    · simp only [hused, (h.built indices hi).head, beq_self_eq_true]
    · simp only [LockStep.afterDone, hused]
      exact hent

theorem Inv.step {a : Action} (h : Inv s) (hlegal : Legal s a) (hfew : FewFailures s a)
    (hs : step s a = some s') : Inv s' := by
  cases a with
  | prepare =>
    simp only [Virtio.step, Option.ite_none_right_eq_some, Option.some.injEq, Option.isNone_iff_eq_none] at hs
    obtain ⟨hidle,rfl⟩ := hs
    exact h.afterPrepare hidle
  | appendDesc buffer =>
    rw [Virtio.step] at hs
    split at hs
    · rename_i hp hi
      cases hs
      exact h.afterAppend hp hi hlegal buffer
    · cases hs
  | flush notifies =>
    rw [Virtio.step] at hs
    split at hs
    · rename_i hp hi
      cases hs
      exact h.afterFlush hp hi hlegal hfew
    · cases hs
  | poll =>
    rw [Virtio.step] at hs
    split at hs
    · rename_i polling indices hp hi
      cases hs
      by_cases hdone : isDone s.ring polling = true
      · rw [if_pos hdone]
        exact h.afterDone hp hi hdone
      · rw [if_neg hdone]
        exact h
    · cases hs
  | consume len =>
    simp only [Virtio.step, Option.ite_none_right_eq_some, Option.some.injEq] at hs
    obtain ⟨hlt,rfl⟩ := hs
    exact h.afterConsume hlt len

theorem dvd_of_powerOfTwo {queueSize : Nat} (h : ∃ k ≤ 15, queueSize = 2^k) :
    queueSize ∣ 2^16 ∧ queueSize ≤ 2^15 := by
  obtain ⟨k,hk,rfl⟩ := h
  exact ⟨Nat.pow_dvd_pow 2 (by omega), Nat.pow_le_pow_right (by decide) hk⟩

/-- Every successful flush waited for its own chain and returned the length reported for it. -/
theorem virtioFlush_lockStep (queueSize : Nat) (hsize : ∃ k ≤ 15, queueSize = 2^k) (s : LockStep)
    (h : Run.Reaches step (fun s a => Legal s a ∧ FewFailures s a) (.initial queueSize) s) :
    ∀ f ∈ s.flushed, Fulfilled s f := (h.invariant (Inv.initial (dvd_of_powerOfTwo hsize))
    fun _ _ _ hi hp hs => hi.step hp.1 hp.2 hs).flushed

/-- A request of one buffer and one of two. -/
def twoRequests : List Action :=
  [.prepare, .appendDesc ⟨0x1000, 512, 0⟩, .flush true, .poll, .consume 5, .poll,
    .prepare, .appendDesc ⟨0x1000, 16, 1⟩, .appendDesc ⟨0x2000, 512, 2⟩, .flush true, .consume 7, .poll]

def twoRequestsEnd : LockStep := (Run.run step (.initial 2) twoRequests).get rfl

theorem virtioFlush_lockStep_twice : twoRequestsEnd.flushed.map Flushed.usedLen = [5, 7] ∧
    ∀ f ∈ twoRequestsEnd.flushed, Fulfilled twoRequestsEnd f := by
  refine ⟨by decide +kernel, virtioFlush_lockStep 2 ⟨1, by decide, rfl⟩ _ (Run.reaches_of_run_along
    (Option.some_get (x := Run.run step (.initial 2) twoRequests) rfl).symm ?_)⟩
  refine ⟨⟨trivial, trivial⟩, ⟨?_, trivial⟩, ⟨rfl, ?_⟩, ⟨trivial, trivial⟩, ⟨trivial, trivial⟩, ⟨trivial, trivial⟩,
    ⟨trivial, trivial⟩, ⟨?_, trivial⟩, ⟨?_, trivial⟩, ⟨?_, ?_⟩, ⟨trivial, trivial⟩, ⟨trivial, trivial⟩, trivial⟩
  all_goals
    simp only [Legal, FewFailures]
    decide +kernel

def failedFlushes (n : Nat) : LockStep where
  ring := { (virtioAppendDesc (virtioPrepare (virtioRingInit 1)).1 ⟨0x1000, 512, 0⟩ ⟨0, 0⟩).1 with
      availIdx := n % 2 ^ 16 }
  indices := some ⟨0, 1⟩
  polling := none
  built := [⟨0x1000, 512, 0⟩]
  available := n
  notified := 0
  completed := []
  flushed := []

theorem availRing_failedFlushes (n : Nat) (indices : DescIndices) (hhead : indices.headDescIdx = 0) :
    (makeAvailable (failedFlushes n).ring indices).availRing = fun _ => 0 := by
  funext i
  by_cases heq : i = (failedFlushes n).ring.availIdx % (failedFlushes n).ring.queueSize
  · subst heq
    simp only [makeAvailable, update_self, hhead, Nat.zero_mod]
  · simp only [makeAvailable, update_of_ne heq]
    rfl

theorem step_failedFlushes (n : Nat) : step (failedFlushes n) (.flush false) = some (failedFlushes (n+1)) := by
  have hring : makeAvailable (failedFlushes n).ring ⟨0, 1⟩ = (failedFlushes (n+1)).ring := by
    have hava := availRing_failedFlushes n ⟨0, 1⟩ rfl
    simp only [makeAvailable] at hava ⊢
    rw [hava]
    simp only [failedFlushes, toUint16_succ]
    rfl
  simp only [step, failedFlushes, LockStep.afterFlush, Bool.false_eq_true, if_false] at hring ⊢
  rw [hring]

theorem reaches_failedFlushes (n : Nat) : Run.Reaches step Legal (.initial 1) (failedFlushes n) := by
  induction n with
  | zero =>
    have hrun : Run.run step (.initial 1) [.prepare, .appendDesc ⟨0x1000, 512, 0⟩] =
        some (failedFlushes 0) := rfl
    refine Run.reaches_of_run_along hrun ⟨trivial, ?_, trivial⟩
    show 0 < 1
    decide
  | succ n ih =>
    have hlegal : Legal (failedFlushes n) (.flush false) := rfl
    exact ih.next hlegal (step_failedFlushes n)

/-- After 65535 failed notifications the index of the available ring is again what the host's is, and the
next flush returns before the host has published anything. -/
theorem virtioFlush_without_host : ∃ s, Run.Reaches step Legal (.initial 1) s ∧ s.available = 65536 ∧
    s.completed = [] ∧ ∃ f ∈ s.flushed, ¬ Fulfilled s f := by
  have hfailed := reaches_failedFlushes 65535
  have hflush : step (failedFlushes 65535) (.flush true) =
      some ((failedFlushes 65535).afterFlush ⟨0, 1⟩ true) := rfl
  have hpoll : step ((failedFlushes 65535).afterFlush ⟨0, 1⟩ true) .poll =
      some (((failedFlushes 65535).afterFlush ⟨0, 1⟩ true).afterDone ⟨0, 1⟩ ⟨0, 65535⟩) := rfl
  have hlegal : Legal (failedFlushes 65535) (.flush true) := rfl
  have hlegal' : Legal ((failedFlushes 65535).afterFlush ⟨0, 1⟩ true) .poll := trivial
  refine ⟨_, (hfailed.next hlegal hflush).next hlegal' hpoll, rfl, rfl, _, mem_singleton_self _, ?_⟩
  intro h
  exact nomatch h.completed

end Liano.Virtio
