import Liano.Dispatcher.Insertion
import Liano.Lib.Run

/-! Runs of the dispatcher: the queue and the states of the drivers, whatever the loads give and whatever
services the drivers call. -/
namespace Liano.Dispatcher

open List hiding after

variable {s t s₀ : State} {i j k : Nat} {block : List Nat} {d : DriverEntry}

def DriverEntry.stateCount (d : DriverEntry) : Nat :=
  d.dependent.toNat+d.unrequested.toNat+d.scheduled.toNat+d.untrusted.toNat+d.initialized.toNat

/-- Every driver is in one state at most, is linked into the queue once at most, where it is scheduled, and
has been started once at most. -/
structure WellScheduled (s : State) : Prop where
  oneState : ∀ d ∈ s.discoveredList, d.stateCount ≤ 1
  linkedOnce : s.scheduledQueue.Nodup
  linked : ∀ i, i ∈ s.scheduledQueue ↔ s.has i (·.scheduled) = true
  startedOnce : s.started.Nodup

/-- The drivers have been put on the queue in the order that their expressions ask for, and none of them
more than once. -/
structure InOrder (s : State) : Prop where
  once : s.inserted.Nodup
  ordered : ∀ pull ∈ s.pulls, pull.Ordered s.inserted

def momentsTo (s t : State) : List State :=
  (t.inserted.drop s.inserted.length).inits.map fun block => linkAll block s

/-- The discovered drivers before the dispatcher is called. A driver is in no state as long as its expression
could not be read. -/
structure Discovered (s : State) : Prop where
  oneState : ∀ d ∈ s.discoveredList, d.stateCount+d.depexProtocolError.toNat ≤ 1
  linkedOnce : s.scheduledQueue.Nodup
  linked : ∀ i, i ∈ s.scheduledQueue ↔ s.has i (·.scheduled) = true
  inserted : s.inserted = []
  pulls : s.pulls = []
  started : s.started = []

/-- A driver that is put on the queue does not bring one along that comes back to itself over a BEFORE. -/
def NoReturnAt (s : State) : Action → Prop
  | .look depexSection _ _ => ∀ i readyToRun, s.phase = .search i readyToRun →
      NoReturn (s.retry i depexSection) i
  | _ => True

structure EntryInv (queue inserted started : List Nat) (i : Nat) (d : DriverEntry) : Prop where
  alone : d.stateCount+d.depexProtocolError.toNat ≤ 1
  linked : i ∈ queue ↔ d.scheduled = true
  inserted : i ∈ inserted → d.scheduled = true ∨ d.untrusted = true ∨ d.initialized = true
  started : i ∈ started → d.initialized = true

structure Inv (s : State) : Prop where
  entry : ∀ i d, s.discoveredList[i]? = some d → EntryInv s.scheduledQueue s.inserted s.started i d
  inRange : ∀ i ∈ s.scheduledQueue, i < s.discoveredList.length
  linkedOnce : s.scheduledQueue.Nodup
  startedOnce : s.started.Nodup
  inOrder : InOrder s

theorem toNat_of_true {b : Bool} (h : b = true) : b.toNat = 1 := by rw [h]; rfl

theorem false_of_toNat {b : Bool} (h : b.toNat = 0) : b = false := by
  cases b with
  | false => rfl
  | true => cases h

theorem has_iff {q : DriverEntry → Bool} :
    s.has i q = true ↔ ∃ d, s.discoveredList[i]? = some d ∧ q d = true := Option.any_eq_true _ _

theorem Inv.wellScheduled (h : Inv s) : WellScheduled s := by
  refine ⟨?_, h.linkedOnce, ?_, h.startedOnce⟩
  · intro d hd
    obtain ⟨i,hi⟩ := mem_iff_getElem?.mp hd
    have halone := (h.entry i d hi).alone
    omega
  · intro i
    rw [has_iff]
    constructor
    · intro hi
      have hd := getElem?_eq_getElem (h.inRange i hi)
      exact ⟨_, hd, (h.entry i _ hd).linked.mp hi⟩
    · rintro ⟨d,hd,hsched⟩
      exact (h.entry i d hd).linked.mpr hsched

theorem entry_change {P : Nat → DriverEntry → Prop} {f : DriverEntry → DriverEntry}
    (hother : ∀ j d, j ≠ i → s.discoveredList[j]? = some d → P j d)
    (hchg : ∀ d, s.discoveredList[i]? = some d → P i (f d)) :
    ∀ j d, (s.change i f).discoveredList[j]? = some d → P j d := by
  intro j d hd
  change (s.discoveredList.modify i f)[j]? = some d at hd
  rw [getElem?_modify] at hd
  by_cases h : i = j
  · subst h
    cases hget : s.discoveredList[i]? with
    | none =>
      rw [hget] at hd
      cases hd
    | some d₀ =>
      rw [hget] at hd
      simp only [if_true, Option.map_eq_map, Option.map_some, Option.some.injEq] at hd
      exact hd ▸ hchg d₀ hget
  · refine hother j d (fun heq => h heq.symm) ?_
    cases hget : s.discoveredList[j]? with
    | none =>
      rw [hget] at hd
      cases hd
    | some d₀ =>
      rw [hget] at hd
      simp only [if_neg h, Option.map_eq_map, Option.map_some] at hd
      exact hd

theorem length_change (f : DriverEntry → DriverEntry) :
    (s.change i f).discoveredList.length = s.discoveredList.length := length_modify _ _ _

theorem mem_append_of_ne {l : List Nat} (h : j ≠ i) : j ∈ l ++ [i] ↔ j ∈ l := by
  rw [mem_append, mem_singleton]
  exact ⟨fun hj => hj.resolve_right h, .inl⟩

theorem nodup_append_one {l : List Nat} (hl : l.Nodup) (hi : i ∉ l) : (l ++ [i]).Nodup := by
  refine nodup_append.mpr ⟨hl, pairwise_singleton _ i, ?_⟩
  rintro a ha b hb rfl
  rw [mem_singleton] at hb
  exact hi (hb ▸ ha)

theorem InOrder.append_one (h : InOrder s) (hi : i ∉ s.inserted) {inserted : List Nat}
    (heq : inserted = s.inserted ++ [i]) : inserted.Nodup ∧ ∀ pull ∈ s.pulls, pull.Ordered inserted := by
  subst heq
  exact ⟨nodup_append_one h.once hi, fun pull hpull => (h.ordered pull hpull).mono (sublist_append_left _ _)⟩

theorem EntryInv.not_queued {queue inserted started : List Nat}
    (h : EntryInv queue inserted started i d) (hsched : d.scheduled = false) : i ∉ queue := fun hi =>
  absurd (hsched.symm.trans (h.linked.mp hi)) Bool.false_ne_true

/-- A step that changes the driver at `i` only, and puts only that one on the queue, takes it off or starts
it. -/
theorem Inv.change (h : Inv s) (hd : s.discoveredList[i]? = some d) {f : DriverEntry → DriverEntry}
    {queue inserted started : List Nat} {phase : Phase}
    (hqueue : ∀ j, j ≠ i → (j ∈ queue ↔ j ∈ s.scheduledQueue))
    (hinserted : ∀ j, j ≠ i → j ∈ inserted → j ∈ s.inserted)
    (hstarted : ∀ j, j ≠ i → j ∈ started → j ∈ s.started)
    (hentry : EntryInv queue inserted started i (f d)) (hlinked : queue.Nodup) (honce : started.Nodup)
    (horder : inserted.Nodup ∧ ∀ pull ∈ s.pulls, pull.Ordered inserted) :
    Inv ⟨s.discoveredList.modify i f, queue, phase, inserted, s.pulls, started⟩ := by
  refine ⟨?_, fun j hj => ?_, hlinked, honce, horder.1, horder.2⟩
  · refine entry_change (fun j dj hne hj => ?_) fun d' hd' => ?_
    · have hold := h.entry j dj hj
      exact ⟨hold.alone, (hqueue j hne).trans hold.linked, fun hmem => hold.inserted (hinserted j hne hmem),
        fun hmem => hold.started (hstarted j hne hmem)⟩
    · obtain rfl := Option.some.inj (hd.symm.trans hd')
      exact hentry
  · refine lt_of_lt_of_eq ?_ (length_modify f _ _).symm
    by_cases hji : j = i
    · exact hji ▸ (List.getElem?_eq_some_iff.mp hd).1
    · exact h.inRange j ((hqueue j hji).mp hj)

theorem Inv.link (h : Inv s) (hdependent : s.has i (·.dependent) = true) : Inv (s.link i) := by
  obtain ⟨d,hd,hdep⟩ := has_iff.mp hdependent
  have hent := h.entry i d hd
  have halone := hent.alone
  have hone := toNat_of_true hdep
  unfold DriverEntry.stateCount at halone
  have hsched : d.scheduled = false := false_of_toNat (by omega)
  have huntrusted : d.untrusted = false := false_of_toNat (by omega)
  have hinit : d.initialized = false := false_of_toNat (by omega)
  have hinserted : i ∉ s.inserted := by
    intro hi
    obtain h' | h' | h' := hent.inserted hi
    · exact absurd (hsched.symm.trans h') Bool.false_ne_true
    · exact absurd (huntrusted.symm.trans h') Bool.false_ne_true
    · exact absurd (hinit.symm.trans h') Bool.false_ne_true
  refine h.change hd (fun _ => mem_append_of_ne) (fun _ hne => (mem_append_of_ne hne).mp) (fun _ _ => id) ?_
    (nodup_append_one h.linkedOnce (hent.not_queued hsched)) h.startedOnce (h.inOrder.append_one hinserted rfl)
  refine ⟨?_, ⟨fun _ => rfl, fun _ => mem_append_right _ (mem_singleton_self i)⟩, fun _ => .inl rfl, hent.started⟩
  show false.toNat+d.unrequested.toNat+true.toNat+d.untrusted.toNat+d.initialized.toNat +
    d.depexProtocolError.toNat ≤ 1
  simp only [Bool.toNat_false, Bool.toNat_true]
  omega

theorem Inv.linkAll (h : Inv s) (hnodup : block.Nodup)
    (hdep : ∀ j ∈ block, s.has j (·.dependent) = true) : Inv (linkAll block s) := by
  induction block generalizing s with
  | nil => exact h
  | cons i block ih =>
    obtain ⟨hi,hblock⟩ := nodup_cons.mp hnodup
    refine ih (h.link (hdep i mem_cons_self)) hblock ?_
    intro j hj
    have hone := @has_dependent_linkAll s j [i]
    refine hone.mpr ⟨hdep j (mem_cons_of_mem _ hj), ?_⟩
    rw [mem_singleton]
    rintro rfl
    exact hi hj

theorem Inv.insert (h : Inv s) (hbrings : Brings s i [] block t) :
    Inv t ∧ ∀ m ∈ momentsTo s t, WellScheduled m := by
  obtain ⟨more,rfl,hmore⟩ := hbrings.linked
  have hall := h.linkAll hbrings.nodup hbrings.dependent
  constructor
  · refine ⟨hall.entry, hall.inRange, hall.linkedOnce, hall.startedOnce, hall.inOrder.once, ?_⟩
    intro pull hpull
    rw [inserted_linkAll]
    obtain hold | hnew := mem_append.mp hpull
    · exact (h.inOrder.ordered pull hold).mono (sublist_append_left _ _)
    · refine (hmore pull hnew).mono ?_
      rw [append_nil]
      exact sublist_append_right _ _
  · intro m hm
    obtain ⟨done,hdone,rfl⟩ := mem_map.mp hm
    rw [inserted_linkAll, drop_left, mem_inits] at hdone
    refine (h.linkAll (hbrings.nodup.sublist hdone.sublist) ?_).wellScheduled
    exact fun j hj => hbrings.dependent j (hdone.subset hj)

theorem corePreProcessDepex_states (d : DriverEntry) (depex : Depex) :
    (corePreProcessDepex d depex).scheduled = d.scheduled ∧
    (corePreProcessDepex d depex).untrusted = d.untrusted ∧
    (corePreProcessDepex d depex).initialized = d.initialized ∧
    (corePreProcessDepex d depex).dependent = (d.dependent || depex.opcode != .sor) ∧
    (corePreProcessDepex d depex).unrequested = (d.unrequested || depex.opcode == .sor) := by
  have hguid : ∀ e : DriverEntry, ∀ g, e.dependent = (d.dependent || depex.opcode != .sor) →
      e.unrequested = (d.unrequested || depex.opcode == .sor) → e.scheduled = d.scheduled →
      e.untrusted = d.untrusted → e.initialized = d.initialized → ∀ e', e' = e.setGuid g →
      e'.scheduled = d.scheduled ∧ e'.untrusted = d.untrusted ∧ e'.initialized = d.initialized ∧
        e'.dependent = (d.dependent || depex.opcode != .sor) ∧
        e'.unrequested = (d.unrequested || depex.opcode == .sor) := by
    rintro e g hdep hunreq hs hu hi e' rfl
    unfold DriverEntry.setGuid
    split
    · exact ⟨hs, hu, hi, hdep, hunreq⟩
    · exact ⟨hs, hu, hi, hdep, hunreq⟩
  obtain ⟨opcode,guid⟩ := depex
  cases opcode with
  | before =>
    exact hguid { d with dependent := true, before := true } guid (Bool.or_true _).symm
      (Bool.or_false _).symm rfl rfl rfl _ rfl
  | after =>
    exact hguid { d with dependent := true, after := true } guid (Bool.or_true _).symm
      (Bool.or_false _).symm rfl rfl rfl _ rfl
  | sor =>
    exact hguid { d with unrequested := true } guid (Bool.or_false _).symm (Bool.or_true _).symm
      rfl rfl rfl _ rfl
  | other =>
    exact hguid { d with dependent := true } guid (Bool.or_true _).symm (Bool.or_false _).symm
      rfl rfl rfl _ rfl

theorem coreGetDepexSectionAndPreProccess_states (depexSection : DepexSection)
    (hdependent : d.dependent = false) (hunrequested : d.unrequested = false) :
    (coreGetDepexSectionAndPreProccess d depexSection).scheduled = d.scheduled ∧
    (coreGetDepexSectionAndPreProccess d depexSection).untrusted = d.untrusted ∧
    (coreGetDepexSectionAndPreProccess d depexSection).initialized = d.initialized ∧
    (coreGetDepexSectionAndPreProccess d depexSection).dependent.toNat +
      (coreGetDepexSectionAndPreProccess d depexSection).unrequested.toNat +
      (coreGetDepexSectionAndPreProccess d depexSection).depexProtocolError.toNat ≤ 1 := by
  unfold coreGetDepexSectionAndPreProccess
  cases depexSection with
  | protocolError =>
    refine ⟨rfl, rfl, rfl, ?_⟩
    dsimp only
    rw [hdependent, hunrequested]
    decide
  | missing =>
    refine ⟨rfl, rfl, rfl, ?_⟩
    dsimp only
    rw [hunrequested]
    decide
  | found depex =>
    obtain ⟨hs,hu,hi,hdep,hunreq⟩ := corePreProcessDepex_states d depex
    refine ⟨hs, hu, hi, ?_⟩
    dsimp only
    rw [hdep, hunreq, hdependent, hunrequested]
    cases depex.opcode <;> decide

section
variable (h : Inv s)
include h

theorem Inv.changeStates (hd : s.discoveredList[i]? = some d) {f : DriverEntry → DriverEntry}
    (hentry : EntryInv s.scheduledQueue s.inserted s.started i (f d)) : Inv (s.change i f) :=
  h.change hd (fun _ _ => Iff.rfl) (fun _ _ => id) (fun _ _ => id) hentry h.linkedOnce h.startedOnce
    ⟨h.inOrder.once, h.inOrder.ordered⟩

theorem Inv.retry (depexSection : DepexSection) : Inv (s.retry i depexSection) := by
  unfold State.retry
  split
  · rename_i herror
    obtain ⟨d,hd,herr⟩ := has_iff.mp herror
    have hent := h.entry i d hd
    have halone := hent.alone
    have hone := toNat_of_true herr
    unfold DriverEntry.stateCount at halone
    have hdep : d.dependent = false := false_of_toNat (by omega)
    have hunrequested : d.unrequested = false := false_of_toNat (by omega)
    have hsched : d.scheduled = false := false_of_toNat (by omega)
    have huntrusted : d.untrusted = false := false_of_toNat (by omega)
    have hinit : d.initialized = false := false_of_toNat (by omega)
    obtain ⟨hs,hu,hi,hwaiting⟩ := coreGetDepexSectionAndPreProccess_states depexSection hdep hunrequested
    refine h.changeStates hd ⟨?_, ?_, ?_, ?_⟩
    · unfold DriverEntry.stateCount
      rw [hs, hu, hi, hsched, huntrusted, hinit, Bool.toNat_false]
      omega
    · rw [hs]
      exact hent.linked
    · rw [hs, hu, hi]
      exact hent.inserted
    · rw [hi]
      exact hent.started
  · exact h

theorem Inv.coreSchedule (firmwareVolumeHandle : EfiHandle) (driverName : EfiGuid) :
    Inv (coreSchedule s firmwareVolumeHandle driverName).2 := by
  unfold Dispatcher.coreSchedule
  split
  · exact h
  rename_i i hfind
  obtain ⟨hlt,hfnd,-⟩ := findIdx?_eq_some_iff_getElem.mp hfind
  have hd := getElem?_eq_getElem hlt
  have hent := h.entry i _ hd
  generalize s.discoveredList[i] = d at hd hent hfnd
  simp only [Bool.and_eq_true] at hfnd
  have halone := hent.alone
  have hone := toNat_of_true hfnd.1.2
  unfold DriverEntry.stateCount at halone
  refine h.changeStates hd ⟨?_, hent.linked, hent.inserted, hent.started⟩
  show true.toNat+false.toNat+d.scheduled.toNat+d.untrusted.toNat+d.initialized.toNat +
    d.depexProtocolError.toNat ≤ 1
  simp only [Bool.toNat_false, Bool.toNat_true]
  omega

theorem Inv.coreTrust (firmwareVolumeHandle : EfiHandle) (driverName : EfiGuid) :
    Inv (coreTrust s firmwareVolumeHandle driverName).2 := by
  unfold Dispatcher.coreTrust
  split
  · exact h
  rename_i i hfind
  obtain ⟨hlt,hfnd,-⟩ := findIdx?_eq_some_iff_getElem.mp hfind
  have hd := getElem?_eq_getElem hlt
  have hent := h.entry i _ hd
  generalize s.discoveredList[i] = d at hd hent hfnd
  simp only [Bool.and_eq_true] at hfnd
  have halone := hent.alone
  have hone := toNat_of_true hfnd.1.2
  unfold DriverEntry.stateCount at halone
  have hsched : d.scheduled = false := false_of_toNat (by omega)
  refine h.change hd (fun _ => mem_append_of_ne) (fun _ _ => id) (fun _ _ => id) ?_
    (nodup_append_one h.linkedOnce (hent.not_queued hsched)) h.startedOnce ⟨h.inOrder.once, h.inOrder.ordered⟩
  refine ⟨?_, ⟨fun _ => rfl, fun _ => mem_append_right _ (mem_singleton_self i)⟩, fun _ => .inl rfl, hent.started⟩
  show d.dependent.toNat+d.unrequested.toNat+true.toNat+false.toNat+d.initialized.toNat +
    d.depexProtocolError.toNat ≤ 1
  simp only [Bool.toNat_false, Bool.toNat_true]
  omega

theorem Inv.dequeue {rest : List Nat} (hqueue : s.scheduledQueue = i :: rest) :
    ∃ d, s.discoveredList[i]? = some d ∧ EntryInv s.scheduledQueue s.inserted s.started i d ∧
      d.scheduled = true ∧ i ∉ rest ∧ rest.Nodup ∧ ∀ j, j ≠ i → (j ∈ rest ↔ j ∈ s.scheduledQueue) := by
  have hmem : i ∈ s.scheduledQueue := by
    rw [hqueue]
    exact mem_cons_self
  have hd := getElem?_eq_getElem (h.inRange i hmem)
  have hent := h.entry i _ hd
  have hnodup := h.linkedOnce
  rw [hqueue] at hnodup
  obtain ⟨hnot,hrest⟩ := nodup_cons.mp hnodup
  refine ⟨_, hd, hent, hent.linked.mp hmem, hnot, hrest, fun j hne => ?_⟩
  rw [hqueue, mem_cons]
  exact ⟨.inr, fun hj => hj.resolve_left hne⟩

theorem Inv.loadFails {securityViolation imageHandle : Bool}
    (hstep : step s (.loadFails securityViolation imageHandle) = some t) : Inv t := by
  simp only [step] at hstep
  split at hstep
  · rename_i i rest hphase hqueue
    split at hstep
    · cases hstep
    cases hstep
    obtain ⟨d,hd,hent,hsched,hnot,hrest,hothers⟩ := h.dequeue hqueue
    have halone := hent.alone
    have hone := toNat_of_true hsched
    unfold DriverEntry.stateCount at halone
    have huntrusted : d.untrusted = false := false_of_toNat (by omega)
    have hinit : d.initialized = false := false_of_toNat (by omega)
    refine h.change hd hothers (fun _ _ => id) (fun _ _ => id) ?_ hrest h.startedOnce
      ⟨h.inOrder.once, h.inOrder.ordered⟩
    refine ⟨?_, ⟨fun hi => absurd hi hnot, nofun⟩, fun _ => ?_, fun hi => ?_⟩
    · rw [huntrusted, hinit] at *
      cases securityViolation
      all_goals
        unfold DriverEntry.stateCount
        simp only [Bool.toNat_false, Bool.toNat_true, Bool.false_eq_true, if_true, if_false]
        omega
    · cases securityViolation
      · exact .inr (.inr rfl)
      · exact .inr (.inl rfl)
    · exact absurd (hinit.symm.trans (hent.started hi)) Bool.false_ne_true
  · cases hstep

theorem Inv.start (hstep : step s .start = some t) : Inv t := by
  simp only [step] at hstep
  split at hstep
  · rename_i i rest hphase hqueue
    cases hstep
    obtain ⟨d,hd,hent,hsched,hnot,hrest,hothers⟩ := h.dequeue hqueue
    have halone := hent.alone
    have hone := toNat_of_true hsched
    unfold DriverEntry.stateCount at halone
    have hinit : d.initialized = false := false_of_toNat (by omega)
    have hstart : i ∉ s.started := fun hi =>
      absurd (hinit.symm.trans (hent.started hi)) Bool.false_ne_true
    refine h.change hd hothers (fun _ _ => id) (fun _ hne => (mem_append_of_ne hne).mp) ?_ hrest
      (nodup_append_one h.startedOnce hstart) ⟨h.inOrder.once, h.inOrder.ordered⟩
    refine ⟨?_, ⟨fun hi => absurd hi hnot, nofun⟩, fun _ => .inr (.inr rfl), fun _ => rfl⟩
    show d.dependent.toNat+d.unrequested.toNat+false.toNat+d.untrusted.toNat+true.toNat +
      d.depexProtocolError.toNat ≤ 1
    simp only [Bool.toNat_false, Bool.toNat_true]
    omega
  · cases hstep

theorem Inv.phase (phase : Phase) : Inv { s with phase := phase } :=
  ⟨h.entry, h.inRange, h.linkedOnce, h.startedOnce, h.inOrder.once, h.inOrder.ordered⟩

end

theorem length_retry (depexSection : DepexSection) :
    (s.retry i depexSection).discoveredList.length = s.discoveredList.length := by
  unfold State.retry
  split
  · exact length_change _
  · rfl

variable {fuel : Nat}

theorem coreInsert_returns (hdep : s.has i (·.dependent) = true) (hreturn : NoReturn s i)
    (hfuel : s.discoveredList.length ≤ fuel) :
    ∃ block t, coreInsert fuel i s = some t ∧ Brings s i [] block t := by
  have hwaiting : ∀ j, s.has j (·.dependent) = true → Reach s i j →
      j ∈ range s.discoveredList.length := by
    intro j hj _
    obtain ⟨d,hd,-⟩ := has_iff.mp hj
    obtain ⟨hlt,-⟩ := List.getElem?_eq_some_iff.mp hd
    exact mem_range.mpr hlt
  have hlen : (range s.discoveredList.length).length ≤ fuel := by
    rw [length_range]
    exact hfuel
  obtain ⟨block,t,hins,hbrings,-⟩ := coreInsert_brings _ hlen hdep hwaiting hreturn
  exact ⟨block, t, hins, hbrings⟩

theorem eachDriver_mono {f g : Nat → State → Option State}
    (hfg : ∀ j s t, f j s = some t → g j s = some t) (js : List Nat)
    (h : eachDriver f js s = some t) : eachDriver g js s = some t := by
  induction js generalizing s with
  | nil => exact h
  | cons j js ih =>
    unfold eachDriver at h ⊢
    obtain ⟨s₁,hone,hrest⟩ := Option.bind_eq_some_iff.mp h
    rw [hfg j s s₁ hone]
    exact ih hrest

theorem coreInsert_mono (h : coreInsert fuel i s = some t) (n : Nat) : coreInsert (fuel+n) i s = some t := by
  induction fuel generalizing i s t with
  | zero => cases h
  | succ fuel ih =>
    have hpull : ∀ relation j s t, pullDriver (coreInsert fuel) relation i j s = some t →
        pullDriver (coreInsert (fuel+n)) relation i j s = some t := by
      intro relation j s t hone
      unfold pullDriver at hone ⊢
      split
      · rename_i hpulls
        rw [if_pos hpulls] at hone
        exact ih hone
      · rename_i hpulls
        rw [if_neg hpulls] at hone
        exact hone
    obtain ⟨s₁,hbef,hafter⟩ := Option.bind_eq_some_iff.mp h
    rw [Nat.add_right_comm, coreInsert, eachDriver_mono (hpull .before) _ hbef]
    exact eachDriver_mono (hpull .after) _ hafter

theorem coreInsert_eq_some (hdep : s.has i (·.dependent) = true) (hreturn : NoReturn s i)
    (h : coreInsert fuel i s = some t) : ∃ block, Brings s i [] block t := by
  obtain ⟨block,t',hins,hbrings⟩ := coreInsert_returns hdep hreturn
    (Nat.le_add_left s.discoveredList.length fuel)
  rw [coreInsert_mono h] at hins
  cases hins
  exact ⟨block, hbrings⟩

theorem Inv.look (h : Inv s) {depexSection : DepexSection} {evaluates : Bool}
    (hreturn : NoReturnAt s (.look depexSection evaluates fuel))
    (hstep : step s (.look depexSection evaluates fuel) = some t) : Inv t := by
  simp only [step] at hstep
  split at hstep
  · rename_i i readyToRun hphase
    split at hstep
    · have hretry := h.retry (i := i) depexSection
      unfold lookAt at hstep
      dsimp only at hstep
      split at hstep
      · rename_i hready
        obtain ⟨t₁,hins,rfl⟩ := Option.map_eq_some_iff.mp hstep
        obtain ⟨block,hbrings⟩ := coreInsert_eq_some hready.1 (hreturn i readyToRun hphase) hins
        exact (hretry.insert hbrings).1.phase _
      · cases hstep
        exact hretry.phase _
    · cases hstep
  · cases hstep

theorem Inv.step {action : Action} (h : Inv s) (hreturn : NoReturnAt s action)
    (hstep : step s action = some t) : Inv t := by
  cases action with
  | loadFails securityViolation imageHandle => exact h.loadFails hstep
  | start => exact h.start hstep
  | schedule firmwareVolumeHandle driverName =>
    cases hstep
    exact h.coreSchedule _ _
  | trust firmwareVolumeHandle driverName =>
    cases hstep
    exact h.coreTrust _ _
  | look depexSection evaluates fuel => exact h.look hreturn hstep
  | drained =>
    simp only [Dispatcher.step] at hstep
    split at hstep
    · cases hstep
      exact h.phase _
    · cases hstep
  | endOfList =>
    simp only [Dispatcher.step] at hstep
    split at hstep
    · split at hstep
      · cases hstep
      · cases hstep
        exact h.phase _
    · cases hstep
  | dispatch =>
    simp only [Dispatcher.step] at hstep
    split at hstep
    · cases hstep
      exact h.phase _
    · cases hstep

theorem Discovered.inv (h : Discovered s) : Inv s := by
  refine ⟨?_, ?_, h.linkedOnce, ?_, ?_, ?_⟩
  · intro i d hd
    have hlink : i ∈ s.scheduledQueue ↔ d.scheduled = true := by
      rw [h.linked i]
      unfold State.has
      rw [hd]
      rfl
    refine ⟨h.oneState d (mem_of_getElem? hd), hlink, fun hi => ?_, fun hi => ?_⟩
    · rw [h.inserted] at hi
      exact absurd hi not_mem_nil
    · rw [h.started] at hi
      exact absurd hi not_mem_nil
  · intro i hi
    obtain ⟨d,hd,-⟩ := has_iff.mp ((h.linked i).mp hi)
    exact (List.getElem?_eq_some_iff.mp hd).1
  · rw [h.started]
    exact nodup_nil
  · rw [h.inserted]
    exact nodup_nil
  · rw [h.pulls]
    exact nofun

def discovered (fileName : EfiGuid) (before after : Bool) (beforeAfterGuid : EfiGuid) : DriverEntry :=
  { fvHandle := 0, fileName := fileName, before := before, after := after
    beforeAfterGuid := beforeAfterGuid, dependent := true, unrequested := false, scheduled := false
    untrusted := false, initialized := false, depexProtocolError := false, imageHandle := false
    isFvImage := false }

def beginning (drivers : List DriverEntry) : State := ⟨drivers, [], .drain, [], [], []⟩

theorem discovered_beginning {drivers : List DriverEntry}
    (h : ∀ d ∈ drivers, d.stateCount+d.depexProtocolError.toNat ≤ 1 ∧ d.scheduled = false) :
    Discovered (beginning drivers) := by
  refine ⟨fun d hd => (h d hd).1, nodup_nil, fun i => ?_, rfl, rfl, rfl⟩
  rw [has_iff]
  constructor
  · exact fun hi => absurd hi not_mem_nil
  · rintro ⟨d,hd,hsched⟩
    exact absurd ((h d (mem_of_getElem? hd)).2.symm.trans hsched) Bool.false_ne_true

/-- No two discovered drivers have one file name. -/
def Distinct (s : State) : Prop :=
  ∀ i j name, s.has i (·.fileName == name) = true → s.has j (·.fileName == name) = true → i = j

theorem Distinct.change {f : DriverEntry → DriverEntry} (h : Distinct s) (hf : ∀ d, (f d).fileName = d.fileName) :
    Distinct (s.change i f) := by
  simpa only [Distinct, has_change, hf, ite_self] using h

theorem Distinct.retry (h : Distinct s) (depexSection : DepexSection) : Distinct (s.retry i depexSection) := by
  unfold State.retry
  split
  · refine h.change fun d => ?_
    cases depexSection with
    | found depex =>
      simp only [coreGetDepexSectionAndPreProccess, corePreProcessDepex, DriverEntry.setGuid, DriverEntry.setRelation,
        DriverEntry.setRequested]
      split_ifs <;> rfl
    | _ => rfl
  · exact h

theorem Distinct.linkAll (h : Distinct s) : Distinct (linkAll block s) := by
  induction block generalizing s with
  | nil => exact h
  | cons m block ih => exact ih (h.change fun _ => rfl)

/-- With different file names a driver has its relation to one other driver, so that no driver without one
brings along one that comes back to itself. -/
theorem noReturn_of_distinct (hdist : Distinct s) (hroot : s.has i (fun d => d.before || d.after) = false) :
    NoReturn s i := by
  have hrelated : ∀ {relation j k}, s.related relation j k = true → ∃ dk, s.discoveredList[k]? = some dk ∧
      dk.isRelated relation = true ∧ s.has j (·.fileName == dk.beforeAfterGuid) = true := by
    intro relation j k hrel
    obtain ⟨-,hhas⟩ := Bool.and_eq_true_iff.mp hrel
    obtain ⟨dj,hj,hhas⟩ := has_iff.mp hhas
    obtain ⟨dk,hk,hand⟩ := has_iff.mp hhas
    obtain ⟨hisrel,hname⟩ := Bool.and_eq_true_iff.mp hand
    exact ⟨dk, hk, hisrel, has_iff.mpr ⟨dj, hj, hname⟩⟩
  -- the driver that another one is pulled by
  have huniq : ∀ {j j' k}, Pulls s j k → Pulls s j' k → j = j' := by
    rintro j j' k ⟨relation,hrel,-⟩ ⟨relation',hrel',-⟩
    obtain ⟨dk,hk,-,hname⟩ := hrelated hrel
    obtain ⟨dk',hk',-,hname'⟩ := hrelated hrel'
    cases hk.symm.trans hk'
    exact hdist j j' _ hname hname'
  have hroots : ∀ j, ¬ Pulls s j i := by
    rintro j ⟨relation,hrel,-⟩
    obtain ⟨di,hi,hisrel,-⟩ := hrelated hrel
    have hone : s.has i (fun d => d.before || d.after) = true := by
      refine has_iff.mpr ⟨di, hi, ?_⟩
      cases relation with
      | before => exact Bool.or_eq_true_iff.mpr (.inl hisrel)
      | after => exact Bool.or_eq_true_iff.mpr (.inr hisrel)
    exact absurd (hroot.symm.trans hone) Bool.false_ne_true
  have hcycle : ∀ {j}, Reach s i j → ¬ Relation.TransGen (Pulls s) j j := by
    intro j hreach
    induction hreach with
    | refl =>
      intro hback
      obtain ⟨k,-,hpull⟩ := Relation.TransGen.tail'_iff.mp hback
      exact hroots k hpull
    | @tail k j _ hpull ih =>
      intro hback
      obtain ⟨k',hto,hpull'⟩ := Relation.TransGen.tail'_iff.mp hback
      obtain rfl := huniq hpull hpull'
      exact ih (Relation.TransGen.head' hpull hto)
  intro j k hreach hbef hdep hback
  exact hcycle hreach (Relation.TransGen.head' ⟨.before, hbef, hdep⟩ hback)

/-- Two drivers, the second BEFORE the first. -/
def twoDrivers : State := beginning [discovered 1 false false 0, discovered 2 true false 1]

theorem discovered_twoDrivers : Discovered twoDrivers := discovered_beginning (by decide)

theorem distinct_twoDrivers : Distinct twoDrivers := by
  rintro (_ | _ | i) (_ | _ | j) name hi hj <;> simp [twoDrivers, State.has, beginning, discovered] at hi hj
  all_goals first
    | rfl
    | exact absurd (hi.trans hj.symm) (by decide)

theorem Distinct.step {action : Action} (h : Distinct s) (hinv : Inv s) (hstep : step s action = some t) :
    Inv t ∧ Distinct t := by
  cases action with
  | look depexSection evaluates fuel =>
    simp only [Dispatcher.step] at hstep
    split at hstep
    · rename_i i _ _
      split at hstep
      · have hretry := hinv.retry (i := i) depexSection
        have hnames := h.retry (i := i) depexSection
        unfold lookAt at hstep
        dsimp only at hstep
        split at hstep
        · rename_i hready
          have hroot : (s.retry i depexSection).has i (fun d => d.before || d.after) = false := by
            obtain ⟨d,hd,hrun⟩ := has_iff.mp hready.2
            unfold State.has
            rw [hd]
            unfold coreIsSchedulable at hrun
            split at hrun
            · cases hrun
            · simp_all
          obtain ⟨t₁,hins,rfl⟩ := Option.map_eq_some_iff.mp hstep
          obtain ⟨block,hbrings⟩ := coreInsert_eq_some hready.1 (noReturn_of_distinct hnames hroot) hins
          obtain ⟨more,rfl,-⟩ := hbrings.linked
          exact ⟨(hretry.insert hbrings).1.phase _, hnames.linkAll⟩
        · cases hstep
          exact ⟨hretry.phase _, hnames⟩
      · cases hstep
    · cases hstep
  | _ =>
    refine ⟨hinv.step (by trivial) hstep, ?_⟩
    simp only [Dispatcher.step, Dispatcher.coreSchedule, Dispatcher.coreTrust] at hstep
    repeat' split at hstep
    all_goals cases hstep
    all_goals first
      | exact h
      | exact h.change fun _ => rfl

end Liano.Dispatcher
