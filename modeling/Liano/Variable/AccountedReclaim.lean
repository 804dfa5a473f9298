import Liano.Variable.AccountedWrites

/-! The accounting through a reclaim of the NV store, with the fault tolerant write successful or
not, whatever the names of the entries. -/
namespace Liano.Variable

open List

open Bytes (slice patch HoldsAt)

section
variable {c : VariableConfig} {st : VariableState} {m : StoreImage c.authFormat}
  {r : ReclaimBuffer} {es : List Bytes} {e : Bytes}

/-- The buffer has the entries `es` behind the store header, and their sizes are counted. -/
structure Installed (c : VariableConfig) (m : StoreImage c.authFormat) (r : ReclaimBuffer)
    (es : List Bytes) : Prop where
  isEntry : ∀ e ∈ es, IsEntry c.authFormat e
  hasData : ∀ e ∈ es, 0 < dataSizeOfVariable c.authFormat e 0
  fits : m.header.length+es.flatten.length ≤ storeSize m.header
  buffer : r.validBuffer = m.rebuilt es
  currPtr : r.currPtr = m.header.length+es.flatten.length
  common : r.commonVariableTotalSize = kindSize false es
  hwErr : r.hwErrVariableTotalSize = kindSize true es

theorem Installed.copy (h : Installed c m r es) (he : IsEntry c.authFormat e)
    (hdata : 0 < dataSizeOfVariable c.authFormat e 0)
    (hfits : m.header.length+es.flatten.length+e.length ≤ storeSize m.header) (user : Bool) :
    Installed c m ((r.copy e).count (isHardwareErrorRecord (attributes e 0)) user e.length)
      (es ++ [e]) := by
  have hlen : (es ++ [e]).flatten.length = es.flatten.length+e.length := by
    rw [flatten_append, flatten_singleton, length_append]
  have hpatch : patch r.validBuffer r.currPtr e = m.rebuilt (es ++ [e]) := by
    rw [h.buffer, h.currPtr, StoreImage.rebuilt, StoreImage.rebuilt, ← length_append,
      patch_erased e (by omega), hlen, flatten_append, flatten_singleton, Nat.sub_add_eq]
    simp only [append_assoc]
  have hall : ∀ d ∈ es ++ [e], IsEntry c.authFormat d ∧ 0 < dataSizeOfVariable c.authFormat d 0 := by
    intro d hd
    rcases mem_append.mp hd with hd | hd
    · exact ⟨h.isEntry d hd, h.hasData d hd⟩
    · rw [mem_singleton.mp hd]
      exact ⟨he, hdata⟩
  have hkind : ∀ b, kindSize b (es ++ [e]) = kindSize b es +
      if isHardwareErrorRecord (attributes e 0) == b then e.length else 0 := by
    intro b
    rw [kindSize_append, kindSize_cons, kindSize_nil, add_zero]
  have hcommon := h.common
  have hhwErr := h.hwErr
  refine ⟨fun d hd => (hall d hd).1, fun d hd => (hall d hd).2, by rw [hlen]; omega, ?_, ?_, ?_, ?_⟩
  · rw [← hpatch]
    cases isHardwareErrorRecord (attributes e 0) <;> rfl
  · rw [hlen, ← add_assoc, ← h.currPtr]
    cases isHardwareErrorRecord (attributes e 0) <;> rfl
  · rw [hkind, ← hcommon]
    cases isHardwareErrorRecord (attributes e 0) <;> rfl
  · rw [hkind, ← hhwErr]
    cases isHardwareErrorRecord (attributes e 0) <;> rfl

/-- What a loop over some of the entries copies is of the entries that meet `p`. -/
def CopiesOf (c : VariableConfig) (m : StoreImage c.authFormat) (es : List Bytes)
    (copied : List Bytes) (r' : ReclaimBuffer) : Prop :=
  ∃ es', Installed c m r' es' ∧ ∀ b, kindSize b es' ≤ kindSize b es + kindSize b copied

theorem length_le_of_kindSize {es es' copied : List Bytes}
    (h : ∀ b, kindSize b es' ≤ kindSize b es + kindSize b copied) :
    es'.flatten.length ≤ es.flatten.length+copied.flatten.length := by
  have hfalse := h false
  have htrue := h true
  rw [← kindSize_total es', ← kindSize_total es, ← kindSize_total copied]
  omega

/-- A loop whose body copies an entry that meets `p`, as itself or promoted, or does nothing. -/
theorem foldl_copies {p : Bytes → Bool} {body : ReclaimBuffer → Nat → ReclaimBuffer}
    (hbody : ∀ x ∈ m.locatedEntries, ∀ r es, Installed c m r es →
      m.header.length+es.flatten.length+x.2.length ≤ storeSize m.header →
        body r x.1 = r ∨ p x.2 = true ∧ ∃ e, Installed c m (body r x.1) (es ++ [e]) ∧
          e.length = x.2.length ∧ attributes e 0 = attributes x.2 0)
    (l : List (Nat × Bytes)) (hl : ∀ x ∈ l, x ∈ m.locatedEntries)
    (hskip : ∀ x ∈ l, p x.2 = false → ∀ r, body r x.1 = r) (h : Installed c m r es)
    (hcap : m.header.length+es.flatten.length + ((l.map (·.2)).filter p).flatten.length ≤
      storeSize m.header) : CopiesOf c m es ((l.map (·.2)).filter p) ((l.map (·.1)).foldl body r) := by
  induction l generalizing r es with
  | nil => exact ⟨es, h, fun b => Nat.le_add_right _ _⟩
  | cons x l ih =>
    have hx := hl x mem_cons_self
    have hl' := fun y hy => hl y (mem_cons_of_mem _ hy)
    have hskip' := fun y hy => hskip y (mem_cons_of_mem _ hy)
    rw [map_cons, map_cons, foldl_cons]
    rw [map_cons] at hcap
    cases hp : p x.2 with
    | false =>
      have hneg : ¬ p x.2 = true := by rw [hp]; decide
      rw [filter_cons_of_neg hneg] at hcap ⊢
      rw [hskip x mem_cons_self hp r]
      exact ih hl' hskip' h hcap
    | true =>
      rw [filter_cons_of_pos hp] at hcap ⊢
      rw [flatten_cons, length_append] at hcap
      rcases hbody x hx r es h (by omega) with hsame | ⟨-,e,hnew,hlen,hattr⟩
      · rw [hsame]
        obtain ⟨es',hes',hle⟩ := ih hl' hskip' h (by omega)
        refine ⟨es', hes', fun b => (hle b).trans ?_⟩
        rw [kindSize_cons]
        omega
      have hlen' : (es ++ [e]).flatten.length = es.flatten.length+x.2.length := by
        rw [flatten_append, flatten_singleton, length_append, hlen]
      obtain ⟨es',hes',hle⟩ := ih hl' hskip' hnew (by omega)
      refine ⟨es', hes', fun b => (hle b).trans ?_⟩
      rw [kindSize_append, kindSize_cons, kindSize_nil, kindSize_cons, hlen, hattr]
      omega

theorem attributes_promote (he : IsEntry c.authFormat e) :
    attributes (promote e) 0 = attributes e 0 := attributes_setState he

theorem countVariable_at {x : Nat × Bytes} (hx : x ∈ m.locatedEntries) (r : ReclaimBuffer) :
    ∃ user, r.countVariable c st false m.bytes x.1 =
      r.count (isHardwareErrorRecord (attributes x.2 0)) user x.2.length := by
  have he := StoreImage.isEntry_of_mem hx
  have hat := StoreImage.holdsAt hx
  refine ⟨isUserVariable c st m.bytes x.1, ?_⟩
  rw [ReclaimBuffer.countVariable, if_ff, attributes_of_holdsAt he hat,
    next_of_holdsAt he hat (StoreImage.dvd_offset hx), Nat.add_sub_cancel_left]

theorem reinstall_installed (h : Accounted c st m) (updating : VariablePointerTrack) :
    ∃ es, Installed c m (reinstall c st false m.bytes updating (storeSize m.header)) es ∧
      ∀ b, kindSize b es ≤ kindSize b m.entries := by
  have hsum := m.storeSize_header
  have hadded : ∀ x ∈ m.locatedEntries, ∀ r es, Installed c m r es →
      m.header.length+es.flatten.length+x.2.length ≤ storeSize m.header →
        reinstallAdded c st false m.bytes updating r x.1 = r ∨ isAdded x.2 0 = true ∧
          ∃ e, Installed c m (reinstallAdded c st false m.bytes updating r x.1) (es ++ [e]) ∧
            e.length = x.2.length ∧ attributes e 0 = attributes x.2 0 := by
    intro x hx r es hr hfits
    have he := StoreImage.isEntry_of_mem hx
    unfold reinstallAdded
    split
    · rename_i hcond
      have hin : isAdded x.2 0 = true := by
        rw [← StoreImage.isAdded_bytes hx]
        exact hcond.2
      obtain ⟨user,hcnt⟩ := @countVariable_at c st m x hx (r.copy x.2)
      rw [variableAt_eq he (StoreImage.holdsAt hx) (StoreImage.dvd_offset hx), hcnt]
      exact .inr ⟨hin, x.2, hr.copy he
        (h.hasData _ (StoreImage.mem_entries hx) (inUse_of_added hin)) hfits user, rfl, rfl⟩
    · exact .inl rfl
  have htrans : ∀ x ∈ m.locatedEntries, ∀ r es, Installed c m r es →
      m.header.length+es.flatten.length+x.2.length ≤ storeSize m.header →
        reinstallTransition c st false m.bytes updating r x.1 = r ∨ isInDeletedTransition x.2 0 = true ∧
          ∃ e, Installed c m (reinstallTransition c st false m.bytes updating r x.1)
              (es ++ [e]) ∧ e.length = x.2.length ∧ attributes e 0 = attributes x.2 0 := by
    intro x hx r es hr hfits
    have he := StoreImage.isEntry_of_mem hx
    unfold reinstallTransition
    split
    · rename_i hcond
      have hin : isInDeletedTransition x.2 0 = true := by
        rw [← StoreImage.isInDeletedTransition_bytes hx]
        exact hcond.2.2.1
      have hu := inUse_of_transition hin
      have hlen : (promote x.2).length = x.2.length := length_setState he
      have hdata : 0 < dataSizeOfVariable c.authFormat (promote x.2) 0 := by
        have hsize : dataSizeOfVariable c.authFormat (promote x.2) 0 = _ :=
          dataSize_setState he (state_ne_of_inUse hu) varAdded_ne
        rw [hsize]
        exact h.hasData _ (StoreImage.mem_entries hx) hu
      have hpatch : patch (variableAt c m.bytes x.1) offsetOfState [varAdded] = promote x.2 := by
        rw [variableAt_eq he (StoreImage.holdsAt hx) (StoreImage.dvd_offset hx)]
        rfl
      obtain ⟨user,hcnt⟩ := @countVariable_at c st m x hx (r.copy (promote x.2))
      have hcopy := hr.copy (isEntry_promote he hu) hdata (by rw [hlen]; exact hfits) user
      rw [attributes_promote he, hlen] at hcopy
      rw [hpatch, hcnt]
      exact .inr ⟨hin, promote x.2, hcopy, hlen, attributes_promote he⟩
    · exact .inl rfl
  have hexcl : ∀ e : Bytes, isAdded e 0 = true → isInDeletedTransition e 0 = false :=
    fun e he => isInDeletedTransition_eq_false_of_added he
  have hshare : ∀ b, kindSize b (m.entries.filter fun e => isAdded e 0) +
      kindSize b (m.entries.filter fun e => isInDeletedTransition e 0) ≤ kindSize b m.entries :=
    fun b => kindSize_filter_le _ _ hexcl m.entries
  have htotal : (m.entries.filter fun e => isAdded e 0).flatten.length +
      (m.entries.filter fun e => isInDeletedTransition e 0).flatten.length ≤ m.entries.flatten.length := by
    have hfalse := hshare false
    have htrue := hshare true
    rw [← kindSize_total m.entries, ← kindSize_total (m.entries.filter fun e => isAdded e 0),
      ← kindSize_total (m.entries.filter fun e => isInDeletedTransition e 0)]
    omega
  have hsnd : m.locatedEntries.map (·.2) = m.entries := located_map_snd _ _
  have hstart : Installed c m (bufferOf c st false m.header (storeSize m.header - m.header.length) []) [] :=
    ⟨fun _ hd => absurd hd not_mem_nil, fun _ hd => absurd hd not_mem_nil,
      by rw [flatten_nil, length_nil]; omega, rfl, rfl, rfl, rfl⟩
  obtain ⟨es₁,hes₁,hle₁⟩ := foldl_copies (p := fun e => isAdded e 0) hadded m.locatedEntries
    (fun x hx => hx)
    (by
      intro x hx hp r
      unfold reinstallAdded
      rw [if_neg]
      rintro ⟨-,hin⟩
      rw [StoreImage.isAdded_bytes hx, hp] at hin
      exact Bool.false_ne_true hin)
    hstart (by
      rw [hsnd, flatten_nil, length_nil]
      omega)
  have hlen₁ := length_le_of_kindSize hle₁
  rw [hsnd, flatten_nil, length_nil] at hlen₁
  obtain ⟨es₂,hes₂,hle₂⟩ := foldl_copies (p := fun e => isInDeletedTransition e 0) htrans
    m.locatedEntries (fun x hx => hx)
    (by
      intro x hx hp r
      unfold reinstallTransition
      rw [if_neg]
      rintro ⟨-,-,hin,-⟩
      rw [StoreImage.isInDeletedTransition_bytes hx, hp] at hin
      exact Bool.false_ne_true hin)
    hes₁ (by
      rw [hsnd]
      omega)
  refine ⟨es₂, ?_, fun b => ?_⟩
  · rw [reinstall, initialBuffer_eq m (by rw [← m.length_header]; omega), m.headers_bytes]
    exact hes₂
  · have h₁ := hle₁ b
    have h₂ := hle₂ b
    have h₃ := hshare b
    rw [hsnd] at h₁ h₂
    rw [kindSize_nil] at h₁
    omega

structure NewVariableOk (c : VariableConfig) (w : Bytes) : Prop where
  isEntry : w.length < 2^32-1 → IsEntry c.authFormat (promote w)
  hasData : w.length < 2^32-1 → 0 < dataSizeOfVariable c.authFormat (promote w) 0
  length : (promote w).length = w.length
  attributes : attributes (promote w) 0 = attributes w 0

theorem installNew_installed {w : Bytes} (hw : NewVariableOk c w) (h : Installed c m r es)
    {r' : ReclaimBuffer} (hr : installNew c st false m.bytes r w = some r') :
    ∃ es', Installed c m r' es' ∧ kindSize false es' ≤ c.commonVariableSpace ∧
      kindSize true es' ≤ c.pcdHwErrStorageSize := by
  have hsize : storeSize m.bytes = storeSize m.header := m.storeSize_bytes
  have hlt : storeSize m.header < 2^32 := by
    have h256 : storeSize m.header < 256^4 := Bytes.leValue_slice_lt _ _ _
    omega
  have h28 : m.header.length = 28 := m.length_header
  have hcurr := h.currPtr
  unfold installNew at hr
  dsimp only at hr
  split at hr
  · cases hr
  rename_i hle
  rw [if_ff] at hr
  split at hr
  · cases hr
  rename_i hin
  rw [Bool.not_false, Bool.true_and, Bool.or_eq_true, Bool.or_eq_true, not_or, not_or,
    decide_eq_true_eq, decide_eq_true_eq] at hin
  have hr' := Option.some.inj hr
  have hcopy := h.copy (hw.isEntry (by omega)) (hw.hasData (by omega))
    (by rw [hw.length]; omega) (isUserVariable c st w 0)
  rw [count_copy, hw.attributes, hw.length] at hcopy
  rw [← hr']
  refine ⟨es ++ [promote w], hcopy, ?_, ?_⟩
  · rw [← hcopy.common]
    exact Nat.le_of_not_gt hin.1.2
  · rw [← hcopy.hwErr]
    exact Nat.le_of_not_gt hin.1.1

theorem walkTotals_accounted :
    (walkTotals c st m.bytes).commonVariableTotalSize = kindSize false m.entries ∧
      (walkTotals c st m.bytes).hwErrVariableTotalSize = kindSize true m.entries := by
  have hfold : ∀ (l : List (Nat × Bytes)), (∀ x ∈ l, x ∈ m.locatedEntries) →
      ∀ r : ReclaimBuffer,
        ((l.map (·.1)).foldl (fun r p => r.countVariable c st false m.bytes p)
            r).commonVariableTotalSize =
          r.commonVariableTotalSize + kindSize false (l.map (·.2)) ∧
        ((l.map (·.1)).foldl (fun r p => r.countVariable c st false m.bytes p)
            r).hwErrVariableTotalSize =
          r.hwErrVariableTotalSize + kindSize true (l.map (·.2)) := by
    intro l hl
    induction l with
    | nil => exact fun r => ⟨rfl, rfl⟩
    | cons x l ih =>
      intro r
      obtain ⟨user,hcnt⟩ := @countVariable_at c st m x (hl x mem_cons_self) r
      have hrest := ih (fun y hy => hl y (mem_cons_of_mem _ hy))
        (r.count (isHardwareErrorRecord (attributes x.2 0)) user x.2.length)
      rw [map_cons, map_cons, foldl_cons, hcnt, kindSize_cons, kindSize_cons,
        hrest.1, hrest.2]
      cases isHardwareErrorRecord (attributes x.2 0) <;>
        simp [ReclaimBuffer.count] <;> omega
  have hall := hfold m.locatedEntries (fun x hx => hx) ⟨[], 0, 0, 0, 0⟩
  have hsnd : m.locatedEntries.map (·.2) = m.entries := located_map_snd _ _
  rw [hsnd, zero_add, zero_add] at hall
  rw [walkTotals, m.headers_bytes]
  exact hall

/-- A fault tolerant write that fails does so before the store is erased or after it is written. -/
def Untorn (st : VariableState) : Prop :=
  (st.ftwStatus.headD .success).isError = true → ∀ flash, st.ftwLeft.headD .untouched ≠ .torn flash

/-- The store with the entries of the buffer in the place of the old one. -/
def Installed.store (h : Installed c m r es) : StoreImage c.authFormat := m.rebuild es h.isEntry h.fits

theorem Installed.written (hr : Installed c m r es) (h : NvImage c st m) :
    HoldsAt (patch st.flash c.nonVolatileVariableBase r.validBuffer) c.nonVolatileVariableBase hr.store.bytes ∧
      (patch st.flash c.nonVolatileVariableBase r.validBuffer).length = c.fvLength := by
  have hlen : hr.store.bytes.length = m.bytes.length := by
    rw [StoreImage.length_bytes, StoreImage.length_bytes]
    rfl
  have hrebuilt : r.validBuffer = hr.store.bytes := hr.buffer
  rw [hrebuilt]
  have hle := h.flash.holds.length_le
  exact ⟨holdsAt_patch_whole h.flash.holds hlen,
    (Bytes.length_patch (by rw [hlen]; exact hle)).trans h.flash.length⟩

/-- What is in flash after a fault tolerant write that is not torn, and the totals that go with it. -/
theorem ftwVariableSpace_untorn (r : ReclaimBuffer) (huntorn : Untorn st) :
    ∃ s status, ftwVariableSpace c st r.validBuffer = (s,status) ∧
      (s = { st with flash := s.flash, ftwStatus := s.ftwStatus, ftwLeft := s.ftwLeft }) ∧
      (s.flash = st.flash ∧ status.isError = true ∨
        s.flash = patch st.flash c.nonVolatileVariableBase r.validBuffer) := by
  refine ⟨_, _, rfl, rfl, ?_⟩
  dsimp only
  split
  · rename_i herr
    have hnot := huntorn herr
    split
    · exact .inl ⟨rfl, herr⟩
    · exact .inr rfl
    · rename_i flash hleft
      exact absurd hleft (hnot flash)
  · exact .inr rfl

theorem reclaim_accounted (hc : FlashVolume c) (h : Accounted c st m) (huntorn : Untorn st)
    (updating : VariablePointerTrack) {newVariable : Option Bytes}
    (hnew : ∀ w ∈ newVariable, NewVariableOk c w) :
    ∃ m' : StoreImage c.authFormat,
      Accounted c (reclaim c st false updating newVariable).1 m' := by
  have hemu := hc.notEmulated
  have hpath : (false || c.emuNvMode) = false := by rw [hemu]; rfl
  have hstore : nvStore c st = m.bytes := nvStore_of_holdsAt hemu h.image.flash.holds
  have hcacheSize : storeSize st.memory.nvVariableCache = storeSize m.header := by
    rw [h.image.cache, m.storeSize_bytes]
  obtain ⟨es,hes,hle⟩ := reinstall_installed h updating
  have hspace : kindSize false es ≤ c.commonVariableSpace ∧
      kindSize true es ≤ c.pcdHwErrStorageSize :=
    ⟨(hle false).trans h.commonSpace, (hle true).trans h.hwErrSpace⟩
  -- the state before `Done`
  have hbef : ∀ st' : VariableState, (∃ m' : StoreImage c.authFormat,
      Accounted c (st'.setStore .nv (nvStore c st')) m') →
        ∃ m', Accounted c (reclaimDone c st' false (storeSize m.bytes)).1 m' := by
    rintro st' ⟨m',hacc⟩
    refine ⟨m', ?_⟩
    rw [reclaimDone, hpath, if_ff]
    exact hacc.of_untouched (synchronize_untouched _ _ _)
  have hunchanged : ∃ m' : StoreImage c.authFormat,
      Accounted c (st.setStore .nv (nvStore c st)) m' := by
    refine ⟨m, h.of_untouched ⟨rfl, ?_, rfl, rfl, rfl⟩⟩
    rw [hstore, h.image.cache]
    rfl
  unfold reclaim
  dsimp only
  rw [if_ff, hstore, hpath, Bool.false_and, if_ff,
    if_ff, hcacheSize]
  generalize hr : reinstall c st false m.bytes updating (storeSize m.header) = r at hes ⊢
  have hback : ∀ r' es', Installed c m r' es' → kindSize false es' ≤ c.commonVariableSpace →
      kindSize true es' ≤ c.pcdHwErrStorageSize →
        ∃ m', Accounted c (reclaimDone c (writeBack c st false (storeSize m.bytes) r').1 false
          (storeSize m.bytes)).1 m' := by
    intro r' es' hr' hcommon hhwErr
    apply hbef
    unfold writeBack
    rw [hpath, if_ff]
    obtain ⟨s,status,hw,hs,hflash⟩ := ftwVariableSpace_untorn r' huntorn
    rw [hw]
    dsimp only
    have hcached : (s.setStore .nv (nvStore c s)).memory.nvVariableCache = nvStore c s := rfl
    rcases hflash with ⟨hsame,herr⟩ | hwritten
    · have hstore' : nvStore c s = m.bytes := by
        refine nvStore_of_holdsAt hemu ?_
        rw [hsame]
        exact h.image.flash.holds
      rw [if_pos herr, hstore']
      have hwalk := @walkTotals_accounted c s m
      refine ⟨m, { h with
        image := ⟨⟨?_, ?_⟩, hstore'⟩
        lastOffset := m.walk_bytes.2
        common := hwalk.1
        hwErr := hwalk.2 }⟩
      · exact hsame.symm ▸ h.image.flash.holds
      · exact hsame.symm ▸ h.image.flash.length
    obtain ⟨hhold,hlength⟩ := hr'.written h.image
    rw [← hwritten] at hhold hlength
    have hstore' : nvStore c s = hr'.store.bytes := nvStore_of_holdsAt hemu hhold
    have herased : hr'.store.tail = replicate hr'.store.tail.length 0xff := by
      change replicate _ 0xff = replicate (replicate _ 0xff).length 0xff
      rw [length_replicate]
    refine ⟨hr'.store, ?_⟩
    split
    · -- the totals are counted in flash
      rw [hstore']
      have hwalk := @walkTotals_accounted c s hr'.store
      exact ⟨⟨⟨hhold, hlength⟩, hstore'⟩, hr'.store.walk_bytes.2, herased, hwalk.1, hwalk.2, hcommon, hhwErr,
        h.space, h.alignedSpace, fun e he _ => hr'.hasData e he⟩
    · refine ⟨⟨⟨hhold, hlength⟩, hstore'⟩, ?_, herased, hr'.common, hr'.hwErr, hcommon, hhwErr, h.space,
        h.alignedSpace, fun e he _ => hr'.hasData e he⟩
      change r'.currPtr = _
      rw [hr'.currPtr, m.start_eq]
      rfl
  cases newVariable with
  | none => exact hback r es hes hspace.1 hspace.2
  | some w =>
    dsimp only
    cases hi : installNew c st false m.bytes r w with
    | none => exact hbef st hunchanged
    | some r' =>
      obtain ⟨es',hes',hcommon,hhwErr⟩ := installNew_installed (hnew w rfl) hes hi
      exact hback r' es' hes' hcommon hhwErr

end

end Liano.Variable
