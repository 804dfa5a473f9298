import Liano.Variable.StoreWrites

/-! Single writes to the non-volatile store in flash. A write leaves some first part of its data in
the store, all of it exactly when it succeeds; a change of an entry's state is one byte, so it
happens or it does not. -/
namespace Liano.Variable

open List

open Bytes (slice patch HoldsAt)

structure FlashVolume (c : VariableConfig) : Prop where
  notEmulated : c.emuNvMode = false
  covered : c.blocks.sum = c.fvLength

/-- The store in flash is `b`. -/
structure InFlash (c : VariableConfig) (st : VariableState) (b : Bytes) : Prop where
  holds : HoldsAt st.flash c.nonVolatileVariableBase b
  length : st.flash.length = c.fvLength

def OnlyFlash (st st' : VariableState) : Prop :=
  st' = { st with flash := st'.flash, fvbStatus := st'.fvbStatus }

theorem OnlyFlash.refl (st : VariableState) : OnlyFlash st st := rfl

theorem OnlyFlash.trans {st st' st'' : VariableState} (h : OnlyFlash st st')
    (h' : OnlyFlash st' st'') : OnlyFlash st st'' := by
  unfold OnlyFlash at h h' ⊢
  rw [h', h]

theorem OnlyFlash.memory {st st' : VariableState} (h : OnlyFlash st st') : st'.memory = st.memory := by
  rw [h]

theorem Clears.take {old data : Bytes} (h : Clears old data) (n : Nat) :
    Clears (old.take n) (data.take n) := forall₂_take n h

theorem erased_and (n : UInt8) : 0xff &&& n = n := by
  apply UInt8.toBitVec_inj.mp
  rw [UInt8.toBitVec_and]
  exact BitVec.allOnes_and

theorem clears_erased (data : Bytes) : Clears (replicate data.length 0xff) data := by
  induction data with
  | nil => exact List.Forall₂.nil
  | cons n data ih => exact List.Forall₂.cons (erased_and n) ih

theorem clears_singleton {o n : UInt8} (h : o &&& n = n) : Clears [o] [n] :=
  List.Forall₂.cons h List.Forall₂.nil

variable {c : VariableConfig} {st : VariableState} {b data : Bytes} {off : Nat}

def WrittenPart (c : VariableConfig) (st : VariableState) (b data : Bytes) (off : Nat)
    (r : VariableState × EfiStatus) : Prop :=
  OnlyFlash st r.1 ∧ ∃ n ≤ data.length, InFlash c r.1 (patch b off (data.take n)) ∧
    (r.2.isError = false ↔ n = data.length)

theorem updateVariableStore_nv (hc : FlashVolume c) (hst : InFlash c st b)
    (hoff : off+data.length ≤ b.length) (hclears : Clears (slice b off data.length) data)
    (hdata : data ≠ []) : WrittenPart c st b data off (updateVariableStore c st false off data) := by
  have hpos : data.length ≠ 0 := fun h => hdata (eq_nil_of_length_eq_zero h)
  have hbnd := hst.holds.length_le
  have hlen := hst.length
  have hcov := hc.covered
  have hflash : (!false && !c.emuNvMode) = true := by rw [hc.notEmulated]; rfl
  rw [updateVariableStore, if_pos hflash]
  by_cases hfvb : st.fvbInstance = true
  · rw [hfvb, if_neg (by decide), if_neg (by omega)]
    obtain ⟨n,k,hn,hrun,hok,-⟩ := @writeBlocks_outcome c c.blocks 0
      (off+c.nonVolatileVariableBase) data st (Nat.zero_le _) (by omega) (by omega) hdata
    have htake : (data.take n).length = n := by
      rw [length_take]
      omega
    have hslice : slice b off n = (slice b off data.length).take n := by
      rw [slice, slice, take_take, min_eq_left hn]
    have hclears' : Clears (slice st.flash (off+c.nonVolatileVariableBase)
        (data.take n).length) (data.take n) := by
      rw [htake, add_comm, hst.holds.slice_eq (by omega), hslice]
      exact hclears.take n
    have hprog := @programFlash_eq c.flashDevice (data.take n) st.flash
      (off+c.nonVolatileVariableBase) hclears'
    refine ⟨?_, n, hn, ⟨?_, ?_⟩, hok⟩
    · unfold OnlyFlash
      rw [hrun]
    · rw [hrun]
      dsimp only
      rw [hprog, add_comm]
      exact hst.holds.patch (by omega)
    · rw [hrun]
      dsimp only
      rw [length_programFlash (by omega)]
      exact hlen
  · rw [Bool.not_eq_true] at hfvb
    rw [hfvb, if_pos (by decide)]
    refine ⟨OnlyFlash.refl st, 0, Nat.zero_le _, ?_, ?_⟩
    · rw [take_zero, Bytes.patch_nil]
      exact hst
    · exact ⟨Bool.noConfusion, fun h => absurd h.symm hpos⟩

theorem updateVariableStore_byte (hc : FlashVolume c) (hst : InFlash c st b) {n : UInt8}
    (hoff : off < b.length) (hclears : b.getD off 0 &&& n = n) :
    OnlyFlash st (updateVariableStore c st false off [n]).1 ∧
      ((updateVariableStore c st false off [n]).2.isError = true ∧
          InFlash c (updateVariableStore c st false off [n]).1 b ∨
        (updateVariableStore c st false off [n]).2.isError = false ∧
          InFlash c (updateVariableStore c st false off [n]).1 (patch b off [n])) := by
  have hslice : slice b off [n].length = [b.getD off 0] := by
    apply ext_getElem?
    intro i
    rw [Bytes.getElem?_slice, length_singleton]
    by_cases hi : i < 1
    · have hzero : i = 0 := by omega
      rw [if_pos hi, hzero, add_zero, getElem?_cons_zero, getD_eq_getElem?_getD,
        getElem?_eq_getElem hoff]
      rfl
    · rw [if_neg hi, getElem?_eq_none (by simp; omega)]
  obtain ⟨honly,k,hk,hflash,hok⟩ := updateVariableStore_nv hc hst
    (by rw [length_singleton]; exact hoff) (by rw [hslice]; exact clears_singleton hclears)
    (cons_ne_nil n [])
  rw [length_singleton] at hk hok
  refine ⟨honly, ?_⟩
  by_cases hone : k = 1
  · right
    rw [hone] at hflash
    exact ⟨hok.mpr hone, hflash⟩
  left
  have hzero : k = 0 := by omega
  rw [hzero, take_zero, Bytes.patch_nil] at hflash
  refine ⟨?_, hflash⟩
  rw [← Bool.not_eq_false]
  exact fun h => hone (hok.mp h)

/-- The store is `m`, in flash and in the cache. -/
structure NvImage (c : VariableConfig) (st : VariableState) (m : StoreImage c.authFormat) : Prop where
  flash : InFlash c st m.bytes
  cache : st.memory.nvVariableCache = m.bytes

variable {m : StoreImage c.authFormat}

def SameRest (st st' : VariableState) : Prop :=
  st' = { st with memory := st'.memory, flash := st'.flash, fvbStatus := st'.fvbStatus }

theorem SameRest.refl (st : VariableState) : SameRest st st := rfl

theorem SameRest.setStore (st : VariableState) (id : CacheId) (b : Bytes) :
    SameRest st (st.setStore id b) := rfl

theorem SameRest.trans {st st' st'' : VariableState} (h : SameRest st st')
    (h' : SameRest st' st'') : SameRest st st'' := by
  unfold SameRest at h h' ⊢
  rw [h', h]

theorem SameRest.nvOffset {st st' : VariableState} (h : SameRest st st') :
    st'.nonVolatileLastVariableOffset = st.nonVolatileLastVariableOffset := by rw [h]

theorem OnlyFlash.sameRest {st st' : VariableState} (h : OnlyFlash st st') : SameRest st st' := by
  unfold SameRest
  rw [h]

theorem updateState_nv (hc : FlashVolume c) (hst : NvImage c st m) {pre post : List Bytes}
    {e : Bytes} (hes : m.entries = pre ++ e :: post) (mask : UInt8) (hstate : state e 0 ≠ 0xff)
    (hmask : state e 0 &&& mask ≠ 0xff) :
    SameRest st (updateState c st .nv (getStartPointer+pre.flatten.length) mask).1 ∧
      ((updateState c st .nv (getStartPointer+pre.flatten.length) mask).2.isError = true ∧
          NvImage c (updateState c st .nv (getStartPointer+pre.flatten.length) mask).1 m ∨
        (updateState c st .nv (getStartPointer+pre.flatten.length) mask).2.isError = false ∧
          ∃ m' : StoreImage c.authFormat,
            m'.entries = pre ++ setState e (state e 0 &&& mask) :: post ∧ m'.tail = m.tail ∧
            m'.header = m.header ∧
            NvImage c (updateState c st .nv (getStartPointer+pre.flatten.length) mask).1 m') := by
  have he : IsEntry c.authFormat e := m.isEntry e (by rw [hes]; simp)
  have hat : (getStartPointer+pre.flatten.length, e) ∈ m.locatedEntries :=
    mem_located.mpr ⟨pre, post, hes, rfl⟩
  have hold := StoreImage.holdsAt hat
  have hlt : offsetOfState < e.length := he.header_lt (by decide)
  have hread : state m.bytes (getStartPointer+pre.flatten.length) = state e 0 := state_of_holdsAt he hold
  have hget : m.bytes.getD (getStartPointer+pre.flatten.length+offsetOfState) 0 = state e 0 := hread
  have hbnd : getStartPointer+pre.flatten.length+e.length ≤ m.bytes.length := hold.length_le
  have hnew : IsEntry c.authFormat (setState e (state e 0 &&& mask)) := isEntry_setState he hstate hmask
  have hpatch : (m.replace pre e (setState e (state e 0 &&& mask)) post hes (length_setState he) hnew).bytes =
      patch m.bytes (getStartPointer+pre.flatten.length+offsetOfState)
        [state e 0 &&& mask] :=
    @StoreImage.bytes_replace_patch c.authFormat m pre post e [state e 0 &&& mask] offsetOfState
      hes (by rw [length_singleton]; exact hlt) hnew
  have hcache : state (cacheStore st .nv) (getStartPointer+pre.flatten.length) = state e 0 := by
    rw [cacheStore, hst.cache, hread]
  have hclear : state e 0 &&& (state e 0 &&& mask) = state e 0 &&& mask := by
    rw [← UInt8.and_assoc, UInt8.and_self]
  have hlt' : getStartPointer+pre.flatten.length+offsetOfState < m.bytes.length := by omega
  obtain ⟨honly,hcases⟩ := updateVariableStore_byte hc hst.flash hlt'
    (show _ &&& (state e 0 &&& mask) = _ by rw [hget]; exact hclear)
  unfold updateState
  rw [hcache]
  have hnv : (VariableStoreType.nv == VariableStoreType.volatile) = false := rfl
  rw [hnv]
  dsimp only
  rcases hcases with ⟨herr,hflash⟩ | ⟨hok,hflash⟩
  · rw [herr, if_pos (by rfl)]
    refine ⟨honly.sameRest, .inl ⟨herr, hflash, ?_⟩⟩
    rw [honly.memory]
    exact hst.cache
  rw [hok, if_neg (by decide)]
  refine ⟨honly.sameRest.trans (SameRest.setStore _ .nv _), .inr ⟨hok,
    m.replace pre e (setState e (state e 0 &&& mask)) post hes (length_setState he) hnew,
    rfl, rfl, rfl, ⟨?_, ?_⟩, ?_⟩⟩
  · rw [hpatch]
    exact hflash.holds
  · exact hflash.length
  · rw [hpatch]
    change patch (updateVariableStore c st false _ _).1.memory.nvVariableCache _ _ = _
    rw [honly.memory, hst.cache]

end Liano.Variable
