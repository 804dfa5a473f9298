import Liano.Gcd.SearchSpace
import Liano.Lib.Run

/-! The owners of the addresses of a GCD map in runs of requests. -/
namespace Liano.Gcd

open Liano.Lib

def owner (map : List GcdMapEntry) (x : Nat) : Option Nat := (lookup map x).bind GcdDescriptor.imageHandle

def Request.frees (r : Request) : Bool := r.operation == .freeMemory || r.operation == .freeIo

/-- Space that an image was given, or (`none`) that was freed. -/
structure Grant where
  baseAddress : Nat
  length : Nat
  imageHandle : Option Nat
deriving DecidableEq, Repr

def Grant.Covers (g : Grant) (x : Nat) : Prop := g.baseAddress ≤ x ∧ x < g.baseAddress+g.length

instance (g : Grant) (x : Nat) : Decidable (g.Covers x) := inferInstanceAs (Decidable (_ ∧ _))

/-- The image that was given the address last, unless it was freed since. -/
def holder : List Grant → Nat → Option Nat
  | [], _ => none
  | g :: grants, x => if g.Covers x then g.imageHandle else holder grants x

/-- Only what nobody holds was given to an image, and only what somebody holds was freed. -/
def Exclusive : List Grant → Prop
  | [] => True
  | g :: grants => (∀ x, g.Covers x → (holder grants x).isSome = g.imageHandle.isNone) ∧ Exclusive grants

structure GcdRun where
  map : List GcdMapEntry
  /-- The latest first. -/
  grants : List Grant

inductive Action
  | allocate (allocated : Bool) (r : AllocateRequest)
  | convert (cpu : CpuArchProtocol) (allocated : Bool) (r : Request)

def gcdStep (s : GcdRun) : Action → Option GcdRun
  | .allocate allocated r =>
    (coreAllocateSpace allocated r s.map (s.map.length+1)).map fun (map,baseAddress,status) =>
      ⟨map, if status.isError then s.grants else ⟨baseAddress, r.length, r.imageHandle⟩ :: s.grants⟩
  | .convert cpu allocated r => (coreConvertSpace cpu allocated r s.map).map fun (map,status) =>
      ⟨map, if !status.isError && r.frees then ⟨r.baseAddress, r.length, none⟩ :: s.grants else s.grants⟩

/-- No length exceeds the address space, and no range wraps. -/
def Legal (max : Nat) (_ : GcdRun) : Action → Prop
  | .allocate _ r => r.length ≤ max+1
  | .convert _ _ r => r.baseAddress+r.length ≤ 2^64

/-- The map `CoreInitializeGcdServices` starts with, for so many address lines. -/
def initialMap (sizeOfSpace : Nat) : List GcdMapEntry :=
  [⟨0, 2^sizeOfSpace - 1, ⟨0, 0, .nonExistent, .nonExistent, none, none⟩⟩]

structure Owned (max : Nat) (s : GcdRun) : Prop where
  tiles : Tiles 0 s.map (max+1)
  owner : ∀ x, owner s.map x = holder s.grants x
  exclusive : Exclusive s.grants

section
variable {max : Nat} {s : GcdRun} {map' : List GcdMapEntry} {status : EfiStatus}

theorem Owned.grant (h : Owned max s) {g : Grant} (htiles : Tiles 0 map' (max+1))
    (hfree : ∀ x, g.Covers x → (Gcd.owner s.map x).isSome = g.imageHandle.isNone)
    (howner : ∀ x, Gcd.owner map' x = if g.Covers x then g.imageHandle else Gcd.owner s.map x) :
    Owned max ⟨map', g :: s.grants⟩ where
  tiles := htiles
  owner x := by
    rw [howner, h.owner]
    rfl
  exclusive := ⟨fun x hx => h.owner x ▸ hfree x hx, h.exclusive⟩

theorem changeEntry_imageHandle (r : Request) (c attributes : BitVec 64) (d : GcdDescriptor) :
    (changeEntry r c attributes d).2.imageHandle = if r.frees then none else d.imageHandle := by
  cases hop : r.operation <;> simp [changeEntry, Request.frees, hop]

theorem owner_thread (r : Request) (c attributes : BitVec 64) (entries : List GcdMapEntry) (x : Nat) :
    owner (thread (changeEntry r c) attributes entries) x = if r.frees then none else owner entries x := by
  unfold owner
  induction entries generalizing attributes with
  | nil => simp [thread, lookup]
  | cons e entries ih =>
    rw [thread, lookup, lookup]
    by_cases hin : e.Holds x
    · rw [if_pos (by exact hin), if_pos hin, Option.bind_some, Option.bind_some, changeEntry_imageHandle]
    · rw [if_neg (by exact hin), if_neg hin, ih]

theorem Owned.allocate (h : Owned max s) (hmax : max < 2^63) {allocated : Bool} {r : AllocateRequest}
    {fuel base : Nat} (hlength : r.length ≤ max+1)
    (hrun : coreAllocateSpace allocated r s.map fuel = some (map',base,status)) :
    Owned max ⟨map', if status.isError then s.grants else ⟨base, r.length, r.imageHandle⟩ :: s.grants⟩ := by
  obtain ⟨herr,rfl⟩ | ⟨rfl,himage,hpos,range,hsrch,hall,-⟩ := coreAllocateSpace_cases hrun
  · rw [if_pos herr]
    exact h
  have hbase := coreSearch_base_le h.tiles hsrch
  have hwrap : base+r.length ≤ 2^64 := by omega
  obtain ⟨last,a,b,hlen,-,hr⟩ := range_of_search h.tiles hpos hwrap hsrch
  have hpoint := coreAllocateSpace_pointwise h.tiles (by omega) hrun fun _ => hwrap
  refine h.grant hpoint.tiles (fun x hx => ?_) fun x => ?_
  · obtain ⟨d,hd,hsuits⟩ := suits_of_checked hr hall ⟨hx.1, by have := hx.2; dsimp only at this; omega⟩
    rw [Gcd.owner, hd, Option.bind_some, hsuits.1, Option.isNone_eq_false_iff.mpr (Option.isSome_iff_ne_none.mpr himage)]
    rfl
  · rw [Gcd.owner, hpoint.success rfl x]
    split
    · obtain ⟨d,hd,-⟩ := suits_of_checked hr hall (x := x) (by omega)
      rw [hd, if_pos ‹_›]
      rfl
    · rw [if_neg ‹_›]
      rfl

theorem Owned.convert (h : Owned max s) (hmax : max < 2^64) {cpu : CpuArchProtocol} {allocated : Bool}
    {r : Request} (hwrap : r.baseAddress+r.length ≤ 2^64)
    (hrun : coreConvertSpace cpu allocated r s.map = some (map',status)) :
    Owned max ⟨map', if !status.isError && r.frees then ⟨r.baseAddress, r.length, none⟩ :: s.grants else s.grants⟩ := by
  obtain ⟨_,_,hrun',⟨herr,rfl,-⟩ | ⟨rfl,-,last,range,a,b,hlen,hle,hlast,hr,hver,htiles,hlookup⟩⟩ :=
    coreConvertSpace_cases h.tiles hmax cpu allocated r hwrap <;> cases hrun.symm.trans hrun'
  · rw [herr]
    exact h
  have howner : ∀ x, Gcd.owner map' x =
      if r.baseAddress ≤ x ∧ x ≤ last then if r.frees then none else Gcd.owner s.map x else Gcd.owner s.map x := by
    intro x
    unfold Gcd.owner
    rw [hlookup]
    split
    · rw [hr.lookup ‹_›]
      exact owner_thread ..
    · rfl
  cases hfrees : r.frees with
  | false =>
    refine ⟨htiles, fun x => ?_, h.exclusive⟩
    rw [howner, hfrees, if_neg Bool.false_ne_true, ite_self, h.owner]
    rfl
  | true =>
    refine h.grant htiles (fun x hx => ?_) fun x => ?_
    · have hx : r.baseAddress ≤ x ∧ x < r.baseAddress+r.length := hx
      obtain ⟨e,he,hhold⟩ := h.tiles.exists_mem (x := x) (Nat.zero_le _) (by omega)
      have hd := lookup_of_mem h.tiles he hhold
      have hok := (verifyEntries_iff_addresses hr hle).mp hver x _ hx.1 (by omega) hd
      rw [Gcd.owner, hd, Option.bind_some]
      cases himage : e.value.imageHandle with
      | some image => rfl
      | none =>
        simp only [Request.frees, Bool.or_eq_true, beq_iff_eq] at hfrees
        rcases hfrees with hop | hop <;> simp [verifyEntry, hop, himage] at hok
    · rw [howner, hfrees, if_pos rfl]
      exact if_congr (by simp only [Grant.Covers]; omega) rfl rfl

end

/-- In every run from the start each address is owned by the image it was given to last, unless it was freed
since; nothing is given to an image while it is held, nothing freed that is not, and every request returns. -/
theorem gcdMap_exclusive {sizeOfSpace : Nat} (hsize : sizeOfSpace ≤ 63) {s : GcdRun}
    (hr : Run.Reaches gcdStep (Legal (2^sizeOfSpace - 1)) ⟨initialMap sizeOfSpace, []⟩ s) :
    (∀ x, owner s.map x = holder s.grants x) ∧ Exclusive s.grants ∧
      ∀ a, Legal (2^sizeOfSpace - 1) s a → (gcdStep s a).isSome = true := by
  have hpos := Nat.two_pow_pos sizeOfSpace
  have hmax : 2^sizeOfSpace - 1 < 2^63 := by
    have := Nat.pow_le_pow_right (n := 2) (by decide) hsize
    omega
  have h : Owned (2^sizeOfSpace - 1) s := by
    refine hr.invariant ⟨⟨rfl, Nat.zero_le _, rfl⟩, fun x => ?_, trivial⟩ ?_
    · simp only [initialMap, owner, lookup, holder]
      split <;> rfl
    · intro s a s' hi hl hs
      cases a with
      | allocate allocated r =>
        obtain ⟨⟨map',base,status⟩,hrun,rfl⟩ := Option.map_eq_some_iff.mp hs
        exact hi.allocate hmax hl hrun
      | convert cpu allocated r =>
        obtain ⟨⟨map',status⟩,hrun,rfl⟩ := Option.map_eq_some_iff.mp hs
        exact hi.convert (by omega) hl hrun
  refine ⟨h.owner, h.exclusive, fun a hl => ?_⟩
  cases a with
  | allocate allocated r =>
    rw [gcdStep, Option.isSome_map]
    exact coreAllocateSpace_isSome allocated h.tiles hmax hl
  | convert cpu allocated r =>
    obtain ⟨map',status,hrun,-⟩ := coreConvertSpace_cases h.tiles (by omega) cpu allocated r hl
    rw [gcdStep, hrun]
    rfl

/-- Half of a space of two addresses is added as memory, given to an image and freed. -/
def addGiveFree : List Action :=
  [.convert none true ⟨.addMemory, .systemMemory, .nonExistent, 0, 1, 0, 0⟩,
    .allocate true ⟨true, .anySearchBottomUp, .systemMemory, .nonExistent, 0, 1, 0, some 7, none⟩,
    .convert none true ⟨.freeMemory, .nonExistent, .nonExistent, 0, 1, 0, 0⟩]

theorem gcdMap_exclusive_addGiveFree : ∃ s, Run.run gcdStep ⟨initialMap 1, []⟩ addGiveFree = some s ∧
    s.grants = [⟨0, 1, none⟩, ⟨0, 1, some 7⟩] ∧ Exclusive s.grants := by
  refine ⟨_, rfl, rfl, (@gcdMap_exclusive 1 (by decide) _ (@Run.reaches_of_run_along _ _ _ _ _ _ addGiveFree rfl ?_)).2.1⟩
  exact ⟨Nat.le_of_ble_eq_true rfl, Nat.le_of_ble_eq_true rfl, Nat.le_of_ble_eq_true rfl, trivial⟩

end Liano.Gcd
