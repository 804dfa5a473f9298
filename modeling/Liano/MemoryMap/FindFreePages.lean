import Liano.Lib.Masks
import Liano.MemoryMap.Faithful

/-! `CoreFindFreePagesI`: the highest free pages below an address, and exactly when it finds
them. -/
namespace Liano.MemoryMap

open List hiding min

open Liano.Lib Liano.Gcd

def efiPageMask : Nat := 0xFFF

/-- `MaxAddress` at the end of a page. -/
def clipMaxAddress (maxAddress : Nat) : Nat := if maxAddress &&& efiPageMask ≠ efiPageMask then
    toUint64 (maxAddress + (2^64 - (efiPageMask+1))) &&& complement 64 efiPageMask |||
      efiPageMask
  else maxAddress

/-- The arguments that the loop reads. `adjustMemoryS` is the function of that name. -/
structure FreePagesRequest where
  maxAddress : Nat
  minAddress : Nat
  numberOfBytes : Nat
  alignment : Nat
  needGuard : Bool
  adjustMemoryS : Nat → Nat → Nat → Nat

/-- One round of the loop: `Target` after the entry. -/
def visitEntry (q : FreePagesRequest) (target : Nat) (entry : MemoryMapEntry) : Nat :=
  if entry.value.type ≠ efiConventionalMemory then target
  else if entry.baseAddress ≥ q.maxAddress ∨ entry.endAddress < q.minAddress then target
  else
    let descEnd := if entry.endAddress ≥ q.maxAddress then q.maxAddress else entry.endAddress
    let descEnd := toUint64 ((toUint64 (descEnd+1) &&& complement 64 (q.alignment-1)) + (2^64-1))
    if descEnd < entry.baseAddress then target
    else
      let descNumberOfBytes := toUint64 (descEnd + (2^64-entry.baseAddress) + 1)
      if descNumberOfBytes ≥ q.numberOfBytes then
        if toUint64 (descEnd + (2^64-q.numberOfBytes) + 1) < q.minAddress then target
        else if descEnd > target then
          if q.needGuard then
            let descEnd := q.adjustMemoryS
              (toUint64 (descEnd+1 + (2^64-descNumberOfBytes))) descNumberOfBytes
              q.numberOfBytes
            if descEnd = 0 then target else descEnd
          else descEnd
        else target
      else target

def coreFindFreePagesI (adjustMemoryS : Nat → Nat → Nat → Nat) (gMemoryMap : List MemoryMapEntry)
    (maxAddress minAddress numberOfPages alignment : Nat) (needGuard : Bool) : Nat :=
  if maxAddress < efiPageMask ∨ numberOfPages = 0 then 0
  else
    let numberOfBytes := toUint64 (numberOfPages*efiPageSize)
    let target := gMemoryMap.foldl
      (visitEntry ⟨clipMaxAddress maxAddress, minAddress, numberOfBytes, alignment, needGuard,
        adjustMemoryS⟩) 0
    let target := toUint64 (target + (2^64 - (numberOfBytes-1)))
    if target &&& efiPageMask ≠ 0 then 0 else target

section
variable (map : List MemoryMapEntry) (maxAddress minAddress numberOfPages alignment : Nat)

/-- The pages from `start` on are free memory of one entry, aligned and within the limits. -/
def FitsIn (e : MemoryMapEntry) (start : Nat) : Prop :=
  0 < numberOfPages ∧ alignment ∣ start ∧ e.value.type = efiConventionalMemory ∧
    e.baseAddress ≤ start ∧ start + numberOfPages*efiPageSize ≤ e.endAddress+1 ∧
    minAddress ≤ start ∧ start + numberOfPages*efiPageSize ≤ maxAddress+1

def Fits (start : Nat) : Prop := ∃ e ∈ map, FitsIn maxAddress minAddress numberOfPages alignment e start

def IsHighestFit (start : Nat) : Prop :=
  (start ≠ 0 → Fits map maxAddress minAddress numberOfPages alignment start ∧
    ∀ s, Fits map maxAddress minAddress numberOfPages alignment s → s ≤ start) ∧
  (start = 0 → ∀ s, Fits map maxAddress minAddress numberOfPages alignment s → s = 0)

def lastPageEnd : Nat := (maxAddress+1) / efiPageSize * efiPageSize - 1

/-- The entry ends below the alignment, where rounding down gives 0 and the byte before is the last
of the address space. -/
def Wraps (e : MemoryMapEntry) : Prop :=
  0 < numberOfPages ∧ e.value.type = efiConventionalMemory ∧ 0 < e.baseAddress ∧
    e.baseAddress < lastPageEnd maxAddress ∧ minAddress ≤ e.endAddress ∧
    min e.endAddress (lastPageEnd maxAddress) + 1 < alignment ∧
    e.baseAddress + numberOfPages*efiPageSize ≤ 2^64 ∧ minAddress + numberOfPages*efiPageSize ≤ 2^64

def Hidden (e : MemoryMapEntry) : Prop :=
  0 < numberOfPages ∧ e.value.type = efiConventionalMemory ∧ e.baseAddress = 0 ∧
    e.endAddress = 2^64-1 ∧ maxAddress = 2^64-1 ∧ minAddress + numberOfPages*efiPageSize ≤ 2^64

end

structure WholePages (e : MemoryMapEntry) : Prop where
  nonempty : e.baseAddress ≤ e.endAddress
  base : efiPageSize ∣ e.baseAddress
  limit : efiPageSize ∣ e.endAddress+1
  bounded : e.endAddress < 2^64

theorem clipMaxAddress_eq {maxAddress : Nat} (hmax : maxAddress < 2^64)
    (hlow : efiPageMask ≤ maxAddress) : clipMaxAddress maxAddress = lastPageEnd maxAddress := by
  have hmod : maxAddress &&& efiPageMask = maxAddress % 4096 := Nat.and_two_pow_sub_one_eq_mod maxAddress 12
  have hmask : efiPageMask = 2^12-1 := rfl
  rw [clipMaxAddress, hmod, lastPageEnd]
  simp only [efiPageSize, hmask] at hlow ⊢
  by_cases hend : maxAddress % 4096 = 2^12-1
  · rw [if_neg (not_not.mpr hend)]
    omega
  have hback : toUint64 (maxAddress + (2^64 - (2^12-1 + 1))) = maxAddress-4096 := by
    rw [toUint64]
    omega
  rw [if_pos hend, hback, and_complement (by decide) (by omega), or_low_mask]
  omega

/-- `DescEnd` after the alignment. -/
def descEnd (maxAddress alignment : Nat) (e : MemoryMapEntry) : Nat :=
  if min e.endAddress maxAddress + 1 < alignment then 2^64-1
  else (min e.endAddress maxAddress + 1) / alignment * alignment - 1

def Accepts (q : FreePagesRequest) (e : MemoryMapEntry) : Prop :=
  e.value.type = efiConventionalMemory ∧ e.baseAddress < q.maxAddress ∧
    q.minAddress ≤ e.endAddress ∧ e.baseAddress ≤ descEnd q.maxAddress q.alignment e ∧
    q.numberOfBytes ≤ toUint64 (descEnd q.maxAddress q.alignment e - e.baseAddress + 1) ∧
    q.minAddress+q.numberOfBytes ≤ descEnd q.maxAddress q.alignment e + 1

section
variable {q : FreePagesRequest} {k : Nat} {e : MemoryMapEntry} {map : List MemoryMapEntry}

theorem alignedEnd_eq (hk : k < 64) (hmax : q.maxAddress < 2^64) (hal : q.alignment = 2^k) :
    toUint64 ((toUint64 ((if e.endAddress ≥ q.maxAddress then q.maxAddress else e.endAddress) + 1)
      &&& complement 64 (q.alignment-1)) + (2^64-1)) = descEnd q.maxAddress q.alignment e := by
  have hmin : (if e.endAddress ≥ q.maxAddress then q.maxAddress else e.endAddress) =
      min e.endAddress q.maxAddress := by split <;> omega
  have hle : min e.endAddress q.maxAddress < 2^64 := by omega
  rw [hmin, descEnd, hal]
  generalize min e.endAddress q.maxAddress = top at hle
  have hword : toUint64 (top+1) < 2^64 := Nat.mod_lt _ (by decide)
  rw [and_complement (le_of_lt hk) hword]
  have hpow : 0 < 2^k := Nat.two_pow_pos k
  by_cases htop : top = 2^64-1
  · obtain ⟨m,hm⟩ := Nat.pow_dvd_pow 2 (le_of_lt hk)
    have hlt : 2^k < 2^64 := Nat.pow_lt_pow_right (by decide) hk
    rw [htop, show 2^64-1 + 1 = 2^64 from rfl, if_neg (not_lt.mpr (le_of_lt hlt)),
      Nat.div_mul_cancel ⟨m, hm⟩, show toUint64 (2^64) = 0 from rfl, Nat.zero_div, zero_mul]
    rfl
  rw [toUint64_of_lt (show top+1 < 2^64 by omega)]
  have hdown : (top+1) / 2^k * 2^k ≤ top+1 := Nat.div_mul_le_self _ _
  by_cases hshort : top+1 < 2^k
  · rw [if_pos hshort, Nat.div_eq_of_lt hshort, zero_mul]
    rfl
  have hone : 1 ≤ (top+1) / 2^k := (Nat.one_le_div_iff hpow).mpr (Nat.le_of_not_lt hshort)
  have hbig : 2^k ≤ (top+1) / 2^k * 2^k := Nat.le_mul_of_pos_left _ hone
  rw [if_neg hshort]
  rw [toUint64]
  omega

theorem descEnd_lt (hmax : q.maxAddress < 2^64) : descEnd q.maxAddress q.alignment e < 2^64 := by
  rw [descEnd]
  have hdown := Nat.div_mul_le_self (min e.endAddress q.maxAddress + 1) q.alignment
  split <;> omega

instance : Decidable (Accepts q e) := inferInstanceAs (Decidable (_ ∧ _))

theorem visitEntry_eq (hk : k < 64) (hmax : q.maxAddress < 2^64) (hal : q.alignment = 2^k)
    (hguard : q.needGuard = false) (hbs : 0 < q.numberOfBytes)
    (hfits : q.numberOfBytes < 2^64) (target : Nat) : visitEntry q target e =
      if Accepts q e ∧ target < descEnd q.maxAddress q.alignment e then
        descEnd q.maxAddress q.alignment e
      else target := by
  have hlt : descEnd q.maxAddress q.alignment e < 2^64 := descEnd_lt hmax
  have hend := alignedEnd_eq (e := e) hk hmax hal
  rw [visitEntry]
  simp only [hend, hguard]
  generalize hd : descEnd q.maxAddress q.alignment e = d at hlt
  by_cases htype : e.value.type = efiConventionalMemory
  swap
  · rw [if_pos htype, if_neg (fun h => htype h.1.1)]
  rw [if_neg (not_not.mpr htype)]
  by_cases hskip : e.baseAddress ≥ q.maxAddress ∨ e.endAddress < q.minAddress
  · rw [if_pos hskip, if_neg]
    rintro ⟨⟨-,hlow,hhigh,-⟩,-⟩
    omega
  rw [if_neg hskip]
  by_cases hbef : d < e.baseAddress
  · rw [if_pos hbef, if_neg]
    rintro ⟨⟨-,-,-,hle,-⟩,-⟩
    omega
  rw [if_neg hbef]
  have hnum : toUint64 (d + (2^64-e.baseAddress) + 1) = toUint64 (d-e.baseAddress + 1) := by
    rw [toUint64, toUint64]
    omega
  rw [hnum]
  by_cases hroom : toUint64 (d-e.baseAddress + 1) ≥ q.numberOfBytes
  swap
  · rw [if_neg hroom, if_neg]
    rintro ⟨⟨-,-,-,-,hbytes',-⟩,-⟩
    rw [hd] at hbytes'
    exact hroom hbytes'
  have hle : toUint64 (d-e.baseAddress + 1) ≤ d-e.baseAddress + 1 := Nat.mod_le _ _
  have hstart : toUint64 (d + (2^64-q.numberOfBytes) + 1) = d+1-q.numberOfBytes := by
    rw [toUint64]
    omega
  rw [if_pos hroom, hstart]
  have hacc : Accepts q e ↔ ¬ d + 1 - q.numberOfBytes < q.minAddress := by
    rw [Accepts, hd]
    constructor
    · rintro ⟨-,-,-,-,-,hmin⟩
      omega
    · intro hmin
      exact ⟨htype, by omega, by omega, by omega, hroom, by omega⟩
  simp only [hacc]
  by_cases hmin : d+1-q.numberOfBytes < q.minAddress
  · simp [hmin]
  · simp [hmin]

end

theorem foldl_best {α : Type} {step : Nat → α → Nat} {accepts : α → Prop} {value : α → Nat}
    [DecidablePred accepts]
    (hstep : ∀ t x, step t x = if accepts x ∧ t < value x then value x else t) (xs : List α) (t : Nat) :
    t ≤ xs.foldl step t ∧ (xs.foldl step t = t ∨ ∃ x ∈ xs, accepts x ∧ xs.foldl step t = value x) ∧
      ∀ x ∈ xs, accepts x → value x ≤ xs.foldl step t := by
  induction xs generalizing t with
  | nil => exact ⟨le_rfl, .inl rfl, by simp⟩
  | cons x xs ih =>
    obtain ⟨hle,hfrom,hbest⟩ := ih (step t x)
    rw [foldl_cons]
    have hmono : t ≤ step t x := by
      rw [hstep]
      split <;> omega
    refine ⟨le_trans hmono hle, ?_, ?_⟩
    · rcases hfrom with hfrom | ⟨y,hy,hacc,hval⟩
      · rw [hfrom, hstep]
        by_cases hx : accepts x ∧ t < value x
        · exact .inr ⟨x, mem_cons_self, hx.1, if_pos hx⟩
        · exact .inl (if_neg hx)
      · exact .inr ⟨y, mem_cons_of_mem _ hy, hacc, hval⟩
    · intro y hy hacc
      rcases mem_cons.mp hy with rfl | hy
      · refine le_trans ?_ hle
        rw [hstep]
        by_cases hlt : t < value y
        · rw [if_pos ⟨hacc, hlt⟩]
        · rw [if_neg fun h => hlt h.2]
          omega
      · exact hbest y hy hacc

section
variable {maxAddress minAddress numberOfPages k s : Nat} {e : MemoryMapEntry}
  {adjustMemoryS : Nat → Nat → Nat → Nat}

def request (adjustMemoryS : Nat → Nat → Nat → Nat)
    (maxAddress minAddress numberOfPages alignment : Nat) : FreePagesRequest :=
  ⟨lastPageEnd maxAddress, minAddress, numberOfPages*efiPageSize, alignment, false, adjustMemoryS⟩

theorem descEnd_aligned
    (htop : ¬ min e.endAddress (lastPageEnd maxAddress) + 1 < 2^k) :
    2^k ∣ descEnd (lastPageEnd maxAddress) (2^k) e + 1 ∧
      descEnd (lastPageEnd maxAddress) (2^k) e + 1 ≤ min e.endAddress (lastPageEnd maxAddress) + 1 ∧
      ∀ n, 2^k ∣ n → n ≤ min e.endAddress (lastPageEnd maxAddress) + 1 →
        n ≤ descEnd (lastPageEnd maxAddress) (2^k) e + 1 := by
  have hpow : 0 < 2^k := Nat.two_pow_pos k
  rw [descEnd, if_neg htop]
  generalize min e.endAddress (lastPageEnd maxAddress) + 1 = top at htop
  have hone : 1 ≤ top / 2^k := (Nat.one_le_div_iff hpow).mpr (Nat.le_of_not_lt htop)
  have hbig : 2^k ≤ top / 2^k * 2^k := Nat.le_mul_of_pos_left _ hone
  rw [Nat.sub_add_cancel (by omega)]
  refine ⟨Nat.dvd_mul_left _ _, Nat.div_mul_le_self _ _, fun n hn hle => ?_⟩
  obtain ⟨m,rfl⟩ := hn
  rw [mul_comm]
  exact Nat.mul_le_mul_right _ ((Nat.le_div_iff_mul_le hpow).mpr (by rwa [mul_comm]))

theorem lastPageEnd_le (maxAddress : Nat) : lastPageEnd maxAddress + 1 ≤ maxAddress+1 := by
  rw [lastPageEnd, efiPageSize]
  omega

theorem fitsIn_of_accepts (hpgs : 0 < numberOfPages) (hdvd : 2^k ∣ numberOfPages*efiPageSize)
    (hacc : Accepts (request adjustMemoryS maxAddress minAddress numberOfPages (2^k)) e)
    (hwraps : ¬ Wraps maxAddress minAddress numberOfPages (2^k) e) :
    FitsIn maxAddress minAddress numberOfPages (2^k) e
      (descEnd (lastPageEnd maxAddress) (2^k) e + 1 - numberOfPages*efiPageSize) := by
  obtain ⟨htype,hlow,hhigh,hbef,hroom,hmin⟩ := hacc
  simp only [request] at hlow hhigh hbef hroom hmin
  have hbs : 0 < numberOfPages*efiPageSize := Nat.mul_pos hpgs (by decide)
  have hwrap : toUint64 (descEnd (lastPageEnd maxAddress) (2^k) e - e.baseAddress + 1) ≤
      descEnd (lastPageEnd maxAddress) (2^k) e - e.baseAddress + 1 := Nat.mod_le _ _
  have htop : ¬ min e.endAddress (lastPageEnd maxAddress) + 1 < 2^k := fun hshort => by
    have hend : descEnd (lastPageEnd maxAddress) (2^k) e = 2^64-1 := if_pos hshort
    rw [hend] at hbef hroom hmin
    have hbase : 0 < e.baseAddress := Nat.pos_of_ne_zero fun hzero => by
      rw [hzero] at hroom
      have : toUint64 (2^64-1-0 + 1) = 0 := rfl
      omega
    rw [hend] at hwrap
    exact hwraps ⟨hpgs, htype, hbase, hlow, hhigh, hshort, by omega, by omega⟩
  obtain ⟨hal,hle,-⟩ := descEnd_aligned htop
  have hmax := lastPageEnd_le maxAddress
  exact ⟨hpgs, Nat.dvd_sub hal hdvd, htype, by omega, by omega, by omega, by omega⟩

variable (adjustMemoryS) in
theorem accepts_of_fitsIn (he : WholePages e) (h12 : 12 ≤ k) (hmax : maxAddress < 2^64)
    (hdvd : 2^k ∣ numberOfPages*efiPageSize)
    (hfits : FitsIn maxAddress minAddress numberOfPages (2^k) e s)
    (hhidden : ¬ Hidden maxAddress minAddress numberOfPages e) :
    Accepts (request adjustMemoryS maxAddress minAddress numberOfPages (2^k)) e ∧
      s + numberOfPages*efiPageSize ≤ descEnd (lastPageEnd maxAddress) (2^k) e + 1 := by
  obtain ⟨hpgs,hs,htype,hbase,hlim,hmin,hmaxFit⟩ := hfits
  have hbs : 0 < numberOfPages*efiPageSize := Nat.mul_pos hpgs (by decide)
  have hend : 2^k ∣ s + numberOfPages*efiPageSize := Nat.dvd_add hs hdvd
  have hpage : 2^12 ∣ s + numberOfPages*efiPageSize := Nat.dvd_trans (Nat.pow_dvd_pow 2 h12) hend
  have hpageEnd : s + numberOfPages*efiPageSize ≤ lastPageEnd maxAddress + 1 := by
    rw [lastPageEnd]
    simp only [efiPageSize] at *
    omega
  have htop : ¬ min e.endAddress (lastPageEnd maxAddress) + 1 < 2^k := fun hshort => by
    have hle : 2^k ≤ numberOfPages*efiPageSize := Nat.le_of_dvd hbs hdvd
    omega
  obtain ⟨-,hle,hbest⟩ := descEnd_aligned htop
  have hfit := hbest _ hend (by omega)
  have hbounded := he.bounded
  have hroom : numberOfPages*efiPageSize ≤
      toUint64 (descEnd (lastPageEnd maxAddress) (2^k) e - e.baseAddress + 1) := by
    by_cases hfull : descEnd (lastPageEnd maxAddress) (2^k) e - e.baseAddress + 1 < 2^64
    · rw [toUint64_of_lt hfull]
      omega
    · have hle' := lastPageEnd_le maxAddress
      exact absurd ⟨hpgs, htype, by omega, by omega, by omega, by omega⟩ hhidden
  refine ⟨⟨htype, ?_, ?_, ?_, hroom, ?_⟩, hfit⟩
  · show e.baseAddress < lastPageEnd maxAddress
    have : 4096 ≤ numberOfPages*efiPageSize := Nat.le_mul_of_pos_left _ hpgs
    omega
  · show minAddress ≤ e.endAddress
    omega
  · show e.baseAddress ≤ descEnd (lastPageEnd maxAddress) (2^k) e
    omega
  · show minAddress + numberOfPages*efiPageSize ≤ descEnd (lastPageEnd maxAddress) (2^k) e + 1
    omega

theorem descEnd_of_wraps (h : Wraps maxAddress minAddress numberOfPages (2^k) e) :
    descEnd (lastPageEnd maxAddress) (2^k) e = 2^64-1 := if_pos h.2.2.2.2.2.1

variable (adjustMemoryS) in
theorem accepts_of_wraps (h : Wraps maxAddress minAddress numberOfPages (2^k) e) :
    Accepts (request adjustMemoryS maxAddress minAddress numberOfPages (2^k)) e := by
  have hend := descEnd_of_wraps h
  obtain ⟨hpgs,htype,hbase,hlow,hhigh,-,hroom,hmin⟩ := h
  have hbs : 0 < numberOfPages*efiPageSize := Nat.mul_pos hpgs (by decide)
  have hnum : toUint64 (2^64-1-e.baseAddress + 1) = 2^64-e.baseAddress := by
    rw [toUint64]
    omega
  rw [Accepts]
  simp only [request, hend, hnum]
  exact ⟨htype, hlow, hhigh, by omega, by omega, by omega⟩

variable (adjustMemoryS) in
theorem not_accepts_of_hidden (hk : k < 64) (hsize : numberOfPages*efiPageSize < 2^64)
    (hdvd : 2^k ∣ numberOfPages*efiPageSize) (h : Hidden maxAddress minAddress numberOfPages e) :
    ¬ Accepts (request adjustMemoryS maxAddress minAddress numberOfPages (2^k)) e ∧
      FitsIn maxAddress minAddress numberOfPages (2^k) e
        (2^64 - numberOfPages*efiPageSize) := by
  obtain ⟨hpgs,htype,hbase,hend,hmax,hmin⟩ := h
  have hbs : 0 < numberOfPages*efiPageSize := Nat.mul_pos hpgs (by decide)
  have hpow : 2^k ∣ 2^64 := Nat.pow_dvd_pow 2 (le_of_lt hk)
  have hlast : min e.endAddress (lastPageEnd maxAddress) + 1 = 2^64 := by
    rw [hend, hmax]
    rfl
  have hdesc : descEnd (lastPageEnd maxAddress) (2^k) e = 2^64-1 := by
    rw [descEnd, hlast, Nat.div_mul_cancel hpow, if_neg]
    exact not_lt.mpr (Nat.le_of_dvd (by decide) hpow)
  constructor
  · rintro ⟨-,-,-,-,hroom,-⟩
    simp only [request, hdesc, hbase] at hroom
    have : toUint64 (2^64-1-0 + 1) = 0 := rfl
    omega
  · exact ⟨hpgs, Nat.dvd_sub hpow hdvd, htype, by omega, by omega, by omega, by omega⟩

end

section
variable {map : List MemoryMapEntry} {maxAddress minAddress numberOfPages k : Nat}
  (adjustMemoryS : Nat → Nat → Nat → Nat)

/-- The search finds nothing, or the place at the end of the accepted entry that ends highest. -/
theorem coreFindFreePagesI_eq (map : List MemoryMapEntry) (minAddress : Nat)
    (hmax : maxAddress < 2^64) (hlow : efiPageMask ≤ maxAddress)
    (hpgs : 0 < numberOfPages) (hsize : numberOfPages*efiPageSize < 2^64) (h12 : 12 ≤ k)
    (hk : k < 64) :
    (coreFindFreePagesI adjustMemoryS map maxAddress minAddress numberOfPages (2^k) false = 0 ∧
      ∀ e ∈ map, ¬ Accepts (request adjustMemoryS maxAddress minAddress numberOfPages (2^k)) e) ∨
    ∃ e ∈ map, Accepts (request adjustMemoryS maxAddress minAddress numberOfPages (2^k)) e ∧
      coreFindFreePagesI adjustMemoryS map maxAddress minAddress numberOfPages (2^k) false =
        descEnd (lastPageEnd maxAddress) (2^k) e + 1 - numberOfPages*efiPageSize ∧
      ∀ f ∈ map, Accepts (request adjustMemoryS maxAddress minAddress numberOfPages (2^k)) f →
        descEnd (lastPageEnd maxAddress) (2^k) f ≤ descEnd (lastPageEnd maxAddress) (2^k) e := by
  have hend := lastPageEnd_le maxAddress
  have hbs : 4096 ≤ numberOfPages*efiPageSize := Nat.le_mul_of_pos_left _ hpgs
  have hstep := fun target e => visitEntry_eq (e := e)
    (q := request adjustMemoryS maxAddress minAddress numberOfPages (2^k)) hk
    (by show lastPageEnd maxAddress < 2 ^ 64; omega) rfl rfl
    (by show 0 < numberOfPages * efiPageSize; omega) hsize target
  obtain ⟨-,hfrom,hbest⟩ := foldl_best hstep map 0
  have hmask : ∀ n, n &&& efiPageMask = n % 4096 := fun n => Nat.and_two_pow_sub_one_eq_mod n 12
  have hnone : ¬ (maxAddress < efiPageMask ∨ numberOfPages = 0) := by omega
  have hpage : (4096 : Nat) ∣ 2^k := Nat.pow_dvd_pow 2 h12
  have hpageBs : 4096 ∣ numberOfPages*efiPageSize := Nat.dvd_mul_left _ _
  have hreq : (⟨lastPageEnd maxAddress, minAddress, numberOfPages*efiPageSize, 2^k, false,
      adjustMemoryS⟩ : FreePagesRequest) =
      request adjustMemoryS maxAddress minAddress numberOfPages (2^k) := rfl
  rw [coreFindFreePagesI, if_neg hnone, clipMaxAddress_eq hmax hlow, toUint64_of_lt hsize]
  simp only [hmask, hreq]
  generalize foldl _ 0 map = target at hfrom hbest
  rcases hfrom with rfl | ⟨e,he,hacc,rfl⟩
  · left
    constructor
    · rw [if_pos]
      rw [toUint64]
      omega
    · intro e he hacc
      have hle := hbest e he hacc
      have hend : minAddress + numberOfPages*efiPageSize ≤
          descEnd (lastPageEnd maxAddress) (2^k) e + 1 := hacc.2.2.2.2.2
      have hzero : descEnd (lastPageEnd maxAddress) (2^k) e ≤ 0 := hle
      omega
  · right
    have hlt : descEnd (lastPageEnd maxAddress) (2^k) e < 2^64 :=
      descEnd_lt (q := request adjustMemoryS maxAddress minAddress numberOfPages (2^k)) (by
        show lastPageEnd maxAddress < 2^64
        omega)
    have hfit : minAddress + numberOfPages*efiPageSize ≤
        descEnd (lastPageEnd maxAddress) (2^k) e + 1 := hacc.2.2.2.2.2
    have hal : 4096 ∣ descEnd (lastPageEnd maxAddress) (2^k) e + 1 := by
      by_cases htop : min e.endAddress (lastPageEnd maxAddress) + 1 < 2^k
      · rw [descEnd, if_pos htop]
        decide
      · exact Nat.dvd_trans hpage (descEnd_aligned htop).1
    have hval : toUint64 (descEnd (lastPageEnd maxAddress) (2^k) e + (2^64 - (numberOfPages*efiPageSize-1))) =
        descEnd (lastPageEnd maxAddress) (2^k) e + 1 - numberOfPages*efiPageSize := by
      rw [toUint64]
      omega
    refine ⟨e, he, hacc, ?_, hbest⟩
    show (if toUint64 (descEnd (lastPageEnd maxAddress) (2^k) e +
      (2^64 - (numberOfPages*efiPageSize-1))) % 4096 ≠ 0 then 0 else _) = _
    rw [hval, if_neg]
    · exact hval
    · omega

/-- Exactly when the answer is the highest fit: no free entry is all of the address space, and none
wraps, unless the last pages of the address space fit anyway. -/
theorem coreFindFreePagesI_highest_iff {alignment : Nat} (hmap : ∀ e ∈ map, WholePages e)
    (hdisjoint : Disjoint map) (hmax : maxAddress < 2^64)
    (hsize : numberOfPages*efiPageSize < 2^64) (halign : alignment = 2^k) (h12 : 12 ≤ k)
    (hk : k < 64) (hdvd : alignment ∣ numberOfPages*efiPageSize) :
    IsHighestFit map maxAddress minAddress numberOfPages alignment
        (coreFindFreePagesI adjustMemoryS map maxAddress minAddress numberOfPages alignment false) ↔
      (¬ ∃ e ∈ map, Hidden maxAddress minAddress numberOfPages e) ∧
        ((¬ ∃ e ∈ map, Wraps maxAddress minAddress numberOfPages alignment e) ∨
          Fits map maxAddress minAddress numberOfPages alignment (2^64 - numberOfPages*efiPageSize)) := by
  subst halign
  have hbs : 0 < numberOfPages → 4096 ≤ numberOfPages*efiPageSize := Nat.le_mul_of_pos_left _
  have hnofit : (∀ s, ¬ Fits map maxAddress minAddress numberOfPages (2^k) s) →
      IsHighestFit map maxAddress minAddress numberOfPages (2^k) 0 := fun hnone =>
    ⟨fun hne => absurd rfl hne, fun _ s hs => absurd hs (hnone s)⟩
  by_cases hearly : maxAddress < efiPageMask ∨ numberOfPages = 0
  · -- nothing fits, and nothing is asked of the entries
    have hzero : coreFindFreePagesI adjustMemoryS map maxAddress minAddress numberOfPages (2^k)
        false = 0 := by rw [coreFindFreePagesI, if_pos hearly]
    rw [hzero]
    have hlow : maxAddress < efiPageMask → lastPageEnd maxAddress = 0 := fun hlow => by
      rw [lastPageEnd, efiPageSize]
      rw [efiPageMask] at hlow
      omega
    constructor
    · intro _
      refine ⟨?_, .inl ?_⟩
      · rintro ⟨e,-,hpgs,-,-,-,hmaxEq,-⟩
        rw [efiPageMask] at hearly
        omega
      · rintro ⟨e,-,hpgs,-,-,hbase,-⟩
        rcases hearly with hearly | hearly
        · rw [hlow hearly] at hbase
          omega
        · omega
    · intro _
      apply hnofit
      rintro s ⟨e,-,hpgs,-,-,-,-,-,hfit⟩
      rw [efiPageMask] at hearly
      omega
  · rw [not_or, not_lt] at hearly
    have hpgs : 0 < numberOfPages := Nat.pos_of_ne_zero hearly.2
    have hanswer := coreFindFreePagesI_eq adjustMemoryS map minAddress hmax hearly.1 hpgs hsize
      h12 hk
    constructor
    · intro hhigh
      constructor
      · rintro ⟨e,he,hhidden⟩
        have hself := not_accepts_of_hidden adjustMemoryS hk hsize hdvd hhidden
        have honly : ∀ f ∈ map, f = e := fun f hf => by
          have hfpages := hmap f hf
          have hbounded := hfpages.bounded
          have hnonempty := hfpages.nonempty
          refine hdisjoint.eq hf he ⟨Nat.le_refl f.baseAddress, hnonempty⟩ ⟨?_, ?_⟩
          · rw [hhidden.2.2.1]
            exact Nat.zero_le _
          · rw [hhidden.2.2.2.1]
            omega
        rcases hanswer with ⟨hzero,-⟩ | ⟨f,hf,hacc,-⟩
        · have := hhigh.2 hzero _ ⟨e, he, hself.2⟩
          omega
        · rw [honly f hf] at hacc
          exact hself.1 hacc
      · by_cases hwraps : ∃ e ∈ map, Wraps maxAddress minAddress numberOfPages (2^k) e
        · right
          obtain ⟨e,he,hwrap⟩ := hwraps
          have hacc := accepts_of_wraps adjustMemoryS hwrap
          rcases hanswer with ⟨-,hnone⟩ | ⟨f,-,-,hval,hbest⟩
          · exact absurd hacc (hnone e he)
          · have hle := hbest e he hacc
            have hlt : descEnd (lastPageEnd maxAddress) (2^k) f < 2^64 :=
              descEnd_lt (q := request adjustMemoryS maxAddress minAddress numberOfPages (2^k))
                (by
                  have := lastPageEnd_le maxAddress
                  show lastPageEnd maxAddress < 2^64
                  omega)
            rw [descEnd_of_wraps hwrap] at hle
            have hlast : descEnd (lastPageEnd maxAddress) (2^k) f + 1 = 2^64 := by omega
            rw [hlast] at hval
            have hfits := (hhigh.1 (by omega)).1
            rwa [hval] at hfits
        · exact .inl hwraps
    · rintro ⟨hhidden,hwraps⟩
      have hacc : ∀ e ∈ map, ∀ s, FitsIn maxAddress minAddress numberOfPages (2^k) e s →
          _ := fun e he s hs => accepts_of_fitsIn adjustMemoryS (hmap e he) h12
            hmax hdvd hs fun h => hhidden ⟨e, he, h⟩
      rcases hanswer with ⟨hzero,hnone⟩ | ⟨e,he,haccept,hval,hbest⟩
      · rw [hzero]
        apply hnofit
        rintro s ⟨e,he,hs⟩
        exact hnone e he (hacc e he s hs).1
      · have hhighest : ∀ s, Fits map maxAddress minAddress numberOfPages (2^k) s →
            s ≤ descEnd (lastPageEnd maxAddress) (2^k) e + 1 - numberOfPages*efiPageSize := by
          rintro s ⟨f,hf,hs⟩
          obtain ⟨hf',hle⟩ := hacc f hf s hs
          have := hbest f hf hf'
          omega
        rw [hval]
        refine ⟨fun _ => ⟨?_, hhighest⟩, fun hzero s hs => ?_⟩
        · by_cases hwrap : Wraps maxAddress minAddress numberOfPages (2^k) e
          · rw [descEnd_of_wraps hwrap]
            exact hwraps.resolve_left fun hnone => hnone ⟨e, he, hwrap⟩
          · exact ⟨e, he, fitsIn_of_accepts hpgs hdvd haccept hwrap⟩
        · have := hhighest s hs
          omega

end

/-- 16 KiB at 4 KiB, and 1 MiB at 1 MiB. -/
def smallEntryMap : List MemoryMapEntry :=
  [⟨0x1000, 0x4FFF, ⟨efiConventionalMemory, 0⟩⟩, ⟨0x100000, 0x1FFFFF, ⟨efiConventionalMemory, 0⟩⟩]

/-- For 64 KiB aligned to 64 KiB the end of the small entry wraps, and the answer is the end of the
address space, where there is no memory. -/
theorem smallEntryMap_not_highest : ¬ IsHighestFit smallEntryMap (2^64-1) 0 16 0x10000
      (coreFindFreePagesI (fun _ _ _ => 0) smallEntryMap (2^64-1) 0 16 0x10000 false) := by
  have hanswer : coreFindFreePagesI (fun _ _ _ => 0) smallEntryMap (2^64-1) 0 16 0x10000 false =
      2^64-0x10000 := by decide
  intro hhigh
  obtain ⟨e,he,-,-,-,-,hlim,-⟩ := (hhigh.1 (by decide)).1
  have hends : ∀ e ∈ smallEntryMap, e.endAddress < 0x200000 := by decide
  have := hends e he
  omega

/-- Without the small entry the search finds the highest fit. -/
theorem largeEntry_highest : IsHighestFit (smallEntryMap.drop 1) (2^64-1) 0 16 0x10000
      (coreFindFreePagesI (fun _ _ _ => 0) (smallEntryMap.drop 1) (2^64-1) 0 16 0x10000 false) := by
  refine (coreFindFreePagesI_highest_iff (k := 16) (fun _ _ _ => 0) ?_ ?_ (by decide) (by decide)
    (by decide) (by decide) (by decide) (by decide)).mpr ⟨?_, .inl ?_⟩
  · intro e he
    obtain rfl : e = ⟨0x100000, 0x1FFFFF, ⟨efiConventionalMemory, 0⟩⟩ := mem_singleton.mp he
    exact ⟨by decide, by decide, by decide, by decide⟩
  · exact pairwise_singleton _ _
  · rintro ⟨e,he,-,-,hbase,-⟩
    obtain rfl : e = ⟨0x100000, 0x1FFFFF, ⟨efiConventionalMemory, 0⟩⟩ := mem_singleton.mp he
    cases hbase
  · rintro ⟨e,he,-,-,-,-,-,hshort,-⟩
    obtain rfl : e = ⟨0x100000, 0x1FFFFF, ⟨efiConventionalMemory, 0⟩⟩ := mem_singleton.mp he
    revert hshort
    decide

end Liano.MemoryMap
