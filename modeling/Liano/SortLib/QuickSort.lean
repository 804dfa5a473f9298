import Mathlib.Logic.Equiv.Basic
import Liano.Lib.Bytes

/-! `PerformQuickSort` (BaseSortLib): sorting the elements of a buffer in place. -/
namespace Liano.SortLib
open Bytes

/-- The size of an element, and the compare function: it may keep a state and read the memory behind the pointers. -/
structure Sorter (σ : Type) where
  elementSize : Nat
  compareFunction : σ → Bytes → Nat → Nat → Int × σ

structure SortState (σ : Type) where
  memory : Bytes
  buffer : Bytes
  state : σ
  compares : List (Nat × Nat)

section
variable {σ : Type} (c : Sorter σ) (bufferToSort : Nat)

/-- The three calls of CopyMem that exchange two elements through the buffer. -/
def swapElements (p q : Nat) (st : SortState σ) : SortState σ :=
  let buffer := slice st.memory p c.elementSize
  let memory := patch st.memory p (slice st.memory q c.elementSize)
  { st with memory := patch memory q buffer, buffer := buffer }

/-- The loop from `loopCount` on, with so many rounds left, and NextSwapLocation. -/
def partitionLoop (pivot : Nat) : Nat → Nat → Nat → SortState σ → SortState σ × Nat
  | 0, _, nextSwapLocation, st => (st,nextSwapLocation)
  | left+1, loopCount, nextSwapLocation, st =>
    let p := bufferToSort + loopCount*c.elementSize
    let r := c.compareFunction st.state st.memory p pivot
    let st := { st with state := r.2, compares := (p,pivot) :: st.compares }
    if r.1 ≤ 0 then
      partitionLoop pivot left (loopCount+1) (nextSwapLocation+1)
        (swapElements c (bufferToSort + nextSwapLocation*c.elementSize) p st)
    else partitionLoop pivot left (loopCount+1) nextSwapLocation st

theorem partitionLoop_le (pivot left loopCount next : Nat) (st : SortState σ) :
    (partitionLoop c bufferToSort pivot left loopCount next st).2 ≤ next + left := by
  induction left generalizing loopCount next st with
  | zero => exact le_rfl
  | succ left ih =>
    unfold partitionLoop
    dsimp only
    split
    · have := ih (loopCount+1) (next + 1) (swapElements c (bufferToSort + next * c.elementSize)
        (bufferToSort + loopCount*c.elementSize) { st with
          state := (c.compareFunction st.state st.memory (bufferToSort + loopCount*c.elementSize) pivot).2
          compares := (bufferToSort + loopCount*c.elementSize, pivot) :: st.compares })
      omega
    · exact Nat.le_succ_of_le (ih _ _ _)

def quickSortWorker (bufferToSort count : Nat) (st : SortState σ) : SortState σ :=
  if count < 2 ∨ c.elementSize < 1 then st
  else
    let pivot := bufferToSort + (count-1) * c.elementSize
    let r := partitionLoop c bufferToSort pivot (count-1) 0 0 st
    let st := swapElements c pivot (bufferToSort + r.2*c.elementSize) r.1
    let st := if 2 ≤ r.2 then quickSortWorker bufferToSort r.2 st else st
    if 2 ≤ count-r.2-1 then
      quickSortWorker (bufferToSort + (r.2+1) * c.elementSize) (count-r.2-1) st
    else st
termination_by count
decreasing_by
  · have := partitionLoop_le c bufferToSort (bufferToSort + (count-1) * c.elementSize) (count-1) 0 0
    grind
  · omega

/-- `none` where the ASSERT on the buffer fires. -/
def performQuickSort (allocateZeroPool : Nat → Option Bytes) (count : Nat) (st : SortState σ) :
    Option (SortState σ) :=
  (allocateZeroPool c.elementSize).map fun buffer => quickSortWorker c bufferToSort count { st with buffer := buffer }

end

/-! ## The elements -/

section
variable {σ : Type} {c : Sorter σ} {base lo hi i j k : Nat} {m m' m'' : Bytes}

/-- An element of the array at `base`. -/
def element (c : Sorter σ) (base : Nat) (m : Bytes) (i : Nat) : Bytes :=
  slice m (base + i*c.elementSize) c.elementSize

/-- The elements from `lo` up to `hi` in another order, and every other byte as it is. -/
structure Rearranges (c : Sorter σ) (base lo hi : Nat) (m m' : Bytes) : Prop where
  length : m'.length = m.length
  outside : ∀ x, x < base + lo*c.elementSize ∨ base + hi*c.elementSize ≤ x → m'[x]? = m[x]?
  perm : ∃ order : Equiv.Perm Nat, (∀ k, order k ≠ k → lo ≤ k ∧ k < hi) ∧
    ∀ k, element c base m' k = element c base m (order k)

/-- The elements from `lo` up to `hi` are in order. -/
def Ordered (c : Sorter σ) (base : Nat) (le : Bytes → Bytes → Prop) (lo hi : Nat) (m : Bytes) : Prop :=
  ∀ i j, lo ≤ i → i < j → j < hi → le (element c base m i) (element c base m j)

theorem Rearranges.refl (m : Bytes) : Rearranges c base lo hi m m :=
  ⟨rfl, fun _ _ => rfl, Equiv.refl Nat, fun _ hk => absurd rfl hk, fun _ => rfl⟩

theorem Rearranges.trans (h : Rearranges c base lo hi m m') (h' : Rearranges c base lo hi m' m'') :
    Rearranges c base lo hi m m'' := by
  obtain ⟨order,hfix,hsame⟩ := h.perm
  obtain ⟨order',hfix',hsame'⟩ := h'.perm
  refine ⟨h'.length.trans h.length, fun x hx => (h'.outside x hx).trans (h.outside x hx), order'.trans order,
    fun k hk => ?_, fun k => (hsame' k).trans (hsame _)⟩
  by_cases hmoved : order' k = k
  · refine hfix k fun hk' => hk ?_
    rw [Equiv.trans_apply, hmoved, hk']
  · exact hfix' k hmoved

theorem Rearranges.mono {lo' hi' : Nat} (h : Rearranges c base lo hi m m') (hlo : lo' ≤ lo) (hhi : hi ≤ hi') :
    Rearranges c base lo' hi' m m' := by
  obtain ⟨order,hfix,hsame⟩ := h.perm
  refine ⟨h.length, fun x hx => h.outside x ?_, order, fun k hk => ?_, hsame⟩
  · have hl := Nat.mul_le_mul_right c.elementSize hlo
    have hh := Nat.mul_le_mul_right c.elementSize hhi
    omega
  · have := hfix k hk
    omega

/-- What holds of every element of a range holds of them in any order, and the others stay. -/
theorem Rearranges.all {P : Bytes → Prop} (h : Rearranges c base lo hi m m') {a b : Nat} (ha : a ≤ lo) (hb : hi ≤ b)
    (hall : ∀ k, a ≤ k → k < b → P (element c base m k)) : ∀ k, a ≤ k → k < b → P (element c base m' k) := by
  obtain ⟨order,hfix,hsame⟩ := h.perm
  intro k hlo hhi
  rw [hsame]
  by_cases hmoved : order (order k) = order k
  · rw [order.injective hmoved]
    exact hall k hlo hhi
  · have := hfix _ hmoved
    exact hall _ (by omega) (by omega)

theorem Rearranges.element_eq (h : Rearranges c base lo hi m m') (hk : k < lo ∨ hi ≤ k) :
    element c base m' k = element c base m k := by
  obtain ⟨order,hfix,hsame⟩ := h.perm
  have hstay : order k = k := by
    by_contra hmoved
    have := hfix k hmoved
    omega
  rw [hsame, hstay]

theorem elements_apart (hne : i ≠ j) : base + i*c.elementSize + c.elementSize ≤ base + j*c.elementSize ∨
    base + j*c.elementSize + c.elementSize ≤ base + i*c.elementSize := by
  rcases Nat.lt_or_gt_of_ne hne with h | h
  · have := Nat.mul_le_mul_right c.elementSize (Nat.succ_le_of_lt h)
    rw [Nat.succ_mul] at this
    omega
  · have := Nat.mul_le_mul_right c.elementSize (Nat.succ_le_of_lt h)
    rw [Nat.succ_mul] at this
    omega

theorem element_end (c : Sorter σ) (base : Nat) (h : i < hi) : base + i*c.elementSize + c.elementSize ≤ base + hi*c.elementSize := by
  have := Nat.mul_le_mul_right c.elementSize (Nat.succ_le_of_lt h)
  rw [Nat.succ_mul] at this
  omega

theorem swapElements_spec {st : SortState σ} (hi₁ : lo ≤ i ∧ i < hi) (hj₁ : lo ≤ j ∧ j < hi)
    (hmem : base + hi*c.elementSize ≤ st.memory.length) :
    Rearranges c base lo hi st.memory
        (swapElements c (base + i*c.elementSize) (base + j*c.elementSize) st).memory ∧
      ∀ k, element c base (swapElements c (base + i*c.elementSize) (base + j*c.elementSize) st).memory k =
        element c base st.memory (Equiv.swap i j k) := by
  have hend := element_end c base hi₁.2
  have hend' := element_end c base hj₁.2
  have hlow := Nat.mul_le_mul_right c.elementSize hi₁.1
  have hlow' := Nat.mul_le_mul_right c.elementSize hj₁.1
  have hp := @length_slice st.memory (base + i*c.elementSize) c.elementSize (by omega)
  have hq := @length_slice st.memory (base + j*c.elementSize) c.elementSize (by omega)
  unfold swapElements
  generalize hx : slice st.memory (base + i*c.elementSize) c.elementSize = x at hp
  generalize hy : slice st.memory (base + j*c.elementSize) c.elementSize = y at hq
  dsimp only
  have hl : (patch st.memory (base + i*c.elementSize) y).length = st.memory.length := length_patch (by omega)
  have hsame : ∀ k, element c base (patch (patch st.memory (base + i*c.elementSize) y) (base + j*c.elementSize) x) k =
      element c base st.memory (Equiv.swap i j k) := by
    intro k
    unfold element
    by_cases hkj : k = j
    · subst hkj
      rw [Equiv.swap_apply_right, hx]
      exact (congrArg (slice _ _) hp.symm).trans (slice_patch_self (by omega))
    rw [slice_patch_of_disjoint (by omega) (by rw [hp]; exact elements_apart hkj)]
    by_cases hki : k = i
    · subst hki
      rw [Equiv.swap_apply_left, hy]
      exact (congrArg (slice _ _) hq.symm).trans (slice_patch_self (by omega))
    · rw [slice_patch_of_disjoint (by omega) (by rw [hq]; exact elements_apart hki),
        Equiv.swap_apply_of_ne_of_ne hki hkj]
  refine ⟨⟨(length_patch (by omega)).trans hl, fun z hz => ?_, Equiv.swap i j, fun k hk => ?_, hsame⟩, hsame⟩
  · rw [getElem?_patch (by omega), if_neg (by omega), getElem?_patch (by omega), if_neg (by omega)]
  · by_cases hki : k = i
    · exact hki ▸ hi₁
    · by_cases hkj : k = j
      · exact hkj ▸ hj₁
      · exact absurd (Equiv.swap_apply_of_ne_of_ne hki hkj) hk

/-- The pointers of a comparison are to elements. -/
def Whole (c : Sorter σ) (base n : Nat) (call : Nat × Nat) : Prop :=
  ∃ i < n, ∃ j < n, call = (base + i*c.elementSize, base + j*c.elementSize)

/-- The compare function decides a total preorder on the elements that it is given pointers to. -/
structure Decides (c : Sorter σ) (le : Bytes → Bytes → Prop) : Prop where
  total : ∀ x y, le x y ∨ le y x
  trans : ∀ x y z, le x y → le y z → le x z
  compares : ∀ s m p q, (c.compareFunction s m p q).1 ≤ 0 ↔ le (slice m p c.elementSize) (slice m q c.elementSize)

/-- What sorting the elements from `lo` up to `hi` of an array of `n` does. -/
structure Sorts (c : Sorter σ) (base n lo hi : Nat) (st st' : SortState σ) : Prop where
  rearranges : Rearranges c base lo hi st.memory st'.memory
  compares : ∀ call ∈ st'.compares, call ∈ st.compares ∨ Whole c base n call
  ordered : ∀ le, Decides c le → Ordered c base le lo hi st'.memory

/-- Where the loop stands: the elements before NextSwapLocation are not above the pivot, those behind it are. -/
structure Parted (c : Sorter σ) (base lo hi next loopCount : Nat) (m : Bytes) : Prop where
  low : ∀ le, Decides c le → ∀ k, lo ≤ k → k < next → le (element c base m k) (element c base m hi)
  high : ∀ le, Decides c le → ∀ k, next ≤ k → k < loopCount → ¬ le (element c base m k) (element c base m hi)

/-- What the rounds from `st` on do, and NextSwapLocation then. -/
structure Partitions (c : Sorter σ) (base n lo hi : Nat) (st : SortState σ) (r : SortState σ × Nat) (next : Nat) :
    Prop where
  location : r.2 = next-lo
  inside : lo ≤ next ∧ next ≤ hi
  rearranges : Rearranges c base lo hi st.memory r.1.memory
  compares : ∀ call ∈ r.1.compares, call ∈ st.compares ∨ Whole c base n call
  parted : Parted c base lo hi next hi r.1.memory

/-- By induction on the rounds left. -/
theorem partitionLoop_spec {n left loopCount next : Nat} {st : SortState σ} (hnext : lo ≤ next) (hle : next ≤ loopCount)
    (hhi : loopCount+left = hi) (hn : hi < n) (hmem : base + n*c.elementSize ≤ st.memory.length)
    (hparted : Parted c base lo hi next loopCount st.memory) :
    ∃ next', Partitions c base n lo hi st (partitionLoop c (base + lo*c.elementSize) (base + hi*c.elementSize) left
      (loopCount-lo) (next-lo) st) next' := by
  induction left generalizing loopCount next st with
  | zero =>
    obtain rfl : loopCount = hi := hhi
    exact ⟨next, rfl, ⟨hnext, hle⟩, .refl _, fun _ hcall => .inl hcall, hparted⟩
  | succ left ih =>
    have hplace : ∀ k, lo ≤ k → base + lo*c.elementSize + (k-lo) * c.elementSize = base + k*c.elementSize ∧
        k-lo + 1 = k+1-lo := by
      intro k hk
      rw [add_assoc, ← add_mul, Nat.add_sub_cancel' hk]
      omega
    obtain ⟨hp,hsucc⟩ := hplace loopCount (le_trans hnext hle)
    obtain ⟨hq,hsucc'⟩ := hplace next hnext
    have hmemHi : base + hi*c.elementSize ≤ st.memory.length :=
      le_trans (Nat.add_le_add_left (Nat.mul_le_mul_right _ (le_of_lt hn)) _) hmem
    -- the round that is left behind, whichever branch it took
    have hround : ∀ (st₁ : SortState σ) (next₁ : Nat), lo ≤ next₁ → next₁ ≤ loopCount+1 →
        st₁.compares = (base + loopCount*c.elementSize, base + hi*c.elementSize) :: st.compares →
        Rearranges c base lo hi st.memory st₁.memory → Parted c base lo hi next₁ (loopCount+1) st₁.memory →
        ∃ next', Partitions c base n lo hi st (partitionLoop c (base + lo*c.elementSize) (base + hi*c.elementSize)
          left (loopCount+1-lo) (next₁-lo) st₁) next' := by
      intro st₁ next₁ hlow₁ hle₁ hcompares hmoved hparted₁
      obtain ⟨next',h⟩ := ih hlow₁ hle₁ (by omega) (by rw [hmoved.length]; exact hmem) hparted₁
      refine ⟨next', h.location, h.inside, hmoved.trans h.rearranges, fun call hcall => ?_, h.parted⟩
      rcases h.compares call hcall with hold | hwhole
      · rw [hcompares] at hold
        rcases List.mem_cons.mp hold with rfl | hold
        · exact .inr ⟨loopCount, by omega, hi, hn, rfl⟩
        · exact .inl hold
      · exact .inr hwhole
    unfold partitionLoop
    rw [hp, hq, hsucc, hsucc']
    dsimp only
    have hdecides : ∀ le, Decides c le → ((c.compareFunction st.state st.memory (base + loopCount*c.elementSize)
        (base + hi*c.elementSize)).1 ≤ 0 ↔ le (element c base st.memory loopCount) (element c base st.memory hi)) :=
      fun le hd => hd.compares _ _ _ _
    split
    · rename_i hsmall
      obtain ⟨hswap,hsame⟩ := @swapElements_spec σ c base next hi next loopCount st ⟨le_rfl, by omega⟩
        ⟨hle, by omega⟩ hmemHi
      have hpivot := hswap.element_eq (.inr le_rfl)
      refine hround _ _ (Nat.le_succ_of_le hnext) (Nat.succ_le_succ hle) rfl (hswap.mono hnext le_rfl)
        ⟨fun le hd k hk hk' => ?_, fun le hd k hk hk' => ?_⟩
      · change le (element c base (swapElements c _ _ st).memory k) (element c base (swapElements c _ _ st).memory hi)
        rw [hpivot, hsame]
        rcases Nat.lt_succ_iff_lt_or_eq.mp hk' with hlt | rfl
        · rw [Equiv.swap_apply_of_ne_of_ne (by omega) (by omega)]
          exact hparted.low le hd k hk hlt
        · rw [Equiv.swap_apply_left]
          exact (hdecides le hd).mp hsmall
      · change ¬ le (element c base (swapElements c _ _ st).memory k) (element c base (swapElements c _ _ st).memory hi)
        rw [hpivot, hsame]
        rcases Nat.lt_succ_iff_lt_or_eq.mp hk' with hlt | rfl
        · rw [Equiv.swap_apply_of_ne_of_ne (by omega) (by omega)]
          exact hparted.high le hd k (by omega) hlt
        · rw [Equiv.swap_apply_right]
          exact hparted.high le hd next le_rfl hk
    · rename_i hlarge
      refine hround _ _ hnext (Nat.le_succ_of_le hle) rfl (.refl _) ⟨hparted.low, fun le hd k hk hk' => ?_⟩
      rcases Nat.lt_succ_iff_lt_or_eq.mp hk' with hlt | rfl
      · exact hparted.high le hd k hk hlt
      · exact fun hle => hlarge ((hdecides le hd).mpr hle)

/-- The tests before the calls only save calls that do nothing. -/
theorem quickSortWorker_ite (p count : Nat) (st : SortState σ) :
    (if 2 ≤ count then quickSortWorker c p count st else st) = quickSortWorker c p count st := by
  split
  · rfl
  · rw [quickSortWorker, if_pos (.inl (by omega))]

theorem Ordered.join {le : Bytes → Bytes → Prop} {next : Nat} (hd : Decides c le) (hleft : Ordered c base le lo next m)
    (hright : Ordered c base le (next + 1) hi m)
    (hlow : ∀ k, lo ≤ k → k < next → le (element c base m k) (element c base m next))
    (hhigh : ∀ k, next + 1 ≤ k → k < hi → le (element c base m next) (element c base m k)) :
    Ordered c base le lo hi m := by
  intro i j hlo hij hhi
  rcases lt_trichotomy j next with hj | rfl | hj
  · exact hleft i j hlo hij hj
  · exact hlow i hlo hij
  rcases lt_trichotomy i next with hi' | rfl | hi'
  · exact hd.trans _ _ _ (hlow i hlo hi') (hhigh j hj hhi)
  · exact hhigh j hj hhi
  · exact hright i j hi' hij hhi

/-- By induction on the number of the elements: both parts are sorted, and the pivot stands between them. -/
theorem quickSortWorker_sorts {n count : Nat} {st : SortState σ} (hn : lo+count ≤ n)
    (hmem : base + n*c.elementSize ≤ st.memory.length) :
    Sorts c base n lo (lo+count) st (quickSortWorker c (base + lo*c.elementSize) count st) := by
  induction count using Nat.strongRecOn generalizing lo st with
  | ind count ih =>
    rw [quickSortWorker]
    split
    · rename_i hsmall
      refine ⟨.refl _, fun _ hcall => .inl hcall, fun le hd i j hi hij hj => ?_⟩
      rcases hsmall with hone | hzero
      · omega
      have hempty : ∀ k, element c base st.memory k = [] := fun k => by
        rw [element, Nat.lt_one_iff.mp hzero]
        exact List.take_zero
      rw [hempty, hempty]
      exact (hd.total [] []).elim id id
    · rename_i hlarge
      have hpivot : base + lo*c.elementSize + (count-1) * c.elementSize =
          base + (lo+count-1) * c.elementSize := by
        rw [add_assoc, ← add_mul, Nat.add_sub_assoc (by omega)]
      obtain ⟨next,hloc,⟨hlow,hhigh⟩,hmoved,hcalls,hparted⟩ :=
        @partitionLoop_spec σ c base lo (lo+count-1) n (count-1) lo lo st le_rfl le_rfl (by omega)
          (by omega) hmem ⟨fun _ _ k hk hk' => by omega, fun _ _ k hk hk' => by omega⟩
      rw [Nat.sub_self] at hloc hmoved hcalls hparted
      dsimp only
      rw [hpivot, hloc]
      generalize (partitionLoop c (base + lo*c.elementSize) (base + (lo+count-1) * c.elementSize) (count-1) 0 0 st).1 =
        st₁ at hmoved hcalls hparted ⊢
      have hplace : base + lo*c.elementSize + (next - lo) * c.elementSize = base + next * c.elementSize ∧
          base + lo*c.elementSize + (next - lo + 1) * c.elementSize = base + (next + 1) * c.elementSize := by
        rw [add_assoc, ← add_mul, add_assoc, ← add_mul, ← add_assoc lo, Nat.add_sub_cancel' hlow]
        exact ⟨rfl, rfl⟩
      rw [hplace.1, hplace.2]
      have hmem₁ : base + (lo+count) * c.elementSize ≤ st₁.memory.length := by
        rw [hmoved.length]
        exact le_trans (Nat.add_le_add_left (Nat.mul_le_mul_right _ hn) _) hmem
      obtain ⟨hswap,hsame⟩ := @swapElements_spec σ c base lo (lo+count) (lo+count - 1) next st₁ (by omega)
        (by omega) hmem₁
      have hkept : (swapElements c (base + (lo+count - 1) * c.elementSize) (base + next * c.elementSize)
          st₁).compares = st₁.compares := rfl
      generalize swapElements c (base + (lo+count - 1) * c.elementSize) (base + next * c.elementSize) st₁ = sw
        at hswap hsame hkept ⊢
      rw [quickSortWorker_ite, quickSortWorker_ite]
      have hmoved' := (hmoved.mono le_rfl (Nat.sub_le _ 1)).trans hswap
      have left := @ih (next - lo) (by omega) lo sw (by omega) (by rw [hmoved'.length]; exact hmem)
      rw [Nat.add_sub_cancel' hlow] at left
      generalize quickSortWorker c (base + lo*c.elementSize) (next - lo) sw = st₂ at left ⊢
      have right := @ih (count - (next - lo) - 1) (by omega) (next + 1) st₂ (by omega)
        (by rw [left.rearranges.length, hmoved'.length]; exact hmem)
      rw [show next + 1 + (count - (next - lo) - 1) = lo+count by omega] at right
      generalize quickSortWorker c (base + (next + 1) * c.elementSize) (count - (next - lo) - 1) st₂ = st₃ at right ⊢
      refine ⟨(hmoved'.trans (left.rearranges.mono le_rfl (by omega))).trans
        (right.rearranges.mono (by omega) le_rfl), fun call hcall => ?_, fun le hd => ?_⟩
      · rcases right.compares call hcall with hcall | hwhole
        · rcases left.compares call hcall with hcall | hwhole
          · exact hcalls call (hkept ▸ hcall)
          · exact .inr hwhole
        · exact .inr hwhole
      -- the pivot stands at `next` and neither call moves it
      have hpivot₂ := left.rearranges.element_eq (.inr le_rfl)
      have hpivot₃ := right.rearranges.element_eq (.inl (Nat.lt_succ_self next))
      have hbelow : ∀ k, lo ≤ k → k < next → le (element c base sw.memory k) (element c base sw.memory next) := by
        intro k hk hk'
        rw [hsame, hsame, Equiv.swap_apply_of_ne_of_ne (by omega) (by omega), Equiv.swap_apply_right]
        exact hparted.low le hd k hk hk'
      have habove : ∀ k, next + 1 ≤ k → k < lo+count →
          le (element c base sw.memory next) (element c base sw.memory k) := by
        intro k hk hk'
        rw [hsame, hsame, Equiv.swap_apply_right]
        by_cases hlast : k = lo+count-1
        · subst hlast
          rw [Equiv.swap_apply_left]
          exact (hd.total _ _).resolve_right (hparted.high le hd next le_rfl (by omega))
        · rw [Equiv.swap_apply_of_ne_of_ne hlast (by omega)]
          exact (hd.total _ _).resolve_right (hparted.high le hd k (by omega) (by omega))
      have hbelow₂ := left.rearranges.all (P := fun x => le x (element c base sw.memory next)) le_rfl
        le_rfl hbelow
      have habove₃ := right.rearranges.all (P := fun x => le (element c base sw.memory next) x)
        le_rfl le_rfl fun k hk hk' => by
          rw [left.rearranges.element_eq (.inr (by omega))]
          exact habove k hk hk'
      refine Ordered.join hd (fun i j hi hij hj => ?_) (right.ordered le hd) (fun k hk hk' => ?_) fun k hk hk' => ?_
      · rw [right.rearranges.element_eq (.inl (by omega)), right.rearranges.element_eq (.inl (by omega))]
        exact left.ordered le hd i j hi hij hj
      · rw [hpivot₃, hpivot₂, right.rearranges.element_eq (.inl (by omega))]
        exact hbelow₂ k hk hk'
      · rw [hpivot₃, hpivot₂]
        exact habove₃ k hk hk'

end

/-- Where the buffer to exchange elements through is not refused, the elements are put in another order, in which they
are sorted if the compare function decides a total preorder. -/
theorem performQuickSort_sorts {σ : Type} {c : Sorter σ} {bufferToSort count : Nat} {st : SortState σ}
    (allocateZeroPool : Nat → Option Bytes) (hmem : bufferToSort + count*c.elementSize ≤ st.memory.length) :
    (performQuickSort c bufferToSort allocateZeroPool count st = none ↔ allocateZeroPool c.elementSize = none) ∧
      ∀ st' ∈ performQuickSort c bufferToSort allocateZeroPool count st, Sorts c bufferToSort count 0 count st st' := by
  refine ⟨Option.map_eq_none_iff, fun st' hst' => ?_⟩
  obtain ⟨buffer,-,rfl⟩ := Option.map_eq_some_iff.mp hst'
  have h := @quickSortWorker_sorts σ c bufferToSort 0 count count { st with buffer := buffer } (by omega) hmem
  rw [zero_mul, zero_add, add_zero] at h
  exact ⟨h.rearranges, h.compares, h.ordered⟩

theorem performQuickSort_sorts_bytes :
    let c : Sorter Unit := ⟨1, fun _ m p q => (((m[p]?.getD 0).toNat : Int) - ((m[q]?.getD 0).toNat : Int), ())⟩
    let st : SortState Unit := ⟨[7, 3, 1, 3], [], (), []⟩
    (performQuickSort c 1 (fun _ => some [0]) 3 st).map (·.memory) = some [7, 1, 3, 3] ∧
      ∀ st' ∈ performQuickSort c 1 (fun _ => some [0]) 3 st, Sorts c 1 3 0 3 st st' :=
  ⟨by simp +decide [performQuickSort, quickSortWorker, partitionLoop, swapElements, slice, patch],
    (performQuickSort_sorts _ (by decide)).2⟩

end Liano.SortLib
