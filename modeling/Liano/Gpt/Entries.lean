import Mathlib.Logic.Equiv.Defs
import Liano.Gpt.Discovery

/-! Which entries of a partition table PartitionCheckGptEntry leaves without a flag. -/
namespace Liano.Gpt
open Bytes

section
variable (hdr part : Bytes) (i : Nat)

/-- The bytes of an entry. -/
def entryAt : Bytes := slice part (i * sizeOfPartitionEntry hdr) (sizeOfPartitionEntry hdr)

def startAt : Nat := leValue (slice part (i * sizeOfPartitionEntry hdr + 32) 8)

def endAt : Nat := leValue (slice part (i * sizeOfPartitionEntry hdr + 40) 8)

def attributesAt : Nat := leValue (slice part (i * sizeOfPartitionEntry hdr + 48) 8)

/-- An entry of the array with a partition type. -/
def Used : Prop := i < numberOfPartitionEntries hdr ∧ unusedAt hdr part i = false

/-- The partition is not empty and lies inside the usable blocks. -/
def InRange : Prop := isOutOfRange hdr (startAt hdr part i) (endAt hdr part i) = false

def OsSpecific : Prop := attributesAt hdr part i &&& 2 ≠ 0

/-- A used entry that gets the flag for its range, and one that gets the flag for its attributes. -/
def Strays : Prop := Used hdr part i ∧ ¬ InRange hdr part i

def Reserved : Prop := Used hdr part i ∧ InRange hdr part i ∧ OsSpecific hdr part i

/-- Neither range ends before the other starts. -/
def Touches (j : Nat) : Prop := startAt hdr part j ≤ endAt hdr part i ∧ startAt hdr part i ≤ endAt hdr part j

/-- The partition of a used entry is published where the entry has no flag. -/
def Published (status : EntryStatuses) : Prop := Used hdr part i ∧ (status i).isFlagged = false

/-- A used entry in range, not OS specific, that no other used entry touches. -/
structure Sound : Prop where
  used : Used hdr part i
  inRange : InRange hdr part i
  notOsSpecific : ¬ OsSpecific hdr part i
  apart : ∀ j, Used hdr part j → j ≠ i → ¬ Touches hdr part i j

end

section
variable {hdr part : Bytes} {i m j n : Nat} {status : EntryStatuses}

theorem Touches.symm (h : Touches hdr part i j) : Touches hdr part j i := And.symm h

instance : Decidable (Touches hdr part i j) := inferInstanceAs (Decidable (_ ∧ _))

theorem HoldsEntries.startingLba (h : HoldsEntries hdr part) (hidx : i < numberOfPartitionEntries hdr) :
    startingLba hdr part i = .ok (startAt hdr part i) := by
  rw [Gpt.startingLba, readEntry_ok (h.inside hidx (by decide))]
  rfl

theorem HoldsEntries.endingLba (h : HoldsEntries hdr part) (hidx : i < numberOfPartitionEntries hdr) :
    endingLba hdr part i = .ok (endAt hdr part i) := by
  rw [Gpt.endingLba, readEntry_ok (h.inside hidx (by decide))]
  rfl

theorem HoldsEntries.attributes (h : HoldsEntries hdr part) (hidx : i < numberOfPartitionEntries hdr) :
    attributes hdr part i = .ok (attributesAt hdr part i) := by
  rw [Gpt.attributes, readEntry_ok (h.inside hidx (by decide))]
  rfl

theorem HoldsEntries.checkOverlap_eq (h : HoldsEntries hdr part)
    (hidx : j < numberOfPartitionEntries hdr) :
    checkOverlap hdr part m (startAt hdr part m) (endAt hdr part m) status j =
      .ok (if unusedAt hdr part j = false ∧ Touches hdr part m j then
        setOverlap (setOverlap status m) j else status) := by
  simp only [checkOverlap, h.isUnused hidx, h.endingLba hidx, h.startingLba hidx, bind, Except.bind]
  unfold Touches
  cases unusedAt hdr part j with
  | true => rw [if_pos rfl, if_neg (fun hand => Bool.noConfusion hand.1)]
  | false =>
    rw [if_ff]
    by_cases hend : endAt hdr part j < startAt hdr part m
    · rw [if_pos hend, if_neg (fun hand => not_le.mpr hend hand.2.2)]
    rw [if_neg hend]
    by_cases hstart : startAt hdr part j > endAt hdr part m
    · rw [if_pos hstart, if_neg (fun hand => not_le.mpr hstart hand.2.1)]
    · rw [if_neg hstart, if_pos ⟨rfl, not_lt.mp hstart, not_lt.mp hend⟩]

theorem overlap_setOverlap (k : Nat) :
    (setOverlap status i k).overlap = true ↔ (status k).overlap = true ∨ k = i := by
  unfold setOverlap
  by_cases hk : k = i
  · subst hk
    simp
  · rw [Function.update_of_ne hk]
    simp [hk]

theorem others_setOverlap (k : Nat) : (setOverlap status i k).outOfRange = (status k).outOfRange ∧
      (setOverlap status i k).osSpecific = (status k).osSpecific := by
  unfold setOverlap
  by_cases hk : k = i
  · subst hk
    simp
  · rw [Function.update_of_ne hk]
    exact ⟨rfl, rfl⟩

/-- The pass over the entries behind an entry flags it and each that touches it. -/
theorem HoldsEntries.checkOverlaps (h : HoldsEntries hdr part) (l : List Nat)
    (hl : ∀ j ∈ l, j < numberOfPartitionEntries hdr) (status : EntryStatuses) :
    ∃ status', l.foldlM (checkOverlap hdr part m (startAt hdr part m)
        (endAt hdr part m)) status = .ok status' ∧ (∀ k, (status' k).outOfRange = (status k).outOfRange ∧
        (status' k).osSpecific = (status k).osSpecific) ∧
      ∀ k, (status' k).overlap = true ↔ (status k).overlap = true ∨
        ∃ j ∈ l, unusedAt hdr part j = false ∧ Touches hdr part m j ∧ (k = m ∨ k = j) := by
  induction l generalizing status with
  | nil => exact ⟨status, rfl, fun _ => ⟨rfl, rfl⟩, fun k => by simp⟩
  | cons j l ih =>
    obtain ⟨status',hloop,hothers,hoverlap⟩ := ih (fun j hj => hl j (List.mem_cons_of_mem _ hj))
      (if unusedAt hdr part j = false ∧ Touches hdr part m j then
        setOverlap (setOverlap status m) j else status)
    refine ⟨status', ?_, fun k => ?_, fun k => ?_⟩
    · rw [List.foldlM_cons, h.checkOverlap_eq (hl j List.mem_cons_self)]
      exact hloop
    · rw [(hothers k).1, (hothers k).2]
      split
      · rw [(others_setOverlap k).1, (others_setOverlap k).2, (others_setOverlap k).1, (others_setOverlap k).2]
        exact ⟨rfl, rfl⟩
      · exact ⟨rfl, rfl⟩
    · rw [hoverlap k]
      simp only [List.exists_mem_cons_iff]
      split
      · rename_i htouches
        rw [overlap_setOverlap, overlap_setOverlap]
        simp only [htouches.1, htouches.2, true_and, or_assoc]
      · rename_i hnot
        exact or_congr_right (or_iff_right fun htouches => hnot ⟨htouches.1, htouches.2.1⟩).symm

/-- The entries that overlap one another as the first `n` rounds see it: the lower entry is in range. -/
def OverlapSeen (hdr part : Bytes) (n i : Nat) : Prop :=
  ∃ m < n, ∃ j, m < j ∧ Used hdr part m ∧ InRange hdr part m ∧
    Used hdr part j ∧ Touches hdr part m j ∧ (i = m ∨ i = j)

/-- The flags behind the first `n` rounds. -/
structure Checked (hdr part : Bytes) (n : Nat) (status : EntryStatuses) : Prop where
  outOfRange : ∀ i, (status i).outOfRange = true ↔ i < n ∧ Strays hdr part i
  osSpecific : ∀ i, (status i).osSpecific = true ↔ i < n ∧ Reserved hdr part i
  overlap : ∀ i, (status i).overlap = true ↔ OverlapSeen hdr part n i

theorem overlapSeen_succ : OverlapSeen hdr part (n+1) i ↔ OverlapSeen hdr part n i ∨
    ∃ j, n < j ∧ Used hdr part n ∧ InRange hdr part n ∧ Used hdr part j ∧
      Touches hdr part n j ∧ (i = n ∨ i = j) := Nat.exists_lt_succ_right

theorem lt_succ_and {p : Nat → Prop} {k : Nat} : k < n+1 ∧ p k ↔ k < n ∧ p k ∨ k = n ∧ p n := by
  rw [Nat.lt_succ_iff_lt_or_eq, or_and_right]
  exact or_congr_right (and_congr_right fun hk => by rw [hk])

theorem Checked.skip (h : Checked hdr part n status) (hunused : ¬ Used hdr part n) :
    Checked hdr part (n+1) status where
  outOfRange k := by
    rw [h.outOfRange, lt_succ_and (p := Strays hdr part)]
    exact (or_iff_left fun hrest => hunused hrest.2.1).symm
  osSpecific k := by
    rw [h.osSpecific, lt_succ_and (p := Reserved hdr part)]
    exact (or_iff_left fun hrest => hunused hrest.2.1).symm
  overlap k := by
    rw [h.overlap, overlapSeen_succ]
    refine ⟨.inl, fun hseen => hseen.resolve_right ?_⟩
    rintro ⟨_,_,hused,_⟩
    exact hunused hused

theorem Checked.flagOutOfRange (h : Checked hdr part n status) (hused : Used hdr part n)
    (hout : ¬ InRange hdr part n) : Checked hdr part (n+1) (setOutOfRange status n) := by
  have hother : ∀ k, (setOutOfRange status n k).osSpecific = (status k).osSpecific ∧
      (setOutOfRange status n k).overlap = (status k).overlap ∧
      ((setOutOfRange status n k).outOfRange = true ↔ (status k).outOfRange = true ∨ k = n) := by
    intro k
    unfold setOutOfRange
    by_cases hk : k = n
    · subst hk
      simp
    · rw [Function.update_of_ne hk]
      simp [hk]
  constructor
  · intro k
    rw [(hother k).2.2, h.outOfRange, lt_succ_and (p := Strays hdr part)]
    exact or_congr_right (and_iff_left ⟨hused, hout⟩).symm
  · intro k
    rw [(hother k).1, h.osSpecific, lt_succ_and (p := Reserved hdr part)]
    exact (or_iff_left fun hrest => hout hrest.2.2.1).symm
  · intro k
    rw [(hother k).2.1, h.overlap, overlapSeen_succ]
    refine ⟨.inl, fun hseen => hseen.resolve_right ?_⟩
    rintro ⟨_,_,_,hin,_⟩
    exact hout hin

theorem HoldsEntries.checkEntry_checked (h : HoldsEntries hdr part) (hn : n < numberOfPartitionEntries hdr)
    (hchk : Checked hdr part n status) : ∃ status', Gpt.checkEntry hdr part status n = .ok status' ∧
      Checked hdr part (n+1) status' := by
  simp only [Gpt.checkEntry, h.isUnused hn, h.endingLba hn, h.startingLba hn, h.attributes hn, bind, Except.bind]
  cases hunused : unusedAt hdr part n with
  | true =>
    rw [if_pos rfl]
    exact ⟨status, rfl, hchk.skip fun hused => by simp [hused.2] at hunused⟩
  | false =>
    have hused : Used hdr part n := ⟨hn, hunused⟩
    rw [if_ff]
    cases hrng : isOutOfRange hdr (startAt hdr part n) (endAt hdr part n) with
    | true =>
      rw [if_pos rfl]
      exact ⟨_, rfl, hchk.flagOutOfRange hused fun hin => by simp [InRange, hrng] at hin⟩
    | false =>
      have hin : InRange hdr part n := hrng
      rw [if_ff]
      have hbeh : ∀ j ∈ List.range' (n+1) (numberOfPartitionEntries hdr - (n+1)),
          j < numberOfPartitionEntries hdr := by
        intro j hmem
        rw [List.mem_range'_1] at hmem
        omega
      obtain ⟨status',hloop,hothers,hoverlap⟩ := h.checkOverlaps (m := n) _ hbeh
        (if attributesAt hdr part n &&& 2 ≠ 0 then setOsSpecific status n else status)
      have hmark : ∀ k, ((if attributesAt hdr part n &&& 2 ≠ 0 then setOsSpecific status n
            else status) k).outOfRange = (status k).outOfRange ∧
          ((if attributesAt hdr part n &&& 2 ≠ 0 then setOsSpecific status n
            else status) k).overlap = (status k).overlap ∧
          (((if attributesAt hdr part n &&& 2 ≠ 0 then setOsSpecific status n
            else status) k).osSpecific = true ↔
              (status k).osSpecific = true ∨ (k = n ∧ OsSpecific hdr part n)) := by
        intro k
        unfold OsSpecific
        split
        · rename_i hos
          unfold setOsSpecific
          by_cases hk : k = n
          · subst hk
            simp [hos]
          · rw [Function.update_of_ne hk]
            simp [hk]
        · rename_i hos
          simp [hos]
      refine ⟨status', hloop, ?_, ?_, ?_⟩
      · intro k
        rw [(hothers k).1, (hmark k).1, hchk.outOfRange,
          lt_succ_and (p := Strays hdr part)]
        exact (or_iff_left fun hrest => hrest.2.2 hin).symm
      · intro k
        rw [(hothers k).2, (hmark k).2.2, hchk.osSpecific, lt_succ_and (p := Reserved hdr part)]
        exact or_congr_right (and_congr_right fun _ => ⟨fun hos => ⟨hused, hin, hos⟩, fun hrest => hrest.2.2⟩)
      · intro k
        rw [hoverlap k, (hmark k).2.1, hchk.overlap, overlapSeen_succ]
        refine or_congr_right ⟨?_, ?_⟩
        · rintro ⟨j,hmem,hunused2,htouches,hk⟩
          have hlt := hbeh j hmem
          rw [List.mem_range'_1] at hmem
          exact ⟨j, hmem.1, hused, hin, ⟨hlt, hunused2⟩, htouches, hk⟩
        · rintro ⟨j,hlt,-,-,hused2,htouches,hk⟩
          refine ⟨j, ?_, hused2.2, htouches, hk⟩
          have := hused2.1
          rw [List.mem_range'_1]
          omega

theorem HoldsEntries.partitionCheckGptEntry_checked (h : HoldsEntries hdr part) :
    ∃ status, partitionCheckGptEntry hdr part = .ok status ∧
      Checked hdr part (numberOfPartitionEntries hdr) status := by
  have hrounds : ∀ n ≤ numberOfPartitionEntries hdr, ∃ status,
      (List.range n).foldlM (Gpt.checkEntry hdr part) (fun _ => ⟨false, false, false⟩) = .ok status ∧
        Checked hdr part n status := by
    intro n
    induction n with
    | zero =>
      intro _
      refine ⟨_, rfl, ?_, ?_, ?_⟩
      · simp
      · simp
      · simp [OverlapSeen]
    | succ n ih =>
      intro hn
      obtain ⟨status,hloop,hchk⟩ := ih (Nat.le_of_succ_le hn)
      obtain ⟨status',hround,hchecked'⟩ := h.checkEntry_checked hn hchk
      refine ⟨status', ?_, hchecked'⟩
      rw [List.range_succ, List.foldlM_append, hloop]
      simp only [bind, Except.bind, List.foldlM_cons, List.foldlM_nil, pure, Except.pure, hround]
  exact hrounds _ le_rfl

/-- A used entry has no flag where it is in range, not OS specific, and touches no used entry behind it and no used
entry in range before it. -/
theorem Checked.published_iff (h : Checked hdr part (numberOfPartitionEntries hdr) status) :
    Published hdr part i status ↔ Used hdr part i ∧ InRange hdr part i ∧ ¬ OsSpecific hdr part i ∧
        ∀ j, Used hdr part j → j ≠ i → (i < j ∨ InRange hdr part j) → ¬ Touches hdr part i j := by
  unfold Published PartitionEntryStatus.isFlagged
  rw [Bool.or_eq_false_iff, Bool.or_eq_false_iff, ← Bool.not_eq_true, ← Bool.not_eq_true, ← Bool.not_eq_true,
    h.outOfRange, h.overlap, h.osSpecific]
  constructor
  · rintro ⟨hused,⟨hrng,hoverlap⟩,hos⟩
    have hin : InRange hdr part i := by
      by_contra hout
      exact hrng ⟨hused.1, hused, hout⟩
    refine ⟨hused, hin, fun hspecific => hos ⟨hused.1, hused, hin, hspecific⟩, ?_⟩
    intro j hused2 hne hsees htouches
    rcases Nat.lt_or_gt_of_ne hne with hlt | hlt
    · have hin2 := hsees.resolve_left (Nat.not_lt_of_gt hlt)
      exact hoverlap ⟨j, hused2.1, i, hlt, hused2, hin2, hused, htouches.symm, .inr rfl⟩
    · exact hoverlap ⟨i, hused.1, j, hlt, hused, hin, hused2, htouches, .inl rfl⟩
  · rintro ⟨hused,hin,hos,hapart⟩
    refine ⟨hused, ⟨fun hout => hout.2.2 hin, ?_⟩, fun hspecific => hos hspecific.2.2.2⟩
    rintro ⟨m,_,j,hlt,hused1,hin1,hused2,htouches,rfl | rfl⟩
    · exact hapart j hused2 (ne_of_gt hlt) (.inl hlt) htouches
    · exact hapart m hused1 (ne_of_lt hlt) (.inr hin1) htouches.symm

/-! ## The child handles -/

def ChildHandle.firstLba (p : ChildHandle) : Nat := leValue (slice p.gpt 32 8)

def ChildHandle.lastLba (p : ChildHandle) : Nat := leValue (slice p.gpt 40 8)

/-- The blocks of two partitions. -/
def ChildHandle.Apart (p q : ChildHandle) : Prop := p.lastLba < q.firstLba ∨ q.lastLba < p.firstLba

/-- The child handle of an entry. -/
def handleAt (hdr part : Bytes) (i : Nat) : ChildHandle :=
  childHandle i (slice part (i * sizeOfPartitionEntry hdr) entryStructSize)

theorem firstLba_handleAt : (handleAt hdr part i).firstLba = startAt hdr part i :=
  congrArg leValue (slice_slice (by decide))

theorem lastLba_handleAt : (handleAt hdr part i).lastLba = endAt hdr part i :=
  congrArg leValue (slice_slice (by decide))

instance : Decidable (Published hdr part i status) :=
  inferInstanceAs (Decidable ((i < numberOfPartitionEntries hdr ∧ unusedAt hdr part i = false) ∧ _))

/-- The handles are those of the published entries, in the order of the array. -/
theorem HoldsEntries.installEntries_eq (h : HoldsEntries hdr part)
    (hchk : partitionCheckGptEntry hdr part = .ok status) :
    Gpt.installEntries hdr part = .ok (((List.range (numberOfPartitionEntries hdr)).filter fun i =>
      decide (Published hdr part i status)).map (handleAt hdr part)) := by
  have hrounds : ∀ n ≤ numberOfPartitionEntries hdr,
      (List.range n).foldlM (Gpt.installEntry hdr part status) [] =
        .ok (((List.range n).filter fun i => decide (Published hdr part i status)).map
          (handleAt hdr part)) := by
    intro n
    induction n with
    | zero =>
      intro _
      rfl
    | succ n ih =>
      intro hn
      rw [List.range_succ, List.foldlM_append, ih (Nat.le_of_succ_le hn), List.filter_append, List.map_append]
      simp only [bind, Except.bind, List.foldlM_cons, List.foldlM_nil, pure, Except.pure, h.installEntry hn]
      by_cases hpublished : Published hdr part n status
      · rw [List.filter_singleton, decide_eq_true hpublished, hpublished.1.2, hpublished.2, Bool.or_self,
          if_ff]
        rfl
      have hskipped : (unusedAt hdr part n || (status n).isFlagged) = true := by
        by_contra hnot
        rw [Bool.not_eq_true, Bool.or_eq_false_iff] at hnot
        exact hpublished ⟨⟨hn, hnot.1⟩, hnot.2⟩
      rw [List.filter_singleton, decide_eq_false hpublished, hskipped, if_pos rfl]
      exact congrArg Except.ok (List.append_nil _).symm
  rw [Gpt.installEntries, hchk]
  exact hrounds _ le_rfl

/-- No used entry in range touches a used entry out of range. -/
def StraysApart (hdr part : Bytes) : Prop := ∀ i j, Used hdr part i → InRange hdr part i → Used hdr part j →
    ¬ InRange hdr part j → ¬ Touches hdr part i j

/-- The same entries in another order. -/
structure Reordered (hdr part part' : Bytes) (order : Equiv.Perm (Fin (numberOfPartitionEntries hdr))) :
    Prop where
  holds : HoldsEntries hdr part'
  entries : ∀ i : Fin (numberOfPartitionEntries hdr), entryAt hdr part' i = entryAt hdr part (order i)

theorem Sound.published (h : Sound hdr part i)
    (hchk : Checked hdr part (numberOfPartitionEntries hdr) status) : Published hdr part i status :=
  hchk.published_iff.mpr
    ⟨h.used, h.inRange, h.notOsSpecific, fun j hused2 hne _ => h.apart j hused2 hne⟩

theorem StraysApart.published_iff (h : StraysApart hdr part)
    (hchk : Checked hdr part (numberOfPartitionEntries hdr) status) :
    Published hdr part i status ↔ Sound hdr part i := by
  refine ⟨fun hpublished => ?_, fun hsound => hsound.published hchk⟩
  obtain ⟨hused,hin,hos,hapart⟩ := hchk.published_iff.mp hpublished
  refine ⟨hused, hin, hos, fun j hused2 hne => ?_⟩
  by_cases hin2 : InRange hdr part j
  · exact hapart j hused2 hne (.inr hin2)
  · exact h i j hused hin hused2 hin2

section
variable {part' : Bytes} {order : Equiv.Perm (Fin (numberOfPartitionEntries hdr))}
  (h : Reordered hdr part part' order) (i j : Fin (numberOfPartitionEntries hdr))
include h

theorem Reordered.field {off len : Nat} (hlen : off+len ≤ entryStructSize) :
    slice part' (i * sizeOfPartitionEntry hdr + off) len =
      slice part (order i * sizeOfPartitionEntry hdr + off) len := by
  have hsize : off+len ≤ sizeOfPartitionEntry hdr := le_trans hlen h.holds.size
  have hent := congrArg (fun entry => slice entry off len) (h.entries i)
  simp only [entryAt, slice_slice hsize] at hent
  exact hent

theorem Reordered.start_eq : startAt hdr part' i = startAt hdr part (order i) :=
  congrArg leValue (h.field i (by decide))

theorem Reordered.end_eq : endAt hdr part' i = endAt hdr part (order i) :=
  congrArg leValue (h.field i (by decide))

theorem Reordered.used_iff : Used hdr part' i ↔ Used hdr part (order i) := by
  have htype : slice part' (i * sizeOfPartitionEntry hdr + 0) 16 = _ := h.field i (by decide)
  rw [add_zero, add_zero] at htype
  unfold Used unusedAt
  rw [htype]
  exact and_congr_left fun _ => iff_of_true i.isLt (order i).isLt

theorem Reordered.inRange_iff : InRange hdr part' i ↔ InRange hdr part (order i) := by
  unfold InRange
  rw [h.start_eq, h.end_eq]

theorem Reordered.osSpecific_iff : OsSpecific hdr part' i ↔ OsSpecific hdr part (order i) := by
  unfold OsSpecific attributesAt
  rw [h.field i (by decide)]

theorem Reordered.touches_iff :
    Touches hdr part' i j ↔ Touches hdr part (order i) (order j) := by
  unfold Touches
  rw [h.start_eq, h.end_eq, h.start_eq, h.end_eq]

theorem Reordered.straysApart (hstrays : StraysApart hdr part) :
    StraysApart hdr part' := by
  intro i j hused hin hused2 hout
  let i : Fin (numberOfPartitionEntries hdr) := ⟨i, hused.1⟩
  let j : Fin (numberOfPartitionEntries hdr) := ⟨j, hused2.1⟩
  exact (h.touches_iff i j).not.mpr (hstrays _ _ ((h.used_iff i).mp hused) ((h.inRange_iff i).mp hin)
    ((h.used_iff j).mp hused2) ((h.inRange_iff j).not.mp hout))

theorem Reordered.sound_iff : Sound hdr part' i ↔ Sound hdr part (order i) := by
  constructor
  · intro hsound
    refine ⟨(h.used_iff i).mp hsound.used, (h.inRange_iff i).mp hsound.inRange,
      (h.osSpecific_iff i).not.mp hsound.notOsSpecific, fun k hused2 hne => ?_⟩
    obtain ⟨j,hj⟩ := order.surjective ⟨k, hused2.1⟩
    obtain rfl : (order j : Nat) = k := congrArg Fin.val hj
    refine (h.touches_iff i j).not.mp (hsound.apart j ((h.used_iff j).mpr hused2) fun heq => hne ?_)
    rw [Fin.val_inj.mp heq]
  · intro hsound
    refine ⟨(h.used_iff i).mpr hsound.used, (h.inRange_iff i).mpr hsound.inRange,
      (h.osSpecific_iff i).not.mpr hsound.notOsSpecific, fun j hused2 hne => ?_⟩
    let j : Fin (numberOfPartitionEntries hdr) := ⟨j, hused2.1⟩
    refine (h.touches_iff i j).not.mpr (hsound.apart (order j) ((h.used_iff j).mp hused2) fun heq => hne ?_)
    exact congrArg Fin.val (order.injective (Fin.val_inj.mp heq))

end

theorem apart_of_not_touches (h : ¬ Touches hdr part i j) :
    (handleAt hdr part i).Apart (handleAt hdr part j) := by
  unfold ChildHandle.Apart
  rw [firstLba_handleAt, firstLba_handleAt, lastLba_handleAt, lastLba_handleAt]
  unfold Touches at h
  omega

/-- What is published is in range, not OS specific, and apart; a sound entry is published; and where no entry out
of range touches one in range, the sound entries are all that is published, in whatever order they stand. -/
theorem partitionCheckGptEntry_publishes (h : HoldsEntries hdr part) :
    ∃ status handles, partitionCheckGptEntry hdr part = .ok status ∧ installEntries hdr part = .ok handles ∧
      (∀ p, p ∈ handles ↔ ∃ i, Published hdr part i status ∧ p = handleAt hdr part i) ∧
      handles.Pairwise ChildHandle.Apart ∧ (∀ i, Published hdr part i status →
        InRange hdr part i ∧ ¬ OsSpecific hdr part i ∧
          ∀ j, Used hdr part j → j ≠ i → InRange hdr part j → ¬ Touches hdr part i j) ∧
      (∀ i, Sound hdr part i → Published hdr part i status) ∧ (StraysApart hdr part →
        (∀ i, Published hdr part i status ↔ Sound hdr part i) ∧
        ∀ part' order status', Reordered hdr part part' order →
          partitionCheckGptEntry hdr part' = .ok status' →
          ∀ i : Fin (numberOfPartitionEntries hdr), Published hdr part' i status' ↔
            Published hdr part (order i) status) := by
  obtain ⟨status,hcheck,hchk⟩ := h.partitionCheckGptEntry_checked
  refine ⟨status, _, hcheck, h.installEntries_eq hcheck, ?_, ?_, ?_, fun i hsound =>
    hsound.published hchk, fun hstrays => ⟨fun i => hstrays.published_iff hchk, ?_⟩⟩
  · intro p
    simp only [List.mem_map, List.mem_filter, List.mem_range, decide_eq_true_eq]
    constructor
    · rintro ⟨i,⟨_,hpublished⟩,rfl⟩
      exact ⟨i, hpublished, rfl⟩
    · rintro ⟨i,hpublished,rfl⟩
      exact ⟨i, ⟨hpublished.1.1, hpublished⟩, rfl⟩
  · rw [List.pairwise_map]
    have hnodup : (List.range (numberOfPartitionEntries hdr)).Pairwise (· ≠ ·) := List.nodup_range
    refine List.Pairwise.imp_of_mem ?_ (hnodup.filter _)
    intro i j hmem hmem2 hne
    have hpublished := of_decide_eq_true (List.mem_filter.mp hmem).2
    have hpublished2 := of_decide_eq_true (List.mem_filter.mp hmem2).2
    have hin2 := (hchk.published_iff.mp hpublished2).2.1
    exact apart_of_not_touches
      ((hchk.published_iff.mp hpublished).2.2.2 j hpublished2.1 hne.symm (.inr hin2))
  · intro i hpublished
    obtain ⟨_,hin,hos,hapart⟩ := hchk.published_iff.mp hpublished
    exact ⟨hin, hos, fun j hused2 hne hin2 => hapart j hused2 hne (.inr hin2)⟩
  · intro part' order status' hreordered hcheck' i
    obtain ⟨statuses,hstatuses,hchecked'⟩ := hreordered.holds.partitionCheckGptEntry_checked
    obtain rfl := Except.ok.inj (hcheck'.symm.trans hstatuses)
    rw [(hreordered.straysApart hstrays).published_iff hchecked', hstrays.published_iff hchk]
    exact hreordered.sound_iff i

end

/-- An entry whose attributes have bit 1. -/
def osSpecificEntry : Bytes := patch (entryOf 1 4) 48 [2]

def osSpecificBlock : Bytes :=
  partitionSetCrc (patch backupBlock 88 (leBytes 4 (calculateCrc32 osSpecificEntry)))

def osSpecificDisk : Bytes :=
  mbrBlock ++ blockOf [] ++ blockOf [] ++ blockOf osSpecificEntry ++ blockOf [] ++ osSpecificBlock

/-- The header of the disk above. -/
def osSpecificHeader : Bytes := osSpecificBlock.take headerStructSize

/-- An OS specific partition is used, in range and alone, and not published. -/
theorem partitionCheckGptEntry_osSpecific : ¬ ∀ dev disk lba hdr part status, IsValid dev disk lba hdr →
      readEntryArray dev disk hdr = some part → partitionCheckGptEntry hdr part = .ok status →
      ∀ i, Published hdr part i status ↔ Used hdr part i ∧ InRange hdr part i ∧
          ∀ j, Used hdr part j → j ≠ i → ¬ Touches hdr part i j := by
  intro hclaim
  have hflagged : (partitionCheckGptEntry osSpecificHeader osSpecificEntry).toOption.map
      (fun status => (status 0).isFlagged) = some true := by decide +kernel
  cases hchk : partitionCheckGptEntry osSpecificHeader osSpecificEntry with
  | error fault =>
    rw [hchk] at hflagged
    cases hflagged
  | ok status =>
    rw [hchk] at hflagged
    have hiff := hclaim sixBlocks osSpecificDisk 5 osSpecificHeader osSpecificEntry status
      ⟨by decide +kernel, by decide +kernel⟩ (by decide +kernel) hchk 0
    have hone : numberOfPartitionEntries osSpecificHeader = 1 := by decide +kernel
    have hpublished := hiff.mpr ⟨⟨by decide +kernel, by decide +kernel⟩,
      (by decide +kernel : isOutOfRange osSpecificHeader (startAt osSpecificHeader osSpecificEntry 0)
        (endAt osSpecificHeader osSpecificEntry 0) = false), fun j hused2 hne => ?_⟩
    · have hset : (status 0).isFlagged = true := Option.some.inj hflagged
      rw [hpublished.2] at hset
      cases hset
    · have hlt := hused2.1
      omega

/-- Four entries: two with block 6 in common, an OS specific one, and one that is apart. -/
def fourEntries : List Bytes := [patch (entryOf 1 4) 40 [6], entryOf 1 6, patch (entryOf 1 8) 48 [2], entryOf 1 9]

def fourHeader : Bytes := patch (patch osSpecificHeader 48 (leBytes 8 9)) 80 (leBytes 4 4)

theorem reordered_fourEntries : Reordered fourHeader fourEntries.flatten fourEntries.reverse.flatten
    ⟨Fin.rev, Fin.rev, Fin.rev_rev, Fin.rev_rev⟩ := by
  have hentries : ∀ k < 4, entryAt fourHeader fourEntries.reverse.flatten k =
      entryAt fourHeader fourEntries.flatten (4-(k+1)) := by decide +kernel
  have hnumber : numberOfPartitionEntries fourHeader = 4 := by decide +kernel
  refine ⟨⟨by decide +kernel, by decide +kernel⟩, fun ⟨k, hk⟩ => ?_⟩
  show entryAt _ _ k = entryAt _ _ (numberOfPartitionEntries fourHeader - (k+1))
  rw [hnumber] at hk ⊢
  exact hentries k hk

/-- Only the last one is published, and the first one when they stand in the reverse order. -/
theorem partitionCheckGptEntry_publishes_fourEntries : ∃ status status',
    partitionCheckGptEntry fourHeader fourEntries.flatten = .ok status ∧
    partitionCheckGptEntry fourHeader fourEntries.reverse.flatten = .ok status' ∧
    (∀ i < 4, Published fourHeader fourEntries.flatten i status ↔ i = 3) ∧
    Published fourHeader fourEntries.reverse.flatten 0 status' := by
  have hnumber : numberOfPartitionEntries fourHeader = 4 := by decide +kernel
  have hused : ∀ j < 4, unusedAt fourHeader fourEntries.flatten j = false := by decide +kernel
  have hrange : ∀ j < 4, isOutOfRange fourHeader (startAt fourHeader fourEntries.flatten j)
    (endAt fourHeader fourEntries.flatten j) = false := by decide +kernel
  obtain ⟨status,_,hchk,_,_,_,hin,hsound,hstrays⟩ := partitionCheckGptEntry_publishes
    (⟨by decide +kernel, by decide +kernel⟩ : HoldsEntries fourHeader fourEntries.flatten)
  obtain ⟨status',_,hchk',-⟩ := partitionCheckGptEntry_publishes reordered_fourEntries.holds
  obtain ⟨-,hpermuted⟩ := hstrays fun i j _ _ hj hout => absurd (hrange j (hnumber ▸ hj.1)) hout
  have hlast : Published fourHeader fourEntries.flatten 3 status := by
    refine hsound 3 ⟨⟨by rw [hnumber]; decide, hused 3 (by decide)⟩, hrange 3 (by decide), ?_, ?_⟩
    · exact (by decide +kernel : ¬ attributesAt fourHeader fourEntries.flatten 3 &&& 2 ≠ 0)
    · intro j hj hne
      have hapart : ∀ j < 4, j ≠ 3 → ¬ (startAt fourHeader fourEntries.flatten j ≤ endAt fourHeader
        fourEntries.flatten 3 ∧ startAt fourHeader fourEntries.flatten 3 ≤
          endAt fourHeader fourEntries.flatten j) := by decide +kernel
      exact hapart j (hnumber ▸ hj.1) hne
  refine ⟨status, status', hchk, hchk', fun i hi => ⟨fun hpublished => ?_, fun hthree => hthree ▸ hlast⟩, ?_⟩
  · obtain ⟨-,hos,hapart⟩ := hin i hpublished
    have hother : ∀ j < 4, j ≠ i → ¬ Touches fourHeader fourEntries.flatten i j := fun j hj hne =>
      hapart j ⟨by rw [hnumber]; exact hj, hused j hj⟩ hne (hrange j hj)
    match i, hi with
    | 0, _ => exact absurd (by decide +kernel) (hother 1 (by decide) (by decide))
    | 1, _ => exact absurd (by decide +kernel) (hother 0 (by decide) (by decide))
    | 2, _ => exact absurd (by decide +kernel : attributesAt fourHeader fourEntries.flatten 2 &&& 2 ≠ 0) hos
    | 3, _ => rfl
  · refine (hpermuted _ _ status' reordered_fourEntries hchk' ⟨0, by rw [hnumber]; decide⟩).mpr ?_
    show Published _ _ (numberOfPartitionEntries fourHeader - (0+1)) status
    rw [hnumber]
    exact hlast

end Liano.Gpt
