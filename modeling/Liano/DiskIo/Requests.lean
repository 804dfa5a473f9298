import Liano.DiskIo.Bytes

/-! The subtask list of a request, and the request as a whole. -/
namespace Liano.DiskIo.Data

open List hiding min

open Lib

variable {m : Media} {r : Request} {a : Allocations} {s : Subtask} {st : State}

section Half

variable {area : Area} {lba offset length position : Nat}

theorem chain_halfSubtasks {rest : List Subtask} (harea : area ≠ .user)
    (h : MainOk m r ⟨r.write, lba, offset, length, some area, .user, position, r.blocking⟩)
    (hhalf : length % m.blockSize ≠ 0) (hr : Chain m r rest) :
    Chain m r (halfSubtasks m r area lba offset length position ++ rest) := by
  unfold halfSubtasks
  cases hw : r.write with
  | true =>
    rw [hw] at h
    exact Chain.pair ⟨area, harea, rfl, rfl⟩ h hw hhalf hr
  | false =>
    rw [hw] at h
    exact Chain.single h (fun hw' => by rw [hw] at hw'; cases hw') hr

theorem mem_halfSubtasks (hs : s ∈ halfSubtasks m r area lba offset length position) :
    (s.blocking = false → r.blocking = false) ∧ (∀ b, s.workingBuffer = some b → b = area) ∧
      ∀ b, Uses s b → b = area ∨ b = .user := by
  have hmain : s.workingBuffer = some area ∧ s.buffer = .user ∧ s.blocking = r.blocking ∨
      s.workingBuffer = none ∧ s.buffer = area ∧ s.blocking = true := by
    unfold halfSubtasks at hs
    split at hs
    · obtain rfl | hs := mem_cons.mp hs
      · exact .inr ⟨rfl, rfl, rfl⟩
      · obtain rfl := mem_singleton.mp hs
        exact .inl ⟨rfl, rfl, rfl⟩
    · obtain rfl := mem_singleton.mp hs
      exact .inl ⟨rfl, rfl, rfl⟩
  unfold Uses
  obtain ⟨hb,hu,hk⟩ | ⟨hb,hu,hk⟩ := hmain
  · rw [hb, hu, hk]
    refine ⟨id, fun b h => (Option.some.inj h).symm, fun b h => ?_⟩
    obtain h | h := h
    · exact .inl (Option.some.inj h).symm
    · exact .inr h.symm
  rw [hb, hu, hk]
  refine ⟨fun h => absurd h.symm Bool.false_ne_true, fun b h => absurd h.symm (Option.some_ne_none b),
    fun b h => ?_⟩
  obtain h | h := h
  · exact absurd h.symm (Option.some_ne_none b)
  · exact .inl h.symm

theorem apart_halfSubtasks (m : Media) (r : Request) (area : Area) (lba offset length position : Nat) :
    (halfSubtasks m r area lba offset length position).Pairwise Apart := by
  unfold halfSubtasks
  split
  · refine pairwise_pair.mpr ?_
    intro hb
    cases hb
  · exact pairwise_singleton _ _

theorem has_halfSubtasks {i : Nat} (hle : position ≤ i) (hlt : i < position+length) :
    ∃ s ∈ halfSubtasks m r area lba offset length position, Has r s i := by
  unfold halfSubtasks
  cases hw : r.write with
  | true => exact ⟨_, mem_cons_of_mem _ mem_cons_self, hw.symm, hle, hlt⟩
  | false => exact ⟨_, mem_cons_self, hw.symm, hle, hlt⟩

end Half

section
variable (m : Media) (r : Request)

theorem underRun_add : r.offset / m.blockSize * m.blockSize + underRun m r = r.offset :=
  Nat.div_add_mod' r.offset m.blockSize

theorem underRun_lt : underRun m r < m.blockSize := Nat.mod_lt _ m.blockSize_pos

theorem overRun_lt : overRun m r < m.blockSize := Nat.mod_lt _ m.blockSize_pos

theorem rest_add : middleSize m r + overRun m r = restSize m r := Nat.div_add_mod' (restSize m r) m.blockSize

theorem underRunLength_le : underRunLength m r ≤ r.bufferSize := by
  unfold underRunLength
  split
  · exact Nat.zero_le _
  · exact min_le_right _ _

theorem size_add : underRunLength m r + middleSize m r + overRun m r = r.bufferSize := by
  have hrest := rest_add m r
  have hle := underRunLength_le m r
  unfold restSize at hrest
  omega

end

theorem middleLba_place (hrest : restSize m r ≠ 0) :
    middleLba m r * m.blockSize = r.offset + underRunLength m r := by
  have hadd := underRun_add m r
  have hlt := underRun_lt m r
  unfold restSize at hrest
  unfold middleLba underRunLength at *
  split
  · next hz => omega
  next hz =>
  rw [if_neg hz] at hrest
  rw [Nat.succ_mul]
  omega

theorem overRunLba_place (hrest : restSize m r ≠ 0) :
    overRunLba m r * m.blockSize = r.offset + underRunLength m r + middleSize m r := by
  unfold overRunLba
  rw [add_mul, middleLba_place hrest]
  rfl

theorem half_length {length : Nat} (hpos : 0 < length) (hlt : length < m.blockSize) :
    length % m.blockSize ≠ 0 := by
  rw [Nat.mod_eq_of_lt hlt]
  exact ne_of_gt hpos

theorem mainOk_underRun {area : Area} (harea : area ≠ .user) (hsize : r.bufferSize ≠ 0)
    (hu : underRun m r ≠ 0) :
    MainOk m r ⟨r.write, r.offset / m.blockSize, underRun m r, underRunLength m r, some area, .user, 0,
      r.blocking⟩ ∧ underRunLength m r % m.blockSize ≠ 0 := by
  have hadd := underRun_add m r
  have hlt := underRun_lt m r
  have hlen : underRunLength m r = min (m.blockSize - underRun m r) r.bufferSize := if_neg hu
  have hhalf : underRunLength m r % m.blockSize ≠ 0 := half_length (by omega) (by omega)
  refine ⟨⟨rfl, rfl, fun h => harea (Option.some.inj h), ?_, ?_, fun h => absurd h hhalf, fun _ => ?_⟩, hhalf⟩
  · exact hadd
  · dsimp only
    omega
  · refine ⟨rfl, ?_, fun j hj hle hlt' => ?_⟩
    · dsimp only
      omega
    · dsimp only at hle hlt' ⊢
      omega

theorem mainOk_overRun {area : Area} (harea : area ≠ .user) (ho : overRun m r ≠ 0) :
    MainOk m r ⟨r.write, overRunLba m r, 0, overRun m r, some area, .user,
      underRunLength m r + middleSize m r, r.blocking⟩ ∧ overRun m r % m.blockSize ≠ 0 := by
  have hsize := size_add m r
  have hrest := rest_add m r
  have hplace := @overRunLba_place m r (by omega)
  have hhalf : overRun m r % m.blockSize ≠ 0 := half_length (Nat.pos_of_ne_zero ho) (overRun_lt m r)
  refine ⟨⟨rfl, rfl, fun h => harea (Option.some.inj h), ?_, ?_, fun h => absurd h hhalf, fun _ => ?_⟩, hhalf⟩
  · dsimp only
    omega
  · dsimp only
    omega
  · have hlt := overRun_lt m r
    refine ⟨rfl, ?_, fun j hj hle hlt' => ?_⟩
    · dsimp only
      omega
    · dsimp only at hle hlt' ⊢
      omega

theorem mainOk_whole {lba length position : Nat} {working : Option Area} {blocking : Bool}
    (hworking : working ≠ some .user) (hplace : lba*m.blockSize = r.offset+position)
    (hins : position+length ≤ r.bufferSize) (hwhole : length % m.blockSize = 0) :
    MainOk m r ⟨r.write, lba, 0, length, working, .user, position, blocking⟩ :=
  ⟨rfl, rfl, hworking, hplace, hins, fun _ => .inl rfl, fun h => absurd hwhole h⟩

/-- The slices follow one another to the end of the middle, if their size is that of whole blocks. -/
theorem slices_ok {overRunLba : Nat} : ∀ (fuel lba position size : Nat),
      m.dataBufferSize = m.dataBufferBlockNum*m.blockSize ∨ size ≤ m.dataBufferSize → size = (overRunLba-lba) * m.blockSize → overRunLba-lba ≤ fuel →
      (lba < overRunLba → lba*m.blockSize = r.offset+position) → position+size ≤ r.bufferSize →
      Chain m r (slices m r.write overRunLba fuel lba position size) ∧ ∀ i, position ≤ i → i < position+size →
          ∃ s ∈ slices m r.write overRunLba fuel lba position size, Has r s i := by
  intro fuel
  induction fuel with
  | zero =>
    intro lba position size _ hsize hfuel _ _
    have hz : overRunLba-lba = 0 := Nat.le_zero.mp hfuel
    rw [hz, zero_mul] at hsize
    exact ⟨Chain.nil, fun i hle hlt => by omega⟩
  | succ fuel ih =>
    intro lba position size hd hsize hfuel hplace hinside
    have hnum := m.dataBufferBlockNum_pos
    unfold slices
    split
    · next hlt =>
      have hmin : min size m.dataBufferSize = min (overRunLba-lba) m.dataBufferBlockNum * m.blockSize := by
        obtain hd | hd := hd
        · rw [hsize, hd]
          exact (Nat.mul_min_mul_right _ _ _)
        have hblk : overRunLba-lba ≤ m.dataBufferBlockNum := by
          refine Nat.le_of_mul_le_mul_right ?_ m.blockSize_pos
          rw [← hsize]
          exact le_trans hd (Nat.mod_le _ _)
        rw [min_eq_left hd, min_eq_left hblk, hsize]
      have hleft : size - min size m.dataBufferSize =
          (overRunLba - (lba+m.dataBufferBlockNum)) * m.blockSize := by
        rw [hmin, hsize, ← Nat.sub_mul]
        congr 1
        omega
      -- where another slice follows, this one is of all its blocks
      have hnext : lba+m.dataBufferBlockNum < overRunLba →
          (lba+m.dataBufferBlockNum) * m.blockSize = r.offset + (position + min size m.dataBufferSize) := by
        intro hmore
        have hall : min (overRunLba-lba) m.dataBufferBlockNum = m.dataBufferBlockNum :=
          min_eq_right (by omega)
        rw [hmin, hall, add_mul, hplace hlt, add_assoc]
      obtain ⟨hch,hhas⟩ := ih (lba+m.dataBufferBlockNum) (position + min size m.dataBufferSize)
        (size - min size m.dataBufferSize)
        (hd.imp_right fun hle => le_trans (Nat.sub_le _ _) hle) hleft (by omega) hnext (by omega)
      have hwhole : min size m.dataBufferSize % m.blockSize = 0 := by
        rw [hmin]
        exact Nat.mul_mod_left _ _
      refine ⟨Chain.single (mainOk_whole (fun h => by cases h) (hplace hlt) (by omega) hwhole)
        (fun _ => hwhole) hch, fun i hle hlti => ?_⟩
      by_cases hi : i < position + min size m.dataBufferSize
      · exact ⟨_, mem_cons_self, rfl, hle, hi⟩
      · obtain ⟨s,hs,hi'⟩ := hhas i (by omega) (by omega)
        exact ⟨s, mem_cons_of_mem _ hs, hi'⟩
    · next hlt =>
      have hz : overRunLba-lba = 0 := by omega
      rw [hz, zero_mul] at hsize
      exact ⟨Chain.nil, fun i hle hlt => by omega⟩

theorem mem_slices {write : Bool} {overRunLba : Nat} : ∀ {fuel lba position size : Nat},
    s ∈ slices m write overRunLba fuel lba position size →
      s.blocking = true ∧ s.workingBuffer = some .shared ∧ s.buffer = .user ∧ s.offset = 0 ∧
        s.length ≤ m.dataBufferSize := by
  intro fuel
  induction fuel with
  | zero =>
    intro lba position size hs
    exact absurd hs not_mem_nil
  | succ fuel ih =>
    intro lba position size hs
    unfold slices at hs
    split at hs
    · obtain rfl | hs := mem_cons.mp hs
      · exact ⟨rfl, rfl, rfl, rfl, min_le_right _ _⟩
      · exact ih hs
    · exact absurd hs not_mem_nil

theorem apart_slices {write : Bool} {overRunLba fuel lba position size : Nat} :
    (slices m write overRunLba fuel lba position size).Pairwise Apart := by
  refine List.Pairwise.imp_of_mem (fun hs _ _ hb => ?_) (pairwise_of_forall fun _ _ => trivial)
  rw [(mem_slices hs).1] at hb
  cases hb

/-- The middle fits one slice or does not need one. -/
def OneSlice (m : Media) (r : Request) (a : Allocations) : Prop :=
  middleSize m r ≤ m.dataBufferSize ∨ overRunLba m r ≤ middleLba m r ∨ aligned m r = true ∨
    r.blocking = false ∧ a.middle = true

/-- Parts of blocks go through the shared working buffer only where a block fits it. -/
def PartsFit (m : Media) (r : Request) : Prop :=
  r.blocking = false ∨ underRun m r = 0 ∧ overRun m r = 0 ∨ m.blockSize ≤ m.sharedSize

/-- The product of 32 bits is that of the numbers, or the wrapped one is enough for the request. -/
def SlicesFit (m : Media) (r : Request) (a : Allocations) : Prop :=
  m.dataBufferBlockNum*m.blockSize < 2^32 ∨ PartsFit m r ∧ OneSlice m r a

theorem middleSubtasks_ok (hfit : SlicesFit m r a) : Chain m r (middleSubtasks m r a) ∧
      ∀ i, underRunLength m r ≤ i → i < underRunLength m r + middleSize m r →
        ∃ s ∈ middleSubtasks m r a, Has r s i := by
  have hsize := size_add m r
  have hwhole : middleSize m r % m.blockSize = 0 := Nat.mul_mod_left _ _
  unfold middleSubtasks
  split
  · next hle =>
    have hz : restSize m r / m.blockSize = 0 := by
      unfold overRunLba at hle
      generalize restSize m r / m.blockSize = blocks at hle ⊢
      omega
    refine ⟨Chain.nil, fun i hle hlt => ?_⟩
    unfold middleSize at hlt
    rw [hz, zero_mul] at hlt
    omega
  · next hlt =>
    have hrest : restSize m r ≠ 0 := by
      intro hz
      unfold overRunLba at hlt
      rw [hz, Nat.zero_div] at hlt
      exact hlt le_rfl
    have hplace := middleLba_place hrest
    split
    · refine ⟨Chain.single (mainOk_whole (fun h => by cases h) hplace (by omega) hwhole) (fun _ => hwhole)
        Chain.nil, fun i hle hlt => ⟨_, mem_cons_self, rfl, hle, hlt⟩⟩
    next hal =>
    split
    · refine ⟨Chain.single (mainOk_whole (fun h => by cases h) hplace (by omega) hwhole) (fun _ => hwhole)
        Chain.nil, fun i hle hlt => ⟨_, mem_cons_self, rfl, hle, hlt⟩⟩
    next hnew =>
    have hd : m.dataBufferSize = m.dataBufferBlockNum*m.blockSize ∨
        middleSize m r ≤ m.dataBufferSize := by
      obtain h | ⟨-,h | h | h | h⟩ := hfit
      · exact .inl (Nat.mod_eq_of_lt h)
      · exact .inr h
      · exact absurd h hlt
      · exact absurd h hal
      · rw [h.1, h.2] at hnew
        exact absurd rfl hnew
    refine slices_ok _ _ _ _ hd ?_ le_rfl (fun _ => hplace) (by omega)
    unfold middleSize overRunLba
    rw [Nat.add_sub_cancel_left]

theorem mem_middleSubtasks (hs : s ∈ middleSubtasks m r a) :
    (s.blocking = false → ∀ b, s.workingBuffer = some b → b = .middle) ∧
      ∀ b, Uses s b → b = .middle ∨ b = .shared ∨ b = .user := by
  unfold middleSubtasks at hs
  unfold Uses
  split at hs
  · exact absurd hs not_mem_nil
  split at hs
  · obtain rfl := mem_singleton.mp hs
    simp
  split at hs
  · obtain rfl := mem_singleton.mp hs
    grind
  · obtain ⟨hb,hw,hu,-,-⟩ := mem_slices hs
    grind

theorem apart_middleSubtasks (m : Media) (r : Request) (a : Allocations) :
    (middleSubtasks m r a).Pairwise Apart := by
  unfold middleSubtasks
  split
  · exact List.Pairwise.nil
  split
  · exact pairwise_singleton _ _
  · split
    · exact pairwise_singleton _ _
    · exact apart_slices

theorem area_ne_user (blocking : Bool) {area : Area} (h : area ≠ .user) :
    (if blocking then .shared else area) ≠ Area.user := by
  cases blocking
  · exact h
  · intro he
    cases he

theorem subtasksOf_ok (hfit : SlicesFit m r a) :
    Chain m r (subtasksOf m r a) ∧ (subtasksOf m r a).Pairwise Apart ∧
      ∀ i < r.bufferSize, ∃ s ∈ subtasksOf m r a, Has r s i := by
  unfold subtasksOf
  split
  · next hz =>
    refine ⟨Chain.single ⟨rfl, rfl, (Option.some_ne_none _).symm, underRun_add m r, Nat.zero_le _, fun _ => .inr rfl,
      fun h => absurd (Nat.zero_mod _) h⟩ (fun _ => Nat.zero_mod _) Chain.nil, pairwise_singleton _ _,
      fun i hi => absurd hi (by omega)⟩
  next hsize =>
  obtain ⟨hmiddle,hmiddleHas⟩ := middleSubtasks_ok hfit
  have hsum := size_add m r
  refine ⟨?_, ?_, fun i hi => ?_⟩
  · have hover : Chain m r (overRunSubtasks m r ++ middleSubtasks m r a) := by
      unfold overRunSubtasks
      split
      · exact hmiddle
      next ho =>
      have hne : (if r.blocking then Area.shared else .overRun) ≠ .user :=
        area_ne_user _ fun h => by cases h
      obtain ⟨hmain,hhalf⟩ := mainOk_overRun hne ho
      exact chain_halfSubtasks hne hmain hhalf hmiddle
    rw [append_assoc]
    unfold underRunSubtasks
    split
    · exact hover
    next hu =>
    have hne : (if r.blocking then Area.shared else .underRun) ≠ .user :=
      area_ne_user _ fun h => by cases h
    obtain ⟨hmain,hhalf⟩ := mainOk_underRun hne hsize hu
    exact chain_halfSubtasks hne hmain hhalf hover
  · have hunder (s : Subtask) (hs : s ∈ underRunSubtasks m r) (hb : s.blocking = false) :
        ∀ b, s.workingBuffer = some b → b = .underRun := by
      unfold underRunSubtasks at hs
      split at hs
      · exact absurd hs not_mem_nil
      · obtain ⟨hk,hw,-⟩ := mem_halfSubtasks hs
        rw [hk hb] at hw
        exact hw
    have hover (s : Subtask) (hs : s ∈ overRunSubtasks m r) :
        (s.blocking = false → ∀ b, s.workingBuffer = some b → b = .overRun) ∧
          ∀ b, Uses s b → b = .overRun ∨ b = .shared ∨ b = .user := by
      unfold overRunSubtasks at hs
      split at hs
      · exact absurd hs not_mem_nil
      obtain ⟨hk,hw,hu⟩ := mem_halfSubtasks hs
      refine ⟨fun hb => ?_, fun b hb => ?_⟩
      · rw [hk hb] at hw
        exact hw
      · obtain h | h := hu b hb
        · rw [h]
          cases r.blocking <;> simp
        · exact .inr (.inr h)
    have hpairs : (underRunSubtasks m r).Pairwise Apart ∧ (overRunSubtasks m r).Pairwise Apart := by
      unfold underRunSubtasks overRunSubtasks
      constructor <;> split
      · exact List.Pairwise.nil
      · exact apart_halfSubtasks _ _ _ _ _ _ _
      · exact List.Pairwise.nil
      · exact apart_halfSubtasks _ _ _ _ _ _ _
    rw [append_assoc]
    refine pairwise_append.mpr ⟨hpairs.1, pairwise_append.mpr ⟨hpairs.2,
      apart_middleSubtasks m r a, fun s hs s' hs' hb area harea hu => ?_⟩,
      fun s hs s' hs' hb area harea hu => ?_⟩
    · obtain rfl := (hover s hs).1 hb area harea
      obtain h | h | h := (mem_middleSubtasks hs').2 _ hu <;> cases h
    · obtain rfl := hunder s hs hb area harea
      obtain hs' | hs' := mem_append.mp hs'
      · obtain h | h | h := (hover s' hs').2 _ hu <;> cases h
      · obtain h | h | h := (mem_middleSubtasks hs').2 _ hu <;> cases h
  · by_cases hunder : i < underRunLength m r
    · have hu : underRun m r ≠ 0 := by
        intro hz
        unfold underRunLength at hunder
        rw [if_pos hz] at hunder
        exact absurd hunder (Nat.not_lt_zero i)
      obtain ⟨s,hs,hhas⟩ := @has_halfSubtasks m r (if r.blocking then .shared else .underRun)
        (r.offset / m.blockSize) (underRun m r) (underRunLength m r) 0 i (Nat.zero_le i) (by omega)
      refine ⟨s, mem_append.mpr (.inl (mem_append.mpr (.inl ?_))), hhas⟩
      unfold underRunSubtasks
      rw [if_neg hu]
      exact hs
    · by_cases hmid : i < underRunLength m r + middleSize m r
      · obtain ⟨s,hs,hhas⟩ := hmiddleHas i (by omega) hmid
        exact ⟨s, mem_append.mpr (.inr hs), hhas⟩
      have ho : overRun m r ≠ 0 := by omega
      obtain ⟨s,hs,hhas⟩ := @has_halfSubtasks m r (if r.blocking then .shared else .overRun)
        (overRunLba m r) 0 (overRun m r) (underRunLength m r + middleSize m r) i (by omega) (by omega)
      refine ⟨s, mem_append.mpr (.inl (mem_append.mpr (.inr ?_))), hhas⟩
      unfold overRunSubtasks
      rw [if_neg ho]
      exact hs

theorem dataBufferSize_le_sharedSize (m : Media) : m.dataBufferSize ≤ m.sharedSize := by
  have hdiv := Nat.div_add_mod m.dataBufferSize 4096
  unfold Media.sharedSize
  split <;> omega

theorem block_le_sharedSize (hprod : m.dataBufferBlockNum*m.blockSize < 2^32) : m.blockSize ≤ m.sharedSize := by
  refine le_trans ?_ (dataBufferSize_le_sharedSize m)
  unfold Media.dataBufferSize
  rw [Nat.mod_eq_of_lt hprod]
  exact Nat.le_mul_of_pos_left _ m.dataBufferBlockNum_pos

theorem overruns_eq_false (hblock : s.dataArea = .shared → m.blockSize ≤ m.sharedSize)
    (hend : s.dataArea = .shared → s.offset+s.length ≤ m.sharedSize) : s.overruns m = false := by
  unfold Subtask.overruns
  cases harea : s.dataArea == .shared with
  | false => rfl
  | true =>
    rw [beq_iff_eq] at harea
    have hblock := hblock harea
    have hend := hend harea
    have htransfer : s.transferSize m ≤ m.sharedSize := by
      unfold Subtask.transferSize
      split <;> omega
    rw [Bool.true_and, decide_eq_false_iff_not, Nat.not_lt]
    exact Nat.max_le.mpr ⟨hend, htransfer⟩

theorem halfSubtasks_inside {area : Area} {lba offset length position : Nat}
    (hblock : area = .shared → m.blockSize ≤ m.sharedSize) (hend : offset+length ≤ m.blockSize)
    (hs : s ∈ halfSubtasks m r area lba offset length position) : s.overruns m = false := by
  have hmain : s.dataArea = area ∧ s.offset+s.length ≤ m.blockSize := by
    unfold halfSubtasks at hs
    split at hs
    · obtain rfl | hs := mem_cons.mp hs
      · exact ⟨rfl, Nat.le_of_eq (Nat.zero_add m.blockSize)⟩
      · obtain rfl := mem_singleton.mp hs
        exact ⟨rfl, hend⟩
    · obtain rfl := mem_singleton.mp hs
      exact ⟨rfl, hend⟩
  obtain ⟨rfl,hend⟩ := hmain
  exact overruns_eq_false hblock fun hshared => le_trans hend (hblock hshared)

theorem middleSubtasks_inside (hfit : SlicesFit m r a) (hs : s ∈ middleSubtasks m r a) : s.overruns m = false := by
  unfold middleSubtasks at hs
  split at hs
  · exact absurd hs not_mem_nil
  rename_i hsome
  split at hs
  · obtain rfl := mem_singleton.mp hs
    rfl
  rename_i hal
  split at hs
  · obtain rfl := mem_singleton.mp hs
    rfl
  rename_i hnew
  obtain ⟨-,-,-,hoffset,hlength⟩ := mem_slices hs
  have hshared := dataBufferSize_le_sharedSize m
  refine overruns_eq_false (fun _ => ?_) fun _ => by omega
  obtain hprod | ⟨-,hone | hnone | hal' | ⟨hb,ha⟩⟩ := hfit
  · exact block_le_sharedSize hprod
  · -- the middle has a block
    have hpos : 0 < restSize m r / m.blockSize := by
      unfold overRunLba at hsome
      omega
    have hle : m.blockSize ≤ middleSize m r := Nat.le_mul_of_pos_left _ hpos
    omega
  · exact absurd hnone hsome
  · exact absurd hal' hal
  · rw [hb, ha] at hnew
    exact absurd rfl hnew

theorem subtasksOf_inside (hfit : SlicesFit m r a) (hs : s ∈ subtasksOf m r a) : s.overruns m = false := by
  have hparts : ∀ area, area ≠ .shared → underRun m r ≠ 0 ∨ overRun m r ≠ 0 →
      (if r.blocking then .shared else area) = Area.shared → m.blockSize ≤ m.sharedSize := by
    intro area harea hpart hshared
    obtain hprod | ⟨hb | hwhole | hblock,-⟩ := hfit
    · exact block_le_sharedSize hprod
    · rw [hb] at hshared
      exact absurd hshared harea
    · obtain hu | ho := hpart
      · exact absurd hwhole.1 hu
      · exact absurd hwhole.2 ho
    · exact hblock
  unfold subtasksOf at hs
  split at hs
  · obtain rfl := mem_singleton.mp hs
    rfl
  rw [mem_append, mem_append] at hs
  obtain (hs | hs) | hs := hs
  · unfold underRunSubtasks at hs
    split at hs
    · exact absurd hs not_mem_nil
    rename_i hu
    refine halfSubtasks_inside (hparts _ (fun h => by cases h) (.inl hu)) ?_ hs
    have hlt := underRun_lt m r
    unfold underRunLength
    rw [if_neg hu]
    omega
  · unfold overRunSubtasks at hs
    split at hs
    · exact absurd hs not_mem_nil
    rename_i ho
    refine halfSubtasks_inside (hparts _ (fun h => by cases h) (.inr ho)) ?_ hs
    rw [Nat.zero_add]
    exact le_of_lt (overRun_lt m r)
  · exact middleSubtasks_inside hfit hs

/-- No transfer has gone past the shared working buffer, and none of those that are left will. -/
structure Inside (m : Media) (st : State) : Prop where
  overrun : st.overrun = false
  waiting : ∀ s ∈ st.waiting, s.overruns m = false
  pending : ∀ s ∈ st.pending, s.overruns m = false

theorem Inside.transfer (h : Inside m st) (hs : s.overruns m = false) : Inside m (transfer m s st) := by
  refine ⟨?_, h.waiting, h.pending⟩
  change (st.overrun || s.overruns m) = false
  rw [h.overrun, hs, Bool.or_false]

theorem Inside.submitNext (h : Inside m st) : Inside m (submitNext m st true) := by
  unfold Data.submitNext
  cases hwait : st.waiting with
  | nil => exact h
  | cons s rest =>
    have hwaiting := h.waiting
    rw [hwait] at hwaiting
    obtain ⟨hs,hrest⟩ := forall_mem_cons.mp hwaiting
    dsimp only
    unfold submitSubtask
    simp only [Bool.not_true, Bool.false_eq_true, if_false]
    split
    · exact Inside.transfer ⟨h.overrun, hrest, h.pending⟩ hs
    · refine ⟨h.overrun, hrest, fun s' hs' => ?_⟩
      obtain hs' | hs' := mem_append.mp hs'
      · exact h.pending s' hs'
      · rw [mem_singleton.mp hs']
        exact hs

theorem createSubtaskList_eq {subtasks : List Subtask} (h : createSubtaskList m r a = some subtasks) :
    subtasks = subtasksOf m r a := by
  unfold createSubtaskList at h
  split at h
  · cases h
  · split at h
    · exact (Option.some.inj h).symm
    · cases h

theorem step_failed (m : Media) (e : Event) (h : st.failed = true) : (step m e st).failed = true := by
  cases e with
  | submit ok =>
    change (submitNext m st ok).failed = true
    unfold submitNext
    split
    · exact h
    unfold submitSubtask
    split
    · rfl
    · split <;> exact h
  | complete s ok =>
    change (completeSubtask m s st ok).failed = true
    unfold completeSubtask
    split
    · split
      · exact h
      · rfl
    · exact h

theorem submitNext_fails (m : Media) (st : State) :
    submitNext m st false = st ∨ (submitNext m st false).failed = true := by
  unfold submitNext
  cases st.waiting with
  | nil => exact .inl rfl
  | cons s rest => exact .inr rfl

theorem run_kept {P : State → Prop} (hsubmit : ∀ st, P st → P (submitNext m st true))
    (hcompl : ∀ st s, P st → s ∈ st.pending → P (transfer m s { st with pending := st.pending.erase s })) :
    ∀ (es : List Event) (st : State), st.failed = true ∨ P st → (run m es st).failed = true ∨ P (run m es st) := by
  intro es
  induction es with
  | nil =>
    intro st h
    exact h
  | cons e rest ih =>
    intro st h
    refine ih (step m e st) ?_
    obtain h | h := h
    · exact .inl (step_failed m e h)
    cases e with
    | submit ok =>
      cases ok with
      | true => exact .inr (hsubmit st h)
      | false =>
        obtain he | he := submitNext_fails m st
        · refine .inr ?_
          change P (submitNext m st false)
          rw [he]
          exact h
        · exact .inl he
    | complete s ok =>
      change (completeSubtask m s st ok).failed = true ∨ P (completeSubtask m s st ok)
      unfold completeSubtask
      split
      · next hs =>
        split
        · exact .inr (hcompl st s h hs)
        · exact .inl rfl
      · exact .inr h

theorem Chain.mains (hr : r.write = false) : ∀ {l : List Subtask}, Chain m r l → ∀ s ∈ l, MainOk m r s := by
  intro l h
  induction h with
  | nil =>
    intro s hs
    exact absurd hs not_mem_nil
  | single hmain _ _ ih =>
    intro s hs
    obtain rfl | hs := mem_cons.mp hs
    · exact hmain
    · exact ih s hs
  | pair _ _ hw _ _ _ =>
    rw [hr] at hw
    cases hw

def device : Media := ⟨512, 4, 64, by decide, by decide⟩

def largeBlocks : Media := ⟨67109376, 4, 64, by decide, by decide⟩

def allocated : Allocations := ⟨fun _ => true, true, true, true⟩

def bytes : Nat → UInt8 := fun i => if i = 600 then 5 else 0

end Liano.DiskIo.Data
