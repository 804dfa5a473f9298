import Liano.Mtftp.Rrq

/-! A file that is downloaded by MTFTP: its blocks arrive as DATA packets, in order at a master client
and in any order at a passive one. Over every run in which no packet meets a slip of the code, the
holes are the blocks that are not saved, every saved block is in its place, and the transfer is
completed when all blocks are saved. -/
namespace Liano.Mtftp

open List hiding min range

open Lib Memory

variable {file : Bytes} {blk cap : Nat} {buffer : Option Nat} {k last : Nat} {saved : List Nat}
  {m : Memory} {inst : Mtftp4Protocol} {token : Mtftp4Token} {packet : Mtftp4Data} {len : Nat}
  {env : RrqEnv}

def lastBlockNum (file : Bytes) (blk : Nat) : Nat := file.length / blk + 1

def blockSpan (file : Bytes) (blk k : Nat) : Span := ⟨(k-1) * blk, min (k*blk) file.length⟩

def fileBlock (file : Bytes) (blk k : Nat) : Bytes := sliceOf file (blockSpan file blk k)

/-- The DATA packet of a block. -/
structure IsData (file : Bytes) (blk : Nat) (m : Memory) (packet : Mtftp4Data) (len k : Nat) : Prop where
  first : 1 ≤ k
  le_last : k ≤ lastBlockNum file blk
  block : packet.block = k % 2^16
  len : len = dataHeadLen + (blockSpan file blk k).length
  data : bytesAt m packet.data (blockSpan file blk k).length = fileBlock file blk k

theorem lt_last_iff (hblk : 0 < blk) : k < lastBlockNum file blk ↔ k*blk ≤ file.length := by
  unfold lastBlockNum
  rw [Nat.lt_succ_iff, Nat.le_div_iff_mul_le hblk]

theorem start_le_of_le_last (hblk : 0 < blk) (hk : k ≤ lastBlockNum file blk) :
    (k-1) * blk ≤ file.length := by
  cases k with
  | zero => exact le_trans (le_of_eq (by rw [Nat.zero_sub, zero_mul])) (Nat.zero_le _)
  | succ k => exact (lt_last_iff hblk).mp hk

theorem pred_mul_add (hk : 1 ≤ k) : (k-1) * blk + blk = k*blk := by
  obtain ⟨j,rfl⟩ := Nat.exists_eq_add_of_le hk
  rw [Nat.add_sub_cancel_left, add_mul, one_mul, add_comm]

theorem length_lt_iff (hblk : 0 < blk) (hk : 1 ≤ k) (hle : k ≤ lastBlockNum file blk) :
    (blockSpan file blk k).length < blk ↔ k = lastBlockNum file blk := by
  have hmul := @pred_mul_add blk k hk
  have hlast := @lt_last_iff file blk k hblk
  unfold Span.length blockSpan
  dsimp only
  constructor
  · intro hlt
    by_contra hne
    omega
  · intro heq
    omega

theorem start_add_length (hblk : 0 < blk) (hle : k ≤ lastBlockNum file blk) :
    (blockSpan file blk k).start + (blockSpan file blk k).length = (blockSpan file blk k).stop := by
  have hstart := start_le_of_le_last hblk hle
  have hmul : (k-1) * blk ≤ k*blk := Nat.mul_le_mul_right _ (Nat.sub_le _ _)
  exact Nat.add_sub_cancel' (Nat.le_min.mpr ⟨hmul, hstart⟩)

theorem stop_last (hblk : 0 < blk) : (blockSpan file blk (lastBlockNum file blk)).stop = file.length := by
  have hlast : ¬ lastBlockNum file blk * blk ≤ file.length := fun h =>
    lt_irrefl _ ((lt_last_iff hblk).mpr h)
  exact min_eq_right (le_of_lt (Nat.lt_of_not_le hlast))

theorem stop_le_length : (blockSpan file blk k).stop ≤ file.length := min_le_right _ _

theorem one_le_last : 1 ≤ lastBlockNum file blk := Nat.succ_pos _

theorem blocks_apart {j : Nat} (hne : j ≠ k) : (blockSpan file blk j).stop ≤ (blockSpan file blk k).start ∨
      (blockSpan file blk k).stop ≤ (blockSpan file blk j).start := by
  rcases Nat.lt_or_gt_of_ne hne with hlt | hlt
  · have hmul : j*blk ≤ (k-1) * blk := Nat.mul_le_mul_right _ (by omega)
    exact .inl (le_trans (min_le_left _ _) hmul)
  · have hmul : k*blk ≤ (j-1) * blk := Nat.mul_le_mul_right _ (by omega)
    exact .inr (le_trans (min_le_left _ _) hmul)

theorem le_length_of_le_last (hle : k ≤ lastBlockNum file blk) : k ≤ file.length+1 := by
  have hdiv := Nat.div_le_self file.length blk
  unfold lastBlockNum at hle
  omega

def Missing (last : Nat) (saved : List Nat) (k : Nat) : Prop := 1 ≤ k ∧ k ∉ saved ∧ (last ∈ saved → k ≤ last)

/-- The session in which some blocks of the file are saved: the holes are the other blocks, and the
user's buffer has the saved ones that fit. -/
structure Downloading (file : Bytes) (blk cap : Nat) (buffer : Option Nat) (m : Memory)
    (inst : Mtftp4Protocol) (token : Mtftp4Token) (saved : List Nat) : Prop where
  blkSize : inst.blkSize = blk
  sameBuffer : token.buffer = buffer
  known : ∀ k ∈ saved, 1 ≤ k ∧ k ≤ lastBlockNum file blk
  holes : ∃ round, HolesOf (Missing (lastBlockNum file blk) saved) round inst.blocks ∧
    ∀ k ∈ saved, k < (round+1) * 2^16 ∧ (k ≠ lastBlockNum file blk → k+1 < (round+1) * 2^16)
  lastBlock : inst.lastBlock = if lastBlockNum file blk ∈ saved then lastBlockNum file blk % 2^16 else 0
  bufferSize : token.bufferSize =
    if lastBlockNum file blk ∈ saved ∧ buffer.isSome = true then file.length else cap
  fits : lastBlockNum file blk ∈ saved → buffer.isSome = true → file.length ≤ cap
  stored : ∀ base, buffer = some base → ∀ k ∈ saved, (blockSpan file blk k).stop ≤ cap →
    bytesAt m (base + (blockSpan file blk k).start) (blockSpan file blk k).length = fileBlock file blk k

/-- The arrivals that the mode allows: a master gets the blocks in order, and answers other numbers
without saving them; a passive client gets them in any order, without roll-over. -/
def Allowed (file : Bytes) (blk : Nat) (inst : Mtftp4Protocol) (saved : List Nat)
    (packet : Mtftp4Data) (k : Nat) : Prop :=
  (inst.master = true ∧ (mtftp4GetNextBlockNum inst.blocks = some packet.block →
    Missing (lastBlockNum file blk) saved k ∧ ∀ j, Missing (lastBlockNum file blk) saved j → k ≤ j)) ∨
  (inst.master = false ∧ lastBlockNum file blk < 2^16)

def TooSmall (file : Bytes) (blk cap : Nat) (buffer : Option Nat) (k : Nat) : Prop :=
  k = lastBlockNum file blk ∧ buffer.isSome = true ∧ cap < file.length

/-- A packet that meets no slip of the code: where its block is new, it starts a hole, so that the
block counter is set; it does not use up a hole at its bound, so that the hole does not come back; and
the number of the last block is not the mark 0 for a block that is not known. -/
structure NoSlip (file : Bytes) (blk cap : Nat) (buffer : Option Nat) (inst : Mtftp4Protocol)
    (saved : List Nat) (packet : Mtftp4Data) (k : Nat) : Prop where
  starts : k ∉ saved → buffer.isSome = true → ∃ hole ∈ inst.blocks, hole.start = packet.block
  whole : k ∉ saved → ∀ hole ∈ inst.blocks, hole.start = packet.block →
    hole.stop = packet.block → hole.bound = packet.block → k = lastBlockNum file blk ∨ packet.block = 2^16-1
  marked : TooSmall file blk cap buffer k → k % 2^16 ≠ 0

theorem missing_cons (j : Nat) : Missing last (k :: saved) j ↔
      (Missing last saved j ∧ (k = last → j ≤ last)) ∧ j ≠ k := by
  unfold Missing
  simp only [mem_cons, not_or]
  constructor
  · rintro ⟨h1,⟨h2,h3⟩,h4⟩
    exact ⟨⟨⟨h1, h3, fun h => h4 (.inr h)⟩, fun h => h4 (.inl h.symm)⟩, h2⟩
  · rintro ⟨⟨⟨h1,h3,h4⟩,h5⟩,h2⟩
    exact ⟨h1, ⟨h2, h3⟩, fun h => h.elim (fun h => h5 h.symm) h4⟩

variable {blocks : List Mtftp4BlockRange}

theorem nextBlockNum_eq_some_iff {a b num : Nat} (h : InOrder holeSpan a blocks b) :
    mtftp4GetNextBlockNum blocks = some num ↔
      Covered holeSpan blocks num ∧ ∀ x, Covered holeSpan blocks x → num ≤ x := by
  cases blocks with
  | nil =>
    constructor
    · intro hnone
      cases hnone
    · exact fun h => absurd h.1 covered_nil
  | cons hole rest =>
    obtain ⟨-,hlt,hrest⟩ := h
    have hstart : Covered holeSpan (hole :: rest) hole.start := covered_cons.mpr (.inl ⟨le_rfl, hlt⟩)
    have hleast : ∀ x, Covered holeSpan (hole :: rest) x → hole.start ≤ x := by
      intro x hx
      rcases covered_cons.mp hx with hx | hx
      · exact hx.1
      · exact le_trans (le_of_lt hlt) (hrest.covered hx).1
    have hnext : mtftp4GetNextBlockNum (hole :: rest) = some hole.start := rfl
    rw [hnext, Option.some.injEq]
    constructor
    · rintro rfl
      exact ⟨hstart, hleast⟩
    · rintro ⟨hnum,hle⟩
      exact le_antisymm (hleast num hnum) (hle _ hstart)

theorem setLast_starts {a b num : Nat}
    (h : InOrder holeSpan a blocks b) (hstarts : ∃ hole ∈ blocks, hole.start = num) :
    ∃ hole ∈ mtftp4SetLastBlockNum blocks num, hole.start = num := by
  obtain ⟨hole,hhole,rfl⟩ := hstarts
  obtain ⟨-,hcov,hsame⟩ := setLast_of_inOrder hole.start h
  have hhold : (holeSpan hole).Holds hole.start := ⟨le_rfl, (h.bounds hhole).2.1⟩
  obtain ⟨hole',hhole',hholds'⟩ := (hcov hole.start).mpr ⟨⟨hole, hhole, hhold⟩, le_rfl⟩
  obtain ⟨range,hrng,hstart,hstop,-⟩ := hsame hole' hhole'
  have hin := holds_holeSpan.mp hholds'
  have hrngHold : (holeSpan range).Holds hole.start := holds_holeSpan.mpr ⟨by omega, by omega⟩
  obtain rfl := h.eq_of_holds hhole hrng hhold hrngHold
  exact ⟨hole', hhole', hstart⟩

theorem toUint64_start (hk : 1 ≤ k) (hlen : file.length+1 < 2^64) (hblk : 0 < blk)
    (hle : k ≤ lastBlockNum file blk) :
    toUint64 (toUint64 (k + (2^64-1)) * blk) = (blockSpan file blk k).start := by
  have hle' := le_length_of_le_last hle
  have hstart := start_le_of_le_last hblk hle
  have hpred : toUint64 (k + (2^64-1)) = k-1 := by
    unfold toUint64
    omega
  rw [hpred]
  exact toUint64_of_lt (by omega)

/-- The user's CheckPacket, where there is one, lets the packet pass. -/
def RrqEnv.accepts (env : RrqEnv) : Prop := (env.checkPacket.map EfiStatus.isError).getD false = false

/-- What saving a new block comes to: it is stored, the file does not fit, or the environment refuses
it. -/
inductive SavesNew (file : Bytes) (blk cap : Nat) (buffer : Option Nat) (saved : List Nat) (k : Nat)
    (env : RrqEnv) (r : RrqResult) : Prop
  | stored : r.status = .success → r.completed = false → ¬ TooSmall file blk cap buffer k →
      Downloading file blk cap buffer r.memory r.inst r.token (k :: saved) →
      SavesNew file blk cap buffer saved k env r
  | tooSmall : TooSmall file blk cap buffer k → r.status = .bufferTooSmall →
      r.token.bufferSize = file.length → SavesNew file blk cap buffer saved k env r
  | noMemory : env.rangePool = false → r.status = .outOfResources → SavesNew file blk cap buffer saved k env r
  | refused : ¬ env.accepts → r.status = .aborted → SavesNew file blk cap buffer saved k env r

/-- The session without what is said of the buffer, after the holes have been updated. -/
structure Updated (file : Bytes) (blk : Nat) (inst : Mtftp4Protocol) (saved : List Nat) : Prop where
  blkSize : inst.blkSize = blk
  known : ∀ k ∈ saved, 1 ≤ k ∧ k ≤ lastBlockNum file blk
  holes : ∃ round, HolesOf (Missing (lastBlockNum file blk) saved) round inst.blocks ∧
    ∀ k ∈ saved, k < (round+1) * 2^16 ∧ (k ≠ lastBlockNum file blk → k+1 < (round+1) * 2^16)
  lastBlock : inst.lastBlock = if lastBlockNum file blk ∈ saved then lastBlockNum file blk % 2^16 else 0

theorem copyBlock_saves (h : Downloading file blk cap buffer m inst token saved)
    (hblk : 0 < blk) (hlen : file.length+1 < 2^64)
    (hdata : IsData file blk m packet len k) (hk : k ∉ saved)
    (hmarked : TooSmall file blk cap buffer k → k % 2^16 ≠ 0)
    {inst' : Mtftp4Protocol} (hinst : Updated file blk inst' (k :: saved)) {counter : Nat}
    (hcounter : buffer.isSome = true → counter = k) : SavesNew file blk cap buffer saved k env
      (copyBlock m inst' token packet (blockSpan file blk k).length
        (decide (k = lastBlockNum file blk)) counter) := by
  obtain ⟨hbase,hknown,hholes,hlast⟩ := hinst
  cases buffer with
  | none =>
    have hcopy : copyBlock m inst' token packet (blockSpan file blk k).length
        (decide (k = lastBlockNum file blk)) counter = ⟨.success, m, inst', token, [], false⟩ := by
      unfold copyBlock
      rw [h.sameBuffer]
    rw [hcopy]
    have hnone : ¬ (none : Option Nat).isSome = true := Bool.false_ne_true
    refine .stored rfl rfl (fun hsmall => hnone hsmall.2.1) ⟨hbase, h.sameBuffer, hknown, hholes,
      hlast, ?_, fun _ hsome => absurd hsome hnone,
      fun base hbuffer => absurd hbuffer.symm (Option.some_ne_none base)⟩
    rw [h.bufferSize, if_neg fun hsome => hnone hsome.2, if_neg fun hsome => hnone hsome.2]
  | some base =>
    have hsome : (some base).isSome = true := rfl
    have hstart := toUint64_start hdata.first hlen hblk hdata.le_last
    have hstop := start_add_length hblk hdata.le_last
    have hle : (blockSpan file blk k).stop ≤ file.length := stop_le_length
    have h64 : (blockSpan file blk k).stop < 2^64 := by omega
    have hcopy : copyBlock m inst' token packet (blockSpan file blk k).length
        (decide (k = lastBlockNum file blk)) counter = if (blockSpan file blk k).stop ≤ token.bufferSize then
          ⟨.success, copyMem m (base + (blockSpan file blk k).start) packet.data
              (blockSpan file blk k).length, inst',
            if inst'.lastBlock = packet.block ∧ decide (k = lastBlockNum file blk) = true then
              { token with bufferSize := (blockSpan file blk k).stop } else token, [], false⟩
        else if inst'.lastBlock ≠ 0 then
          ⟨.bufferTooSmall, m, inst', { token with bufferSize := (blockSpan file blk k).stop },
            [.error errorCodeDiskFull "User provided memory block is too small"], false⟩
        else ⟨.success, m, inst', token, [], false⟩ := by
      unfold copyBlock
      rw [h.sameBuffer, hcounter hsome, hbase]
      dsimp only
      rw [hstart, hstop, toUint64_of_lt h64, ← h.sameBuffer]
    rw [hcopy]
    by_cases hfit : (blockSpan file blk k).stop ≤ token.bufferSize
    · rw [if_pos hfit]
      have hfile : k = lastBlockNum file blk → file.length ≤ cap := by
        rintro rfl
        rw [stop_last hblk, h.bufferSize, if_neg fun hmem => hk hmem.1] at hfit
        exact hfit
      refine .stored rfl rfl (fun hsmall => not_lt.mpr (hfile hsmall.1) hsmall.2.2)
        ⟨hbase, ?_, hknown, hholes, hlast, ?_, ?_, ?_⟩
      · show (if _ then _ else token : Mtftp4Token).buffer = _
        split <;> exact h.sameBuffer
      · show (if _ then _ else token : Mtftp4Token).bufferSize = _
        by_cases hlastk : k = lastBlockNum file blk
        · have hsame : inst'.lastBlock = packet.block := by
            rw [hlast, if_pos (hlastk ▸ mem_cons_self), hdata.block, hlastk]
          rw [if_pos ⟨hsame, decide_eq_true hlastk⟩, if_pos ⟨hlastk ▸ mem_cons_self, hsome⟩]
          exact hlastk ▸ stop_last hblk
        rw [if_neg fun hc => hlastk (of_decide_eq_true hc.2), h.bufferSize]
        have hiff : lastBlockNum file blk ∈ k :: saved ↔ lastBlockNum file blk ∈ saved := by
          rw [mem_cons]
          exact or_iff_right fun heq => hlastk heq.symm
        simp only [hiff]
      · intro hmem _
        rcases mem_cons.mp hmem with heq | hmem
        · exact hfile heq.symm
        · exact h.fits hmem hsome
      · intro base' hbase' j hj hcap
        obtain rfl := Option.some.inj hbase'
        rcases mem_cons.mp hj with rfl | hj
        · exact (bytesAt_copyMem _ _ _ _).trans hdata.data
        have hne : j ≠ k := fun heq => hk (heq ▸ hj)
        have hj' := @start_add_length file blk j hblk (h.known j hj).2
        rw [← h.stored base rfl j hj hcap]
        apply bytesAt_copyMem_of_disjoint
        rcases @blocks_apart file blk k j hne with hapart | hapart <;> omega
    · rw [if_neg hfit]
      have hnot : lastBlockNum file blk ∉ saved := by
        intro hmem
        rw [h.bufferSize, if_pos ⟨hmem, hsome⟩] at hfit
        exact hfit hle
      rw [h.bufferSize, if_neg fun hmem => hnot hmem.1] at hfit
      by_cases hlastk : k = lastBlockNum file blk
      · have hsmall : TooSmall file blk cap (some base) k := by
          refine ⟨hlastk, hsome, Nat.lt_of_not_le fun hcap => hfit ?_⟩
          exact le_trans hle hcap
        have hmark : inst'.lastBlock ≠ 0 := by
          rw [hlast, if_pos (hlastk ▸ mem_cons_self), ← hlastk]
          exact hmarked hsmall
        rw [if_pos hmark]
        exact .tooSmall hsmall rfl (hlastk ▸ stop_last hblk)
      · have hnot' : lastBlockNum file blk ∉ k :: saved := fun hmem =>
          (mem_cons.mp hmem).elim (fun heq => hlastk heq.symm) hnot
        have hmark : inst'.lastBlock = 0 := by rw [hlast, if_neg hnot']
        rw [if_neg (not_not.mpr hmark)]
        refine .stored rfl rfl (fun hsmall => hlastk hsmall.1) ⟨hbase, h.sameBuffer, hknown,
          hholes, hlast, ?_, fun hmem => absurd hmem hnot', ?_⟩
        · rw [h.bufferSize, if_neg fun hmem => hnot hmem.1, if_neg fun hmem => hnot' hmem.1]
        · intro base' hbase' j hj hcap
          rcases mem_cons.mp hj with rfl | hj
          · exact absurd hcap hfit
          · exact h.stored base' hbase' j hj hcap

structure InRound (file : Bytes) (blk : Nat) (inst : Mtftp4Protocol) (saved : List Nat)
    (packet : Mtftp4Data) (k round : Nat) : Prop where
  number : round * 2^16 + packet.block = k
  first : 0 < round → mtftp4GetNextBlockNum inst.blocks = some packet.block
  edge : packet.block = 2^16-1 → k = lastBlockNum file blk ∨
    mtftp4GetNextBlockNum inst.blocks = some packet.block

theorem inRound_of_allowed {round expected : Nat}
    (h : HolesOf (Missing (lastBlockNum file blk) saved) round inst.blocks)
    (hdata : IsData file blk m packet len k) (hk : Missing (lastBlockNum file blk) saved k)
    (hallow : Allowed file blk inst saved packet k)
    (hexpected : mtftp4GetNextBlockNum inst.blocks = some expected)
    (hacc : ¬ (inst.master = true ∧ expected ≠ packet.block)) :
    InRound file blk inst saved packet k round := by
  have hle := h.later k hk
  have hblock := hdata.block
  have hlast := hdata.le_last
  rcases hallow with ⟨hmaster,hord⟩ | ⟨-,hnoroll⟩
  · have hnext : mtftp4GetNextBlockNum inst.blocks = some packet.block := by
      have : expected = packet.block := by
        by_contra hne
        exact hacc ⟨hmaster, hne⟩
      rw [hexpected, this]
    have hcov := ((nextBlockNum_eq_some_iff h.inOrder).mp hnext).1
    have hleast := (hord hnext).2 _ ((h.covered _).mp hcov).2
    exact ⟨by omega, fun _ => hnext, fun _ => .inr hnext⟩
  · have hzero : round = 0 := by omega
    subst hzero
    exact ⟨by omega, fun hpos => absurd hpos (lt_irrefl 0), fun _ => .inl (by omega)⟩

section
variable (h : Downloading file blk cap buffer m inst token saved)
include h

/-- A new block is taken off the holes, and the block counter is its number where it starts one. -/
theorem remove_updates
    (hlen : file.length+1 < 2^64) (hdata : IsData file blk m packet len k)
    (hk : Missing (lastBlockNum file blk) saved k) {round : Nat}
    (hholes : HolesOf (Missing (lastBlockNum file blk) saved) round inst.blocks)
    (hahead : ∀ k ∈ saved, k < (round+1) * 2^16 ∧ (k ≠ lastBlockNum file blk → k+1 < (round+1) * 2^16))
    (hround : InRound file blk inst saved packet k round)
    (hno : NoSlip file blk cap buffer inst saved packet k) {completed : Bool}
    (hcompl : completed = true ↔ k = lastBlockNum file blk) (pool : Bool) (counter : Nat) :
    (∃ blocks' counter', mtftp4RemoveBlockNum pool packet.block completed counter
        (noteLastBlock inst packet completed).blocks = ⟨.success, blocks', counter'⟩ ∧
      Updated file blk { noteLastBlock inst packet completed with blocks := blocks' } (k :: saved) ∧
      (buffer.isSome = true → counter' = k)) ∨
    pool = false ∧ (mtftp4RemoveBlockNum pool packet.block completed counter
      (noteLastBlock inst packet completed).blocks).status = .outOfResources := by
  obtain ⟨hnumber,hfst,hedge⟩ := hround
  have h64 : round * 2^16 + packet.block < 2^64 :=
    hnumber ▸ lt_of_le_of_lt (le_length_of_le_last hdata.le_last) hlen
  have h16 : packet.block < 2^16 := hdata.block ▸ Nat.mod_lt _ (by decide)
  -- the holes after the last block has been noted
  have hnoted : HolesOf (fun j => Missing (lastBlockNum file blk) saved j ∧
      (k = lastBlockNum file blk → j ≤ lastBlockNum file blk)) round
        (noteLastBlock inst packet completed).blocks := by
    unfold noteLastBlock
    by_cases hlast : k = lastBlockNum file blk
    · rw [if_pos (hcompl.mpr hlast)]
      refine hholes.setLast.congr fun j => ?_
      rw [hnumber, hlast]
      simp only [forall_const]
    · rw [if_neg fun hc => hlast (hcompl.mp hc)]
      exact hholes.congr fun j => ⟨And.left, fun hj => ⟨hj, fun heq => absurd heq hlast⟩⟩
  have hcov : ∀ x, Covered holeSpan (noteLastBlock inst packet completed).blocks x →
      Covered holeSpan inst.blocks x := fun x hx =>
    (hholes.covered x).mpr (((hnoted.covered x).mp hx).imp_right And.left)
  have hmiss : Missing (lastBlockNum file blk) saved (round * 2^16 + packet.block) ∧
      (k = lastBlockNum file blk → round * 2^16 + packet.block ≤ lastBlockNum file blk) := by
    rw [hnumber]
    exact ⟨hk, le_of_eq⟩
  have hnext : mtftp4GetNextBlockNum inst.blocks = some packet.block →
      mtftp4GetNextBlockNum (noteLastBlock inst packet completed).blocks = some packet.block := by
    intro hnext
    refine (nextBlockNum_eq_some_iff hnoted.inOrder).mpr
      ⟨(hnoted.covered _).mpr ⟨h16, hmiss⟩, fun x hx => ?_⟩
    exact ((nextBlockNum_eq_some_iff hholes.inOrder).mp hnext).2 x (hcov x hx)
  have hunseen : packet.block = 2^16-1 → k ≠ lastBlockNum file blk → lastBlockNum file blk ∉ saved := by
    intro hnum hne hmem
    have hlt := (hahead _ hmem).1
    have hbelow := hk.2.2 hmem
    omega
  rcases hnoted.remove h16 hmiss
    (fun hc j hj => by
      have hlast := hcompl.mp hc
      omega)
    (fun hpos => hnext (hfst hpos))
    (fun hole hhole hs hp hb => by
      by_cases hlast : k = lastBlockNum file blk
      · exact .inl (hcompl.mpr hlast)
      · unfold noteLastBlock at hhole
        rw [if_neg fun hc => hlast (hcompl.mp hc)] at hhole
        exact .inr ((hno.whole hk.2.1 hole hhole hs hp hb).resolve_left hlast))
    (fun hnum => by
      by_cases hlast : k = lastBlockNum file blk
      · exact .inl (hcompl.mpr hlast)
      refine .inr ⟨hnext ((hedge hnum).resolve_left hlast), fun j hj => ⟨⟨by omega, ?_, ?_⟩,
        fun heq => absurd heq hlast⟩⟩
      · intro hmem
        have := (hahead j hmem).1
        omega
      · exact fun hmem => absurd hmem (hunseen hnum hlast))
    h64 with ⟨round',blocks',counter',hrun,hround',hholes',hcounter⟩ | ⟨hpool,hrun⟩
  · refine .inl ⟨blocks', counter', hrun, ⟨?_, ?_, ⟨round', ?_, ?_⟩, ?_⟩, ?_⟩
    · show (noteLastBlock inst packet completed).blkSize = blk
      unfold noteLastBlock
      split <;> exact h.blkSize
    · intro j hj
      rcases mem_cons.mp hj with rfl | hj
      · exact ⟨hdata.first, hdata.le_last⟩
      · exact h.known j hj
    · refine hholes'.congr fun j => ?_
      rw [missing_cons, hnumber]
    · intro j hj
      rcases mem_cons.mp hj with rfl | hj
      · rcases hround' with rfl | ⟨rfl,hend⟩
        · omega
        · refine ⟨by omega, fun hne => ?_⟩
          have hnum : packet.block ≠ 2^16-1 := fun hnum => hne (hcompl.mp (hend hnum))
          omega
      have hj' := hahead j hj
      rcases hround' with rfl | ⟨rfl,-⟩
      · have hmul : (round+1) * 2^16 ≤ (round+1+1) * 2^16 := Nat.mul_le_mul_right _ (Nat.le_succ _)
        exact ⟨lt_of_lt_of_le hj'.1 hmul, fun hne => lt_of_lt_of_le (hj'.2 hne) hmul⟩
      · exact hj'
    · show (noteLastBlock inst packet completed).lastBlock = _
      unfold noteLastBlock
      by_cases hlast : k = lastBlockNum file blk
      · rw [if_pos (hcompl.mpr hlast), if_pos (hlast ▸ mem_cons_self)]
        exact hdata.block.trans (congrArg (· % 2^16) hlast)
      have hiff : lastBlockNum file blk ∈ k :: saved ↔ lastBlockNum file blk ∈ saved := by
        rw [mem_cons]
        exact or_iff_right fun heq => hlast heq.symm
      rw [if_neg fun hc => hlast (hcompl.mp hc), h.lastBlock]
      simp only [hiff]
    · intro hsome
      rw [← hnumber]
      apply hcounter
      have hstart := hno.starts hk.2.1 hsome
      unfold noteLastBlock
      by_cases hc : completed = true
      · rw [if_pos hc]
        exact setLast_starts hholes.inOrder hstart
      · rw [if_neg hc]
        exact hstart
  · exact .inr ⟨hpool, by rw [hrun]⟩

theorem saveBlock_new (hblk : 0 < blk)
    (hlen : file.length+1 < 2^64) (hdata : IsData file blk m packet len k)
    (hk : Missing (lastBlockNum file blk) saved k) {expected : Nat}
    (hallow : Allowed file blk inst saved packet k)
    (hexpected : mtftp4GetNextBlockNum inst.blocks = some expected)
    (hacc : ¬ (inst.master = true ∧ expected ≠ packet.block))
    (hno : NoSlip file blk cap buffer inst saved packet k) :
    SavesNew file blk cap buffer saved k env (mtftp4RrqSaveBlock env m inst token packet len) := by
  obtain ⟨round,hholes,hahead⟩ := h.holes
  have hround := inRound_of_allowed hholes hdata hk hallow hexpected hacc
  have hcompl : decide ((blockSpan file blk k).length < inst.blkSize) =
      decide (k = lastBlockNum file blk) := by
    rw [h.blkSize]
    exact decide_eq_decide.mpr (length_lt_iff hblk hdata.first hdata.le_last)
  unfold mtftp4RrqSaveBlock
  rw [hdata.len, Nat.add_sub_cancel_left]
  dsimp only
  rw [hcompl]
  rcases remove_updates h hlen hdata hk hholes hahead hround hno
    (decide_eq_true_iff (p := k = lastBlockNum file blk)) env.rangePool
      env.blockCounter with ⟨blocks',counter',hrun,hupdated,hcounter⟩ | ⟨hpool,hst⟩
  · rw [hrun]
    by_cases hchk : (env.checkPacket.map EfiStatus.isError).getD false = true
    · rw [if_pos hchk]
      refine .refused (fun haccepts => ?_) rfl
      exact Bool.false_ne_true (haccepts.symm.trans hchk)
    · rw [if_neg hchk]
      exact copyBlock_saves h hblk hlen hdata hk.2.1 hno.marked hupdated hcounter
  · rw [if_neg (by rw [hst]; decide), if_pos (by rw [hst]; rfl)]
    exact .noMemory hpool hst

/-- A block that is saved already changes nothing at a client that gets the blocks in any order. -/
theorem saveBlock_duplicate (hblk : 0 < blk) (hdata : IsData file blk m packet len k) (hk : k ∈ saved)
    (hnoroll : lastBlockNum file blk < 2^16) :
    mtftp4RrqSaveBlock env m inst token packet len = ⟨.success, m, inst, token, [], false⟩ := by
  obtain ⟨round,hholes,-⟩ := h.holes
  have hnum : packet.block = k := hdata.block.trans
    (Nat.mod_eq_of_lt (lt_of_le_of_lt hdata.le_last hnoroll))
  -- no block of a later round is missing
  have hbelow : ∀ j, Missing (lastBlockNum file blk) saved j → round = 0 := by
    intro j hj
    have hj' := hholes.later j hj
    by_cases hmem : lastBlockNum file blk ∈ saved
    · have hle := hj.2.2 hmem
      omega
    · have hle := hholes.later _ ⟨one_le_last, hmem, fun h => absurd h hmem⟩
      omega
  have hfree : ¬ Covered holeSpan inst.blocks packet.block := by
    intro hcov
    have hmiss := ((hholes.covered _).mp hcov).2
    obtain rfl := hbelow _ hmiss
    rw [zero_mul, zero_add, hnum] at hmiss
    exact hmiss.2.1 hk
  have hnoted : noteLastBlock inst packet (decide (len-dataHeadLen < inst.blkSize)) = inst := by
    unfold noteLastBlock
    split
    · rename_i hlast
      have hlast := of_decide_eq_true hlast
      rw [hdata.len, Nat.add_sub_cancel_left, h.blkSize] at hlast
      obtain rfl := (length_lt_iff hblk hdata.first hdata.le_last).mp hlast
      have hstops : ∀ hole ∈ inst.blocks, hole.stop ≤ packet.block := by
        intro hole hhole
        have hin : Covered holeSpan inst.blocks hole.stop := ⟨hole, hhole, holds_holeSpan.mpr
          ⟨Nat.le_of_lt_succ (hholes.inOrder.bounds hhole).2.1, le_rfl⟩⟩
        have hmiss := ((hholes.covered _).mp hin).2
        have hle := hmiss.2.2 hk
        omega
      rw [setLast_eq_self hholes.inOrder hstops]
      have hsame : packet.block = inst.lastBlock := by rw [h.lastBlock, if_pos hk, hdata.block]
      rw [hsame]
    · rfl
  unfold mtftp4RrqSaveBlock
  dsimp only
  rw [hnoted, removeBlockNum_notFound hholes.inOrder hfree, if_pos rfl]

theorem blocks_eq_nil_iff : inst.blocks = [] ↔ ∀ j, 1 ≤ j → j ≤ lastBlockNum file blk → j ∈ saved := by
  obtain ⟨round,hholes,hahead⟩ := h.holes
  constructor
  · intro hnil j hj hle
    have hfree : ∀ x < 2^16, ¬ Missing (lastBlockNum file blk) saved (round * 2^16 + x) := by
      intro x hx hmiss
      have hcov := (hholes.covered x).mpr ⟨hx, hmiss⟩
      rw [hnil] at hcov
      exact covered_nil hcov
    -- the last number of the round is behind the last block, or it is the last block
    have hlast : lastBlockNum file blk ∈ saved ∧ lastBlockNum file blk ≤ round * 2^16 + (2^16-1) := by
      have hend := hfree (2^16-1) (by decide)
      by_cases hmem : round * 2^16 + (2^16-1) ∈ saved
      · have heq : round * 2^16 + (2^16-1) = lastBlockNum file blk := by
          by_contra hne
          have := (hahead _ hmem).2 hne
          omega
        exact ⟨heq ▸ hmem, le_of_eq heq.symm⟩
      by_contra hnot
      refine hend ⟨by omega, hmem, fun hseen => ?_⟩
      by_contra hlt
      exact hnot ⟨hseen, by omega⟩
    by_contra hne
    have hmiss : Missing (lastBlockNum file blk) saved j := ⟨hj, hne, fun _ => hle⟩
    have hlater := hholes.later j hmiss
    refine hfree (j - round * 2^16) (by omega) ?_
    rwa [Nat.add_sub_cancel' hlater]
  · intro hall
    cases hblk : inst.blocks with
    | nil => rfl
    | cons hole rest =>
      have hmem : hole ∈ inst.blocks := hblk ▸ mem_cons_self
      have hcov : Covered holeSpan inst.blocks hole.start :=
        ⟨hole, hmem, le_rfl, (hholes.inOrder.bounds hmem).2.1⟩
      obtain ⟨hone,hnot,hle⟩ := ((hholes.covered _).mp hcov).2
      exact absurd (hall _ hone (hle (hall _ one_le_last le_rfl))) hnot

end

def Accepts (inst : Mtftp4Protocol) (packet : Mtftp4Data) : Prop :=
  inst.master = true → mtftp4GetNextBlockNum inst.blocks = some packet.block

/-- What a DATA packet comes to. -/
inductive Handled (file : Bytes) (blk cap : Nat) (buffer : Option Nat) (m : Memory)
    (inst : Mtftp4Protocol) (token : Mtftp4Token) (saved : List Nat) (packet : Mtftp4Data) (k : Nat)
    (env : RrqEnv) (r : RrqResult) : Prop
  | unchanged : k ∈ saved ∨ ¬ Accepts inst packet → r.memory = m → r.token = token →
      r.inst.blkSize = inst.blkSize → r.inst.lastBlock = inst.lastBlock →
      r.inst.blocks = inst.blocks → r.completed = false →
      Handled file blk cap buffer m inst token saved packet k env r
  | stored : k ∉ saved → Accepts inst packet → ¬ TooSmall file blk cap buffer k →
      Downloading file blk cap buffer r.memory r.inst r.token (k :: saved) →
      (r.completed = true ↔ ∀ j, 1 ≤ j → j ≤ lastBlockNum file blk → j ∈ k :: saved) →
      Handled file blk cap buffer m inst token saved packet k env r
  | tooSmall : TooSmall file blk cap buffer k → r.status = .bufferTooSmall →
      r.token.bufferSize = file.length → Handled file blk cap buffer m inst token saved packet k env r
  | noMemory : env.rangePool = false → r.status = .outOfResources →
      Handled file blk cap buffer m inst token saved packet k env r
  | refused : ¬ env.accepts → r.status = .aborted →
      Handled file blk cap buffer m inst token saved packet k env r

theorem Downloading.congr {r r' : RrqResult}
    (h : Downloading file blk cap buffer r.memory r.inst r.token saved) (hsame : SameDownload r r') :
    Downloading file blk cap buffer r'.memory r'.inst r'.token saved where
  blkSize := hsame.blkSize.trans h.blkSize
  sameBuffer := hsame.token ▸ h.sameBuffer
  known := h.known
  holes := hsame.blocks ▸ h.holes
  lastBlock := hsame.lastBlock.trans h.lastBlock
  bufferSize := hsame.token ▸ h.bufferSize
  fits := h.fits
  stored := hsame.memory ▸ h.stored

theorem handleData_handled (h : Downloading file blk cap buffer m inst token saved)
    (hopen : inst.blocks ≠ []) (hblk : 0 < blk) (hlen : file.length+1 < 2^64)
    (hdata : IsData file blk m packet len k) (hallow : Allowed file blk inst saved packet k)
    (hno : NoSlip file blk cap buffer inst saved packet k) :
    ∃ r, mtftp4RrqHandleData env m inst token packet len = some r ∧
      Handled file blk cap buffer m inst token saved packet k env r := by
  obtain ⟨expected,hexpected⟩ : ∃ expected, mtftp4GetNextBlockNum inst.blocks = some expected := by
    cases hblocks : inst.blocks with
    | nil => exact absurd hblocks hopen
    | cons hole rest => exact ⟨hole.start, rfl⟩
  have hfine : EfiStatus.success.isError ≠ true := Bool.false_ne_true
  unfold mtftp4RrqHandleData
  rw [hexpected]
  dsimp only
  by_cases hdrop : inst.master = true ∧ expected ≠ packet.block
  · rw [if_pos hdrop]
    obtain ⟨hsame,hcompl⟩ := sendAck_same env ⟨.success, m, inst, token, [], false⟩
      (blockBefore expected)
    refine ⟨_, rfl, .unchanged (.inr fun hacc => ?_) hsame.memory hsame.token hsame.blkSize
      hsame.lastBlock hsame.blocks hcompl⟩
    exact hdrop.2 (Option.some.inj (hexpected.symm.trans (hacc hdrop.1)))
  rw [if_neg hdrop]
  have hacc : Accepts inst packet := by
    intro hmaster
    rw [hexpected]
    by_contra hne
    exact hdrop ⟨hmaster, fun heq => hne (congrArg some heq)⟩
  by_cases hk : k ∈ saved
  · have hnoroll : lastBlockNum file blk < 2^16 := by
      rcases hallow with ⟨hmaster,hord⟩ | ⟨-,hnoroll⟩
      · exact absurd hk (hord (hacc hmaster)).1.2.1
      · exact hnoroll
    rw [saveBlock_duplicate h hblk hdata hk hnoroll]
    obtain ⟨hsame,hcompl⟩ := acknowledge_same env ⟨.success, m,
      { inst with totalBlock := toUint64 (inst.totalBlock+1) }, token, [], false⟩ rfl
    refine ⟨_, rfl, .unchanged (.inl hk) hsame.memory hsame.token hsame.blkSize hsame.lastBlock
      hsame.blocks (Bool.eq_false_of_not_eq_true fun hc => hopen (hcompl.mp hc))⟩
  · have hmiss : Missing (lastBlockNum file blk) saved k := ⟨hdata.first, hk, fun _ => hdata.le_last⟩
    have hsaves : SavesNew file blk cap buffer saved k env _ :=
      saveBlock_new h hblk hlen hdata hmiss hallow hexpected hdrop hno
    cases hsaves with
    | stored hst hfresh hfits hnew =>
      rw [if_neg (hst ▸ hfine)]
      generalize mtftp4RrqSaveBlock env m inst token packet len = r at hst hfresh hnew ⊢
      obtain ⟨hsame,hcompl⟩ := acknowledge_same env
        { r with inst := { r.inst with totalBlock := toUint64 (r.inst.totalBlock+1) } } hfresh
      have hlater : SameDownload r (acknowledge env
          { r with inst := { r.inst with totalBlock := toUint64 (r.inst.totalBlock+1) } }) :=
        ⟨hsame.memory, hsame.token, hsame.blkSize, hsame.lastBlock, hsame.blocks⟩
      have hall := blocks_eq_nil_iff hnew
      exact ⟨_, rfl, .stored hk hacc hfits (hnew.congr hlater) (hcompl.trans hall)⟩
    | tooSmall hsmall hst hsize =>
      rw [if_pos (hst ▸ rfl)]
      exact ⟨_, rfl, .tooSmall hsmall hst hsize⟩
    | noMemory hpool hst =>
      rw [if_pos (hst ▸ rfl)]
      exact ⟨_, rfl, .noMemory hpool hst⟩
    | refused hcheck hst =>
      rw [if_pos (hst ▸ rfl)]
      exact ⟨_, rfl, .refused hcheck hst⟩

instance (inst : Mtftp4Protocol) (packet : Mtftp4Data) : Decidable (Accepts inst packet) :=
  inferInstanceAs (Decidable (_ → _))

def savedAfter (inst : Mtftp4Protocol) (saved : List Nat) (packet : Mtftp4Data)
    (k : Nat) : List Nat := if k ∈ saved ∨ ¬ Accepts inst packet then saved else k :: saved

/-- The downloads of a file: the session is started, packets arrive as the mode allows it, none of
them meets a slip, and the session goes on; what else happens leaves the holes, the token and the
buffer alone. -/
inductive RrqRun (file : Bytes) (blk cap : Nat) (buffer : Option Nat) :
    Memory → Mtftp4Protocol → Mtftp4Token → List Nat → Prop
  | start {m : Memory} {inst : Mtftp4Protocol} : inst.blkSize = blk → inst.lastBlock = 0 →
      inst.blocks = mtftp4InitBlockRange 1 (2^16-1) → RrqRun file blk cap buffer m inst ⟨buffer, cap⟩ []
  | receive {m : Memory} {inst : Mtftp4Protocol} {token : Mtftp4Token} {saved : List Nat}
      {env : RrqEnv} {packet : Mtftp4Data} {len k : Nat} {r : RrqResult} :
      RrqRun file blk cap buffer m inst token saved → IsData file blk m packet len k →
      Allowed file blk inst saved packet k → NoSlip file blk cap buffer inst saved packet k →
      mtftp4RrqHandleData env m inst token packet len = some r → r.status = .success → r.completed = false →
      RrqRun file blk cap buffer r.memory r.inst r.token (savedAfter inst saved packet k)
  | others {m m' : Memory} {inst inst' : Mtftp4Protocol} {token : Mtftp4Token} {saved : List Nat} :
      RrqRun file blk cap buffer m inst token saved → inst'.blkSize = inst.blkSize →
      inst'.lastBlock = inst.lastBlock → inst'.blocks = inst.blocks →
      (∀ base, buffer = some base → ∀ x, base ≤ x → x < base+cap → m' x = m x) →
      RrqRun file blk cap buffer m' inst' token saved

theorem downloading_start (hsize : inst.blkSize = blk) (hlast : inst.lastBlock = 0)
    (hblk : inst.blocks = mtftp4InitBlockRange 1 (2^16-1)) :
    Downloading file blk cap buffer m inst ⟨buffer, cap⟩ [] where
  blkSize := hsize
  sameBuffer := rfl
  known k hk := absurd hk not_mem_nil
  holes := by
    rw [hblk]
    refine ⟨0, ⟨⟨Nat.zero_le _, by decide, le_rfl⟩, fun x => ?_, fun k _ => by omega,
      fun hole hhole => ?_, fun hole hhole => ?_⟩, fun k hk => absurd hk not_mem_nil⟩
    · unfold mtftp4InitBlockRange mtftp4AllocateRange Missing
      rw [covered_single]
      simp only [not_mem_nil, not_false_eq_true, IsEmpty.forall_iff, and_true]
      omega
    · obtain rfl := mem_singleton.mp hhole
      exact ⟨rfl, fun hpos => absurd hpos (lt_irrefl 0)⟩
    · obtain rfl := mem_singleton.mp hhole
      decide
  lastBlock := by rw [hlast, if_neg not_mem_nil]
  bufferSize := by rw [if_neg fun h => not_mem_nil h.1]
  fits h := absurd h not_mem_nil
  stored _ _ k hk := absurd hk not_mem_nil

theorem downloading_of_run (hblk : 0 < blk) (hlen : file.length+1 < 2^64)
    (hrun : RrqRun file blk cap buffer m inst token saved) :
    Downloading file blk cap buffer m inst token saved ∧ inst.blocks ≠ [] := by
  induction hrun with
  | start hsize hlast hblocks =>
    refine ⟨downloading_start hsize hlast hblocks, ?_⟩
    rw [hblocks]
    exact cons_ne_nil _ _
  | receive _ hdata hallowed hno hr hst hopen ih =>
    obtain ⟨h,hblocks⟩ := ih
    obtain ⟨r',hr',hhandled⟩ := handleData_handled h hblocks hblk hlen hdata hallowed hno
    obtain rfl := Option.some.inj (hr.symm.trans hr')
    unfold savedAfter
    cases hhandled with
    | unchanged hcase hmem htoken hsize hlast hsame _ =>
      rw [if_pos hcase, hmem, htoken, hsame]
      exact ⟨⟨hsize.trans h.blkSize, h.sameBuffer, h.known, hsame ▸ h.holes,
        hlast.trans h.lastBlock, h.bufferSize, h.fits, h.stored⟩, hblocks⟩
    | stored hk haccepts _ hnew hcompleted =>
      rw [if_neg (not_or.mpr ⟨hk, not_not.mpr haccepts⟩)]
      refine ⟨hnew, fun hnil => ?_⟩
      rw [hcompleted.mpr ((blocks_eq_nil_iff hnew).mp hnil)] at hopen
      exact Bool.noConfusion hopen
    | tooSmall _ hfail _ => exact EfiStatus.noConfusion (hst.symm.trans hfail)
    | noMemory _ hfail => exact EfiStatus.noConfusion (hst.symm.trans hfail)
    | refused _ hfail => exact EfiStatus.noConfusion (hst.symm.trans hfail)
  | others _ hsize hlast hsame hmem ih =>
    obtain ⟨h,hblocks⟩ := ih
    refine ⟨⟨hsize.trans h.blkSize, h.sameBuffer, h.known, hsame ▸ h.holes,
      hlast.trans h.lastBlock, h.bufferSize, h.fits, fun base hbase k hk hcap => ?_⟩, hsame ▸ hblocks⟩
    rw [← h.stored base hbase k hk hcap]
    have hstop := @start_add_length file blk k hblk (h.known k hk).2
    apply bytesAt_congr
    intro i hi
    exact hmem base hbase _ (by omega) (by omega)

/-- In a run in which no packet meets a slip, the holes are sorted and disjoint and are the blocks of
the round that are not saved, every saved block that fits is in its place, and the next packet is
handled: a block that is saved already changes nothing, a new one is saved, a file that does not fit
is reported with its size, and the download is completed when all blocks are saved. -/
theorem mtftp4RrqHandleData_of_run (hblk : 0 < blk) (hlen : file.length+1 < 2^64)
    (hrun : RrqRun file blk cap buffer m inst token saved) : (InOrder holeSpan 0 inst.blocks (2^16) ∧
      ∃ round, (∀ x, Covered holeSpan inst.blocks x ↔
          x < 2^16 ∧ Missing (lastBlockNum file blk) saved (round * 2^16 + x)) ∧
        ∀ k, Missing (lastBlockNum file blk) saved k → round * 2^16 ≤ k) ∧
    (∀ base, buffer = some base → ∀ k ∈ saved, (blockSpan file blk k).stop ≤ cap →
      bytesAt m (base + (k-1) * blk) (blockSpan file blk k).length = fileBlock file blk k) ∧
    ∀ env packet len k, IsData file blk m packet len k → Allowed file blk inst saved packet k →
      NoSlip file blk cap buffer inst saved packet k →
      ∃ r, mtftp4RrqHandleData env m inst token packet len = some r ∧
        Handled file blk cap buffer m inst token saved packet k env r := by
  obtain ⟨h,hblocks⟩ := downloading_of_run hblk hlen hrun
  obtain ⟨round,hholes,-⟩ := h.holes
  refine ⟨⟨hholes.inOrder, round, hholes.covered, hholes.later⟩, h.stored, ?_⟩
  intro env packet len k hdata hallowed hno
  exact handleData_handled h hblocks hblk hlen hdata hallowed hno

def sampleMemory : Memory := fun address => UInt8.ofNat address

def sampleFile : Bytes := bytesAt sampleMemory 0x1000 40

def samplePacket (k : Nat) : Mtftp4Data := ⟨k, 0x1000 + (k-1) * 8⟩

def sampleEnv : RrqEnv := ⟨true, true, none, .success, 1⟩

def passiveStart : Mtftp4Protocol := ⟨8, 0, mtftp4InitBlockRange 1 (2^16-1), 1, 0, 0, false⟩

def receiveSamples (inst : Mtftp4Protocol) (token : Mtftp4Token) (m : Memory) : List Nat → Option RrqResult
  | [] => some ⟨.success, m, inst, token, [], false⟩
  | k :: rest =>
    (mtftp4RrqHandleData sampleEnv m inst token (samplePacket k) 12).bind fun r =>
      receiveSamples r.inst r.token r.memory rest

theorem isData_sample (hk : 1 ≤ k ∧ k ≤ 5) : IsData sampleFile 8 sampleMemory (samplePacket k) 12 k := by
  have hcases : k = 1 ∨ k = 2 ∨ k = 3 ∨ k = 4 ∨ k = 5 := by omega
  rcases hcases with rfl | rfl | rfl | rfl | rfl <;>
    exact ⟨by decide, by decide, rfl, by decide, by decide⟩

/-- At a passive client the blocks 4, 2 and 3 make a hole come back that is not in order and has saved
blocks, and a block that does not start a hole is copied to the place of another one. -/
theorem not_inPlace_of_outOfOrder :
    (∀ k ∈ [4, 2, 3], IsData sampleFile 8 sampleMemory (samplePacket k) 12 k) ∧
    (receiveSamples passiveStart ⟨none, 0⟩ sampleMemory [4, 2, 3]).map (·.inst.blocks) =
      some [⟨1, 1, 0, 2^16-1⟩, ⟨0, 3, 1, 3⟩, ⟨5, 2^16-1, 0, 2^16-1⟩] ∧
    (receiveSamples passiveStart ⟨some 0x8080, 40⟩ sampleMemory [4]).map (fun r =>
      (bytesAt r.memory (0x8080 + 3*8) 8, bytesAt r.memory 0x8080 8)) =
        some (bytesAt sampleMemory (0x8080 + 3*8) 8, fileBlock sampleFile 8 4) ∧
    bytesAt sampleMemory (0x8080 + 3*8) 8 ≠ fileBlock sampleFile 8 4 := by
  refine ⟨fun k hk => isData_sample ?_, by decide +kernel, by decide +kernel, by decide +kernel⟩
  simp only [mem_cons, not_mem_nil, or_false] at hk
  omega

/-- The first block comes twice, and the second one behind it. -/
theorem mtftp4RrqHandleData_of_run_sample : ∃ m inst token,
    RrqRun sampleFile 8 40 (some 0x8080) m inst token [1] ∧ inst.blocks = [⟨2, 2^16-1, 0, 2^16-1⟩] ∧
      ∀ k ∈ [1, 2], ∃ r, mtftp4RrqHandleData sampleEnv m inst token (samplePacket k) 12 = some r ∧
        Handled sampleFile 8 40 (some 0x8080) m inst token [1] (samplePacket k) k sampleEnv r := by
  have hstart : RrqRun sampleFile 8 40 (some 0x8080) sampleMemory passiveStart ⟨some 0x8080, 40⟩ [] :=
    .start rfl rfl rfl
  have hallow : Allowed sampleFile 8 passiveStart [] (samplePacket 1) 1 := .inr ⟨rfl, by decide⟩
  have hno : NoSlip sampleFile 8 40 (some 0x8080) passiveStart [] (samplePacket 1) 1 :=
    ⟨fun _ _ => ⟨_, mem_singleton_self _, rfl⟩, fun _ hole hhole _ hstop _ => by
        obtain rfl := mem_singleton.mp hhole
        exact absurd hstop (by decide), fun hsmall => absurd hsmall.1 (by decide)⟩
  have hrun := hstart.receive (isData_sample (by decide)) hallow hno
    (show mtftp4RrqHandleData sampleEnv _ _ _ _ 12 = some _ from rfl) rfl rfl
  refine ⟨_, _, _, hrun, rfl, fun k hk => ?_⟩
  have hcases : k = 1 ∨ k = 2 := by simpa using hk
  refine (mtftp4RrqHandleData_of_run (by decide) (by decide) hrun).2.2 sampleEnv (samplePacket k) 12 k ?_
    (.inr ⟨rfl, by decide⟩) ⟨fun hnew _ => ⟨_, mem_singleton_self _, ?_⟩, fun _ hole hhole _ hstop _ => ?_, ?_⟩
  · rcases hcases with rfl | rfl <;>
      exact ⟨by decide, by decide, rfl, by decide, by decide +kernel⟩
  · rcases hcases with rfl | rfl
    · exact absurd (mem_singleton_self 1) hnew
    · rfl
  · obtain rfl := mem_singleton.mp hhole
    rcases hcases with rfl | rfl <;> exact absurd hstop (by decide)
  · rcases hcases with rfl | rfl <;> exact fun _ => by decide

end Liano.Mtftp
