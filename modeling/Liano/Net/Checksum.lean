import Liano.Efi
import Liano.Net.NetBuffer
import Mathlib.Tactic.Ring

/-! The checksum of a net buffer and that of its bytes as one block. -/
namespace Liano.Net

open Bytes List

/-- The loop that adds the words of `Bulk`. -/
def addWords : Bytes → Nat → Nat
  | a :: b :: bulk, sum => addWords bulk (toUint32 (sum + leValue [a, b]))
  | _, sum => sum

def foldSum (sum : Nat) : Nat := if sum / 2^16 ≠ 0 then foldSum (sum % 2^16 + sum / 2^16) else sum
termination_by sum
decreasing_by omega

def leftOver (bulk : Bytes) : Nat := if bulk.length % 2 ≠ 0 then (bulk.getD (bulk.length-1) 0).toNat else 0

def netblockChecksum (bulk : Bytes) : Nat := toUint16 (foldSum (addWords bulk (leftOver bulk)))

def netAddChecksum (checksum1 checksum2 : Nat) : Nat := let sum := checksum1+checksum2
  if sum / 2^16 ≠ 0 then toUint16 (sum % 2^16 + 1) else toUint16 sum

def swapBytes16 (value : Nat) : Nat := toUint16 (value <<< 8 ||| value >>> 8)

/-- The loop over the blocks: `Offset` and `TotalSum`. -/
def checksumLoop (m : Memory) : List NetBlockOp → Nat → Nat → Nat
  | [], _, totalSum => totalSum
  | block :: blocks, offset, totalSum =>
    if block.size = 0 then checksumLoop m blocks offset totalSum
    else
      let blockSum := netblockChecksum (block.data m)
      let blockSum := if offset &&& 1 ≠ 0 then swapBytes16 blockSum else blockSum
      checksumLoop m blocks (toUint32 (offset+block.size.toNat)) (netAddChecksum blockSum totalSum)

def netbufChecksum (m : Memory) (nbuf : NetBuf) : Nat := checksumLoop m nbuf.blockOp 0 0

def onesAdd (a b : Nat) : Nat := if a+b < 2^16 then a+b else a+b - 2^16 + 1

def words : Bytes → List Nat
  | a :: b :: l => leValue [a, b] :: words l
  | [a] => [leValue [a, 0]]
  | [] => []

def onesSum (b : Bytes) : Nat := (words b).foldr onesAdd 0

/-- The one's complement representative of a number: zero for zero alone, 2 ^ 16 - 1 for its other multiples. -/
def residue (n : Nat) : Nat := if n = 0 then 0 else (n-1) % 65535 + 1

theorem residue_of_le {n : Nat} (h : n ≤ 65535) : residue n = n := by
  unfold residue
  split <;> omega

theorem foldSum_eq (sum : Nat) : foldSum sum = residue sum := by
  induction sum using foldSum.induct with
  | case1 sum hcarry ih =>
    rw [foldSum, if_pos hcarry, ih]
    unfold residue
    split <;> split <;> omega
  | case2 sum hcarry =>
    rw [foldSum, if_neg hcarry]
    exact (residue_of_le (by omega)).symm

theorem residue_le (n : Nat) : residue n ≤ 65535 := by
  unfold residue
  split <;> omega

theorem onesAdd_residue (a b : Nat) : onesAdd (residue a) (residue b) = residue (a+b) := by
  unfold onesAdd residue
  split <;> split <;> split <;> split <;> omega

theorem netAddChecksum_residue (a b : Nat) : netAddChecksum (residue a) (residue b) = residue (a+b) := by
  have ha := residue_le a
  have hb := residue_le b
  rw [← onesAdd_residue]
  unfold netAddChecksum onesAdd toUint16
  dsimp only
  split <;> split <;> omega

theorem residue_of_eq {n c : Nat} (k : Nat) (hpos : 0 < c) (hle : c ≤ 65535) (h : n = 65535*k+c) :
    residue n = c := by
  rw [residue, if_neg (by omega)]
  omega

theorem swapBytes16_residue (n : Nat) : swapBytes16 (residue n) = residue (256*n) := by
  have hle := residue_le n
  have hhigh : residue n / 2^8 < 2^8 := by omega
  have hor := Nat.two_pow_add_eq_or_of_lt hhigh (residue n)
  have hswap : swapBytes16 (residue n) = residue n % 256 * 256 + residue n / 256 := by
    rw [swapBytes16, Nat.shiftLeft_eq, Nat.shiftRight_eq_div_pow, mul_comm, ← hor, toUint16]
    omega
  rcases Nat.eq_zero_or_pos n with rfl | hpos
  · exact hswap
  · have hn : residue n = (n-1) % 65535 + 1 := if_neg (by omega)
    symm
    exact residue_of_eq (256 * ((n-1) / 65535) + residue n / 256) (by omega) (by omega) (by omega)

theorem residue_word (a n : Nat) : residue (a + 65536*n) = residue (a+n) := by
  unfold residue
  split <;> split <;> omega

theorem residue_pow (k n : Nat) : residue (256^k*n) = residue (if k % 2 = 0 then n else 256*n) := by
  induction k using Nat.twoStepInduction with
  | zero => simp
  | one => simp
  | more k ih _ =>
    have hpow : 256 ^ (k+2) * n = 0 + 65536 * (256^k*n) := by ring
    rw [hpow, residue_word, zero_add, ih, Nat.add_mod_right]

theorem leValue_append (x y : Bytes) : leValue (x ++ y) = leValue x + 256^x.length * leValue y := by
  induction x with
  | nil => simp [leValue]
  | cons a x ih =>
    simp only [cons_append, leValue, ih, length_cons]
    ring

theorem residue_words (b : Bytes) : residue (words b).sum = residue (leValue b) := by
  induction b using words.induct with
  | case1 a b l ih =>
    have hvalue : leValue (a :: b :: l) = leValue [a, b] + 65536 * leValue l := by
      simp only [leValue]
      ring
    rw [hvalue, residue_word, ← onesAdd_residue, ← ih, onesAdd_residue, words, sum_cons]
  | case2 a => simp [words, leValue]
  | case3 => rfl

theorem leValue_pair_lt (a b : UInt8) : leValue [a, b] < 65536 := (leValue_lt [a, b]).trans_eq (by simp)

theorem onesSum_eq (b : Bytes) : onesSum b = residue (leValue b) := by
  have hword : ∀ w ∈ words b, w ≤ 65535 := by
    induction b using words.induct with
    | case1 a b l ih =>
      rw [words, forall_mem_cons]
      exact ⟨Nat.le_of_lt_succ (leValue_pair_lt a b), ih⟩
    | case2 a =>
      rw [words, forall_mem_singleton]
      exact Nat.le_of_lt_succ (leValue_pair_lt a 0)
    | case3 => nofun
  rw [← residue_words, onesSum]
  generalize words b = ws at hword ⊢
  induction ws with
  | nil => rfl
  | cons w ws ih =>
    rw [forall_mem_cons] at hword
    rw [foldr_cons, ih hword.2, sum_cons, ← onesAdd_residue, residue_of_le hword.1]

theorem addWords_leftOver (b : Bytes) (sum : Nat) (h : sum + 65536*b.length < 2^32) :
    addWords b (sum + leftOver b) = sum + (words b).sum := by
  induction b using words.induct generalizing sum with
  | case1 a b l ih =>
    have hword := leValue_pair_lt a b
    have hleft : leftOver (a :: b :: l) = leftOver l := by
      have hparity : (a :: b :: l).length % 2 = l.length % 2 := Nat.add_mod_right l.length 2
      rw [leftOver, hparity, leftOver]
      cases l with
      | nil => rfl
      | cons c l => rfl
    have hlast : leftOver l < 256 := by
      unfold leftOver
      split
      · exact UInt8.toNat_lt _
      · decide
    simp only [length_cons] at h
    rw [addWords, hleft, toUint32_of_lt (by omega), add_right_comm, ih _ (by omega), words,
      sum_cons, add_assoc]
  | case2 a => simp [addWords, leftOver, words, leValue]
  | case3 => simp [addWords, leftOver, words]

theorem netblockChecksum_eq {b : Bytes} (h : b.length ≤ 65535) :
    netblockChecksum b = residue (leValue b) := by
  have hsum := addWords_leftOver b 0 (by omega)
  have hlt : residue (leValue b) < 2^16 := by
    unfold residue
    split <;> omega
  rw [zero_add, zero_add] at hsum
  rw [netblockChecksum, hsum, foldSum_eq, residue_words, toUint16, Nat.mod_eq_of_lt hlt]

theorem checksumLoop_eq (m : Memory) (blocks : List NetBlockOp) (done : Bytes)
    (h : (done ++ blocks.flatMap (NetBlockOp.data m)).length ≤ 65535) :
    checksumLoop m blocks done.length (residue (leValue done)) =
      residue (leValue (done ++ blocks.flatMap (NetBlockOp.data m))) := by
  induction blocks generalizing done with
  | nil => simp [checksumLoop]
  | cons block blocks ih =>
    have hdata := length_data m block
    rw [flatMap_cons, ← append_assoc] at h ⊢
    have ih := ih (done ++ block.data m) h
    simp only [length_append] at h
    rw [checksumLoop]
    split
    · rename_i hempty
      rw [hempty, UInt32.toNat_zero] at hdata
      rwa [eq_nil_of_length_eq_zero hdata, append_nil] at ih ⊢
    have hsum : (if done.length &&& 1 ≠ 0 then swapBytes16 (netblockChecksum (block.data m))
        else netblockChecksum (block.data m)) = residue (256^done.length * leValue (block.data m)) := by
      rw [netblockChecksum_eq (by omega), swapBytes16_residue, residue_pow, Nat.and_one_is_mod]
      rcases Nat.mod_two_eq_zero_or_one done.length with hparity | hparity <;> simp [hparity]
    rw [length_append, hdata, leValue_append, add_comm (leValue done)] at ih
    dsimp only
    rw [hsum, netAddChecksum_residue, toUint32_of_lt (by omega)]
    exact ih

/-- However the bytes are split into blocks, the checksum is the one of the bytes in one block, their one's
complement sum. -/
theorem netbufChecksum_eq (m : Memory) (nbuf : NetBuf) (h : (contents m nbuf).length ≤ 65535) :
    netbufChecksum m nbuf = netblockChecksum (contents m nbuf) ∧
      netblockChecksum (contents m nbuf) = onesSum (contents m nbuf) := by
  rw [netblockChecksum_eq h, onesSum_eq]
  exact ⟨checksumLoop_eq m nbuf.blockOp [] h, rfl⟩

def oddBlocks : NetBuf := ⟨[netbufSetBlockOp 0 3, netbufSetBlockOp 9 0, netbufSetBlockOp 5 2], 5⟩

theorem oddBlocks_checksum : (contents UInt8.ofNat oddBlocks).length ≤ 65535 ∧
      netbufChecksum UInt8.ofNat oddBlocks = netblockChecksum (contents UInt8.ofNat oddBlocks) ∧
        netblockChecksum (contents UInt8.ofNat oddBlocks) = onesSum (contents UInt8.ofNat oddBlocks) :=
  ⟨by decide, netbufChecksum_eq UInt8.ofNat oddBlocks (by decide)⟩

/-- `TcpChecksum`; the value returned is the complement in 16 bits. -/
def tcpChecksum (m : Memory) (nbuf : NetBuf) (headSum : Nat) : Nat :=
  65535 - netAddChecksum (netAddChecksum (netbufChecksum m nbuf) headSum) (swapBytes16 (toUint16 nbuf.totalSize.toNat))

/-- Whatever the blocks of the two buffers, a received segment passes the check exactly if its checksum field is
the one that the sender put there over zeros, or both stand for zero. -/
theorem tcpChecksum_accepts_iff {m m' : Memory} {sent received : NetBuf} {before after : Bytes}
    {headSum checksum : Nat} (hsent : contents m sent = before ++ (leBytes 2 0 ++ after))
    (hreceived : contents m' received = before ++ (leBytes 2 checksum ++ after))
    (hsize : received.totalSize = sent.totalSize) (heven : before.length % 2 = 0)
    (hlen : (contents m sent).length ≤ 65535) (hhead : headSum ≤ 65535) (hchecksum : checksum ≤ 65535) :
    tcpChecksum m' received headSum = 0 ↔ checksum = tcpChecksum m sent headSum ∨
      tcpChecksum m sent headSum = 0 ∧ checksum = 65535 := by
  -- the field counts for itself in the sum, as it stands at an even place
  have hsum : ∀ m₁ nbuf c, contents m₁ nbuf = before ++ (leBytes 2 c ++ after) → c ≤ 65535 →
      tcpChecksum m₁ nbuf headSum =
        65535 - residue (leValue (contents m sent) + headSum + swapBytes16 (toUint16 nbuf.totalSize.toNat) + c) := by
    intro m₁ nbuf c hcontents hc
    have hsize : (contents m₁ nbuf).length = (contents m sent).length := by simp [hcontents, hsent]
    have hvalue : leValue (contents m₁ nbuf) = leValue (contents m sent) + 256^before.length * c := by
      rw [hcontents, hsent]
      simp only [leValue_append, leValue_leBytes, length_leBytes, Nat.mod_eq_of_lt (show c < 256^2 by omega)]
      ring
    have hblocks : netbufChecksum m₁ nbuf = residue (leValue (contents m sent) + c) := by
      have hpow := residue_pow before.length c
      rw [if_pos heven] at hpow
      rw [← onesAdd_residue, ← hpow, onesAdd_residue, ← hvalue]
      exact checksumLoop_eq m₁ nbuf.blockOp [] (hsize.trans_le hlen)
    have hswap : swapBytes16 (toUint16 nbuf.totalSize.toNat) ≤ 65535 := Nat.le_of_lt_succ (Nat.mod_lt _ (by decide))
    rw [tcpChecksum, hblocks, ← residue_of_le hhead, netAddChecksum_residue, ← residue_of_le hswap,
      netAddChecksum_residue, residue_of_le hhead, residue_of_le hswap]
    congr 2
    omega
  have hle := residue_le (leValue (contents m sent) + headSum + swapBytes16 (toUint16 sent.totalSize.toNat))
  rw [hsum m' received checksum hreceived hchecksum, hsum m sent 0 hsent (by decide), hsize, add_zero,
    ← onesAdd_residue, residue_of_le hchecksum]
  unfold onesAdd
  split <;> omega

/-- A header of one word and its checksum. -/
theorem tcpChecksum_accepts_word :
    tcpChecksum (fun i => [1, 2, 0xFE, 0xF9].getD i 0) ⟨[netbufSetBlockOp 0 4], 4⟩ 0 = 0 :=
  (@tcpChecksum_accepts_iff (fun i => [1, 2].getD i 0) _ ⟨[netbufSetBlockOp 0 4], 4⟩ _ [1, 2] [] 0 0xF9FE rfl rfl rfl
    rfl (by decide) (by decide) (by decide)).mpr (.inl (by decide +kernel))

end Liano.Net
