import Liano.Mtrr.SetMemoryType

/-! What one `MtrrLibSetMemoryType` does to the array: the pieces that stay of the ranges at both
ends, the ranges it replaces, and the array with the new one in their place. -/
namespace Liano.Mtrr

open Liano.Lib List

section
variable {a b c d x : Nat} {r q : MtrrMemoryRange} {rs xs ys : List MtrrMemoryRange}

theorem Tiling.tiles (h : Tiling a rs b) : Tiles a (rs.map MtrrMemoryRange.segment) b := by
  induction rs generalizing a with
  | nil => exact h
  | cons r rs ih =>
    obtain ⟨hbase,hlen,hrest⟩ := h
    have hlim : r.limit-1 + 1 = r.limit := by
      have : r.limit = r.baseAddress+r.length := rfl
      omega
    refine ⟨hbase, ?_, ?_⟩
    · show r.baseAddress ≤ r.limit-1
      have : r.limit = r.baseAddress+r.length := rfl
      omega
    · show Tiles (r.limit-1 + 1) _ b
      rw [hlim]
      exact ih hrest

theorem tiling_append : Tiling a (xs ++ ys) c ↔ ∃ b, Tiling a xs b ∧ Tiling b ys c := by
  induction xs generalizing a with
  | nil => simp [Tiling]
  | cons r xs ih =>
    simp only [cons_append, Tiling, ih]
    constructor
    · intro h
      obtain ⟨h1,h2,b,h3,h4⟩ := h
      exact ⟨b, ⟨h1, h2, h3⟩, h4⟩
    · intro h
      obtain ⟨b,⟨h1,h2,h3⟩,h4⟩ := h
      exact ⟨h1, h2, b, h3, h4⟩

section
variable (h : Tiling a rs b)
include h

theorem Tiling.le : a ≤ b := h.tiles.le

theorem Tiling.bounds_of_mem (hr : r ∈ rs) : a ≤ r.baseAddress ∧ r.baseAddress < r.limit ∧ r.limit ≤ b := by
  obtain ⟨pre,post,rfl⟩ := append_of_mem hr
  obtain ⟨c,hpre,hbase,hlen,hpost⟩ := tiling_append.mp h
  have h1 := hpre.le
  have h2 := hpost.le
  have h3 : r.limit = r.baseAddress+r.length := rfl
  omega

theorem Tiling.mem_getLast? (hr : r ∈ rs) (hlim : r.limit = b) : r ∈ rs.getLast? := by
  obtain ⟨pre,post,rfl⟩ := append_of_mem hr
  obtain ⟨c,-,-,-,hpost⟩ := tiling_append.mp h
  cases post with
  | nil => simp
  | cons s post =>
    have := hpost.bounds_of_mem mem_cons_self
    omega

theorem Tiling.exists_range (ha : a ≤ x) (hb : x < b) :
    ∃ pre r post, rs = pre ++ r :: post ∧ Tiling a pre r.baseAddress ∧ Tiling r.limit post b ∧
      r.baseAddress ≤ x ∧ x < r.limit := by
  induction rs generalizing a with
  | nil =>
    have : a = b := h
    omega
  | cons r rs ih =>
    obtain ⟨hbase,hlen,hrest⟩ := h
    by_cases hx : x < r.limit
    · exact ⟨[], r, rs, rfl, hbase.symm, hrest, by omega, hx⟩
    · obtain ⟨pre,s,post,rfl,hpre,hpost,hs⟩ := ih hrest (by omega)
      exact ⟨r :: pre, s, post, rfl, ⟨hbase, hlen, hpre⟩, hpost, hs⟩

theorem typeAt_of_mem (hr : r ∈ rs) (hx : r.baseAddress ≤ x)
    (hlim : x < r.limit) : typeAt rs x = some r.type := by
  have hmem : r.segment ∈ rs.map MtrrMemoryRange.segment := mem_map_of_mem hr
  exact lookup_of_mem h.tiles hmem ⟨hx, by
    show x ≤ r.limit-1
    omega⟩

end

theorem typeAt_append_left (h : Tiling b ys c) (hx : x < b) : typeAt (xs ++ ys) x = typeAt xs x := by
  rw [typeAt, map_append]
  exact lookup_append_left h.tiles hx

theorem typeAt_append_right (h : Tiling a xs b) (hx : b ≤ x) : typeAt (xs ++ ys) x = typeAt ys x := by
  rw [typeAt, map_append]
  exact lookup_append_right h.tiles hx

theorem findEnds_append {count baseAddress limit index : Nat} {s : Ends}
    (hstart : s.startIndex = count → ∀ r ∈ xs,
      ¬ (r.baseAddress ≤ baseAddress ∧ baseAddress < toUint64 r.limit))
    (hend : ∀ r ∈ xs, ¬ (r.baseAddress < limit ∧ limit ≤ toUint64 r.limit)) :
    findEnds count baseAddress limit index (xs ++ ys) s =
      findEnds count baseAddress limit (index+xs.length) ys s := by
  induction xs generalizing index with
  | nil => rfl
  | cons r xs ih =>
    have hs : ¬ (s.startIndex = count ∧ r.baseAddress ≤ baseAddress ∧
        baseAddress < toUint64 r.limit) := fun h => hstart h.1 r mem_cons_self h.2
    have he : ¬ (s.endIndex = count ∧ r.baseAddress < limit ∧ limit ≤ toUint64 r.limit) :=
      fun h => hend r mem_cons_self h.2
    rw [cons_append, findEnds]
    simp only [if_neg hs, if_neg he]
    rw [ih (fun h r hr => hstart h r (mem_cons_of_mem _ hr))
      (fun r hr => hend r (mem_cons_of_mem _ hr)), length_cons, add_assoc, add_comm 1]

theorem findEnds_endIndex {count baseAddress limit index : Nat} {s : Ends}
    (hend : ∀ r ∈ rs, ¬ (r.baseAddress < limit ∧ limit ≤ toUint64 r.limit)) :
    (findEnds count baseAddress limit index rs s).endIndex = s.endIndex := by
  induction rs generalizing index s with
  | nil => rfl
  | cons r rs ih =>
    have he : ∀ e : Nat, ¬ (e = count ∧ r.baseAddress < limit ∧ limit ≤ toUint64 r.limit) :=
      fun e h => hend r mem_cons_self h.2
    simp only [findEnds, if_neg (he _)]
    rw [ih fun r hr => hend r (mem_cons_of_mem _ hr)]
    split <;> rfl

end

section
variable {a b baseAddress limit : Nat} {r first last : MtrrMemoryRange}
  {pre between post rs : List MtrrMemoryRange}

theorem findEnds_first (hpre : Tiling a pre r.baseAddress) (hlt : baseAddress < limit)
    (hbase : r.baseAddress ≤ baseAddress) (hlim : baseAddress < r.limit)
    (hword : r.limit < 2^64) (count : Nat) (post) :
    findEnds count baseAddress limit 0 (pre ++ r :: post) ⟨count, 0, count, 0⟩ = if limit ≤ r.limit then
        ⟨pre.length, baseAddress-r.baseAddress, pre.length, r.limit-limit⟩
      else findEnds count baseAddress limit (pre.length+1) post
        ⟨pre.length, baseAddress-r.baseAddress, count, 0⟩ := by
  have hpass : ∀ q ∈ pre, toUint64 q.limit ≤ baseAddress := fun q hq => by
    have hq := hpre.bounds_of_mem hq
    have hle : toUint64 q.limit ≤ q.limit := Nat.mod_le _ _
    omega
  rw [findEnds_append (fun _ q hq h => by
      have := hpass q hq
      omega) (fun q hq h => by
      have := hpass q hq
      omega), findEnds, toUint64_of_lt hword]
  have hlow : r.baseAddress < limit := lt_of_le_of_lt hbase hlt
  by_cases hin : limit ≤ r.limit <;> simp [hbase, hlim, hlow, hin]

theorem findEnds_last {left count index : Nat} (hbtw : Tiling b between last.baseAddress)
    (start : Nat) (hstart : start < count)
    (hlt : last.baseAddress < limit) (hlim : limit ≤ last.limit) (hword : last.limit < 2^64) (post) :
    findEnds count baseAddress limit (index+1) (between ++ last :: post)
        ⟨start, left, count, 0⟩ = ⟨start, left, index+1+between.length, last.limit-limit⟩ := by
  have hne : start ≠ count := ne_of_lt hstart
  rw [findEnds_append (fun h => absurd h hne) (fun q hq h => by
    have hq := hbtw.bounds_of_mem hq
    have hle : toUint64 q.limit ≤ q.limit := Nat.mod_le _ _
    omega), findEnds, toUint64_of_lt hword]
  simp [hne, hlt, hlim]

theorem findEnds_top (count baseAddress length : Nat) (hrs : Tiling a rs (2^64)) (hr : last ∈ rs)
    (htop : last.limit = 2^64) (hlast : last.baseAddress < baseAddress+length)
    (hin : baseAddress+length ≤ 2^64) : (findEnds count baseAddress (toUint64 (baseAddress+length)) 0 rs
      ⟨count, 0, count, 0⟩).endIndex = count := by
  apply findEnds_endIndex
  intro q hq h
  have hqb := hrs.bounds_of_mem hq
  by_cases hwrap : baseAddress+length = 2^64
  · rw [hwrap] at h
    have : toUint64 (2^64) = 0 := rfl
    omega
  rw [toUint64_of_lt (by omega)] at h
  by_cases hqtop : q.limit = 2^64
  · rw [hqtop] at h
    have : toUint64 (2^64) = 0 := rfl
    omega
  rw [toUint64_of_lt (by omega)] at h
  obtain ⟨pre,post,rfl⟩ := append_of_mem hr
  obtain ⟨c,hpre,hbase,-,hpost⟩ := tiling_append.mp hrs
  rcases mem_append.mp hq with hq | hq
  · have := hpre.bounds_of_mem hq
    omega
  rcases mem_cons.mp hq with rfl | hq
  · omega
  · have := hpost.bounds_of_mem hq
    omega

end

section
variable {pre mid post spare : List MtrrMemoryRange} {first last : MtrrMemoryRange}
  {lengthLeft lengthRight : Nat}

def leftPiece (lengthLeft : Nat) (first : MtrrMemoryRange) : List MtrrMemoryRange :=
  if lengthLeft ≠ 0 then [{ first with length := lengthLeft }] else []

def rightPiece (baseAddress lengthRight : Nat) (type : MtrrMemoryCacheType) : List MtrrMemoryRange :=
  if lengthRight ≠ 0 then [⟨baseAddress, lengthRight, type⟩] else []

def pieces (lengthLeft lengthRight : Nat) : Nat :=
  1 + (if lengthLeft ≠ 0 then 1 else 0) + (if lengthRight ≠ 0 then 1 else 0)

/-- The element at `EndIndex` when the type of the right piece is read, which is after the ranges
behind the replaced ones were moved. -/
def afterCopy (number : Nat) (mid post : List MtrrMemoryRange) (last : MtrrMemoryRange) :
    MtrrMemoryRange := if number ≤ mid.length-1 then post[mid.length-1-number]?.getD last else last

theorem writeRange_append (pre xs : List MtrrMemoryRange) (k : Nat)
    (fields : MtrrMemoryRange → MtrrMemoryRange) : writeRange (pre ++ xs) (pre.length+k) fields =
      (writeRange xs k fields).map fun xs => pre ++ xs := by
  have hmodify : (pre ++ xs).modify (pre.length+k) fields = pre ++ xs.modify k fields := by
    induction pre with
    | nil => simp
    | cons r pre ih => simp [Nat.succ_add, ih]
  rw [writeRange, writeRange, length_append, hmodify]
  by_cases hk : k < xs.length
  · rw [if_pos (by omega), if_pos hk]
    rfl
  · rw [if_neg (by omega), if_neg hk]
    rfl

theorem copyRanges_append (pre xs post : List MtrrMemoryRange) (number source : Nat)
    (hmove : number+post.length ≤ xs.length) (hsrc : (xs.drop source).take post.length = post)
    (hin : source+post.length ≤ xs.length) :
    copyRanges (pre ++ xs) (pre.length+number) (pre.length+source) post.length =
      some (pre ++ (xs.take number ++ (post ++ xs.drop (number+post.length)))) := by
  rw [copyRanges, length_append, if_pos (by omega), take_length_add_append,
    drop_length_add_append, hsrc, add_assoc, drop_length_add_append]
  simp only [append_assoc]

theorem getElem?_afterCopy (number : Nat) (post spare : List MtrrMemoryRange)
    (hlast : mid.getLast? = some last)
    (hmove : number+post.length ≤ (mid ++ (post ++ spare)).length) : ((mid ++ (post ++ spare)).take number ++
      (post ++ (mid ++ (post ++ spare)).drop (number+post.length)))[mid.length-1]? =
      some (afterCopy number mid post last) := by
  have hpos : 0 < mid.length := by
    cases mid with
    | nil => cases hlast
    | cons r mid => simp
  have hget : (mid ++ (post ++ spare))[mid.length-1]? = some last := by
    rw [getElem?_append_left (by omega), ← getLast?_eq_getElem?, hlast]
  have hlen : ((mid ++ (post ++ spare)).take number).length = number := by
    rw [length_take]
    omega
  rw [afterCopy]
  by_cases hmoved : number ≤ mid.length-1
  · rw [if_pos hmoved, getElem?_append_right (by omega), hlen]
    by_cases hpost : mid.length-1-number < post.length
    · rw [getElem?_append_left hpost, getElem?_eq_getElem hpost]
      rfl
    rw [getElem?_append_right (by omega), getElem?_drop,
      getElem?_eq_none (Nat.le_of_not_lt hpost),
      show number+post.length + (mid.length-1-number-post.length) = mid.length-1 by omega, hget]
    rfl
  · rw [if_neg hmoved, getElem?_append_left (by omega), getElem?_take_of_lt (by omega), hget]

theorem deltaCount_eq {start m base length : Nat} (hm : 0 < m) (hsmall : start+m < 2^60) :
    deltaCount lengthLeft lengthRight ⟨start, start+m-1, base, length⟩ =
      toUint64 (m + (2^64 - pieces lengthLeft lengthRight)) := by
  rw [deltaCount, pieces, toUint64, toUint64]
  by_cases hl : lengthLeft = 0 <;> by_cases hr : lengthRight = 0 <;> simp [hl, hr] <;> omega

theorem sub_deltaCount {n m number : Nat} (hm : m ≤ n) (hn : n < 2^60) (hnum : number ≤ 3) :
    toUint64 (n + (2^64 - toUint64 (m + (2^64-number)))) = n+number-m := by
  rw [toUint64, toUint64]
  omega

/-- The three assignments, on an array whose first `PieceCount` elements from `StartIndex` on are
free. -/
theorem writePieces (pre : List MtrrMemoryRange) {xs : List MtrrMemoryRange}
    {k delta base length : Nat} (type : MtrrMemoryCacheType) (hfst : xs.head? = some first) (hlast : xs[k]? = some last)
    (hroom : pieces lengthLeft lengthRight ≤ xs.length)
    (hword : lengthRight ≠ 0 → base+length < 2^64)
    (hdelta : toUint64 (pre.length+k + (2^64-delta)) = pre.length + (pieces lengthLeft lengthRight - 1)) :
    ((writeLeft lengthLeft ⟨pre.length, pre.length+k, base, length⟩ (pre ++ xs)).bind fun w =>
      (writeRight lengthRight delta ⟨pre.length, pre.length+k, base, length⟩ w.1).bind
        fun ranges => writeRange ranges w.2 fun _ => ⟨base, length, type⟩) =
      some (pre ++ (leftPiece lengthLeft first ++ ⟨base, length, type⟩ ::
        (rightPiece (base+length) lengthRight last.type ++ xs.drop (pieces lengthLeft lengthRight)))) := by
  have hfree : ∀ x xs fields, writeRange (pre ++ x :: xs) pre.length fields =
      some (pre ++ fields x :: xs) := fun x xs fields => by
    rw [← add_zero pre.length, writeRange_append]
    simp [writeRange]
  have hsecond : ∀ x y xs fields, writeRange (pre ++ x :: y :: xs) (pre.length+1) fields =
      some (pre ++ x :: fields y :: xs) := fun x y xs fields => by
    rw [writeRange_append]
    simp [writeRange]
  have hthird : ∀ x y z xs fields, writeRange (pre ++ x :: y :: z :: xs) (pre.length+2) fields =
        some (pre ++ x :: y :: fields z :: xs) := fun x y z xs fields => by
    rw [writeRange_append]
    simp [writeRange]
  have hread : ∀ ys : List MtrrMemoryRange, (pre ++ ys)[pre.length+k]? = ys[k]? := fun ys => by
    rw [getElem?_append_right (by omega), Nat.add_sub_cancel_left]
  rcases xs with - | ⟨x,xs⟩
  · cases hfst
  obtain rfl : x = first := by simpa using hfst
  by_cases hl : lengthLeft = 0
  · by_cases hr : lengthRight = 0
    · simp [writeLeft, writeRight, leftPiece, rightPiece, pieces, hl, hr, hfree]
    rw [show pieces lengthLeft lengthRight = 2 by simp [pieces, hl, hr]] at *
    rcases xs with - | ⟨y,xs⟩
    · simp at hroom
    · simp [-Nat.reducePow, writeLeft, writeRight, leftPiece, rightPiece, hl, hr, hfree, hsecond,
        hread, hlast, hdelta, toUint64_of_lt (hword hr)]
  · by_cases hr : lengthRight = 0
    · rw [show pieces lengthLeft lengthRight = 2 by simp [pieces, hl, hr]] at *
      rcases xs with - | ⟨y,xs⟩
      · simp at hroom
      · simp [writeLeft, writeRight, leftPiece, rightPiece, hl, hr, hfree, hsecond]
    rw [show pieces lengthLeft lengthRight = 3 by simp [pieces, hl, hr]] at *
    rcases xs with - | ⟨y,- | ⟨z,xs⟩⟩
    · simp at hroom
    · simp at hroom
    -- the length of the first range is written before the type of the last is read
    obtain ⟨last',hlast',htype⟩ : ∃ last', ({ x with length := lengthLeft } :: y :: z ::
        xs)[k]? = some last' ∧ last'.type = last.type := by
      cases k with
      | zero =>
        obtain rfl : x = last := by simpa using hlast
        exact ⟨_, rfl, rfl⟩
      | succ k => exact ⟨last, hlast, rfl⟩
    simp [-Nat.reducePow, writeLeft, writeRight, leftPiece, rightPiece, hl, hr, hfree, hsecond,
      hthird, hread, hlast', htype, hdelta, toUint64_of_lt (hword hr)]

section
variable (mid post : List MtrrMemoryRange) (first last : MtrrMemoryRange)
  (lengthLeft lengthRight base length : Nat) (type : MtrrMemoryCacheType)

def replacement : List MtrrMemoryRange :=
  leftPiece lengthLeft first ++ ⟨base, length, type⟩ :: rightPiece (base+length) lengthRight
      (afterCopy (pieces lengthLeft lengthRight) mid post last).type

theorem length_replacement :
    (replacement mid post first last lengthLeft lengthRight base length type).length =
      pieces lengthLeft lengthRight := by
  by_cases hl : lengthLeft = 0 <;> by_cases hr : lengthRight = 0 <;>
    simp [replacement, leftPiece, rightPiece, pieces, hl, hr]

end

theorem replaceRanges_eq (pre post spare : List MtrrMemoryRange) {capacity : Nat}
    (lengthLeft lengthRight base length : Nat) (type : MtrrMemoryCacheType)
    (hfst : mid.head? = some first) (hlast : mid.getLast? = some last)
    (hcnt : (pre ++ (mid ++ post)).length ≤ capacity)
    (hcap : capacity ≤ (pre ++ (mid ++ (post ++ spare))).length)
    (hsmall : capacity < 2^60) (hword : lengthRight ≠ 0 → base+length < 2^64) :
    replaceRanges (pre ++ (mid ++ (post ++ spare))) capacity (pre ++ (mid ++ post)).length type
        lengthLeft lengthRight ⟨pre.length, pre.length+mid.length-1, base, length⟩ =
      if pre.length + pieces lengthLeft lengthRight + post.length > capacity then
        some (.outOfResources, pre ++ (mid ++ (post ++ spare)), (pre ++ (mid ++ post)).length)
      else some (.success,
        pre ++ (replacement mid post first last lengthLeft lengthRight base length type ++ (post ++
          (mid ++ (post ++ spare)).drop (pieces lengthLeft lengthRight + post.length))),
        pre.length + pieces lengthLeft lengthRight + post.length) := by
  have hpos : 0 < mid.length := by
    cases mid with
    | nil => cases hlast
    | cons r mid => simp
  have hnum : pieces lengthLeft lengthRight ≤ 3 ∧ 0 < pieces lengthLeft lengthRight := by
    rw [pieces]
    split <;> split <;> omega
  simp only [length_append] at hcnt hcap ⊢
  rw [replaceRanges, deltaCount_eq hpos (by omega), sub_deltaCount (by omega) (by omega) hnum.1]
  by_cases hroom : pre.length + pieces lengthLeft lengthRight + post.length > capacity
  · rw [if_pos hroom, if_pos (by omega)]
  rw [if_neg hroom, if_neg (by omega)]
  have htarget : toUint64 (pre.length+mid.length-1 + 1 + (2^64 -
      toUint64 (mid.length + (2^64 - pieces lengthLeft lengthRight)))) =
      pre.length + pieces lengthLeft lengthRight := by
    rw [sub_deltaCount (by omega) (by omega) hnum.1]
    omega
  have hright : toUint64 (pre.length + (mid.length-1) + (2^64 -
      toUint64 (mid.length + (2^64 - pieces lengthLeft lengthRight)))) =
      pre.length + (pieces lengthLeft lengthRight - 1) := by
    rw [toUint64, toUint64]
    omega
  have hcopy := copyRanges_append pre (mid ++ (post ++ spare)) post
    (pieces lengthLeft lengthRight) mid.length (by simp; omega) (by simp) (by simp)
  rw [htarget, show pre.length+mid.length-1 + 1 = pre.length+mid.length by omega,
    show pre.length + (mid.length+post.length) - (pre.length+mid.length-1) - 1 =
      post.length by omega, hcopy]
  have hread := getElem?_afterCopy (pieces lengthLeft lengthRight) post spare hlast
    (by simp; omega)
  generalize htail : mid ++ (post ++ spare) = tail at hread ⊢
  have htailLen : tail.length = mid.length + (post.length+spare.length) := by
    rw [← htail]
    simp
  have hhead : (tail.take (pieces lengthLeft lengthRight) ++
      (post ++ tail.drop (pieces lengthLeft lengthRight + post.length))).head? = some first := by
    cases mid with
    | nil => cases hfst
    | cons r mid =>
      obtain rfl : r = first := by simpa using hfst
      rw [← htail]
      obtain ⟨n,hn⟩ := Nat.exists_eq_add_of_lt hnum.2
      simp [hn]
  have hwrites := writePieces pre type hhead hread (by simp; omega) hword hright
  have hrest : (tail.take (pieces lengthLeft lengthRight) ++
      (post ++ tail.drop (pieces lengthLeft lengthRight + post.length))).drop
        (pieces lengthLeft lengthRight) =
      post ++ tail.drop (pieces lengthLeft lengthRight + post.length) := drop_left' (by
      rw [length_take]
      omega)
  rw [hrest] at hwrites
  rw [show pre.length+mid.length-1 = pre.length + (mid.length-1) by omega]
  simp only [Option.bind_eq_bind, Option.bind_some] at hwrites ⊢
  obtain ⟨w,hleft,hwrites⟩ := Option.bind_eq_some_iff.mp hwrites
  obtain ⟨ranges,hright',hnew⟩ := Option.bind_eq_some_iff.mp hwrites
  rw [hleft]
  simp only [Option.bind_some]
  rw [hright']
  simp only [Option.bind_some]
  rw [hnew]
  simp [replacement]
  omega

end

section
variable {ranges ranges' : List MtrrMemoryRange}

theorem writeRange_length {index : Nat} {fields : MtrrMemoryRange → MtrrMemoryRange}
    (h : writeRange ranges index fields = some ranges') : ranges'.length = ranges.length := by
  rw [writeRange, Option.ite_none_right_eq_some] at h
  rw [← Option.some.inj h.2, length_modify]

theorem copyRanges_length {destination source number : Nat}
    (h : copyRanges ranges destination source number = some ranges') : ranges'.length = ranges.length := by
  rw [copyRanges, Option.ite_none_right_eq_some] at h
  obtain ⟨hbds,h⟩ := h
  rw [← Option.some.inj h]
  simp only [length_append, length_take, length_drop]
  omega

variable {type : MtrrMemoryCacheType}

theorem replaceRanges_length {capacity count count' lengthLeft lengthRight : Nat}
    {e : Edit} {status : EfiStatus} (h : replaceRanges ranges capacity count type lengthLeft lengthRight e =
      some (status,ranges',count')) : ranges'.length = ranges.length := by
  rw [replaceRanges] at h
  split at h
  · cases h
    rfl
  simp only [Option.bind_eq_bind, Option.bind_eq_some_iff] at h
  obtain ⟨copied,hcopy,⟨left,startIndex⟩,hleft,right,hright,new,hnew,heq⟩ := h
  cases heq
  rw [writeRange_length hnew, ← copyRanges_length hcopy]
  have hleftLen : left.length = copied.length := by
    rw [writeLeft] at hleft
    split at hleft
    · obtain ⟨_,hwrite,heq⟩ := Option.map_eq_some_iff.mp hleft
      cases heq
      exact writeRange_length hwrite
    · cases hleft
      rfl
  rw [← hleftLen]
  rw [writeRight] at hright
  split at hright
  · obtain ⟨_,-,hwrite⟩ := Option.bind_eq_some_iff.mp hright
    exact writeRange_length hwrite
  · cases hright
    rfl

theorem mtrrLibSetMemoryType_length {capacity count count' baseAddress length : Nat} {status : EfiStatus}
    (h : mtrrLibSetMemoryType ranges capacity count baseAddress length type =
      some (status,ranges',count')) : ranges'.length = ranges.length := by
  rw [mtrrLibSetMemoryType] at h
  split at h
  · cases h
  obtain ⟨first,-,h⟩ := Option.bind_eq_some_iff.mp h
  split at h
  · cases h
    rfl
  · obtain ⟨_,-,h⟩ := Option.bind_eq_some_iff.mp h
    obtain ⟨_,-,h⟩ := Option.bind_eq_some_iff.mp h
    exact replaceRanges_length h

end

/-- The ranges as the request divides them: those that hold its first and its last address, what
is between them, and the neighbours that the new range joins. -/
structure Placed (rs : List MtrrMemoryRange) (base limit : Nat) (type : MtrrMemoryCacheType)
    (pre : List MtrrMemoryRange) (previous : Option MtrrMemoryRange) (mid : List MtrrMemoryRange)
    (next : Option MtrrMemoryRange) (post : List MtrrMemoryRange)
    (first last : MtrrMemoryRange) : Prop where
  ranges : rs = pre ++ (previous.toList ++ (mid ++ (next.toList ++ post)))
  replaced : mid = [first] ∧ first = last ∨ ∃ between, mid = first :: (between ++ [last])
  firstHolds : first.baseAddress ≤ base ∧ base < first.limit
  lastHolds : last.baseAddress < limit ∧ limit ≤ last.limit
  previousJoins : ∀ q ∈ previous, first.baseAddress = base ∧ q.type = type
  noPrevious : previous = none → first.baseAddress = base → ∀ q ∈ pre.getLast?, q.type ≠ type
  nextJoins : ∀ q ∈ next, last.limit = limit ∧ q.type = type
  noNext : next = none → last.limit = limit → ∀ q ∈ post.head?, q.type ≠ type

section
variable {a b base limit : Nat} {type : MtrrMemoryCacheType} {rs pre mid post : List MtrrMemoryRange}
  {previous next : Option MtrrMemoryRange} {first last : MtrrMemoryRange}

theorem exists_previous (pre : List MtrrMemoryRange) (aligned : Prop) (type : MtrrMemoryCacheType) :
    ∃ pre' previous, pre = pre' ++ Option.toList previous ∧ (∀ q ∈ previous, aligned ∧ q.type = type) ∧
      (previous = none → aligned → ∀ q ∈ pre'.getLast?, q.type ≠ type) := by
  rcases eq_nil_or_concat pre with rfl | ⟨pre,q,rfl⟩
  · exact ⟨[], none, rfl, by simp, by simp⟩
  by_cases hjoin : aligned ∧ q.type = type
  · exact ⟨pre, some q, by simp, by simpa using hjoin, by simp⟩
  refine ⟨pre ++ [q], none, by simp, by simp, ?_⟩
  intro _ hal r hr
  obtain rfl : q = r := by simpa using hr
  exact fun htype => hjoin ⟨hal, htype⟩

theorem exists_next (post : List MtrrMemoryRange) (aligned : Prop) (type : MtrrMemoryCacheType) :
    ∃ next post', post = Option.toList next ++ post' ∧ (∀ q ∈ next, aligned ∧ q.type = type) ∧
      (next = none → aligned → ∀ q ∈ post'.head?, q.type ≠ type) := by
  rcases post with - | ⟨q,post⟩
  · exact ⟨none, [], rfl, by simp, by simp⟩
  by_cases hjoin : aligned ∧ q.type = type
  · exact ⟨some q, post, by simp, by simpa using hjoin, by simp⟩
  refine ⟨none, q :: post, by simp, by simp, ?_⟩
  intro _ hal r hr
  obtain rfl : q = r := by simpa using hr
  exact fun htype => hjoin ⟨hal, htype⟩

theorem exists_placed (h : Tiling a rs b) (ha : a ≤ base) (hlt : base < limit) (hb : limit ≤ b)
    (type : MtrrMemoryCacheType) : ∃ pre previous mid next post first last,
      Placed rs base limit type pre previous mid next post first last := by
  obtain ⟨pre,first,rest,rfl,hpre,hrest,hfst⟩ := h.exists_range ha (by omega : base < b)
  obtain ⟨pre,previous,rfl,hprev,hnoPrev⟩ := exists_previous pre (first.baseAddress = base) type
  by_cases hin : limit ≤ first.limit
  · obtain ⟨next,post,rfl,hnext,hnoNext⟩ := exists_next rest (first.limit = limit) type
    exact ⟨pre, previous, [first], next, post, first, first, by simp, .inl ⟨rfl, rfl⟩, hfst,
      ⟨by omega, hin⟩, hprev, hnoPrev, hnext, hnoNext⟩
  obtain ⟨between,last,rest,rfl,-,-,hlast⟩ :=
    hrest.exists_range (by omega : first.limit ≤ limit-1) (by omega)
  obtain ⟨next,post,rfl,hnext,hnoNext⟩ := exists_next rest (last.limit = limit) type
  exact ⟨pre, previous, first :: (between ++ [last]), next, post, first, last, by simp,
    .inr ⟨between, rfl⟩, hfst, ⟨by omega, by omega⟩, hprev, hnoPrev, hnext, hnoNext⟩

def newBase (previous : Option MtrrMemoryRange) (base : Nat) : Nat := previous.elim base (·.baseAddress)

def newLimit (next : Option MtrrMemoryRange) (limit : Nat) : Nat := next.elim limit (·.limit)

namespace Placed
variable (h : Placed rs base limit type pre previous mid next post first last)
include h

theorem head_mid : mid.head? = some first := by obtain ⟨rfl,-⟩ | ⟨between,rfl⟩ := h.replaced <;> rfl

theorem getLast_mid : mid.getLast? = some last := by
  obtain ⟨rfl,rfl⟩ | ⟨between,rfl⟩ := h.replaced
  · rfl
  · rw [← cons_append, getLast?_concat]

section
variable (htiling : Tiling a rs b)
include htiling

theorem tilings : Tiling a pre (newBase previous first.baseAddress) ∧
      Tiling (newBase previous first.baseAddress) previous.toList first.baseAddress ∧
      Tiling first.baseAddress mid last.limit ∧ Tiling last.limit next.toList (newLimit next last.limit) ∧
      Tiling (newLimit next last.limit) post b := by
  rw [h.ranges] at htiling
  obtain ⟨c,hpre,hrest⟩ := tiling_append.mp htiling
  obtain ⟨c1,hprev,hrest⟩ := tiling_append.mp hrest
  obtain ⟨c2,hmid,hrest⟩ := tiling_append.mp hrest
  obtain ⟨c3,hnext,hpost⟩ := tiling_append.mp hrest
  have hc1 : c1 = first.baseAddress ∧ c2 = last.limit := by
    obtain ⟨rfl,rfl⟩ | ⟨between,rfl⟩ := h.replaced
    · exact ⟨hmid.1.symm, hmid.2.2.symm⟩
    · obtain ⟨hbase,-,hrest⟩ := hmid
      obtain ⟨c4,-,-,-,hlast⟩ := tiling_append.mp hrest
      exact ⟨hbase.symm, hlast.symm⟩
  obtain ⟨rfl,rfl⟩ := hc1
  have hc : c = newBase previous first.baseAddress := by
    cases previous with
    | none => exact hprev
    | some q => exact hprev.1.symm
  have hc3 : c3 = newLimit next last.limit := by
    cases next with
    | none => exact hnext.symm
    | some q => exact hnext.2.2.symm
  subst hc hc3
  exact ⟨hpre, hprev, hmid, hnext, hpost⟩

theorem findEnds_eq (hlt : base < limit) (hword : last.limit < 2^64) :
    findEnds rs.length base limit 0 rs ⟨rs.length, 0, rs.length, 0⟩ =
      ⟨(pre ++ previous.toList).length, base-first.baseAddress,
        (pre ++ previous.toList).length + (mid.length-1), last.limit-limit⟩ := by
  obtain ⟨hpre,hprev,hmid,hnext,hpost⟩ := h.tilings htiling
  have hbef : Tiling a (pre ++ previous.toList) first.baseAddress := tiling_append.mpr ⟨_, hpre, hprev⟩
  obtain ⟨hlow,hhigh⟩ := h.firstHolds
  obtain ⟨hlastLow,hlastHigh⟩ := h.lastHolds
  have hrs := h.ranges
  obtain ⟨rfl,rfl⟩ | ⟨between,rfl⟩ := h.replaced
  · have hfind := findEnds_first hbef hlt hlow hhigh hword rs.length (next.toList ++ post)
    rw [if_pos hlastHigh, append_assoc] at hfind
    simpa [hrs] using hfind
  obtain ⟨-,-,hrest⟩ := hmid
  obtain ⟨c,hbtw,hlastBase,-,-⟩ := tiling_append.mp hrest
  obtain rfl : c = last.baseAddress := hlastBase.symm
  have hbtwLe := hbtw.le
  have hfind := findEnds_first hbef hlt hlow hhigh (by omega) rs.length
    (between ++ last :: (next.toList ++ post))
  rw [if_neg (by omega), findEnds_last hbtw _ (by simp [hrs]) hlastLow hlastHigh hword,
    append_assoc] at hfind
  have hidx : (pre ++ previous.toList).length + 1 + between.length =
      (pre ++ previous.toList).length + ((first :: (between ++ [last])).length - 1) := by
    simp
    omega
  rw [← hidx]
  simpa [hrs] using hfind

theorem newBase_le : newBase previous base ≤ base := by
  cases previous with
  | none => exact le_rfl
  | some q =>
    obtain ⟨-,hprev,-⟩ := h.tilings htiling
    have hq := (h.previousJoins q rfl).1
    have hle := hprev.le
    rw [← hq]
    exact hle

theorem mergePrevious_eq (hlt : base < limit) (hword : limit < 2^64)
    (spare : List MtrrMemoryRange) (k : Nat) : mergePrevious (rs ++ spare) type (base-first.baseAddress)
        ⟨(pre ++ previous.toList).length, k, base, limit-base⟩ =
      some ⟨pre.length, k, newBase previous base, limit - newBase previous base⟩ := by
  have hrs := h.ranges
  cases previous with
  | none =>
    rw [mergePrevious]
    by_cases hmerge : (pre ++ Option.toList none).length ≠ 0 ∧ base-first.baseAddress = 0
    · simp only [if_pos hmerge]
      obtain ⟨pre,q,rfl⟩ := eq_nil_or_concat pre |>.resolve_left (by
        rintro rfl
        exact hmerge.1 rfl)
      have hal : first.baseAddress = base := by
        have := h.firstHolds.1
        omega
      have htype := h.noPrevious rfl hal q (by simp)
      simp [hrs, htype, newBase]
    · rw [if_neg hmerge]
      simp [newBase]
  | some q =>
    obtain ⟨hal,htype⟩ := h.previousJoins q rfl
    obtain ⟨-,⟨hqbase,hqlen,hqlimit⟩,-⟩ := h.tilings htiling
    have hq : q.baseAddress+q.length = base := by
      rw [← hal, ← hqlimit]
      rfl
    have hlen : toUint64 (limit-base + q.length) = limit-q.baseAddress := by
      rw [toUint64_of_lt (by omega)]
      omega
    have hbase : toUint64 (base + (2^64-q.length)) = q.baseAddress := by
      rw [toUint64]
      omega
    simp [-Nat.reducePow, mergePrevious, hrs, hal, htype, hlen, hbase, newBase]

theorem mergeNext_eq {start newStart : Nat} (hstart : newStart ≤ limit)
    (hword : limit < 2^64) (spare : List MtrrMemoryRange) :
    mergeNext (rs ++ spare) type rs.length (last.limit-limit)
        ⟨start, (pre ++ previous.toList).length + (mid.length-1), newStart, limit-newStart⟩ =
      some ⟨start, (pre ++ previous.toList).length + (mid.length - 1) + next.toList.length,
        newStart, toUint64 (newLimit next limit - newStart)⟩ := by
  have hrs := h.ranges
  have hmid : 0 < mid.length := by
    have := h.head_mid
    cases mid with
    | nil => cases this
    | cons r mid => simp
  have hnextAt : ∀ q rest, next.toList ++ post = q :: rest →
      (rs ++ spare)[(pre ++ previous.toList).length + (mid.length-1) + 1]? = some q := by
    intro q rest hq
    have hfront : rs ++ spare = (pre ++ (previous.toList ++ mid)) ++ q :: (rest ++ spare) := by
      rw [hrs, hq]
      simp
    have hidx : (pre ++ previous.toList).length + (mid.length-1) + 1 =
        (pre ++ (previous.toList ++ mid)).length := by
      simp
      omega
    rw [hfront, hidx, getElem?_append_right le_rfl, Nat.sub_self]
    rfl
  have hkeep : toUint64 (limit-newStart) = limit-newStart := toUint64_of_lt (by omega)
  cases next with
  | none =>
    rw [mergeNext]
    by_cases hmerge : (pre ++ previous.toList).length + (mid.length-1) ≠ rs.length-1 ∧
        last.limit-limit = 0
    · rw [if_pos hmerge]
      cases post with
      | nil =>
        have := hmerge.1
        simp [hrs] at this
        omega
      | cons q post =>
        have hal : last.limit = limit := by
          have := h.lastHolds.2
          omega
        have htype := h.noNext rfl hal q rfl
        simp only [hnextAt q post rfl, Option.map_some, if_neg htype]
        rw [show newLimit none limit = limit from rfl, hkeep]
        rfl
    · rw [if_neg hmerge, show newLimit none limit = limit from rfl, hkeep]
      rfl
  | some q =>
    obtain ⟨hal,htype⟩ := h.nextJoins q rfl
    obtain ⟨-,-,-,⟨hqbase,hqlen,hqlimit⟩,-⟩ := h.tilings htiling
    have hlen : limit-newStart + q.length = q.limit-newStart := by
      have : q.limit = q.baseAddress+q.length := rfl
      omega
    have hmerge : (pre ++ previous.toList).length + (mid.length-1) ≠ rs.length-1 ∧
        last.limit-limit = 0 := by
      rw [hrs]
      constructor
      · simp
        omega
      · omega
    rw [mergeNext, if_pos hmerge]
    simp only [hnextAt q post rfl, Option.map_some, if_pos htype, hlen]
    rfl

end

omit h in
def whole (previous : Option MtrrMemoryRange) (mid : List MtrrMemoryRange)
    (next : Option MtrrMemoryRange) : List MtrrMemoryRange := previous.toList ++ (mid ++ next.toList)

theorem ranges_whole : rs = pre ++ (whole previous mid next ++ post) := by
  rw [h.ranges, whole]
  simp

theorem length_mid_pos : 0 < mid.length := by
  have := h.head_mid
  cases mid with
  | nil => cases this
  | cons r mid => simp

theorem head_whole : (whole previous mid next).head? = some (previous.getD first) := by
  cases previous with
  | none =>
    have hmid := h.head_mid
    cases mid with
    | nil => cases hmid
    | cons r mid => simpa [whole] using hmid
  | some q => rfl

theorem getLast_whole : (whole previous mid next).getLast? = some (next.getD last) := by
  cases next with
  | none => simp [whole, h.getLast_mid]
  | some q => simp [whole]

theorem mtrrLibSetMemoryType_eq (htiling : Tiling a rs b) (hlt : base < limit)
    (hword : last.limit < 2^64) (spare : List MtrrMemoryRange) (capacity : Nat) :
    mtrrLibSetMemoryType (rs ++ spare) capacity rs.length base (limit-base) type =
      if mid.length = 1 ∧ first.type = type then
        some (.alreadyStarted, rs ++ spare, rs.length)
      else
        replaceRanges (rs ++ spare) capacity rs.length type (base-first.baseAddress)
          (last.limit - limit) ⟨pre.length, pre.length + (whole previous mid next).length - 1,
            newBase previous base, toUint64 (newLimit next limit - newBase previous base)⟩ := by
  have hlim : limit < 2^64 := lt_of_le_of_lt h.lastHolds.2 hword
  have hmid := h.length_mid_pos
  have hlen : (pre ++ previous.toList).length + mid.length ≤ rs.length := by
    rw [h.ranges]
    simp
    omega
  have hat : (rs ++ spare)[(pre ++ previous.toList).length]? = some first := by
    have hmid := h.head_mid
    cases mid with
    | nil => cases hmid
    | cons r mid =>
      obtain rfl : r = first := by simpa using hmid
      rw [h.ranges, ← append_assoc, append_assoc (pre ++ _),
        getElem?_append_right le_rfl, Nat.sub_self]
      rfl
  have hend : (pre ++ previous.toList).length + (mid.length - 1) + next.toList.length =
      pre.length + (whole previous mid next).length - 1 := by
    simp [whole]
    omega
  have hsrch := h.findEnds_eq htiling hlt hword
  have htake : (rs ++ spare).take rs.length = rs := take_left' rfl
  have hlimEq : toUint64 (base + (limit-base)) = limit := by
    rw [Nat.add_sub_cancel' (le_of_lt hlt), toUint64_of_lt hlim]
  have hfnd : ¬ ((pre ++ previous.toList).length = rs.length ∨
      (pre ++ previous.toList).length + (mid.length-1) = rs.length) := by omega
  simp only [mtrrLibSetMemoryType, hlimEq, htake, hsrch, if_neg hfnd, hat, Option.bind_some]
  by_cases hstart : mid.length = 1 ∧ first.type = type
  · rw [if_pos hstart, if_pos ⟨by omega, hstart.2⟩]
  rw [if_neg hstart, if_neg (fun hif => hstart ⟨by omega, hif.2⟩),
    h.mergePrevious_eq htiling hlt hlim, Option.bind_some,
    h.mergeNext_eq htiling (le_trans (h.newBase_le htiling) (le_of_lt hlt)) hlim,
    Option.bind_some, hend]

end Placed

end

end Liano.Mtrr
