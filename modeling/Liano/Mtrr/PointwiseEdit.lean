import Liano.Mtrr.RangeEdit
import Mathlib.Data.List.Chain

/-! `MtrrLibSetMemoryType` as an update of the type of each address, and exactly when it is
one. -/
namespace Liano.Mtrr

open List hiding not_lt

open Liano.Lib

def newRanges (previous : Option MtrrMemoryRange) (first last : MtrrMemoryRange)
    (next : Option MtrrMemoryRange) (base limit : Nat) (type rightType : MtrrMemoryCacheType) :
    List MtrrMemoryRange := leftPiece (base-first.baseAddress) (previous.getD first) ++
    ⟨newBase previous base, newLimit next limit - newBase previous base, type⟩ ::
      rightPiece (newLimit next limit) (last.limit - limit) rightType

theorem length_newRanges (prev : Option MtrrMemoryRange) (first last : MtrrMemoryRange)
    (next : Option MtrrMemoryRange) (base limit : Nat) (type rightType : MtrrMemoryCacheType) :
    (newRanges prev first last next base limit type rightType).length =
      pieces (base-first.baseAddress) (last.limit-limit) := by
  by_cases hl : base-first.baseAddress = 0 <;> by_cases hr : last.limit-limit = 0 <;>
    simp [newRanges, leftPiece, rightPiece, pieces, hl, hr]

theorem typeAt_replace {a b c d x : Nat} {pre mid mid' post : List MtrrMemoryRange}
    (hpre : Tiling a pre c) (hmid : Tiling c mid d) (hmid' : Tiling c mid' d)
    (hpost : Tiling d post b) (hx : x < c ∨ d ≤ x) :
    typeAt (pre ++ (mid' ++ post)) x = typeAt (pre ++ (mid ++ post)) x := by
  rcases hx with hx | hx
  · rw [typeAt_append_left (tiling_append.mpr ⟨d, hmid', hpost⟩) hx,
      typeAt_append_left (tiling_append.mpr ⟨d, hmid, hpost⟩) hx]
  · have hc := le_trans hmid.le hx
    rw [typeAt_append_right hpre hc, typeAt_append_right hpre hc, typeAt_append_right hmid' hx,
      typeAt_append_right hmid hx]

namespace Placed

section
variable {a b base limit x : Nat} {type rightType : MtrrMemoryCacheType}
  {rs pre mid post : List MtrrMemoryRange}
  {prev next : Option MtrrMemoryRange} {first last : MtrrMemoryRange}
  (h : Placed rs base limit type pre prev mid next post first last)
include h

theorem next_eq_none (hcut : limit < last.limit) : next = none := by
  cases next with
  | none => rfl
  | some q =>
    have := (h.nextJoins q rfl).1
    omega

theorem previous_eq_none (hcut : first.baseAddress < base) : prev = none := by
  cases prev with
  | none => rfl
  | some q =>
    have := (h.previousJoins q rfl).1
    omega

theorem le_newLimit (htiling : Tiling a rs b) : limit ≤ newLimit next limit := by
  cases next with
  | none => exact le_rfl
  | some q =>
    obtain ⟨-,-,-,hnext,-⟩ := h.tilings htiling
    have hq := (h.nextJoins q rfl).1
    have hle := hnext.le
    rw [← hq]
    exact hle

theorem leftPiece_end : newBase prev first.baseAddress + (base-first.baseAddress) =
    newBase prev base := by
  have hfirst := h.firstHolds.1
  cases prev with
  | none =>
    show first.baseAddress+_ = base
    omega
  | some q =>
    have hq := (h.previousJoins q rfl).1
    show q.baseAddress+_ = q.baseAddress
    omega

theorem rightPiece_start : newLimit next limit + (last.limit - limit) = newLimit next last.limit := by
  have hlast := h.lastHolds.2
  cases next with
  | none =>
    show limit+_ = last.limit
    omega
  | some q =>
    have hq := (h.nextJoins q rfl).1
    show q.limit+_ = q.limit
    omega

theorem tiling_newRanges (htiling : Tiling a rs b) (hlt : base < limit)
    (rightType : MtrrMemoryCacheType) : Tiling (newBase prev first.baseAddress)
      (newRanges prev first last next base limit type rightType)
      (newLimit next last.limit) := by
  have hleft := h.leftPiece_end
  have hright := h.rightPiece_start
  have hnew := h.newBase_le htiling
  have hnewLimit := h.le_newLimit htiling
  refine tiling_append.mpr ⟨newBase prev base, ?_, rfl, ?_, ?_⟩
  · rw [leftPiece]
    by_cases hl : base-first.baseAddress = 0
    · rw [if_neg (by simpa using hl)]
      show newBase prev first.baseAddress = newBase prev base
      omega
    rw [if_pos hl]
    cases prev with
    | none => exact ⟨rfl, Nat.pos_of_ne_zero hl, hleft⟩
    | some q =>
      have := (h.previousJoins q rfl).1
      omega
  · show 0 < newLimit next limit - newBase prev base
    omega
  · show Tiling (newBase prev base + (newLimit next limit - newBase prev base)) _ _
    rw [Nat.add_sub_cancel' (by omega), rightPiece]
    by_cases hr : last.limit-limit = 0
    · rw [if_neg (by simpa using hr)]
      show newLimit next limit = newLimit next last.limit
      omega
    · rw [if_pos hr]
      exact ⟨rfl, Nat.pos_of_ne_zero hr, hright⟩

theorem tiling_edited (htiling : Tiling a rs b) (hlt : base < limit) (rightType : MtrrMemoryCacheType) :
    Tiling a (pre ++ (newRanges prev first last next base limit type rightType ++ post)) b := by
  obtain ⟨hpre,-,-,-,hpost⟩ := h.tilings htiling
  exact tiling_append.mpr ⟨_, hpre, tiling_append.mpr ⟨_, h.tiling_newRanges htiling hlt _, hpost⟩⟩

theorem tiling_whole (htiling : Tiling a rs b) :
    Tiling (newBase prev first.baseAddress) (whole prev mid next)
      (newLimit next last.limit) := by
  obtain ⟨-,hprevious,hmid,hnext,-⟩ := h.tilings htiling
  exact tiling_append.mpr ⟨_, hprevious, tiling_append.mpr ⟨_, hmid, hnext⟩⟩

theorem first_mem : first ∈ rs := by
  rw [h.ranges]
  have := mem_of_mem_head? h.head_mid
  simp [this]

theorem last_mem : last ∈ rs := by
  rw [h.ranges]
  have := mem_of_getLast? h.getLast_mid
  simp [this]

section
variable (htiling : Tiling a rs b)
include htiling

theorem typeAt_first (hx : first.baseAddress ≤ x) (hlimit : x < first.limit) :
    typeAt rs x = some first.type := typeAt_of_mem htiling h.first_mem hx hlimit

theorem typeAt_last (hx : last.baseAddress ≤ x) (hlimit : x < last.limit) :
    typeAt rs x = some last.type := typeAt_of_mem htiling h.last_mem hx hlimit

theorem typeAt_previous (hx : newBase prev base ≤ x) (hlt : x < base) : typeAt rs x = some type := by
  cases prev with
  | none => exact absurd hx (Nat.not_le_of_lt hlt)
  | some q =>
    obtain ⟨haligned,htype⟩ := h.previousJoins q rfl
    obtain ⟨-,⟨-,-,hlimit⟩,-⟩ := h.tilings htiling
    have hmem : q ∈ rs := by
      rw [h.ranges]
      simp
    rw [typeAt_of_mem htiling hmem hx (by rw [hlimit]; omega), htype]

theorem typeAt_next (hx : limit ≤ x) (hlt : x < newLimit next limit) : typeAt rs x = some type := by
  cases next with
  | none => exact absurd hx (Nat.not_le_of_lt hlt)
  | some q =>
    obtain ⟨haligned,htype⟩ := h.nextJoins q rfl
    obtain ⟨-,-,-,⟨hbase,-,-⟩,-⟩ := h.tilings htiling
    have hmem : q ∈ rs := by
      rw [h.ranges]
      simp
    rw [typeAt_of_mem htiling hmem (by omega) hlt, htype]

theorem typeAt_edited_limit (hlt : base < limit) (hright : limit < last.limit) :
    typeAt (pre ++ (newRanges prev first last next base limit type rightType ++ post)) limit =
      some rightType := by
  have hnext : newLimit next limit = limit := by
    rw [h.next_eq_none hright]
    rfl
  have hmem : (⟨limit, last.limit-limit, rightType⟩ : MtrrMemoryRange) ∈
      pre ++ (newRanges prev first last next base limit type rightType ++ post) := by
    have hr : last.limit-limit ≠ 0 := by omega
    simp [newRanges, rightPiece, hr, hnext]
  exact typeAt_of_mem (h.tiling_edited htiling hlt _) hmem le_rfl (by
    show limit < limit + (last.limit-limit)
    omega)

theorem typeAt_edited (hlt : base < limit)
    (hright : limit < last.limit → rightType = last.type) (x : Nat) :
    typeAt (pre ++ (newRanges prev first last next base limit type rightType ++ post)) x =
      if base ≤ x ∧ x < limit then some type else typeAt rs x := by
  obtain ⟨hpre,-,-,-,hpost⟩ := h.tilings htiling
  have hnew := h.tiling_newRanges htiling hlt rightType
  have hedited := h.tiling_edited htiling hlt rightType
  have hleftEnd := h.leftPiece_end
  have hrightStart := h.rightPiece_start
  have hnewBase := h.newBase_le htiling
  have hnewLimit := h.le_newLimit htiling
  have hfirst := h.firstHolds
  have hlast := h.lastHolds
  by_cases hout : x < newBase prev first.baseAddress ∨ newLimit next last.limit ≤ x
  · rw [typeAt_replace hpre (h.tiling_whole htiling) hnew hpost hout, ← h.ranges_whole, if_neg (by omega)]
  by_cases hinner : newBase prev base ≤ x ∧ x < newLimit next limit
  · have hmem : (⟨newBase prev base, newLimit next limit - newBase prev base, type⟩ :
        MtrrMemoryRange) ∈
        pre ++ (newRanges prev first last next base limit type rightType ++ post) := by
      simp [newRanges]
    rw [typeAt_of_mem hedited hmem hinner.1 (by
      show x < newBase prev base + (newLimit next limit - newBase prev base)
      omega)]
    by_cases hin : base ≤ x ∧ x < limit
    · rw [if_pos hin]
    rw [if_neg hin]
    by_cases hbefore : x < base
    · rw [h.typeAt_previous htiling hinner.1 hbefore]
    · rw [h.typeAt_next htiling (by omega) hinner.2]
  · rw [if_neg (by omega)]
    by_cases hbefore : x < newBase prev base
    · -- the left piece has the type of the first range
      obtain rfl : prev = none := by
        cases prev with
        | none => rfl
        | some q =>
          have : newBase (some q) first.baseAddress = newBase (some q) base := rfl
          omega
      have hlow : first.baseAddress ≤ x := Nat.le_of_not_lt fun hx => hout (.inl hx)
      have hl : base-first.baseAddress ≠ 0 := by omega
      have hmem : (⟨first.baseAddress, base-first.baseAddress, first.type⟩ : MtrrMemoryRange) ∈
          pre ++ (newRanges none first last next base limit type rightType ++ post) := by
        simp [newRanges, leftPiece, hl]
      rw [typeAt_of_mem hedited hmem hlow (by
        show x < first.baseAddress + (base-first.baseAddress)
        omega), h.typeAt_first htiling hlow (by omega)]
    · obtain rfl : next = none := by
        cases next with
        | none => rfl
        | some q =>
          have : newLimit (some q) last.limit = newLimit (some q) limit := rfl
          omega
      have hhigh : x < last.limit := Nat.lt_of_not_le fun hx => hout (.inr hx)
      have hlow : limit ≤ x := Nat.le_of_not_lt fun hx => hinner ⟨Nat.le_of_not_lt hbefore, hx⟩
      have hr : last.limit-limit ≠ 0 := by omega
      have hmem : (⟨limit, last.limit-limit, rightType⟩ : MtrrMemoryRange) ∈
          pre ++ (newRanges prev first last none base limit type rightType ++ post) := by
        simp [newRanges, rightPiece, hr, newLimit]
      rw [typeAt_of_mem hedited hmem hlow (by
        show x < limit + (last.limit-limit)
        omega), hright (by omega), h.typeAt_last htiling (by omega) hhigh]

end

theorem joined_parts (hjoined : Joined rs) :
    Joined pre ∧ Joined post ∧ (∀ q ∈ pre.getLast?, q.type ≠ (prev.getD first).type) ∧
      ∀ q ∈ post.head?, (next.getD last).type ≠ q.type := by
  rw [h.ranges_whole, Joined, isChain_append] at hjoined
  obtain ⟨hpre,hrest,hfirst⟩ := hjoined
  obtain ⟨-,hpost,hlast⟩ := isChain_append.mp hrest
  refine ⟨hpre, hpost, fun q hq => hfirst q hq _ ?_, fun q hq => hlast _ ?_ q hq⟩
  · rw [head?_append, h.head_whole]
    rfl
  · rw [h.getLast_whole]
    rfl

theorem joined_edited (hjoined : Joined rs) (hright : limit < last.limit → rightType = last.type) :
    Joined (pre ++ (newRanges prev first last next base limit type rightType ++ post)) ↔
      (first.baseAddress < base → first.type ≠ type) ∧ (limit < last.limit → last.type ≠ type) := by
  obtain ⟨hpre,hpost,hbefore,hafter⟩ := h.joined_parts hjoined
  have hnewBefore : first.baseAddress = base → ∀ q ∈ pre.getLast?, q.type ≠ type := by
    intro haligned q hq
    cases hprevious : prev with
    | none => exact h.noPrevious hprevious haligned q hq
    | some p =>
      have := hbefore q hq
      rw [hprevious, Option.getD_some, (h.previousJoins p hprevious).2] at this
      exact this
  have hnewAfter : last.limit = limit → ∀ q ∈ post.head?, type ≠ q.type := by
    intro haligned q hq
    cases hnext : next with
    | none => exact (h.noNext hnext haligned q hq).symm
    | some p =>
      have := hafter q hq
      rw [hnext, Option.getD_some, (h.nextJoins p hnext).2] at this
      exact this
  have hfirst := h.firstHolds.1
  have hlast := h.lastHolds.2
  have hfirstPiece : first.baseAddress ≠ base → prev.getD first = first := by
    intro hne
    cases hprevious : prev with
    | none => rfl
    | some p => exact absurd (h.previousJoins p hprevious).1 hne
  have hlastPiece : last.limit ≠ limit → next.getD last = last := by
    intro hne
    cases hnext : next with
    | none => rfl
    | some p => exact absurd (h.nextJoins p hnext).1 hne
  by_cases hl : first.baseAddress = base
  · by_cases hr : last.limit = limit
    · simp [Joined, newRanges, leftPiece, rightPiece, hl, hr, isChain_append, isChain_cons]
      exact ⟨hpre, ⟨hnewAfter hr, hpost⟩, hnewBefore hl⟩
    have hrlt : limit < last.limit := by omega
    have hr0 : last.limit-limit ≠ 0 := by omega
    rw [hlastPiece hr] at hafter
    simp [Joined, newRanges, leftPiece, rightPiece, hl, hr0, hrlt, hright hrlt,
      isChain_append, isChain_cons]
    exact ⟨fun hnew heq => hnew.2.1.1 heq.symm,
      fun hne => ⟨hpre, ⟨fun heq => hne heq.symm, hafter, hpost⟩, hnewBefore hl⟩⟩
  · have hllt : first.baseAddress < base := by omega
    have hl0 : base-first.baseAddress ≠ 0 := by omega
    rw [hfirstPiece hl] at hbefore
    by_cases hr : last.limit = limit
    · simp [Joined, newRanges, leftPiece, rightPiece, hl0, hllt, hr, hfirstPiece hl,
        isChain_append, isChain_cons]
      exact ⟨fun hnew => hnew.2.1.1, fun hne => ⟨hpre, ⟨hne, hnewAfter hr, hpost⟩, hbefore⟩⟩
    have hrlt : limit < last.limit := by omega
    have hr0 : last.limit-limit ≠ 0 := by omega
    rw [hlastPiece hr] at hafter
    simp [Joined, newRanges, leftPiece, rightPiece, hl0, hr0, hllt, hrlt, hright hrlt,
      hfirstPiece hl, isChain_append, isChain_cons]
    exact ⟨fun hnew => ⟨hnew.2.1.1, fun heq => hnew.2.1.2.1 heq.symm⟩,
      fun hne => ⟨hpre, ⟨hne.1, fun heq => hne.2 heq.symm, hafter, hpost⟩, hbefore⟩⟩

end

end Placed

section
variable (rs ranges : List MtrrMemoryRange) (a b capacity count base length limit : Nat)
  (type : MtrrMemoryCacheType)

def UpdatesPointwise : Option (EfiStatus × List MtrrMemoryRange × Nat) → Prop
  | some (.success, ranges', count') =>
    count' ≤ capacity ∧ Tiling a (ranges'.take count') b ∧ (∀ x, typeAt (ranges'.take count') x =
        if base ≤ x ∧ x < base+length then some type else typeAt (ranges.take count) x) ∧
      (Joined (ranges.take count) → Joined (ranges'.take count'))
  | some (.alreadyStarted, ranges', count') =>
    ranges' = ranges ∧ count' = count ∧
      ∀ x, base ≤ x → x < base+length → typeAt (ranges.take count) x = some type
  | some (.outOfResources, ranges', count') =>
    ranges' = ranges ∧ count' = count ∧
      -- with more room the call gives an array with more ranges than fit
      ∃ more ranges'' count'', mtrrLibSetMemoryType (ranges ++ more) (capacity+more.length)
        count base length type = some (.success, ranges'', count'') ∧ capacity < count''
  | _ => False

def Cut : Prop := ∃ r ∈ rs, r.baseAddress < limit ∧ limit < r.limit

def swallowed : List MtrrMemoryRange :=
  rs.filter fun r => base ≤ r.baseAddress ∧ r.limit ≤ limit ∨ r.limit = base ∧ r.type = type

def behind : List MtrrMemoryRange := rs.filter fun r => limit ≤ r.baseAddress

def Displaced : Prop := Cut rs limit ∧ 2 ≤ (swallowed rs base limit type).length ∧
    ∃ r ∈ (behind rs limit)[(swallowed rs base limit type).length - 2]?, typeAt rs (limit-1) ≠ some r.type

def Unjoined : Prop := Joined rs ∧ (¬ ∃ r ∈ rs, r.baseAddress ≤ base ∧ limit ≤ r.limit) ∧
    (Cut rs base ∧ typeAt rs base = some type ∨ Cut rs limit ∧ typeAt rs (limit-1) = some type) ∧
    (swallowed rs base limit type ≠ [] ∨ rs.length < capacity)

def ReachesTop : Prop := ∃ r ∈ rs, r.limit = 2^64 ∧ (r.baseAddress < limit ∨
    r.baseAddress = limit ∧ r.type = type ∧
      (¬ ∃ q ∈ rs, q.baseAddress ≤ base ∧ limit ≤ q.limit ∧ q.type = type) ∧
      (base = 0 ∨ ∃ q ∈ rs, q.baseAddress = 0 ∧ q.limit = base ∧ q.type = type))

instance : Decidable (Cut rs limit) := inferInstanceAs (Decidable (∃ r ∈ rs, _ ∧ _))

instance : Decidable (Displaced rs base limit type) :=
  inferInstanceAs (Decidable (_ ∧ _ ∧ ∃ r ∈ (behind rs limit)[_]?, _))

instance : Decidable (Unjoined rs capacity base limit type) :=
  inferInstanceAs (Decidable (_ ∧ (¬ ∃ r ∈ rs, _ ∧ _) ∧ (_ ∧ _ ∨ _ ∧ _) ∧ (_ ∨ _)))

instance : Decidable (ReachesTop rs base limit type) :=
  inferInstanceAs (Decidable (∃ r ∈ rs, _ ∧ (_ ∨ _ ∧ _ ∧ (¬ ∃ q ∈ rs, _) ∧ (_ ∨ ∃ q ∈ rs, _))))

end

namespace Placed

section
variable {a b base limit capacity : Nat} {type : MtrrMemoryCacheType}
  {rs pre mid post : List MtrrMemoryRange} {r : MtrrMemoryRange}
  {prev next : Option MtrrMemoryRange} {first last : MtrrMemoryRange}
  (h : Placed rs base limit type pre prev mid next post first last)
include h

section
variable (htiling : Tiling a rs b)
include htiling

theorem cases_mid (hr : r ∈ mid) :
    (r = first ∨ first.limit ≤ r.baseAddress) ∧ (r = last ∨ r.limit ≤ last.baseAddress) := by
  obtain ⟨-,-,hmid,-,-⟩ := h.tilings htiling
  obtain ⟨rfl,rfl⟩ | ⟨between,rfl⟩ := h.replaced
  · have := mem_singleton.mp hr
    exact ⟨.inl this, .inl this⟩
  obtain ⟨-,-,hrest⟩ := hmid
  obtain ⟨c,hbetween,hlast,-,-⟩ := tiling_append.mp hrest
  have hle := hbetween.le
  rcases mem_cons.mp hr with rfl | hr
  · exact ⟨.inl rfl, .inr (by omega)⟩
  rcases mem_append.mp hr with hr | hr
  · have := hbetween.bounds_of_mem hr
    exact ⟨.inr (by omega), .inr (by omega)⟩
  · obtain rfl := mem_singleton.mp hr
    exact ⟨.inr (by omega), .inl rfl⟩

theorem first_le_last : first.baseAddress ≤ last.baseAddress ∧ first.limit ≤ last.limit := by
  obtain ⟨-,-,hmid,-,-⟩ := h.tilings htiling
  exact ⟨(hmid.bounds_of_mem (mem_of_getLast? h.getLast_mid)).1,
    (hmid.bounds_of_mem (mem_of_mem_head? h.head_mid)).2.2⟩

/-- Before the first replaced range, among them, or behind the last one. -/
theorem cases_parts (hr : r ∈ rs) : (r ∈ pre ∨ prev = some r) ∧ r.limit ≤ first.baseAddress ∨ r ∈ mid ∨
    r ∈ next.toList ++ post ∧ last.limit ≤ r.baseAddress := by
  obtain ⟨hpre,hprevious,-,hnext,hpost⟩ := h.tilings htiling
  have hback := tiling_append.mpr ⟨_, hnext, hpost⟩
  have hle := hprevious.le
  rw [h.ranges] at hr
  rcases mem_append.mp hr with hr | hr
  · have := hpre.bounds_of_mem hr
    exact .inl ⟨.inl hr, by omega⟩
  rcases mem_append.mp hr with hr | hr
  · exact .inl ⟨.inr (Option.mem_toList.mp hr), (hprevious.bounds_of_mem hr).2.2⟩
  · rcases mem_append.mp hr with hr | hr
    · exact .inr (.inl hr)
    · exact .inr (.inr ⟨hr, (hback.bounds_of_mem hr).1⟩)

theorem cases_mem (hr : r ∈ rs) : r.limit ≤ first.baseAddress ∨ r ∈ mid ∨ last.limit ≤ r.baseAddress :=
  (h.cases_parts htiling hr).imp And.right (Or.imp_right And.right)

theorem cut_base_iff : Cut rs base ↔ first.baseAddress < base := by
  have hfirst := h.firstHolds
  have hle := h.first_le_last htiling
  constructor
  · intro hcut
    obtain ⟨r,hr,hlow,hhigh⟩ := hcut
    rcases h.cases_mem htiling hr with hr | hr | hr
    · omega
    · rcases (h.cases_mid htiling hr).1 with rfl | hr
      · exact hlow
      · omega
    · omega
  · intro hlt
    exact ⟨first, h.first_mem, hlt, hfirst.2⟩

theorem cut_limit_iff : Cut rs limit ↔ limit < last.limit := by
  have hlast := h.lastHolds
  have hle := h.first_le_last htiling
  constructor
  · intro hcut
    obtain ⟨r,hr,hlow,hhigh⟩ := hcut
    rcases h.cases_mem htiling hr with hr | hr | hr
    · omega
    · rcases (h.cases_mid htiling hr).2 with rfl | hr
      · exact hhigh
      · omega
    · omega
  · intro hlt
    exact ⟨last, h.last_mem, hlast.1, hlt⟩

theorem not_joined_of_mem_pre (hr : r ∈ pre) : r.limit ≤ base ∧ (r.limit = base → r.type ≠ type) := by
  obtain ⟨hpre,hprevious,-,-,-⟩ := h.tilings htiling
  have hfirst := h.firstHolds.1
  have hle := hprevious.le
  have hbounds := hpre.bounds_of_mem hr
  refine ⟨by omega, fun heq => ?_⟩
  cases hprev : prev with
  | none =>
    subst hprev
    have haligned : first.baseAddress = base := by omega
    exact h.noPrevious rfl haligned r (hpre.mem_getLast? hr (by omega))
  | some q =>
    subst hprev
    have hqlen : 0 < q.length := hprevious.2.1
    have hqlimit : q.limit = first.baseAddress := hprevious.2.2
    have hstart : newBase (some q) first.baseAddress = q.baseAddress := rfl
    have : q.limit = q.baseAddress+q.length := rfl
    omega

theorem swallowed_eq (hlt : base < limit) : swallowed rs base limit type =
      prev.toList ++ mid.filter fun r => base ≤ r.baseAddress ∧ r.limit ≤ limit := by
  obtain ⟨hpre,hprevious,hmid,hnext,hpost⟩ := h.tilings htiling
  have hfirst := h.firstHolds
  have hlast := h.lastHolds
  have hnextLe := hnext.le
  have hbefore : swallowed pre base limit type = [] := filter_eq_nil_iff.mpr fun r hr => by
    have hjoin := h.not_joined_of_mem_pre htiling hr
    have := hpre.bounds_of_mem hr
    rw [decide_eq_true_eq]
    rintro (hin | hin)
    · omega
    · exact hjoin.2 hin.1 hin.2
  have hjoined : swallowed prev.toList base limit type = prev.toList :=
    filter_eq_self.mpr fun q hq => by
      obtain rfl : prev = some q := by simpa using hq
      obtain ⟨haligned,htype⟩ := h.previousJoins q rfl
      rw [decide_eq_true_eq]
      exact .inr ⟨hprevious.2.2.trans haligned, htype⟩
  have hinner : swallowed mid base limit type =
      mid.filter fun r => base ≤ r.baseAddress ∧ r.limit ≤ limit := filter_congr fun r hr => by
    have hbounds := hmid.bounds_of_mem hr
    have hne : r.limit ≠ base := by
      rcases (h.cases_mid htiling hr).1 with rfl | hr
      · omega
      · omega
    simp [hne]
  have hafter : ∀ xs : List MtrrMemoryRange, (∀ r ∈ xs, limit ≤ r.baseAddress ∧
      r.baseAddress < r.limit) → swallowed xs base limit type = [] :=
    fun xs hxs => filter_eq_nil_iff.mpr fun r hr => by
      have := hxs r hr
      rw [decide_eq_true_eq]
      omega
  have happend : ∀ xs ys : List MtrrMemoryRange, swallowed (xs ++ ys) base limit type =
      swallowed xs base limit type ++ swallowed ys base limit type := fun xs ys => filter_append xs ys
  rw [h.ranges, happend, happend, happend, happend, hbefore, hjoined, hinner, hafter _ (fun r hr => by
      have := hnext.bounds_of_mem hr
      omega), hafter _ (fun r hr => by
      have := hpost.bounds_of_mem hr
      omega)]
  simp

theorem behind_eq (hcut : limit < last.limit) : behind rs limit = post := by
  obtain ⟨hpre,hprevious,hmid,-,hpost⟩ := h.tilings htiling
  have hlast := h.lastHolds
  have hfirst := (h.first_le_last htiling).1
  obtain rfl := h.next_eq_none hcut
  have hle := hprevious.le
  have hfront : ∀ r ∈ pre ++ (prev.toList ++ mid), ¬ limit ≤ r.baseAddress := fun r hr => by
    rcases mem_append.mp hr with hr | hr
    · have := hpre.bounds_of_mem hr
      omega
    rcases mem_append.mp hr with hr | hr
    · have := hprevious.bounds_of_mem hr
      omega
    have hbounds := hmid.bounds_of_mem hr
    rcases (h.cases_mid htiling hr).2 with rfl | hr
    · omega
    · omega
  have hback : ∀ r ∈ post, limit ≤ r.baseAddress := fun r hr => by
    have := (hpost.bounds_of_mem hr).1
    have : newLimit none last.limit = last.limit := rfl
    omega
  have hrs : rs = (pre ++ (prev.toList ++ mid)) ++ post := by
    rw [h.ranges]
    simp
  rw [behind, hrs, filter_append, filter_eq_nil_iff.mpr (fun r hr => by simpa using hfront r hr),
    filter_eq_self.mpr (fun r hr => by simpa using hback r hr)]
  rfl

theorem length_swallowed (hlt : base < limit) :
    (swallowed rs base limit type).length + (if first.baseAddress < base then 1 else 0) +
        (if limit < last.limit then 1 else 0) = prev.toList.length+mid.length ∨
      mid = [first] ∧ first = last ∧ first.baseAddress < base ∧ limit < last.limit ∧
        swallowed rs base limit type = [] := by
  have hfirst := h.firstHolds
  have hlast := h.lastHolds
  rw [h.swallowed_eq htiling hlt]
  obtain ⟨hmid,rfl⟩ | ⟨between,hmid⟩ := h.replaced
  · rw [hmid]
    by_cases hl : first.baseAddress < base <;> by_cases hr : limit < first.limit
    · obtain rfl := h.previous_eq_none hl
      right
      have : ¬ base ≤ first.baseAddress := by omega
      simp [hl, hr, this]
    · have : ¬ base ≤ first.baseAddress := by omega
      left
      simp [hl, hr, this]
    · have : ¬ first.limit ≤ limit := by omega
      left
      simp [hl, hr, this]
    · have : base ≤ first.baseAddress ∧ first.limit ≤ limit := by omega
      left
      simp [hl, hr, this]
  · left
    obtain ⟨-,-,hmidTiling,-,-⟩ := h.tilings htiling
    rw [hmid] at hmidTiling
    obtain ⟨-,-,hrest⟩ := hmidTiling
    obtain ⟨c,hbetween,hlastTiling⟩ := tiling_append.mp hrest
    have hc : last.baseAddress = c := hlastTiling.1
    have hle := hbetween.le
    have hall : between.filter (fun r => base ≤ r.baseAddress ∧ r.limit ≤ limit) = between :=
      filter_eq_self.mpr fun r hr => by
        have := hbetween.bounds_of_mem hr
        rw [decide_eq_true_eq]
        omega
    have hfirstIn : (base ≤ first.baseAddress ∧ first.limit ≤ limit) ↔ ¬ first.baseAddress < base := by omega
    have hlastIn : (base ≤ last.baseAddress ∧ last.limit ≤ limit) ↔ ¬ limit < last.limit := by omega
    rw [hmid, filter_cons, filter_append, hall, filter_singleton]
    simp only [hfirstIn, hlastIn, decide_not]
    by_cases hl : first.baseAddress < base <;> by_cases hr : limit < last.limit <;>
      simp [hl, hr] <;> omega

theorem exists_holds_iff :
    (∃ r ∈ rs, r.baseAddress ≤ base ∧ limit ≤ r.limit) ↔ mid = [first] ∧ first = last := by
  have hfirst := h.firstHolds
  have hlast := h.lastHolds
  constructor
  · intro hholds
    obtain ⟨r,hr,hlow,hhigh⟩ := hholds
    rcases h.replaced with hone | ⟨between,hmid⟩
    · exact hone
    exfalso
    obtain ⟨-,-,hmidTiling,-,-⟩ := h.tilings htiling
    rw [hmid] at hmidTiling
    obtain ⟨c,hbetween,hlastTiling⟩ := tiling_append.mp hmidTiling.2.2
    have hc : last.baseAddress = c := hlastTiling.1
    have hbetweenLe := hbetween.le
    rcases h.cases_mem htiling hr with hr | hr | hr
    · omega
    · obtain ⟨rfl | hr1,rfl | hr2⟩ := h.cases_mid htiling hr <;> omega
    · omega
  · intro hone
    obtain ⟨-,rfl⟩ := hone
    exact ⟨first, h.first_mem, hfirst.1, hlast.2⟩

end

omit h in
theorem pieces_eq : pieces (base-first.baseAddress) (last.limit-limit) =
    1 + (if first.baseAddress < base then 1 else 0) + (if limit < last.limit then 1 else 0) := by
  have hl : base-first.baseAddress ≠ 0 ↔ first.baseAddress < base := by omega
  have hr : last.limit-limit ≠ 0 ↔ limit < last.limit := by omega
  simp only [pieces, hl, hr]

theorem displaced_iff (htiling : Tiling a rs b) (hlt : base < limit) :
    Displaced rs base limit type ↔ limit < last.limit ∧
      (afterCopy (pieces (base-first.baseAddress) (last.limit-limit))
        (whole prev mid next) post (next.getD last)).type ≠ last.type := by
  rw [Displaced, h.cut_limit_iff htiling, and_congr_right_iff]
  intro hcut
  have hlast := h.lastHolds
  have hnext := h.next_eq_none hcut
  have htype : typeAt rs (limit-1) = some last.type := h.typeAt_last htiling (by omega) (by omega)
  rw [h.behind_eq htiling hcut, htype, pieces_eq, if_pos hcut, hnext, Option.getD_none, afterCopy]
  have hwhole : (whole prev mid none).length = prev.toList.length+mid.length := by simp [whole]
  rcases h.length_swallowed htiling hlt with hnumber | ⟨hmid,-,hcutBase,-,hnone⟩
  · rw [if_pos hcut] at hnumber
    by_cases htwo : 2 ≤ (swallowed rs base limit type).length
    · rw [if_pos (by omega), hwhole, show prev.toList.length+mid.length-1 -
        (1 + (if first.baseAddress < base then 1 else 0) + 1) =
          (swallowed rs base limit type).length - 2 by omega]
      simp only [htwo, true_and, Option.mem_def]
      cases hpost : post[(swallowed rs base limit type).length - 2]? with
      | none => simp
      | some r => simp [eq_comm]
    · rw [if_neg (by omega)]
      simp [htwo]
  · rw [hnone, hwhole, hmid, h.previous_eq_none hcutBase]
    simp

theorem length_eq : rs.length = pre.length + (whole prev mid next).length + post.length := by
  rw [h.ranges_whole]
  simp
  omega

theorem unjoined_iff (htiling : Tiling a rs b) (hlt : base < limit) (hcapacity : rs.length ≤ capacity)
    (hstarted : ¬ (mid.length = 1 ∧ first.type = type)) : Unjoined rs capacity base limit type ↔ Joined rs ∧
      (first.baseAddress < base ∧ first.type = type ∨ limit < last.limit ∧ last.type = type) ∧
      pre.length + pieces (base-first.baseAddress) (last.limit-limit) + post.length ≤ capacity := by
  have hfirst := h.firstHolds
  have hlast := h.lastHolds
  have hfirstType : typeAt rs base = some first.type := h.typeAt_first htiling hfirst.1 hfirst.2
  have hlastType : typeAt rs (limit-1) = some last.type := h.typeAt_last htiling (by omega) (by omega)
  rw [Unjoined, h.cut_base_iff htiling, h.cut_limit_iff htiling, hfirstType, hlastType,
    h.exists_holds_iff htiling]
  simp only [Option.some.injEq]
  have hlength := h.length_eq
  have hwhole : (whole prev mid next).length = prev.toList.length+mid.length+next.toList.length := by
    simp [whole]
    omega
  have hnext : limit < last.limit → next.toList.length = 0 := fun hcut => by
    rw [h.next_eq_none hcut]
    rfl
  have hnumber := @pieces_eq base limit first last
  constructor
  · rintro ⟨hjoined,hmany,hcuts,hroom⟩
    refine ⟨hjoined, hcuts, ?_⟩
    rcases h.length_swallowed htiling hlt with hswallowed | ⟨hmid,heq,-⟩
    · rcases hroom with hroom | hroom
      · have := length_pos_of_ne_nil hroom
        omega
      · omega
    · exact absurd ⟨hmid, heq⟩ hmany
  · rintro ⟨hjoined,hcuts,hroom⟩
    have hmany : ¬ (mid = [first] ∧ first = last) := fun hone => by
      obtain ⟨hmid,rfl⟩ := hone
      refine hstarted ⟨by rw [hmid]; rfl, ?_⟩
      rcases hcuts with hcut | hcut
      · exact hcut.2
      · exact hcut.2
    refine ⟨hjoined, hmany, hcuts, ?_⟩
    by_contra hnone
    rw [not_or, not_not] at hnone
    have hmid : 2 ≤ mid.length := by
      obtain hone | ⟨between,hmid⟩ := h.replaced
      · exact absurd hone hmany
      · rw [hmid]
        simp
    rcases h.length_swallowed htiling hlt with hswallowed | ⟨hone,heq,-⟩
    · rw [hnone.1, length_nil] at hswallowed
      by_cases hcut : limit < last.limit
      · have := hnext hcut
        omega
      · rw [if_neg hcut] at hswallowed
        split at hswallowed <;> omega
    · exact hmany ⟨hone, heq⟩

end

end Placed

namespace Placed

section
variable {a b base limit capacity : Nat} {type : MtrrMemoryCacheType}
  {rs pre mid post : List MtrrMemoryRange}
  {previous next : Option MtrrMemoryRange} {first last : MtrrMemoryRange}
  (h : Placed rs base limit type pre previous mid next post first last)
include h

theorem mtrrLibSetMemoryType_top (htiling : Tiling a rs b) (hb : b ≤ 2^64) (hlt : base < limit)
    (htop : last.limit = 2^64) (spare : List MtrrMemoryRange) (capacity : Nat) :
    mtrrLibSetMemoryType (rs ++ spare) capacity rs.length base (limit-base) type = none := by
  have hlast := h.lastHolds
  have hbounds := htiling.bounds_of_mem h.last_mem
  obtain rfl : b = 2^64 := by omega
  have hend := findEnds_top rs.length base (limit-base) htiling h.last_mem htop (by omega)
    (by omega)
  have htake : (rs ++ spare).take rs.length = rs := take_left' rfl
  simp only [mtrrLibSetMemoryType, htake, hend, or_true, if_true]

def rightType (previous : Option MtrrMemoryRange) (mid : List MtrrMemoryRange)
    (next : Option MtrrMemoryRange) (post : List MtrrMemoryRange) (first last : MtrrMemoryRange)
    (base limit : Nat) : MtrrMemoryCacheType :=
  (afterCopy (pieces (base - first.baseAddress) (last.limit - limit)) (whole previous mid next) post
    (next.getD last)).type

theorem length_whole_pos : 0 < (whole previous mid next).length := by
  have := h.length_mid_pos
  simp [whole]
  omega

/-- The call behind its early return, with the length of the new range as it fits a UINT64. -/
theorem mtrrLibSetMemoryType_replaced {spare : List MtrrMemoryRange} {capacity length : Nat}
    (htiling : Tiling a rs b) (hlt : base < limit) (hword : last.limit < 2^64)
    (hstarted : ¬ (mid.length = 1 ∧ first.type = type))
    (hcount : rs.length ≤ capacity) (hcapacity : capacity ≤ (rs ++ spare).length)
    (hsmall : capacity < 2^60)
    (hlength : toUint64 (newLimit next limit - newBase previous base) = length)
    (hright : last.limit-limit ≠ 0 → newBase previous base + length < 2^64)
    {new : List MtrrMemoryRange} (hnew : replacement (whole previous mid next) post
      (previous.getD first) (next.getD last) (base - first.baseAddress) (last.limit - limit)
      (newBase previous base) length type = new) :
    ∃ rest, mtrrLibSetMemoryType (rs ++ spare) capacity rs.length base (limit-base) type =
      if pre.length + pieces (base-first.baseAddress) (last.limit-limit) + post.length >
        capacity then some (.outOfResources, rs ++ spare, rs.length)
      else some (.success, (pre ++ (new ++ post)) ++ rest, (pre ++ (new ++ post)).length) := by
  have hbuffer : rs ++ spare = pre ++ (whole previous mid next ++ (post ++ spare)) := by
    rw [h.ranges_whole]
    simp
  have hedit := replaceRanges_eq pre post spare (base-first.baseAddress) (last.limit-limit)
    (newBase previous base) length type h.head_whole h.getLast_whole (by
      rw [← h.ranges_whole]
      exact hcount) (by
      rw [← hbuffer]
      exact hcapacity) hsmall hright
  have hnumber := length_replacement (whole previous mid next) post (previous.getD first)
    (next.getD last) (base - first.baseAddress) (last.limit - limit) (newBase previous base) length type
  rw [← hbuffer, ← h.ranges_whole, hnew] at hedit
  rw [hnew] at hnumber
  rw [h.mtrrLibSetMemoryType_eq htiling hlt hword, if_neg hstarted, hlength, hedit]
  refine ⟨(whole previous mid next ++ (post ++ spare)).drop
    (pieces (base-first.baseAddress) (last.limit-limit) + post.length), ?_⟩
  rw [length_append, length_append, hnumber, add_assoc]
  simp only [append_assoc]

theorem mtrrLibSetMemoryType_edited (spare : List MtrrMemoryRange) (capacity : Nat)
    (htiling : Tiling a rs b) (hlt : base < limit)
    (hword : last.limit < 2^64) (hfits : newLimit next limit - newBase previous base < 2^64)
    (hstarted : ¬ (mid.length = 1 ∧ first.type = type))
    (hcount : rs.length ≤ capacity) (hcapacity : capacity ≤ (rs ++ spare).length)
    (hsmall : capacity < 2^60) :
    ∃ rest, mtrrLibSetMemoryType (rs ++ spare) capacity rs.length base (limit-base) type =
      if pre.length + pieces (base-first.baseAddress) (last.limit-limit) + post.length >
        capacity then some (.outOfResources, rs ++ spare, rs.length)
      else some (.success, (pre ++ (newRanges previous first last next base limit type
          (rightType previous mid next post first last base limit) ++ post)) ++ rest,
        (pre ++ (newRanges previous first last next base limit type
          (rightType previous mid next post first last base limit) ++ post)).length) := by
  have hnewBase := h.newBase_le htiling
  have hnewLimit := h.le_newLimit htiling
  have hspan : newBase previous base + (newLimit next limit - newBase previous base) =
      newLimit next limit := Nat.add_sub_cancel' (by omega)
  refine h.mtrrLibSetMemoryType_replaced htiling hlt hword hstarted hcount hcapacity hsmall
    (toUint64_of_lt hfits) (fun hr => ?_) ?_
  · have hnext : newLimit next limit = limit := by
      rw [h.next_eq_none (by omega)]
      rfl
    omega
  · rw [replacement, newRanges, hspan]
    rfl

theorem mtrrLibSetMemoryType_wrapped (htiling : Tiling a rs b) (hb : b ≤ 2^64)
    (hlt : base < limit) (hword : last.limit < 2^64)
    (hlong : 2^64 ≤ newLimit next limit - newBase previous base)
    (hstarted : ¬ (mid.length = 1 ∧ first.type = type)) {spare : List MtrrMemoryRange}
    (hcount : rs.length ≤ capacity) (hcapacity : capacity ≤ (rs ++ spare).length)
    (hsmall : capacity < 2^60) :
    ∃ ranges rest, mtrrLibSetMemoryType (rs ++ spare) capacity rs.length base (limit-base) type =
      some (.success, ranges ++ rest, ranges.length) ∧ ∃ r ∈ ranges, r.length = 0 := by
  obtain ⟨-,-,-,-,hpost⟩ := h.tilings htiling
  have hpostLe := hpost.le
  have hnewLe : newLimit next limit ≤ newLimit next last.limit := by
    have := h.rightPiece_start
    omega
  have hlength : toUint64 (newLimit next limit - newBase previous base) = 0 := by
    rw [show newLimit next limit - newBase previous base = 2^64 by omega]
    rfl
  have hnext : next ≠ none := by
    rintro rfl
    have : newLimit none limit = limit := rfl
    have := h.lastHolds
    omega
  have hright : ¬ limit < last.limit := fun hcut => hnext (h.next_eq_none hcut)
  have hleft : ¬ first.baseAddress < base := fun hcut => by
    have : newBase none base = base := rfl
    rw [h.previous_eq_none hcut] at hlong
    omega
  have hnumber := @pieces_eq base limit first last
  rw [if_neg hright, if_neg hleft] at hnumber
  obtain ⟨rest,hcall⟩ := h.mtrrLibSetMemoryType_replaced htiling hlt hword hstarted hcount hcapacity
    hsmall hlength (fun hr => absurd hr (by omega)) rfl
  have hroom : ¬ pre.length + pieces (base-first.baseAddress) (last.limit-limit) +
      post.length > capacity := by
    have := h.length_eq
    have := h.length_whole_pos
    omega
  rw [if_neg hroom] at hcall
  exact ⟨_, rest, hcall, ⟨newBase previous base, 0, type⟩, by simp [replacement], rfl⟩

end

end Placed

section
variable {a b base limit capacity : Nat} {type : MtrrMemoryCacheType}
  {rs pre mid post : List MtrrMemoryRange}
  {prev next : Option MtrrMemoryRange} {first last : MtrrMemoryRange}
  (h : Placed rs base limit type pre prev mid next post first last)
include h

theorem Placed.eq_next {r : MtrrMemoryRange} (htiling : Tiling a rs b)
    (hr : r ∈ rs) (hbase : r.baseAddress = limit) (htype : r.type = type) : next = some r := by
  obtain ⟨hpre,hprevious,hmid,hnext,hpost⟩ := h.tilings htiling
  have hlast := h.lastHolds
  have hbounds := htiling.bounds_of_mem hr
  have hle := h.first_le_last htiling
  have haligned : last.limit = limit := by
    rcases h.cases_mem htiling hr with hr | hr | hr
    · omega
    · rcases (h.cases_mid htiling hr).2 with rfl | hr <;> omega
    · omega
  have hback : r ∈ next.toList ++ post := by
    rcases h.cases_parts htiling hr with ⟨-,hr⟩ | hr | ⟨hr,-⟩
    · omega
    · have := hmid.bounds_of_mem hr
      omega
    · exact hr
  have hfront : ∀ q rest, next.toList ++ post = q :: rest → r = q := by
    intro q rest heq
    have hall : Tiling last.limit (q :: rest) b := by
      rw [← heq]
      exact tiling_append.mpr ⟨_, hnext, hpost⟩
    rw [heq] at hback
    rcases mem_cons.mp hback with rfl | hback
    · rfl
    have := hall.2.2.bounds_of_mem hback
    have hq := hall.2.1
    have : q.limit = q.baseAddress+q.length := rfl
    have := hall.1
    omega
  cases hn : next with
  | some q => rw [hfront q post (by rw [hn]; rfl)]
  | none =>
    exfalso
    cases hp : post with
    | nil =>
      rw [hn, hp] at hback
      cases hback
    | cons q rest =>
      have hq := hfront q rest (by rw [hn, hp]; rfl)
      exact h.noNext hn haligned q (by rw [hp]; rfl) (hq ▸ htype)

theorem Placed.eq_previous {q : MtrrMemoryRange} (htiling : Tiling a rs b)
    (hq : q ∈ rs) (hlimit : q.limit = base) (htype : q.type = type) : prev = some q := by
  have hfirst := h.firstHolds
  have hle := h.first_le_last htiling
  have hbounds := htiling.bounds_of_mem hq
  rcases h.cases_parts htiling hq with ⟨hq | hq,-⟩ | hq | ⟨-,hq⟩
  · exact absurd htype ((h.not_joined_of_mem_pre htiling hq).2 hlimit)
  · exact hq
  · rcases (h.cases_mid htiling hq).1 with rfl | hq <;> omega
  · omega

theorem Placed.reachesTop_iff (htiling : Tiling a rs b) (hb : b ≤ 2^64) (hlt : base < limit) :
    ReachesTop rs base limit type ↔ last.limit = 2^64 ∨
      2^64 ≤ newLimit next limit - newBase prev base ∧
        ¬ (mid.length = 1 ∧ first.type = type) := by
  have hfirst := h.firstHolds
  have hlast := h.lastHolds
  have hlastBounds := htiling.bounds_of_mem h.last_mem
  constructor
  · rintro ⟨r,hr,hrlimit,hrbase | ⟨hrbase,hrtype,hmany,hstart⟩⟩
    · left
      rcases h.cases_mem htiling hr with hr | hr | hr
      · omega
      · rcases (h.cases_mid htiling hr).2 with rfl | hr
        · exact hrlimit
        · omega
      · omega
    · right
      constructor
      · have hnext := h.eq_next htiling hr hrbase hrtype
        have hbase : newBase prev base = 0 := by
          rcases hstart with rfl | ⟨q,hq,hqbase,hqlimit,hqtype⟩
          · have := h.newBase_le htiling
            omega
          · rw [h.eq_previous htiling hq hqlimit hqtype]
            exact hqbase
        rw [hnext, hbase]
        exact le_of_eq hrlimit.symm
      · intro hone
        have hmid : mid = [first] ∧ first = last := by
          rcases h.replaced with hmid | ⟨between,hmid⟩
          · exact hmid
          · have := hone.1
            simp [hmid] at this
        exact hmany ⟨first, h.first_mem, hfirst.1, by rw [hmid.2]; exact hlast.2, hone.2⟩
  · rintro (htop | ⟨hlong,hone⟩)
    · exact ⟨last, h.last_mem, htop, .inl hlast.1⟩
    · obtain ⟨-,hprevious,-,hnext,hpost⟩ := h.tilings htiling
      have hpostLe := hpost.le
      have hnewLe := h.rightPiece_start
      cases hn : next with
      | none =>
        subst hn
        have : newLimit none limit = limit := rfl
        exact ⟨last, h.last_mem, by omega, .inl hlast.1⟩
      | some r =>
        subst hn
        obtain ⟨haligned,htype⟩ := h.nextJoins r rfl
        have hr : r ∈ rs := by
          rw [h.ranges]
          simp
        have hrlimit : newLimit (some r) limit = r.limit := rfl
        refine ⟨r, hr, by omega, .inr ⟨hnext.1.trans haligned, htype, ?_, ?_⟩⟩
        · rintro ⟨p,hp,hpbase,hplimit,hptype⟩
          obtain ⟨hmid,-⟩ := (h.exists_holds_iff htiling).mp ⟨p, hp, hpbase, hplimit⟩
          refine hone ⟨by rw [hmid]; rfl, ?_⟩
          rcases h.cases_mem htiling hp with hp | hp | hp
          · omega
          · rw [hmid, mem_singleton] at hp
            rw [← hp, hptype]
          · omega
        · cases hprev : prev with
          | none =>
            subst hprev
            have : newBase none base = base := rfl
            left
            omega
          | some q =>
            subst hprev
            obtain ⟨hqaligned,hqtype⟩ := h.previousJoins q rfl
            have hqbase : newBase (some q) base = q.baseAddress := rfl
            have hq : q ∈ rs := by
              rw [h.ranges]
              simp
            exact .inr ⟨q, hq, by omega, hprevious.2.2.trans hqaligned, hqtype⟩

theorem Placed.afterCopy_moved
    (hmoved : (afterCopy (pieces (base-first.baseAddress) (last.limit-limit))
      (whole prev mid next) post (next.getD last)).type ≠ last.type) (hcut : limit < last.limit) :
    pieces (base - first.baseAddress) (last.limit - limit) ≤ (whole prev mid next).length - 1 := by
  by_contra hnot
  rw [afterCopy, if_neg hnot, h.next_eq_none hcut] at hmoved
  exact hmoved rfl

theorem Placed.pointwise_started (capacity : Nat) (htiling : Tiling a rs b) (hb : b ≤ 2^64) (hlt : base < limit)
    (hword : last.limit < 2^64) (hstarted : mid.length = 1 ∧ first.type = type)
    (spare : List MtrrMemoryRange) :
    UpdatesPointwise (rs ++ spare) a b capacity rs.length base (limit-base) type
        (mtrrLibSetMemoryType (rs ++ spare) capacity rs.length base (limit-base) type) ∧
      ¬ ReachesTop rs base limit type ∧ ¬ Displaced rs base limit type ∧
        ¬ Unjoined rs capacity base limit type := by
  have hone : mid = [first] ∧ first = last := by
    rcases h.replaced with hone | ⟨between,hmid⟩
    · exact hone
    · have := hstarted.1
      simp [hmid] at this
  have hfirst := h.firstHolds
  have hlast := h.lastHolds
  refine ⟨?_, ?_, ?_, ?_⟩
  · rw [h.mtrrLibSetMemoryType_eq htiling hlt hword, if_pos hstarted]
    refine ⟨rfl, rfl, fun x hx hxlt => ?_⟩
    rw [take_left' rfl, ← hstarted.2]
    apply h.typeAt_first htiling
    · omega
    · rw [hone.2]
      omega
  · rw [h.reachesTop_iff htiling hb hlt]
    rintro (htop | ⟨-,hnot⟩)
    · omega
    · exact hnot hstarted
  · rw [h.displaced_iff htiling hlt]
    rintro ⟨hcut,hmoved⟩
    have hle := h.afterCopy_moved hmoved hcut
    rw [pieces_eq, if_pos hcut, h.next_eq_none hcut, whole, hone.1] at hle
    have : prev.toList.length ≤ 1 := by cases prev <;> simp
    simp at hle
    omega
  · rintro ⟨-,hnot,-⟩
    exact hnot ((h.exists_holds_iff htiling).mpr hone)

theorem Placed.pointwise_success_iff (htiling : Tiling a rs b) (hlt : base < limit)
    (rest ranges : List MtrrMemoryRange) (hranges : ranges.take rs.length = rs)
    (hstarted : ¬ (mid.length = 1 ∧ first.type = type)) (hcount : rs.length ≤ capacity)
    (hroom : pre.length + pieces (base-first.baseAddress) (last.limit-limit) + post.length ≤
      capacity) {edited : List MtrrMemoryRange}
    (hedited : edited = pre ++ (newRanges prev first last next base limit type
      (rightType prev mid next post first last base limit) ++ post))
    (hlength : edited.length ≤ capacity) :
    UpdatesPointwise ranges a b capacity rs.length base (limit-base) type
        (some (.success, edited ++ rest, edited.length)) ↔
      ¬ Displaced rs base limit type ∧ ¬ Unjoined rs capacity base limit type := by
  have hspan : base + (limit-base) = limit := by omega
  have htake : (edited ++ rest).take edited.length = edited := take_left' rfl
  have hlast := h.lastHolds
  have hdisplaced := h.displaced_iff htiling hlt
  have hunjoined := h.unjoined_iff htiling hlt hcount hstarted
  simp only [UpdatesPointwise, hranges, htake, hspan]
  by_cases hmoved : Displaced rs base limit type
  · obtain ⟨hcut,htype⟩ := hdisplaced.mp hmoved
    constructor
    · rintro ⟨-,-,htypes,-⟩
      have hat := htypes limit
      rw [hedited, h.typeAt_edited_limit htiling hlt hcut, if_neg (by omega),
        h.typeAt_last htiling (by omega) hcut, Option.some.injEq] at hat
      exact absurd hat htype
    · intro hnot
      exact absurd hmoved hnot.1
  · have hright : limit < last.limit →
        rightType prev mid next post first last base limit = last.type := fun hcut => by
      by_contra htype
      exact hmoved (hdisplaced.mpr ⟨hcut, htype⟩)
    constructor
    · rintro ⟨-,-,-,hjoin⟩
      refine ⟨hmoved, fun hnot => ?_⟩
      obtain ⟨hjoined,hcuts,-⟩ := hunjoined.mp hnot
      have hnew := hjoin hjoined
      rw [hedited, h.joined_edited hjoined hright] at hnew
      rcases hcuts with hcut | hcut
      · exact hnew.1 hcut.1 hcut.2
      · exact hnew.2 hcut.1 hcut.2
    · rintro ⟨-,hnot⟩
      refine ⟨hlength, hedited ▸ h.tiling_edited htiling hlt _, fun x => ?_, fun hjoined => ?_⟩
      · rw [hedited]
        exact h.typeAt_edited htiling hlt hright x
      · rw [hedited, h.joined_edited hjoined hright]
        exact ⟨fun hcut htype => hnot (hunjoined.mpr ⟨hjoined, .inl ⟨hcut, htype⟩, hroom⟩),
          fun hcut htype => hnot (hunjoined.mpr ⟨hjoined, .inr ⟨hcut, htype⟩, hroom⟩)⟩

theorem Placed.pointwise_outOfResources (htiling : Tiling a rs b) (hlt : base < limit)
    (hword : last.limit < 2^64) (hfits : newLimit next limit - newBase prev base < 2^64)
    (hstarted : ¬ (mid.length = 1 ∧ first.type = type)) {spare : List MtrrMemoryRange}
    (hcount : rs.length ≤ capacity) (hcapacity : capacity ≤ (rs ++ spare).length)
    (hsmall : capacity+2 < 2^60)
    (hroom : pre.length + pieces (base-first.baseAddress) (last.limit-limit) + post.length >
      capacity) :
    UpdatesPointwise (rs ++ spare) a b capacity rs.length base (limit-base) type
        (some (.outOfResources, rs ++ spare, rs.length)) ∧
      ¬ Displaced rs base limit type ∧ ¬ Unjoined rs capacity base limit type := by
  have hlength := h.length_eq
  have hpos := h.length_whole_pos
  have hnumber : pieces (base-first.baseAddress) (last.limit-limit) ≤ 3 := by
    rw [pieces_eq]
    split <;> split <;> omega
  refine ⟨⟨rfl, rfl, ?_⟩, ?_, ?_⟩
  · let more : List MtrrMemoryRange := [⟨0, 0, cacheUncacheable⟩, ⟨0, 0, cacheUncacheable⟩]
    obtain ⟨rest,hcall⟩ := h.mtrrLibSetMemoryType_edited (spare ++ more) (capacity+2) htiling hlt hword hfits hstarted (by omega) (by
        simp only [length_append] at hcapacity ⊢
        have : more.length = 2 := rfl
        omega) hsmall
    rw [if_neg (by omega), ← append_assoc] at hcall
    refine ⟨more, _, _, hcall, ?_⟩
    rw [length_append, length_append, length_newRanges]
    omega
  · intro hmoved
    obtain ⟨hcut,htype⟩ := (h.displaced_iff htiling hlt).mp hmoved
    have := h.afterCopy_moved htype hcut
    omega
  · intro hnot
    have := ((h.unjoined_iff htiling hlt hcount hstarted).mp hnot).2.2
    omega

theorem Placed.pointwise_iff (htiling : Tiling a rs b) (hb : b ≤ 2^64) (hlt : base < limit)
    {spare : List MtrrMemoryRange} (hcount : rs.length ≤ capacity)
    (hcapacity : capacity ≤ (rs ++ spare).length)
    (hmemory : (rs ++ spare).length * sizeOfMtrrMemoryRange ≤ 2^64) :
    UpdatesPointwise (rs ++ spare) a b capacity rs.length base (limit-base) type
        (mtrrLibSetMemoryType (rs ++ spare) capacity rs.length base (limit-base) type) ↔
      ¬ ReachesTop rs base limit type ∧ ¬ Displaced rs base limit type ∧
        ¬ Unjoined rs capacity base limit type := by
  have hlastBounds := htiling.bounds_of_mem h.last_mem
  have htop := h.reachesTop_iff htiling hb hlt
  have hsmall : capacity+2 < 2^60 := by
    rw [sizeOfMtrrMemoryRange] at hmemory
    omega
  by_cases hword : last.limit = 2^64
  · rw [h.mtrrLibSetMemoryType_top htiling hb hlt hword]
    exact ⟨False.elim, fun hnot => hnot.1 (htop.mpr (.inl hword))⟩
  by_cases hstarted : mid.length = 1 ∧ first.type = type
  · obtain ⟨hleft,hright⟩ := h.pointwise_started capacity htiling hb hlt (by omega)
      hstarted spare
    exact ⟨fun _ => hright, fun _ => hleft⟩
  by_cases hlong : 2^64 ≤ newLimit next limit - newBase prev base
  · obtain ⟨ranges,rest,hcall,r,hr,hzero⟩ := h.mtrrLibSetMemoryType_wrapped htiling hb hlt
      (by omega) hlong hstarted hcount hcapacity (by omega)
    rw [hcall]
    constructor
    · rintro ⟨-,hafter,-⟩
      rw [take_left' rfl] at hafter
      have := hafter.bounds_of_mem hr
      have : r.limit = r.baseAddress+r.length := rfl
      omega
    · intro hnot
      exact absurd (htop.mpr (.inr ⟨hlong, hstarted⟩)) hnot.1
  have hnotTop : ¬ ReachesTop rs base limit type := fun hreach =>
    (htop.mp hreach).elim hword fun hwrap => hlong hwrap.1
  obtain ⟨rest,hcall⟩ := h.mtrrLibSetMemoryType_edited spare capacity htiling hlt (by omega)
    (by omega) hstarted hcount hcapacity (by omega)
  rw [hcall]
  by_cases hroom : pre.length + pieces (base-first.baseAddress) (last.limit-limit) +
      post.length > capacity
  · rw [if_pos hroom]
    obtain ⟨hleft,hright⟩ := h.pointwise_outOfResources htiling hlt (by omega) (by omega) hstarted
      hcount hcapacity hsmall hroom
    exact ⟨fun _ => ⟨hnotTop, hright⟩, fun _ => hleft⟩
  rw [if_neg hroom, h.pointwise_success_iff htiling hlt rest (rs ++ spare) (take_left' rfl)
    hstarted hcount (by omega) rfl (by
      rw [length_append, length_append, length_newRanges]
      omega)]
  exact ⟨fun hright => ⟨hnotTop, hright⟩, fun hright => hright.2⟩

end

theorem exists_spare {ranges : List MtrrMemoryRange} {count : Nat} (h : count ≤ ranges.length) :
    ∃ rs spare, ranges = rs ++ spare ∧ rs.length = count :=
  ⟨ranges.take count, ranges.drop count, (take_append_drop count ranges).symm, length_take_of_le h⟩

/-- Exactly when the call leaves the array alone and says why, or updates the type of each
address. -/
theorem mtrrLibSetMemoryType_pointwise_iff {a b capacity count base length : Nat}
    {ranges : List MtrrMemoryRange} {type : MtrrMemoryCacheType}
    (hcount : count ≤ capacity) (hcapacity : capacity ≤ ranges.length)
    (hmemory : ranges.length*sizeOfMtrrMemoryRange ≤ 2^64)
    (htiling : Tiling a (ranges.take count) b) (hb : b ≤ 2^64)
    (hlength : 0 < length) (hbase : a ≤ base) (hlimit : base+length ≤ b) :
    UpdatesPointwise ranges a b capacity count base length type
        (mtrrLibSetMemoryType ranges capacity count base length type) ↔
      ¬ ReachesTop (ranges.take count) base (base+length) type ∧
        ¬ Displaced (ranges.take count) base (base+length) type ∧
        ¬ Unjoined (ranges.take count) capacity base (base+length) type := by
  obtain ⟨rs,spare,rfl,rfl⟩ := exists_spare (le_trans hcount hcapacity)
  rw [take_left' rfl] at htiling ⊢
  obtain ⟨pre,previous,mid,next,post,first,last,h⟩ :=
    exists_placed htiling hbase (by omega : base < base+length) hlimit type
  have hiff := h.pointwise_iff htiling hb (by omega) hcount hcapacity hmemory
  rwa [Nat.add_sub_cancel_left] at hiff

/-- A call on an array that ends below 2^64 gives an array that tiles the same addresses, and the
types of the request unless a range of another type is moved over the last one. -/
theorem mtrrLibSetMemoryType_types {a b capacity count base length : Nat}
    {ranges : List MtrrMemoryRange} (type : MtrrMemoryCacheType)
    (hcount : count ≤ capacity) (hcapacity : capacity ≤ ranges.length)
    (hmemory : ranges.length*sizeOfMtrrMemoryRange ≤ 2^64)
    (htiling : Tiling a (ranges.take count) b) (hb : b < 2^64)
    (hlength : 0 < length) (hbase : a ≤ base) (hlimit : base+length ≤ b) :
    ∃ status ranges' count', mtrrLibSetMemoryType ranges capacity count base length type =
        some (status,ranges',count') ∧ count' ≤ capacity ∧ Tiling a (ranges'.take count') b ∧
      (status ≠ .outOfResources → ¬ Displaced (ranges.take count) base (base+length) type →
        ∀ x, typeAt (ranges'.take count') x =
          if base ≤ x ∧ x < base+length then some type else typeAt (ranges.take count) x) := by
  obtain ⟨rs,spare,rfl,rfl⟩ := exists_spare (le_trans hcount hcapacity)
  rw [take_left' rfl] at htiling ⊢
  have hlt : base < base+length := by omega
  obtain ⟨pre,previous,mid,next,post,first,last,h⟩ := exists_placed htiling hbase hlt hlimit type
  have hword : last.limit < 2^64 := by
    have := htiling.bounds_of_mem h.last_mem
    omega
  by_cases hstarted : mid.length = 1 ∧ first.type = type
  · have hcall := h.mtrrLibSetMemoryType_eq htiling hlt hword spare capacity
    rw [if_pos hstarted, Nat.add_sub_cancel_left] at hcall
    refine ⟨_, _, _, hcall, hcount, by rwa [take_left' rfl], fun _ _ x => ?_⟩
    obtain ⟨hleft,-⟩ := h.pointwise_started capacity htiling (by omega) hlt hword hstarted spare
    rw [Nat.add_sub_cancel_left, hcall] at hleft
    rw [take_left' rfl]
    split
    case isTrue hx =>
      have hat := hleft.2.2 x hx.1 hx.2
      rwa [take_left' rfl] at hat
    case isFalse => rfl
  · have hfits : newLimit next (base+length) - newBase previous base < 2^64 := by
      have hpost := (h.tilings htiling).2.2.2.2.le
      have := h.rightPiece_start
      omega
    obtain ⟨rest,hcall⟩ := h.mtrrLibSetMemoryType_edited spare capacity htiling hlt hword hfits
      hstarted hcount hcapacity (by
        rw [sizeOfMtrrMemoryRange] at hmemory
        omega)
    rw [Nat.add_sub_cancel_left] at hcall
    split at hcall
    case isTrue => exact ⟨_, _, _, hcall, hcount, by rwa [take_left' rfl], fun hne => absurd rfl hne⟩
    case isFalse hroom =>
      refine ⟨_, _, _, hcall, ?_, ?_, fun _ hmoved x => ?_⟩
      · rw [length_append, length_append, length_newRanges]
        omega
      · rw [take_left' rfl]
        exact h.tiling_edited htiling hlt _
      · rw [take_left' rfl]
        refine h.typeAt_edited htiling hlt (fun hcut => ?_) x
        by_contra htype
        exact hmoved ((h.displaced_iff htiling hlt).mpr ⟨hcut, htype⟩)

def fiveRanges : List MtrrMemoryRange :=
  [⟨0x0000, 0x2000, cacheUncacheable⟩, ⟨0x2000, 0x2000, cacheWriteBack⟩,
    ⟨0x4000, 0x2000, cacheUncacheable⟩, ⟨0x6000, 0x2000, cacheWriteBack⟩,
    ⟨0x8000, 0x2000, cacheWriteThrough⟩]

/-- What is left of the fourth range, which was write-back, is write-through: the type of the
fifth, which the copy moved to its place. -/
theorem fiveRanges_not_pointwise :
    ¬ UpdatesPointwise fiveRanges 0 0xA000 5 5 0x1000 0x6000 cacheWriteCombining
      (mtrrLibSetMemoryType fiveRanges 5 5 0x1000 0x6000 cacheWriteCombining) := by
  have hcall : mtrrLibSetMemoryType fiveRanges 5 5 0x1000 0x6000 cacheWriteCombining =
      some (.success, [⟨0x0000, 0x1000, cacheUncacheable⟩, ⟨0x1000, 0x6000, cacheWriteCombining⟩,
        ⟨0x7000, 0x1000, cacheWriteThrough⟩, ⟨0x8000, 0x2000, cacheWriteThrough⟩,
        ⟨0x8000, 0x2000, cacheWriteThrough⟩], 4) := by decide
  rintro ⟨-,-,htypes,-⟩
  have hat := htypes 0x7000
  revert hat
  decide

/-- A request that ends where the fourth range does is a pointwise update. -/
theorem fiveRanges_pointwise :
    UpdatesPointwise fiveRanges 0 0xA000 5 5 0x1000 0x7000 cacheWriteCombining
      (mtrrLibSetMemoryType fiveRanges 5 5 0x1000 0x7000 cacheWriteCombining) :=
  (mtrrLibSetMemoryType_pointwise_iff (by decide) (by decide) (by decide)
    (by simp [fiveRanges, Tiling, MtrrMemoryRange.limit]) (by decide) (by decide) (by decide)
    (by decide)).mpr (by decide)

end Liano.Mtrr
