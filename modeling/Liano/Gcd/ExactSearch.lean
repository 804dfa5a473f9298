import Liano.Gcd.SearchSpace

/-! `CoreAllocateSpace`: when its search finds the outermost of the spaces asked for. -/
namespace Liano.Gcd

open List hiding max range

open Liano.Lib

theorem searchLoop_none {baseAddress last : Nat} {before entries : List GcdMapEntry}
    {range : Option (List GcdMapEntry)} (h : ∀ e ∈ entries, ¬ e.Holds last) :
    searchLoop baseAddress last before range entries = none := by
  induction entries generalizing before range with
  | nil => rfl
  | cons entry entries ih =>
    have hnot := h entry mem_cons_self
    have hrest : ∀ e ∈ entries, ¬ e.Holds last := fun e he => h e (mem_cons_of_mem _ he)
    rw [searchLoop]
    simp only [if_neg hnot]
    split
    · exact ih hrest
    · exact ih hrest

/-- Where the last address is below the first one, only an entry that holds both is found. -/
theorem searchLoop_wraps {baseAddress last a b : Nat} {before entries : List GcdMapEntry}
    (hlast : last < baseAddress) (hents : Tiles a entries b) :
    (∃ xs f ys, entries = xs ++ f :: ys ∧ f.Holds baseAddress ∧ f.Holds last ∧
      searchLoop baseAddress last before none entries = some ⟨before ++ xs, [f], ys⟩) ∨
    (∀ f ∈ entries, f.Holds baseAddress → ¬ f.Holds last) ∧
      searchLoop baseAddress last before none entries = none := by
  induction entries generalizing a before with
  | nil => exact .inr ⟨fun f hf => absurd hf not_mem_nil, rfl⟩
  | cons entry entries ih =>
    rw [searchLoop]
    by_cases hin : entry.Holds baseAddress
    · have hbeh : ∀ e ∈ entries, ¬ e.Holds last ∧ ¬ e.Holds baseAddress := by
        intro e he
        have hstart := hents.2.2.le_of_mem he
        have hend := hin.2
        refine ⟨fun h => ?_, fun h => ?_⟩ <;>
        · have := h.1
          omega
      simp only [hin, decide_true, if_true, Option.getD_none, append_nil]
      by_cases hhold : entry.Holds last
      · rw [if_pos hhold]
        exact .inl ⟨[], entry, entries, rfl, hin, hhold, by rw [append_nil]⟩
      rw [if_neg hhold, searchLoop_none fun e he => (hbeh e he).1]
      refine .inr ⟨fun f hf hbase => ?_, rfl⟩
      rcases mem_cons.mp hf with rfl | hf
      · exact hhold
      · exact (hbeh f hf).1
    · simp only [hin, decide_false, Bool.false_eq_true, if_false, Option.isSome_none, Option.map_none]
      rcases @ih _ (before ++ [entry]) hents.2.2 with ⟨xs,f,ys,rfl,h1,h2,h3⟩ | ⟨h1,h2⟩
      · refine .inl ⟨entry :: xs, f, ys, rfl, h1, h2, ?_⟩
        rw [h3, append_assoc, singleton_append]
      refine .inr ⟨fun f hf hbase => ?_, h2⟩
      rcases mem_cons.mp hf with rfl | hf
      · exact absurd hbase hin
      · exact h1 f hf hbase

/-- An entry with both ends of the space from a base, the last address taken modulo `2 ^ 64`. -/
def WrapsIn (r : AllocateRequest) (maxAddress base : Nat) (f : GcdMapEntry) : Prop :=
  spaceEnd r base ≤ maxAddress ∧ f.Holds base ∧ f.Holds (spaceEnd r base)

instance (r : AllocateRequest) (maxAddress base : Nat) (f : GcdMapEntry) :
    Decidable (WrapsIn r maxAddress base f) := inferInstanceAs (Decidable (_ ∧ _ ∧ _))

def Decides (r : AllocateRequest) (map : List GcdMapEntry) (maxAddress : Nat) (e : GcdMapEntry) : Prop :=
  Suits r e.value ∧ ∀ f ∈ map, WrapsIn r maxAddress (lowestBase r e) f → Suits r f.value

instance (r : AllocateRequest) (map : List GcdMapEntry) (maxAddress : Nat) (e : GcdMapEntry) :
    Decidable (Decides r map maxAddress e) := inferInstanceAs (Decidable (_ ∧ _))

def entriesFrom (map : List GcdMapEntry) : Option Nat → List GcdMapEntry
  | none => []
  | some link => map.drop link

@[simp]
theorem entriesFrom_some (map : List GcdMapEntry) (link : Nat) :
    entriesFrom map (some link) = map.drop link := rfl

section
variable {map : List GcdMapEntry} {r : AllocateRequest} {max maxAddress link base baseAddress : Nat}
  {entry : GcdMapEntry}

theorem coreSearch_long (hmap : Tiles 0 map (max+1)) (hlong : max+1 < r.length)
    (hlen : r.length < 2^64) :
    (∃ m f xs ys, map[m]? = some f ∧ f.Holds base ∧ f.Holds (spaceEnd r base) ∧ xs.length = m ∧
      coreSearchGcdMapEntry base r.length map = some ⟨xs, [f], ys⟩) ∨
    (∀ f ∈ map, f.Holds base → ¬ f.Holds (spaceEnd r base)) ∧
      coreSearchGcdMapEntry base r.length map = none := by
  by_cases hwrap : spaceEnd r base < base
  · rcases @searchLoop_wraps _ _ _ _ [] map hwrap hmap with ⟨xs,f,ys,rfl,h1,h2,h3⟩ | ⟨h1,h2⟩
    · exact .inl ⟨xs.length, f, xs, ys, by simp, h1, h2, rfl, h3⟩
    · exact .inr ⟨h1, h2⟩
  have hbeyond : max < spaceEnd r base := by
    rw [spaceEnd, toUint64] at hwrap ⊢
    omega
  have hnone : ∀ f ∈ map, ¬ f.Holds (spaceEnd r base) := by
    intro f hf h
    have := (hmap.end_of_mem hf).2
    have := h.2
    omega
  exact .inr ⟨fun f hf _ => hnone f hf, searchLoop_none hnone⟩

theorem followingLink_bottomUp (htop : topDown r = false) :
    entriesFrom map (followingLink r map.length link) = map.drop (link+1) := by
  rw [followingLink, htop, if_ff]
  by_cases hlt : link+1 < map.length
  · rw [if_pos hlt]
    rfl
  · rw [if_neg hlt, drop_eq_nil_of_le (by omega)]
    rfl

theorem find?_drop_of_wraps {m : Nat} {f : GcdMapEntry} (hmap : Tiles 0 map (max+1))
    (hent : map[link]? = some entry) (hlink : link ≤ m) (hf : map[m]? = some f)
    (hwraps : WrapsIn r maxAddress (lowestBase r entry) f) (hnot : ¬ Suits r f.value) :
    (map.drop link).find? (fun e => decide (Decides r map maxAddress e)) =
      (map.drop m).find? (fun e => decide (Decides r map maxAddress e)) := by
  have hsplit : map.drop link = (map.drop link).take (m-link) ++ map.drop m := by
    have := take_append_drop (m-link) (map.drop link)
    rw [drop_drop, Nat.add_sub_cancel' hlink] at this
    exact this.symm
  rw [hsplit, find?_append, find?_eq_none.mpr, Option.none_or]
  intro e he hdecides
  obtain ⟨i,hi,hie⟩ := mem_take_iff_getElem.mp he
  have hmapi : map[link+i]? = some e := by
    rw [← getElem?_drop, getElem?_eq_getElem (by omega), hie]
  have hord := getElem?_order hmap (by omega : link+i < m) hmapi hf
  have hseg := (hmap.end_of_mem (mem_of_getElem? hmapi)).1
  have hbase := hwraps.2.1.1
  have hstart : entry.baseAddress ≤ e.baseAddress := by
    rcases Nat.eq_zero_or_pos i with rfl | hpos
    · rw [add_zero, hent, Option.some.injEq] at hmapi
      rw [hmapi]
    · have := getElem?_order hmap (by omega : link < link+i) hent hmapi
      have := (hmap.end_of_mem (mem_of_getElem? hent)).1
      omega
  have hsame : lowestBase r e = lowestBase r entry := by
    refine le_antisymm (alignUp_le_of_dvd (dvd_alignDown _ _) (by omega)) ?_
    exact alignUp_le_of_dvd (dvd_alignDown _ _)
      (le_trans hstart (le_alignUp e.baseAddress r.alignment))
  refine hnot ((of_decide_eq_true hdecides).2 f (mem_of_getElem? hf) ?_)
  rw [hsame]
  exact hwraps

theorem checkedBefore_singleton {f : GcdMapEntry} :
    checkedBefore r [f] = if Suits r f.value then [f] else [] := by
  rw [checkedBefore]
  by_cases hsuits : Suits r f.value
  · rw [if_pos hsuits, takeWhile_cons_of_pos, takeWhile_nil]
    rw [Bool.not_eq_true', Bool.eq_false_iff]
    exact fun h => coreAllocateSpaceCheckEntry_iff.mp h hsuits
  · rw [if_neg hsuits, takeWhile_cons_of_neg]
    rw [coreAllocateSpaceCheckEntry_iff.mpr hsuits]
    decide

/-- A search from the bottom up for more than the map has returns, and it finds nothing exactly if
the first entry that decides it does not have both ends of the space in one entry. -/
theorem allocateSearch_long {fuel : Nat} {start : Option Nat} (hmap : Tiles 0 map (max+1))
    (hmax : max < 2^63) (hal : r.alignment < 64) (htop : topDown r = false)
    (hlong : max+1 < r.length) (hlen : r.length < 2^64)
    (hstart : ∀ l, start = some l → l < map.length) (hfuel : (entriesFrom map start).length < fuel) :
    ∃ base found, allocateSearch r maxAddress map fuel start baseAddress = some (base,found) ∧
      (found = none ↔ ∀ e, (entriesFrom map start).find?
          (fun e => decide (Decides r map maxAddress e)) = some e →
        ∀ f ∈ map, ¬ WrapsIn r maxAddress (lowestBase r e) f) := by
  induction fuel generalizing start baseAddress with
  | zero => exact absurd hfuel (Nat.not_lt_zero _)
  | succ fuel ih =>
    cases start with
    | none => exact ⟨baseAddress, none, rfl, fun _ e he => (by cases he), fun _ => rfl⟩
    | some link =>
      have hlink := hstart link rfl
      obtain ⟨entry,hent⟩ : ∃ entry, map[link]? = some entry := ⟨_, getElem?_eq_getElem hlink⟩
      have hdrop : map.drop link = entry :: map.drop (link+1) := by
        rw [drop_eq_getElem_cons hlink]
        rw [getElem?_eq_getElem hlink, Option.some.injEq] at hent
        rw [hent]
      have hfrom : entriesFrom map (some link) = entry :: map.drop (link+1) := hdrop
      have hmem := mem_of_getElem? hent
      obtain ⟨hle,hend⟩ := hmap.end_of_mem hmem
      rw [hfrom, length_cons] at hfuel
      rw [allocateSearch]
      simp only [hent]
      by_cases hsuits : Suits r entry.value
      · rw [if_neg fun h => coreAllocateSpaceCheckEntry_iff.mp h hsuits,
          candidate_bottomUp hmax hal (by omega) hle htop]
        have hfind : Decides r map maxAddress entry → (entriesFrom map (some link)).find?
              (fun e => decide (Decides r map maxAddress e)) = some entry := by
          intro h
          rw [hfrom]
          exact find?_cons_of_pos (decide_eq_true h)
        by_cases hgt : spaceEnd r (lowestBase r entry) > maxAddress
        · rw [if_pos hgt]
          have hnone : ∀ f ∈ map, ¬ WrapsIn r maxAddress (lowestBase r entry) f :=
            fun f _ h => not_le.mpr hgt h.1
          refine ⟨_, none, rfl, fun _ e he => ?_, fun _ => rfl⟩
          rw [hfind ⟨hsuits, fun f hf h => absurd h (hnone f hf)⟩, Option.some.injEq] at he
          rw [← he]
          exact hnone
        · rw [if_neg hgt]
          rcases @coreSearch_long map r max (lowestBase r entry) hmap hlong hlen with
            ⟨m, f, xs, ys, hm, hbase, hlast, hxs, hsrch⟩ | ⟨hnot, hsrch⟩
          · simp only [hsrch, checkedBefore_singleton]
            have hwraps : WrapsIn r maxAddress (lowestBase r entry) f := ⟨Nat.le_of_not_lt hgt, hbase, hlast⟩
            by_cases hf : Suits r f.value
            · rw [if_pos hf, if_pos rfl]
              refine ⟨_, some _, rfl, fun h => (by cases h), fun h => ?_⟩
              refine absurd hwraps (h entry (hfind ⟨hsuits, fun g hg hgwraps => ?_⟩) f (mem_of_getElem? hm))
              obtain ⟨k,hk⟩ := mem_iff_getElem?.mp hg
              rw [index_unique hmap hk hm hgwraps.2.1 hbase, hm, Option.some.injEq] at hk
              rw [← hk]
              exact hf
            · rw [if_neg hf, if_neg (cons_ne_nil f []).symm, length_nil, add_zero, hxs]
              have hlinkm : link < m := by
                rcases lt_trichotomy link m with hlt | heq | hgt'
                · exact hlt
                · rw [heq, hm, Option.some.injEq] at hent
                  rw [hent] at hf
                  exact absurd hsuits hf
                have := getElem?_order hmap hgt' hm hent
                have := hbase.2
                have := le_alignUp entry.baseAddress r.alignment
                rw [← lowestBase] at this
                omega
              have hmlt := (List.getElem?_eq_some_iff.mp hm).1
              have hdropFind := find?_drop_of_wraps hmap hent (le_of_lt hlinkm) hm hwraps hf
              obtain ⟨base',found,hrun,hiff⟩ := @ih (lowestBase r entry) (some m)
                (fun l hl => by cases hl; exact hmlt) (by
                  rw [entriesFrom_some, length_drop] at *
                  omega)
              refine ⟨base', found, hrun, ?_⟩
              rw [entriesFrom_some, hdropFind]
              exact hiff
          · simp only [hsrch]
            have hnone : ∀ f ∈ map, ¬ WrapsIn r maxAddress (lowestBase r entry) f :=
              fun f hf h => hnot f hf h.2.1 h.2.2
            refine ⟨_, none, rfl, fun _ e he => ?_, fun _ => rfl⟩
            rw [hfind ⟨hsuits, fun f hf h => absurd h (hnone f hf)⟩, Option.some.injEq] at he
            rw [← he]
            exact hnone
      · rw [if_pos (coreAllocateSpaceCheckEntry_iff.mpr hsuits), hfrom,
          find?_cons_of_neg (p := fun e => decide (Decides r map maxAddress e))
            fun h => hsuits (of_decide_eq_true h).1, ← followingLink_bottomUp htop]
        refine ih (fun l hl => ?_) ?_
        · rw [followingLink, htop, if_ff] at hl
          split at hl
          · cases hl
            assumption
          · cases hl
        · rw [followingLink_bottomUp htop]
          omega

end

section
variable {map : List GcdMapEntry} {r : AllocateRequest} {max : Nat}

theorem getLast_endAddress {a b : Nat} {map : List GcdMapEntry} (h : Tiles a map b)
    (hne : map ≠ []) : (map.getLast?.map Segment.endAddress).getD 0 + 1 = b := by
  induction map generalizing a with
  | nil => exact absurd rfl hne
  | cons e map ih =>
    cases map with
    | nil => exact h.2.2
    | cons f map => exact ih h.2.2 (cons_ne_nil f map)

def startLink (r : AllocateRequest) (map : List GcdMapEntry) : Nat := if topDown r then map.length-1 else 0

theorem coreAllocateSpace_eq {fuel : Nat} (hmap : Tiles 0 map (max+1))
    (htype : r.gcdAllocateType ≠ .address) (himg : r.imageHandle ≠ none)
    (hal : r.alignment < 64) (hpos : 0 < r.length) : coreAllocateSpace true r map fuel =
      (allocateSearch r (searchMax r max) map fuel (some (startLink r map)) r.baseAddress).bind
        fun found =>
          match found.2 with
          | none => some (map, found.1, .notFound)
          | some range =>
            (convertRange found.1 r.length (fun (_ : Unit) entry => ((), allocateTo r entry)) ()
              range).map fun map => (map, found.1, .success) := by
  have hne : map ≠ [] := by
    rintro rfl
    have : 0 = max+1 := hmap
    omega
  have hlast : (map.getLast?.map Segment.endAddress).getD 0 = max :=
    Nat.succ.inj (getLast_endAddress hmap hne)
  rw [coreAllocateSpace, if_neg himg, if_neg (by omega), if_neg (by omega), findSpace, if_neg htype]
  simp only [hlast, if_neg hne]
  rw [← searchMax, ← startLink]
  cases hsrch : allocateSearch r (searchMax r max) map fuel (some (startLink r map))
      r.baseAddress with
  | none => rfl
  | some found =>
    obtain ⟨base,found⟩ := found
    cases found with
    | none => rfl
    | some range => rfl

/-- `CoreAllocateSpace` terminates, succeeds exactly if a space fits, and then returns the lowest
base, or the highest for a search from the top down. -/
def SearchExact (r : AllocateRequest) (map : List GcdMapEntry) (max : Nat) : Prop := ∃ map' base status,
    coreAllocateSpace true r map (map.length+1) = some (map',base,status) ∧
    (status.isError = false ↔ ∃ b, Fits r map (searchMax r max) b) ∧ (status.isError = false →
      if topDown r then IsGreatest {b | Fits r map (searchMax r max) b} base
      else IsLeast {b | Fits r map (searchMax r max) b} base)

/-- From the top down: at each fitting base or above it there is one whose last address is in an
entry that starts low enough. From the bottom up, for more than the map has: the first entry that
decides the search does not have both ends of the space in one entry. -/
def SearchReaches (r : AllocateRequest) (map : List GcdMapEntry) (max : Nat) : Prop :=
  (topDown r = true → ∀ b, Fits r map (searchMax r max) b →
    ∃ b', b ≤ b' ∧ Reaches r map (searchMax r max) b') ∧ (topDown r = false → max+1 < r.length →
    ∀ e, map.find? (fun e => decide (Decides r map (searchMax r max) e)) = some e →
      ∀ f ∈ map, ¬ WrapsIn r (searchMax r max) (lowestBase r e) f)

/-- A search that returns the outermost space it reaches is exact if it reaches as far as spaces
fit. -/
theorem searchExact_iff_of_outermost {base : Nat} {found : Option MapRange}
    (hmap : Tiles 0 map (max+1)) (hmax : max < 2^63)
    (htype : r.gcdAllocateType ≠ .address) (himg : r.imageHandle ≠ none)
    (hal : r.alignment < 64) (hpos : 0 < r.length)
    (hrun : allocateSearch r (searchMax r max) map (map.length+1) (some (startLink r map))
      r.baseAddress = some (base,found)) (houter : Outermost r map (searchMax r max) base found) :
    SearchExact r map max ↔ (topDown r = true → ∀ b, Fits r map (searchMax r max) b →
      ∃ b', b ≤ b' ∧ Reaches r map (searchMax r max) b') := by
  have heq := @coreAllocateSpace_eq map r max (map.length+1) hmap htype himg hal hpos
  rw [hrun, Option.bind_some] at heq
  have hreaches : topDown r = false → ∀ b, Fits r map (searchMax r max) b →
      Reaches r map (searchMax r max) b := by
    intro htop b hb
    refine ⟨hb, fun h => ?_⟩
    rw [htop] at h
    cases h
  cases found with
  | none =>
    have hnone : ∀ b, ¬ Reaches r map (searchMax r max) b := houter
    constructor
    · rintro ⟨map',base',status,hrun',hfits,-⟩ htop b hb
      rw [heq] at hrun'
      cases hrun'
      exact absurd (hfits.mpr ⟨b, hb⟩) (by decide)
    · intro h
      refine ⟨map, base, .notFound, heq, ⟨fun hs => absurd hs (by decide), ?_⟩,
        fun hs => absurd hs (by decide)⟩
      rintro ⟨b,hb⟩
      cases htop : topDown r with
      | true =>
        obtain ⟨b',-,hb'⟩ := h htop b hb
        exact absurd hb' (hnone b')
      | false => exact absurd (hreaches htop b hb) (hnone b)
  | some range =>
    obtain ⟨hbase,hside⟩ := houter
    have hle := hbase.1.le_map hmap hpos
    obtain ⟨last,hlen⟩ : ∃ last, base+r.length = last+1 := ⟨base+r.length - 1, by omega⟩
    obtain ⟨-,hsome⟩ := coreSearchGcdMapEntry_spec hmap hlen (by omega) (by omega)
    obtain ⟨range',s,e,hsrch,hr⟩ := hsome (by omega)
    rw [(coreSearch_of_allocateSearch hrun).1, Option.some.injEq] at hsrch
    subst hsrch
    obtain ⟨map',hconv,-,-⟩ := @convertRange_spec Unit
      (fun (_ : Unit) entry => ((), allocateTo r entry)) () map max base r.length last s e range hr
      (by omega) (by omega) hlen
    simp only [hconv, Option.map_some] at heq
    constructor
    · rintro ⟨map'',base',status,hrun',-,hbest⟩ htop b hb
      rw [heq] at hrun'
      cases hrun'
      have hgreatest := hbest rfl
      rw [htop, if_pos rfl] at hgreatest
      exact ⟨base, hgreatest.2 hb, hbase⟩
    · intro h
      refine ⟨map', base, .success, heq, ⟨fun _ => ⟨base, hbase.1⟩, fun _ => rfl⟩, fun _ => ?_⟩
      cases htop : topDown r with
      | true =>
        refine ⟨hbase.1, fun b hb => ?_⟩
        obtain ⟨b',hbb',hb'⟩ := h htop b hb
        have hle' := hside b' hb'
        rw [htop, if_pos rfl] at hle'
        exact le_trans hbb' hle'
      | false =>
        refine ⟨hbase.1, fun b hb => ?_⟩
        have hle' := hside b (hreaches htop b hb)
        rwa [htop, if_ff] at hle'

theorem allocateSearch_topDown_isSome {maxAddress fuel baseAddress : Nat} {start : Option Nat}
    (hmap : Tiles 0 map (max+1)) (hmax : max < 2^63) (htop : topDown r = true)
    (hlong : max+1 < r.length) (hfuel : linksLeft r map.length start < fuel) :
    (allocateSearch r maxAddress map fuel start baseAddress).isSome = true := by
  induction fuel generalizing start with
  | zero => exact absurd hfuel (Nat.not_lt_zero _)
  | succ fuel ih =>
    cases start with
    | none => rfl
    | some link =>
      rw [allocateSearch]
      cases hent : map[link]? with
      | none => rfl
      | some entry =>
        have hleft := @linksLeft_followingLink r map.length link
          (List.getElem?_eq_some_iff.mp hent).1
        obtain ⟨hle,hend⟩ := hmap.end_of_mem (mem_of_getElem? hent)
        have hspec := @candidate_topDown r max maxAddress baseAddress entry hmax (by omega) hle
          htop
        simp only
        by_cases hchk : (coreAllocateSpaceCheckEntry r entry.value).isError = true
        · rw [if_pos hchk]
          exact ih (by omega)
        rw [if_neg hchk]
        cases hcand : candidate r maxAddress baseAddress entry with
        | next => exact ih (by omega)
        | stop base => rfl
        | tryBase base =>
          rw [hcand] at hspec
          omega

theorem ahead_of_start {base : Nat} (hpos : 0 < r.length) (h : Fits r map (searchMax r max) base) :
    AheadOf r map (some (startLink r map)) (nearEnd r base) := by
  have hnear := @nearEnd_mem r hpos base
  obtain ⟨d,hd,-⟩ := h.suits _ hnear.1 hnear.2
  obtain ⟨k,e,hk,hhold,-⟩ := exists_index hd
  have hlt := (List.getElem?_eq_some_iff.mp hk).1
  refine ⟨_, k, e, rfl, hk, hhold, ?_⟩
  rw [startLink]
  split <;> omega

theorem coreAllocateSpace_search_iff (hmap : Tiles 0 map (max+1)) (hmax : max < 2^63)
    (htype : r.gcdAllocateType ≠ .address) (himage : r.imageHandle ≠ none)
    (halign : r.alignment < 64) (hpos : 0 < r.length) (hlength : r.length < 2^64) :
    SearchExact r map max ↔ SearchReaches r map max := by
  have hsize : 0 < map.length := by
    refine length_pos_iff.mpr ?_
    rintro rfl
    have : 0 = max+1 := hmap
    omega
  have hstart : ∀ l, some (startLink r map) = some l → l < map.length := by
    intro l hl
    cases hl
    rw [startLink]
    split <;> omega
  have hfuel : linksLeft r map.length (some (startLink r map)) < map.length+1 := by
    rw [linksLeft, startLink]
    split <;> omega
  by_cases hlong : topDown r = false ∧ max+1 < r.length
  · obtain ⟨htop,hlong⟩ := hlong
    have hstartLink : startLink r map = 0 := by rw [startLink, htop, if_ff]
    obtain ⟨base,found,hrun,hiff⟩ := @allocateSearch_long map r max (searchMax r max)
      r.baseAddress (map.length+1) (some (startLink r map)) hmap hmax halign htop hlong hlength
      hstart (by
        rw [hstartLink, entriesFrom_some, drop_zero]
        omega)
    rw [hstartLink, entriesFrom_some, drop_zero] at hiff
    have hfits : ¬ ∃ b, Fits r map (searchMax r max) b := by
      rintro ⟨b,hb⟩
      have := hb.le_map hmap hpos
      omega
    have heq := @coreAllocateSpace_eq map r max (map.length+1) hmap htype himage halign hpos
    rw [hrun, Option.bind_some] at heq
    constructor
    · rintro ⟨map',base',status,hrun',hst,-⟩
      refine ⟨fun h => ?_, fun _ _ => hiff.mp ?_⟩
      · rw [htop] at h
        cases h
      · cases found with
        | none => rfl
        | some range =>
          rw [heq, Option.map_eq_some_iff] at hrun'
          obtain ⟨map'',-,hout⟩ := hrun'
          cases hout
          exact absurd (hst.mp rfl) hfits
    · intro h
      cases hiff.mpr (h.2 htop hlong)
      exact ⟨map, base, .notFound, heq, ⟨fun hs => absurd hs (by decide), fun hb => absurd hb hfits⟩,
        fun hs => absurd hs (by decide)⟩
  · have hfit : topDown r = false → r.length ≤ max+1 := by
      intro htop
      by_contra hlt
      exact hlong ⟨htop, by omega⟩
    have hsome : (allocateSearch r (searchMax r max) map (map.length+1)
        (some (startLink r map)) r.baseAddress).isSome = true := by
      by_cases hle : r.length ≤ max+1
      · exact allocateSearch_isSome hmap hmax halign hpos hle hfuel
      · cases htop : topDown r with
        | true => exact allocateSearch_topDown_isSome hmap hmax htop (by omega) hfuel
        | false => exact absurd (hfit htop) hle
    obtain ⟨⟨base,found⟩,hrun⟩ := Option.isSome_iff_exists.mp hsome
    rw [searchExact_iff_of_outermost hmap hmax htype himage halign hpos hrun
      (allocateSearch_outermost hmap hmax halign hpos hfit hstart
        (fun b hb => ahead_of_start hpos hb.1) hrun)]
    refine ⟨fun h => ⟨h, fun htop hlt => ?_⟩, fun h => h.1⟩
    have := hfit htop
    omega

end

def freePage : List GcdMapEntry := [⟨0, 0xFFF, ⟨0, 0, .systemMemory, .nonExistent, none, none⟩⟩]

def allocateTopDown : AllocateRequest := { allocatePage with gcdAllocateType := .anySearchTopDown }

theorem allocatePage_search : SearchExact allocatePage twoCaches 0x1FFF := by
  have hiff : SearchExact allocatePage twoCaches 0x1FFF ↔ SearchReaches allocatePage twoCaches 0x1FFF :=
    coreAllocateSpace_search_iff ⟨rfl, by decide, rfl, by decide, rfl⟩ (by decide) (by decide)
      (by decide) (by decide) (by decide) (by decide)
  exact hiff.mpr ⟨fun h => absurd h (by decide), fun _ h => absurd h (by decide)⟩

/-- The page is all of the map, and a search from the top down does not find it. -/
theorem allocateTopDown_not_exact : Tiles 0 freePage 0x1000 ∧ Fits allocateTopDown freePage 0xFFF 0 ∧
    coreAllocateSpace true allocateTopDown freePage 2 = some (freePage, 0, .notFound) ∧
    ¬ SearchExact allocateTopDown freePage 0xFFF := by
  have hmap : Tiles 0 freePage 0x1000 := ⟨rfl, by decide, rfl⟩
  have hrun : coreAllocateSpace true allocateTopDown freePage (freePage.length+1) =
      some (freePage, 0, .notFound) := by decide
  have hfits : Fits allocateTopDown freePage 0xFFF 0 := by
    refine ⟨by decide, by decide, fun x _ hx => ⟨⟨0, 0, .systemMemory, .nonExistent, none, none⟩,
      ?_, by decide⟩⟩
    exact lookup_of_mem (e := freePage.head (by decide)) hmap (head_mem _)
      ⟨Nat.zero_le _, Nat.le_of_lt_succ (Nat.lt_of_lt_of_eq hx (zero_add 0x1000))⟩
  refine ⟨hmap, hfits, hrun, ?_⟩
  rintro ⟨map',base,status,hrun',hiff,-⟩
  cases hrun'
  exact absurd (hiff.mpr ⟨0, hfits⟩) (by decide)

end Liano.Gcd
