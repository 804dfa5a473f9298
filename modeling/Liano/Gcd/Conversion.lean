import Liano.Gcd.ConvertSpace

/-! What the loops over a range make of a map that tiles the address space. -/
namespace Liano.Gcd

open Option (bind_some isSome_some map_none map_some none_or)
open List hiding after lookup lookup_append max range

open Liano.Lib

/-- The entries of the range, from `s` up to `e`, are those that meet the addresses from
`baseAddress` to `last`. -/
structure IsRange (map : List GcdMapEntry) (max baseAddress last : Nat) (r : MapRange)
    (s e : Nat) : Prop where
  map : map = r.before ++ r.range ++ r.after
  before : Tiles 0 r.before s
  range : Tiles s r.range e
  after : Tiles e r.after (max+1)
  start_le : s ≤ baseAddress
  lt_end : last < e
  meets : ∀ f ∈ r.range, baseAddress ≤ f.endAddress ∧ f.baseAddress ≤ last

section
variable {baseAddress last a b s max : Nat} {before entries range : List GcdMapEntry}

theorem searchLoop_range (hrng : Tiles s range a) (hbase : baseAddress < a) (hlast : a ≤ last)
    (hmeets : ∀ f ∈ range, baseAddress ≤ f.endAddress ∧ f.baseAddress ≤ last)
    (hents : Tiles a entries b) :
    (b ≤ last → searchLoop baseAddress last before (some range) entries = none) ∧
    (last < b → ∃ r e, searchLoop baseAddress last before (some range) entries = some r ∧
      r.before = before ∧ r.range ++ r.after = range ++ entries ∧ Tiles s r.range e ∧
      Tiles e r.after b ∧ last < e ∧ ∀ f ∈ r.range, baseAddress ≤ f.endAddress ∧ f.baseAddress ≤ last) := by
  induction entries generalizing a range with
  | nil =>
    have hab : a = b := hents
    exact ⟨fun _ => rfl, fun hlt => absurd hlast (by omega)⟩
  | cons entry entries ih =>
    obtain ⟨hstart,hle,hrest⟩ := hents
    have hnot : ¬ entry.Holds baseAddress := fun h => by
      have := h.1
      omega
    have hrange' : Tiles s (range ++ [entry]) (entry.endAddress+1) :=
      tiles_append.mpr ⟨a, hrng, hstart, hle, rfl⟩
    have hmeets' : ∀ f ∈ range ++ [entry], baseAddress ≤ f.endAddress ∧ f.baseAddress ≤ last := by
      intro f hf
      rcases mem_append.mp hf with hf | hf
      · exact hmeets f hf
      · rw [mem_singleton.mp hf]
        omega
    rw [searchLoop]
    simp only [hnot, decide_false, Bool.false_eq_true, if_false, isSome_some, if_true, map_some]
    have hb := hrest.le
    by_cases hhold : entry.Holds last
    · rw [if_pos hhold]
      have hin := hhold.2
      refine ⟨fun h => absurd h (by omega), fun _ => ⟨_, _, rfl, rfl, ?_, hrange', hrest, ?_, hmeets'⟩⟩
      · simp
      · omega
    rw [if_neg hhold]
    have hbeh : entry.endAddress+1 ≤ last := by
      by_contra hlt
      exact hhold ⟨by omega, by omega⟩
    obtain ⟨hnone,hsome⟩ := ih hrange' (by omega) hbeh hmeets' hrest
    refine ⟨hnone, fun h => ?_⟩
    obtain ⟨r,e,h1,h2,h3,h4⟩ := hsome h
    exact ⟨r, e, h1, h2, by rw [h3]; simp, h4⟩

theorem searchLoop_start (hbef : Tiles 0 before a) (hbase : a ≤ baseAddress)
    (hlast : baseAddress ≤ last) (hents : Tiles a entries (max+1)) :
    (max < last → searchLoop baseAddress last before none entries = none) ∧
    (last ≤ max → ∃ r s e, searchLoop baseAddress last before none entries = some r ∧
      IsRange (before ++ entries) max baseAddress last r s e) := by
  induction entries generalizing a before with
  | nil =>
    have hab : a = max+1 := hents
    exact ⟨fun _ => rfl, fun hle => absurd hle (by omega)⟩
  | cons entry entries ih =>
    obtain ⟨hstart,hle,hrest⟩ := hents
    rw [searchLoop]
    by_cases hin : entry.Holds baseAddress
    · simp only [hin, decide_true, if_true, Option.getD_none, append_nil]
      have hbaseEnd := hin.2
      have hmeets : ∀ f ∈ [entry], baseAddress ≤ f.endAddress ∧ f.baseAddress ≤ last := by
        intro f hf
        rw [mem_singleton.mp hf]
        omega
      have hone : Tiles a [entry] (entry.endAddress+1) := ⟨hstart, hle, rfl⟩
      have hb := hrest.le
      by_cases hhold : entry.Holds last
      · rw [if_pos hhold]
        have hlastEnd := hhold.2
        refine ⟨fun h => absurd h (by omega), fun _ => ⟨_, a, entry.endAddress+1, rfl, ?_⟩⟩
        exact ⟨by simp, hbef, hone, hrest, hbase, by show last < _; omega, hmeets⟩
      rw [if_neg hhold]
      have hbeh : entry.endAddress+1 ≤ last := by
        by_contra hlt
        exact hhold ⟨by omega, by omega⟩
      obtain ⟨hnone,hsome⟩ :=
        @searchLoop_range baseAddress last _ _ a before entries [entry] hone (by omega) hbeh
          hmeets hrest
      refine ⟨fun h => hnone (by omega), fun h => ?_⟩
      obtain ⟨r,e,h1,h2,h3,h4,h5,h6,h7⟩ := hsome (by omega)
      refine ⟨r, a, e, h1, ?_, by rw [h2]; exact hbef, h4, h5, hbase, h6, h7⟩
      rw [h2, append_assoc, h3, singleton_append]
    · simp only [hin, decide_false, Bool.false_eq_true, if_false, Option.isSome_none, map_none]
      have hbeh : entry.endAddress+1 ≤ baseAddress := by
        by_contra hlt
        exact hin ⟨by omega, by omega⟩
      have hbefore' : Tiles 0 (before ++ [entry]) (entry.endAddress+1) :=
        tiles_append.mpr ⟨a, hbef, hstart, hle, rfl⟩
      have hih := ih hbefore' hbeh hrest
      rw [append_assoc, singleton_append] at hih
      exact hih

end

section
variable {map : List GcdMapEntry} {max baseAddress length last : Nat}

theorem coreSearchGcdMapEntry_spec (hmap : Tiles 0 map (max+1)) (hlen : baseAddress+length = last+1)
    (hbase : baseAddress ≤ last) (hlast : last < 2^64) :
    (max < last → coreSearchGcdMapEntry baseAddress length map = none) ∧
    (last ≤ max → ∃ r s e, coreSearchGcdMapEntry baseAddress length map = some r ∧
      IsRange map max baseAddress last r s e) := by
  rw [coreSearchGcdMapEntry, hlen, Nat.add_sub_cancel, toUint64_of_lt hlast]
  exact @searchLoop_start baseAddress last 0 max [] map rfl (Nat.zero_le _) hbase hmap

/-- A range that is found is that of the addresses up to a last one. -/
theorem range_of_search (hmap : Tiles 0 map (max+1)) (hpos : 0 < length) (hwrap : baseAddress+length ≤ 2^64)
    {r : MapRange} (hsrch : coreSearchGcdMapEntry baseAddress length map = some r) :
    ∃ last s e, baseAddress+length = last+1 ∧ last ≤ max ∧ IsRange map max baseAddress last r s e := by
  obtain ⟨last,hlen⟩ : ∃ last, baseAddress+length = last+1 := ⟨baseAddress+length - 1, by omega⟩
  obtain ⟨hnone,hsome⟩ := coreSearchGcdMapEntry_spec hmap hlen (by omega) (by omega)
  have hlast : last ≤ max := by
    by_contra hlt
    rw [hnone (by omega)] at hsrch
    cases hsrch
  obtain ⟨r',s,e,hsearch',hr⟩ := hsome hlast
  rw [hsrch, Option.some.injEq] at hsearch'
  subst hsearch'
  exact ⟨last, s, e, hlen, hlast, hr⟩

end

section
variable {σ : Type} {change : σ → GcdDescriptor → σ × GcdDescriptor} {st : σ}
  {range : List GcdMapEntry} {baseAddress length last s e : Nat} {entry : GcdMapEntry}

theorem coreInsertGcdMapEntry_eq (hlen : baseAddress+length = last+1) (hlast : last < 2^64)
    (hbase : baseAddress ≤ entry.baseAddress) (hend : entry.endAddress < 2^64) :
    coreInsertGcdMapEntry entry baseAddress length = if last < entry.endAddress then
        (none, { entry with endAddress := last }, some { entry with baseAddress := last + 1 })
      else (none,entry,none) := by
  rw [coreInsertGcdMapEntry, hlen, Nat.add_sub_cancel, toUint64_of_lt hlast]
  simp only [if_neg (not_lt.mpr hbase)]
  by_cases hlt : last < entry.endAddress
  · rw [if_pos hlt, if_pos hlt, toUint64_of_lt (by omega)]
  · rw [if_neg hlt, if_neg hlt]

theorem convertEntries_inside (hne : range ≠ []) (htiles : Tiles s range e) (hbase : baseAddress ≤ s)
    (hmeets : ∀ f ∈ range, f.baseAddress ≤ last) (hlast : last < e) (he : e ≤ 2^64)
    (hlen : baseAddress+length = last+1) :
    ∃ c, convertEntries baseAddress length change st range = some c ∧ c.bottomEntry = none ∧
      Tiles s (c.range ++ c.topEntry.toList) e ∧ ∀ x, lookup (c.range ++ c.topEntry.toList) x =
        if x ≤ last then lookup (thread change st range) x else lookup range x := by
  induction range generalizing s st with
  | nil => exact absurd rfl hne
  | cons entry entries ih =>
    obtain ⟨hstart,hle,hrest⟩ := htiles
    have hend := hrest.le
    have hins := @coreInsertGcdMapEntry_eq baseAddress length last entry hlen (by omega)
      (by omega) (by omega)
    have hstartLast := hmeets entry mem_cons_self
    rw [convertEntries]
    cases entries with
    | nil =>
      have hend' : entry.endAddress+1 = e := hrest
      by_cases hlt : last < entry.endAddress
      · rw [if_pos hlt] at hins
        simp only [hins, convertEntries, bind_some]
        refine ⟨_, rfl, rfl, ⟨hstart, hstartLast, rfl, hlt, hend'⟩, fun x => ?_⟩
        simp only [Option.toList, Option.some_or, cons_append, nil_append, lookup, Segment.Holds, thread]
        grind
      rw [if_neg hlt] at hins
      simp only [hins, convertEntries, bind_some]
      refine ⟨_, rfl, rfl, ⟨hstart, hle, hend'⟩, fun x => ?_⟩
      simp only [Option.toList, none_or, append_nil, lookup, Segment.Holds, thread]
      grind
    | cons entry' entries =>
      have hnext := hmeets entry' (mem_cons_of_mem _ mem_cons_self)
      have hstart' : entry'.baseAddress = entry.endAddress+1 := hrest.1
      rw [if_neg (by omega)] at hins
      obtain ⟨c,hc,hbottom,htiles',hlookup⟩ := @ih (change st entry.value).1
        (entry.endAddress+1) (cons_ne_nil _ _) hrest (by omega)
        (fun f hf => hmeets f (mem_cons_of_mem _ hf))
      simp only [hins, hc, bind_some, hbottom]
      refine ⟨_, rfl, rfl, ⟨hstart, hle, htiles'⟩, fun x => ?_⟩
      have hthread : lookup (thread change st (entry :: entry' :: entries)) x =
          if entry.Holds x then some (change st entry.value).2
          else lookup (thread change (change st entry.value).1 (entry' :: entries)) x := rfl
      have hrng : lookup (entry :: entry' :: entries) x =
          if entry.Holds x then some entry.value else lookup (entry' :: entries) x := rfl
      rw [none_or, cons_append, lookup, hlookup, hthread, hrng]
      simp only [Segment.Holds]
      grind

theorem convertEntries_split {entries : List GcdMapEntry} (hbase : entry.baseAddress < baseAddress) :
    convertEntries baseAddress length change st (entry :: entries) =
      (convertEntries baseAddress length change st
        ({ entry with baseAddress := baseAddress } :: entries)).map fun c =>
          { c with bottomEntry := some { entry with endAddress := baseAddress - 1 } } := by
  rw [convertEntries, convertEntries, coreInsertGcdMapEntry, coreInsertGcdMapEntry]
  simp only [gt_iff_lt, if_pos hbase, lt_irrefl, if_false]
  by_cases hlt : toUint64 (baseAddress+length-1) < entry.endAddress
  · simp only [if_pos hlt, Option.map_bind]
    congr 1
    funext c
    by_cases hnone : c.bottomEntry.isSome = true ∨ ¬ entries = []
    · simp only [Function.comp_apply, isSome_some, true_and, ne_eq, if_pos hnone, map_none]
    · simp only [Function.comp_apply, isSome_some, true_and, ne_eq, if_neg hnone, map_some]
  simp only [if_neg hlt, Option.map_bind]
  congr 1
  funext c
  by_cases hnone : c.bottomEntry.isSome = true
  · simp only [Function.comp_apply, hnone, true_or, if_true, map_none]
  · simp only [Function.comp_apply, hnone, Option.isSome_none, Bool.false_eq_true, false_and, or_self, if_false,
      map_some]

def Converted.entries (c : Converted) : List GcdMapEntry :=
  c.bottomEntry.toList ++ c.range ++ c.topEntry.toList

theorem convertEntries_spec (htiles : Tiles s range e) (hs : s ≤ baseAddress) (hle : baseAddress ≤ last)
    (hmeets : ∀ f ∈ range, baseAddress ≤ f.endAddress ∧ f.baseAddress ≤ last) (hlast : last < e)
    (he : e ≤ 2^64) (hlen : baseAddress+length = last+1) :
    ∃ c, convertEntries baseAddress length change st range = some c ∧ Tiles s c.entries e ∧
      ∀ x, lookup c.entries x = if baseAddress ≤ x ∧ x ≤ last then
        lookup (thread change st range) x else lookup range x := by
  cases range with
  | nil =>
    have : s = e := htiles
    omega
  | cons entry entries =>
    obtain ⟨hstart,hend,hrest⟩ := htiles
    have hfst := hmeets entry mem_cons_self
    have hmeets' : ∀ f ∈ entries, f.baseAddress ≤ last := fun f hf => (hmeets f (mem_cons_of_mem _ hf)).2
    by_cases hsplit : entry.baseAddress < baseAddress
    · obtain ⟨c,hc,hbottom,htiles',hlookup⟩ := @convertEntries_inside σ change st
        ({ entry with baseAddress := baseAddress } :: entries) baseAddress length last baseAddress e
        (cons_ne_nil _ _) ⟨rfl, hfst.1, hrest⟩ le_rfl
        (fun f hf => by
          rcases mem_cons.mp hf with rfl | hf
          · exact hle
          · exact hmeets' f hf) hlast he hlen
      rw [convertEntries_split hsplit, hc]
      refine ⟨_, rfl, ?_, fun x => ?_⟩
      · show Tiles s ({ entry with endAddress := baseAddress - 1 } :: (c.range ++ c.topEntry.toList)) e
        refine ⟨hstart, ?_, ?_⟩
        · show entry.baseAddress ≤ baseAddress-1
          omega
        · rw [Nat.sub_add_cancel (by omega)]
          exact htiles'
      · show lookup ({ entry with endAddress := baseAddress - 1 } :: (c.range ++ c.topEntry.toList)) x = _
        have hents : x < entry.baseAddress → lookup entries x = none := fun hx =>
          lookup_eq_none_of_lt hrest (by omega)
        have hthread : x < entry.baseAddress →
            lookup (thread change (change st entry.value).1 entries) x = none := fun hx =>
          lookup_eq_none_of_lt (tiles_thread hrest) (by omega)
        rw [lookup, hlookup, thread, thread, lookup, lookup, lookup, lookup]
        simp only [Segment.Holds]
        grind
    · obtain ⟨c,hc,hbottom,htiles',hlookup⟩ := @convertEntries_inside σ change st
        (entry :: entries) baseAddress length last s e
        (cons_ne_nil _ _) ⟨hstart, hend, hrest⟩ (by omega)
        (fun f hf => (hmeets f hf).2) hlast he hlen
      refine ⟨c, hc, ?_, fun x => ?_⟩
      · rw [Converted.entries, hbottom]
        exact htiles'
      · rw [Converted.entries, hbottom]
        show lookup (c.range ++ c.topEntry.toList) x = _
        rw [hlookup]
        have htiles : Tiles s (entry :: entries) e := ⟨hstart, hend, hrest⟩
        by_cases hx : baseAddress ≤ x
        · simp only [hx, true_and]
        · rw [lookup_eq_none_of_lt htiles (by omega),
            lookup_eq_none_of_lt (tiles_thread htiles) (by omega), ite_self, ite_self]

end

section
variable {before entries after : List GcdMapEntry} {a b : Nat}

theorem coreMergeGcdMapEntry_backward {entry adjacentEntry merged : GcdMapEntry}
    (h : coreMergeGcdMapEntry entry adjacentEntry false = some merged) :
    adjacentEntry.value = entry.value ∧ merged = adjacentEntry.join entry := by
  rw [coreMergeGcdMapEntry] at h
  by_cases hv : entry.value = adjacentEntry.value
  · simp only [hv, ne_eq, not_true_eq_false, if_false, Bool.false_eq_true, Option.some.injEq] at h
    refine ⟨hv.symm, ?_⟩
    rw [← h, Segment.join]
  · simp [hv] at h

theorem coreMergeGcdMapEntry_forward {entry adjacentEntry merged : GcdMapEntry}
    (h : coreMergeGcdMapEntry entry adjacentEntry true = some merged) :
    entry.value = adjacentEntry.value ∧ merged = entry.join adjacentEntry := by
  rw [coreMergeGcdMapEntry] at h
  by_cases hv : entry.value = adjacentEntry.value
  · simp only [hv, ne_eq, not_true_eq_false, if_false, if_true, Option.some.injEq] at h
    refine ⟨hv, ?_⟩
    rw [← h, Segment.join, hv]
  · simp [hv] at h

def SameMap (xs ys : List GcdMapEntry) (a b : Nat) : Prop := Tiles a ys b ∧ ∀ x, lookup ys x = lookup xs x

theorem cleanupLoop_spec (h : Tiles a (before.reverse ++ entries ++ after) b) :
    SameMap (before.reverse ++ entries ++ after)
      ((cleanupLoop before entries).reverse ++ after) a b := by
  induction entries generalizing before with
  | nil =>
    rw [append_nil] at h ⊢
    cases before <;> exact ⟨h, fun x => rfl⟩
  | cons entry entries ih =>
    cases before with
    | nil => exact @ih [entry] h
    | cons adjacentEntry before =>
      have hassoc : (adjacentEntry :: before).reverse ++ entry :: entries ++ after =
          before.reverse ++ adjacentEntry :: entry :: (entries ++ after) := by simp
      rw [hassoc] at h ⊢
      rw [cleanupLoop]
      cases hm : coreMergeGcdMapEntry entry adjacentEntry false with
      | none =>
        have := @ih (entry :: adjacentEntry :: before) (by simpa using h)
        have hassoc' : (entry :: adjacentEntry :: before).reverse ++ entries ++ after =
          before.reverse ++ adjacentEntry :: entry :: (entries ++ after) := by simp
        rw [hassoc'] at this
        exact this
      | some merged =>
        obtain ⟨hv,rfl⟩ := coreMergeGcdMapEntry_backward hm
        have hassoc' : (adjacentEntry.join entry :: before).reverse ++ entries ++ after =
          before.reverse ++ adjacentEntry.join entry :: (entries ++ after) := by simp
        have hjoined := @ih (adjacentEntry.join entry :: before)
          (by rw [hassoc']; exact tiles_join_append h)
        rw [hassoc'] at hjoined
        exact ⟨hjoined.1, fun x => (hjoined.2 x).trans (lookup_join_append h hv)⟩

theorem mergeForward_spec (h : Tiles a (before.reverse ++ after) b) :
    SameMap (before.reverse ++ after) (mergeForward before after) a b := by
  cases before with
  | nil => exact ⟨h, fun x => rfl⟩
  | cons entry before =>
    cases after with
    | nil => exact ⟨h, fun x => rfl⟩
    | cons adjacentEntry after =>
      rw [mergeForward]
      cases hm : coreMergeGcdMapEntry entry adjacentEntry true with
      | none => exact ⟨h, fun x => rfl⟩
      | some merged =>
        obtain ⟨hv,rfl⟩ := coreMergeGcdMapEntry_forward hm
        have hassoc : (entry :: before).reverse ++ adjacentEntry :: after =
            before.reverse ++ entry :: adjacentEntry :: after := by simp
        have hassoc' : (entry.join adjacentEntry :: before).reverse ++ after =
            before.reverse ++ entry.join adjacentEntry :: after := by simp
        rw [hassoc] at h ⊢
        simp only [hassoc']
        exact ⟨tiles_join_append h, fun x => lookup_join_append h hv⟩

theorem coreCleanupGcdMapEntry_spec {range : List GcdMapEntry}
    (h : Tiles a (before ++ range ++ after) b) :
    SameMap (before ++ range ++ after) (coreCleanupGcdMapEntry before range after) a b := by
  have hloop := @cleanupLoop_spec before.reverse range after a b (by rwa [reverse_reverse])
  rw [reverse_reverse] at hloop
  have hforward := mergeForward_spec hloop.1
  exact ⟨hforward.1, fun x => (hforward.2 x).trans (hloop.2 x)⟩

end

section
variable {σ : Type} {change : σ → GcdDescriptor → σ × GcdDescriptor} {st : σ}
  {map : List GcdMapEntry} {max baseAddress length last s e : Nat} {r : MapRange}

section
variable (hr : IsRange map max baseAddress last r s e)
include hr

theorem IsRange.lookup {x : Nat} (hx : baseAddress ≤ x ∧ x ≤ last) : lookup map x = lookup r.range x := by
  have hs := hr.start_le
  have he := hr.lt_end
  rw [hr.map, lookup_append_left hr.after (by omega), lookup_append_right hr.before (by omega)]

theorem IsRange.getElem?_range {m : Nat}
    {f : GcdMapEntry} (hf : r.range[m]? = some f) : map[r.before.length+m]? = some f := by
  have hlt := (List.getElem?_eq_some_iff.mp hf).1
  rw [hr.map, append_assoc, List.getElem?_append_right (Nat.le_add_right _ _),
    Nat.add_sub_cancel_left, List.getElem?_append_left hlt, hf]

/-- The new map tiles the address space, and only the addresses of the request have new values. -/
theorem convertRange_spec (hmax : max < 2^64)
    (hle : baseAddress ≤ last) (hlen : baseAddress+length = last+1) :
    ∃ map', convertRange baseAddress length change st r = some map' ∧ Tiles 0 map' (max+1) ∧
      ∀ x, lookup map' x = if baseAddress ≤ x ∧ x ≤ last then
        lookup (thread change st r.range) x else lookup map x := by
  have he := hr.after.le
  obtain ⟨c,hc,htiles,hlookup⟩ := @convertEntries_spec σ change st r.range baseAddress length
    last s e hr.range hr.start_le hle hr.meets hr.lt_end (by omega) hlen
  have hassoc : r.before ++ c.bottomEntry.toList ++ c.range ++ (c.topEntry.toList ++ r.after) =
      r.before ++ c.entries ++ r.after := by simp [Converted.entries]
  have hall : Tiles 0 (r.before ++ c.entries ++ r.after) (max+1) :=
    tiles_append.mpr ⟨e, tiles_append.mpr ⟨s, hr.before, htiles⟩, hr.after⟩
  have hclean := @coreCleanupGcdMapEntry_spec (r.before ++ c.bottomEntry.toList)
    (c.topEntry.toList ++ r.after) 0 (max+1) c.range (by rw [hassoc]; exact hall)
  rw [hassoc] at hclean
  rw [convertRange, hc]
  refine ⟨_, rfl, hclean.1, fun x => ?_⟩
  have hs := hr.start_le
  have hlt := hr.lt_end
  rw [hclean.2, hr.map, lookup_append, lookup_append, lookup_append, lookup_append, hlookup]
  by_cases hx : baseAddress ≤ x ∧ x ≤ last
  · rw [if_pos hx, if_pos hx, lookup_eq_none_of_le hr.before (by omega),
      lookup_eq_none_of_lt hr.after (by omega), none_or, Option.or_none]
  · rw [if_neg hx, if_neg hx]

end

end

end Liano.Gcd
