import Liano.Dhcp4.Parse

/-! The packet built from a seed: its options are the seed's without the deleted and with the appended ones, it
fills its buffer exactly, and when it parses back to these options. -/
namespace Liano.Dhcp4

open Function (update_of_ne update_self)
open List hiding min

open Bytes Lib.Gather

variable {occ : List (Nat × Bytes)} {value : Nat → Bytes} {t u : Nat} {v : Bytes}

def lastAppended (appendList : List EfiDhcp4PacketOption) (t : Nat) : Option EfiDhcp4PacketOption :=
  appendList.reverse.find? fun a => a.opCode.toNat = t

def builtValue (occ : List (Nat × Bytes)) (deleteList : List UInt8) (appendList : List EfiDhcp4PacketOption)
    (t : Nat) : Bytes := match lastAppended appendList t with
  | some a => a.data
  | none => if t ∈ deleteList.map UInt8.toNat then [] else gather occ t

structure Marks (option : DhcpOption) (t : Nat) (v : Bytes) : Prop where
  tag : option.tag = t
  len : option.len = v.length
  data : option.data.take v.length = v

variable {mark : Nat → DhcpOption}

theorem foldl_markSeed {f : Nat → DhcpOption} (hf : ∀ t, (f t).tag = t) (ts : List Nat) (t : Nat) :
    (ts.map f).foldl markSeed mark t = if t ∈ ts then f t else mark t := by
  induction ts generalizing mark with
  | nil => simp
  | cons s ts ih =>
    rw [map_cons, foldl_cons, ih]
    by_cases hmem : t ∈ ts
    · rw [if_pos hmem, if_pos (mem_cons_of_mem s hmem)]
    rw [if_neg hmem, markSeed, hf]
    by_cases heq : t = s
    · subst heq
      rw [update_self, if_pos mem_cons_self]
    · rw [update_of_ne heq, if_neg (by simp [heq, hmem])]

theorem marks_seed (htags : ∀ o ∈ occ, o.1 < DHCP_MAX_OPTIONS) (t : Nat) :
    Marks ((optionMap occ).foldl markSeed initialMark t) t (gather occ t) := by
  rw [optionMap_eq, foldl_markSeed fun _ => rfl]
  split
  · exact ⟨rfl, rfl, take_length⟩
  rename_i hmem
  have hzero : (gather occ t).length = 0 := by
    by_contra hne
    exact hmem (mem_presentTags.mpr ⟨lt_of_valueLen htags hne, hne⟩)
  have hnil := eq_nil_of_length_eq_zero hzero
  rw [hnil]
  exact ⟨rfl, rfl, rfl⟩

theorem Marks.deleted (deleteList : List UInt8) (h : Marks (mark t) t v) :
    Marks (deleteList.foldl markDeleted mark t) t (if t ∈ deleteList.map UInt8.toNat then [] else v) := by
  induction deleteList generalizing mark v with
  | nil => simpa using h
  | cons d ds ih =>
    have hstep : Marks (markDeleted mark d t) t (if t = d.toNat then [] else v) := by
      by_cases heq : t = d.toNat
      · subst heq
        rw [markDeleted, update_self, if_pos rfl]
        exact ⟨h.tag, rfl, rfl⟩
      · rw [markDeleted, update_of_ne heq, if_neg heq]
        exact h
    have hrest := ih hstep
    rw [foldl_cons, map_cons]
    by_cases hmem : t ∈ ds.map UInt8.toNat
    · rw [if_pos hmem] at hrest
      rw [if_pos (mem_cons_of_mem _ hmem)]
      exact hrest
    · rw [if_neg hmem] at hrest
      simpa only [mem_cons, hmem, or_false] using hrest

theorem Marks.appended (appendList : List EfiDhcp4PacketOption) (h : Marks (mark t) t v) :
    Marks (appendList.foldl markAppended mark t) t
      (((lastAppended appendList t).map EfiDhcp4PacketOption.data).getD v) := by
  induction appendList generalizing mark v with
  | nil => exact h
  | cons a as ih =>
    have hstep : Marks (markAppended mark a t) t (if a.opCode.toNat = t then a.data else v) := by
      by_cases heq : a.opCode.toNat = t
      · subst heq
        rw [markAppended, update_self, if_pos rfl]
        exact ⟨h.tag, a.length_data.symm, take_length⟩
      · rw [markAppended, update_of_ne (Ne.symm heq), if_neg heq]
        exact h
    have hrest := ih hstep
    rw [lastAppended, reverse_cons, find?_append]
    rw [lastAppended] at hrest
    cases hlast : as.reverse.find? fun a => a.opCode.toNat = t with
    | some b => simpa [hlast] using hrest
    | none =>
      by_cases heq : a.opCode.toNat = t
      · simpa [hlast, heq] using hrest
      · simpa [hlast, heq] using hrest

theorem marks_spec (htags : ∀ o ∈ occ, o.1 < DHCP_MAX_OPTIONS) (deleteList : List UInt8)
    (appendList : List EfiDhcp4PacketOption) (t : Nat) :
    Marks (marks (optionMap occ) deleteList appendList t) t (builtValue occ deleteList appendList t) := by
  have h := ((marks_seed htags t).deleted deleteList).appended appendList
  rw [marks, builtValue]
  cases hlast : lastAppended appendList t with
  | some a => simpa [hlast] using h
  | none => simpa [hlast] using h

def pieces (v : Bytes) : List Bytes := (range ((v.length+254) / 255)).map fun i => slice v (i*255) 255

theorem flatten_slices (v : Bytes) (k n : Nat) :
    ((range n).map fun i => slice v (i*k) k).flatten = v.take (n*k) := by
  induction n with
  | zero => simp
  | succ n ih =>
    rw [range_succ, map_append, flatten_append, ih, Nat.succ_mul, take_add]
    simp [slice]

theorem flatten_pieces (v : Bytes) : (pieces v).flatten = v := by
  rw [pieces, flatten_slices]
  apply take_of_length_le
  omega

theorem length_piece {p : Bytes} (hp : p ∈ pieces v) :
    0 < p.length ∧ p.length ≤ 255 ∧ p.length ≤ v.length := by
  simp only [pieces, mem_map, mem_range] at hp
  obtain ⟨i,hi,rfl⟩ := hp
  simp only [slice, length_take, length_drop]
  omega

theorem pieces_nil : pieces [] = [] := rfl

def encodePiece (t : Nat) (p : Bytes) : Bytes := UInt8.ofNat t :: UInt8.ofNat p.length :: p

theorem dhcpAppendOption_eq {data : Bytes} (hdata : data.take v.length = v) :
    dhcpAppendOption t v.length data = (pieces v).flatMap (encodePiece t) := by
  rw [dhcpAppendOption, pieces, flatMap_map]
  apply flatMap_congr
  intro i _
  have hslice : slice data (i*255) (min 255 (v.length - i*255)) = slice v (i*255) 255 := by
    conv_rhs => rw [← hdata]
    simp only [slice]
    rw [← take_take, ← drop_take]
  have hlen : (slice v (i*255) 255).length = min 255 (v.length - i*255) := by simp [slice]
  rw [optionPiece, encodePiece, hlen]
  simp only [hslice]

theorem areaOptions_pieces {b : Bytes} {os : List (Nat × Bytes)} {ps : List Bytes} (ht : 0 < t ∧ t < 255)
    (hps : ∀ p ∈ ps, p.length ≤ 255) (h : AreaOptions b os) :
    AreaOptions (ps.flatMap (encodePiece t) ++ b) (ps.map (fun p => (t,p)) ++ os) := by
  induction ps with
  | nil => exact h
  | cons p ps ih =>
    have htag : (UInt8.ofNat t).toNat = t := UInt8.toNat_ofNat_of_lt (lt_trans ht.2 (by decide))
    have hlen : (UInt8.ofNat p.length).toNat = p.length :=
      UInt8.toNat_ofNat_of_lt (Nat.lt_succ_of_le (hps p mem_cons_self))
    have hrest := ih fun q hq => hps q (mem_cons_of_mem p hq)
    have hpad : (UInt8.ofNat t).toNat ≠ DHCP4_TAG_PAD := by
      rw [htag]
      exact ne_of_gt ht.1
    have heop : (UInt8.ofNat t).toNat ≠ DHCP4_TAG_EOP := by
      rw [htag]
      exact ne_of_lt ht.2
    have hoption := AreaOptions.option hpad heop hlen.symm hrest
    rw [htag] at hoption
    simpa [encodePiece, append_assoc] using hoption

theorem gather_pieces (ps : List Bytes) :
    gather (ps.map fun p => (u,p)) t = if u = t then ps.flatten else [] := by
  by_cases h : u = t
  · rw [if_pos h]
    induction ps with
    | nil => rfl
    | cons p ps ih => rw [map_cons, gather_cons, ih, if_pos h, flatten_cons]
  · rw [if_neg h]
    apply gather_eq_nil_of_not_mem
    simp [h]

def builtOptions (value : Nat → Bytes) : List (Nat × Bytes) :=
  (range DHCP_MAX_OPTIONS).flatMap fun t => (pieces (value t)).map fun p => (t,p)

def builtBytes (value : Nat → Bytes) : Bytes :=
  (range DHCP_MAX_OPTIONS).flatMap fun t => (pieces (value t)).flatMap (encodePiece t)

theorem packetOptions_eq (h : ∀ t, Marks (mark t) t (value t)) :
    packetOptions mark = builtBytes value ++ [UInt8.ofNat DHCP4_TAG_EOP] := by
  rw [packetOptions, builtBytes]
  congr 1
  apply flatMap_congr
  intro t _
  rw [(h t).len, (h t).tag]
  split
  · exact dhcpAppendOption_eq (h t).data
  · rename_i hzero
    have hnil : value t = [] := eq_nil_of_length_eq_zero (by simpa using hzero)
    simp [hnil, pieces_nil]

theorem flatMap_range_ite {α : Type*} {n : Nat} (f : Nat → List α) :
    ((range n).flatMap fun u => if u = t then f u else []) = if t < n then f t else [] := by
  induction n with
  | zero => rfl
  | succ n ih =>
    rw [range_succ, flatMap_append, ih, flatMap_singleton]
    rcases lt_trichotomy t n with hlt | heq | hgt
    · rw [if_pos hlt, if_neg (by omega), if_pos (by omega), append_nil]
    · subst heq
      rw [if_neg (by omega), if_pos rfl, if_pos (by omega), nil_append]
    · rw [if_neg (by omega), if_neg (by omega), if_neg (by omega), append_nil]

theorem gather_builtOptions (ht : t < DHCP_MAX_OPTIONS) : gather (builtOptions value) t = value t := by
  have hparts : gather (builtOptions value) t =
      (range DHCP_MAX_OPTIONS).flatMap fun u => gather ((pieces (value u)).map fun p => (u,p)) t := by
    simp only [gather, builtOptions, flatMap_assoc]
  rw [hparts]
  simp only [gather_pieces, flatten_pieces]
  rw [flatMap_range_ite, if_pos ht]

theorem mem_builtOptions {o : Nat × Bytes} (h : o ∈ builtOptions value) :
    o.1 < DHCP_MAX_OPTIONS ∧ o.2 ∈ pieces (value o.1) := by
  simp only [builtOptions, mem_flatMap, mem_range, mem_map] at h
  obtain ⟨t,ht,p,hp,rfl⟩ := h
  exact ⟨ht, hp⟩

theorem areaOptions_tags {ts : List Nat} (h : ∀ t ∈ ts, value t ≠ [] → 0 < t ∧ t < 255) :
    AreaOptions ((ts.flatMap fun t => (pieces (value t)).flatMap (encodePiece t)) ++ [UInt8.ofNat DHCP4_TAG_EOP])
      (ts.flatMap fun t => (pieces (value t)).map fun p => (t,p)) := by
  induction ts with
  | nil => exact .eop [] rfl
  | cons t ts ih =>
    have hrest := ih fun s hs => h s (mem_cons_of_mem t hs)
    rw [flatMap_cons, flatMap_cons, append_assoc]
    by_cases hnil : value t = []
    · rw [hnil]
      exact hrest
    · exact areaOptions_pieces (h t mem_cons_self hnil) (fun p hp => (length_piece hp).2.1) hrest

/-- Without values under the tags of pads and end marks the option area holds the options. -/
theorem areaOptions_built (hpad : value 0 = []) (heop : value 255 = []) :
    AreaOptions (builtBytes value ++ [UInt8.ofNat DHCP4_TAG_EOP]) (builtOptions value) := by
  apply areaOptions_tags
  intro t ht hne
  have hlt : t < 256 := mem_range.mp ht
  have h0 : t ≠ 0 := fun h => hne (h ▸ hpad)
  have h255 : t ≠ 255 := fun h => hne (h ▸ heop)
  omega

def encodedLen (n : Nat) : Nat := (n+254) / 255 * 2 + n

theorem length_flatMap_encodePiece (ps : List Bytes) :
    (ps.flatMap (encodePiece t)).length = ps.length*2+ps.flatten.length := by
  induction ps with
  | nil => rfl
  | cons p ps ih =>
    simp only [flatMap_cons, length_append, ih, encodePiece, length_cons, flatten_cons]
    omega

theorem length_builtBytes : (builtBytes value).length =
    ((range DHCP_MAX_OPTIONS).map fun t => encodedLen (value t).length).sum := by
  rw [builtBytes, length_flatMap]
  congr 1
  apply map_congr_left
  intro t _
  rw [length_flatMap_encodePiece, flatten_pieces, pieces, length_map, length_range, encodedLen]

theorem foldl_packetLen {lens : List Nat} {len : Nat} (h : len + (lens.map encodedLen).sum < 2^32) :
    lens.foldl (fun len n => if n ≠ 0 then toUint32 (len + (n+254) / 255 * 2 + n) else len) len =
      len + (lens.map encodedLen).sum := by
  induction lens generalizing len with
  | nil => rfl
  | cons n lens ih =>
    rw [map_cons, sum_cons] at h
    rw [foldl_cons, map_cons, sum_cons, ← add_assoc]
    by_cases hn : n = 0
    · subst hn
      exact ih (by simpa [encodedLen] using h)
    have hlen : toUint32 (len + (n+254) / 255 * 2 + n) = len + encodedLen n := by
      rw [toUint32_of_lt]
      · rw [encodedLen, add_assoc]
      · simp only [encodedLen] at h
        omega
    rw [if_pos hn, hlen]
    exact ih (by omega)

theorem sum_encodedLen_lt (hvalue : ∀ t < DHCP_MAX_OPTIONS, (value t).length < 2^16) :
    ((range DHCP_MAX_OPTIONS).map fun t => encodedLen (value t).length).sum ≤ 2^25 := by
  have hle := sum_le_card_nsmul ((range DHCP_MAX_OPTIONS).map fun t => encodedLen (value t).length)
    (2^17) ?_
  · rw [length_map, length_range] at hle
    exact hle
  · simp only [mem_map, mem_range]
    rintro _ ⟨t,ht,rfl⟩
    have hlt := hvalue t ht
    rw [encodedLen]
    omega

theorem packetLen_eq (h : ∀ t, Marks (mark t) t (value t))
    (hvalue : ∀ t < DHCP_MAX_OPTIONS, (value t).length < 2^16) :
    packetLen mark = sizeofPacket + (builtBytes value).length := by
  have hsum := sum_encodedLen_lt hvalue
  rw [← length_builtBytes] at hsum
  have hlens : ((range DHCP_MAX_OPTIONS).map fun t => (value t).length).map encodedLen =
      (range DHCP_MAX_OPTIONS).map fun t => encodedLen (value t).length := by
    rw [map_map]
    rfl
  have hfits : sizeofPacket + (((range DHCP_MAX_OPTIONS).map fun t => (value t).length).map encodedLen).sum <
      2^32 := by
    rw [hlens, ← length_builtBytes]
    simp only [sizeofPacket]
    omega
  have hfold := foldl_packetLen hfits
  rw [foldl_map, hlens, ← length_builtBytes] at hfold
  rw [packetLen, ← hfold]
  simp only [(h _).len]

end Liano.Dhcp4
