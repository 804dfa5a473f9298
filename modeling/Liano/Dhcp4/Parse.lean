import Liano.Dhcp4.Areas
import Liano.Lib.Gather

/-! Parsing by key-indexed counting: the lengths of the first pass, the indices and offsets computed from them,
and the array and buffer that the second pass fills. -/
namespace Liano.Dhcp4

open Function (update update_of_ne update_self)
open List

open Bytes Lib.Gather

variable {occ pre : List (Nat × Bytes)} {o : Nat × Bytes} {t u k : Nat}

def valueLen (occ : List (Nat × Bytes)) (t : Nat) : Nat := (gather occ t).length

def totalLen (occ : List (Nat × Bytes)) : Nat := place (valueLen occ) DHCP_MAX_OPTIONS

def presentTags (occ : List (Nat × Bytes)) : List Nat :=
  (range DHCP_MAX_OPTIONS).filter fun t => valueLen occ t ≠ 0

def optionsOf (value : Nat → Bytes) : List DhcpOption :=
  ((range DHCP_MAX_OPTIONS).filter fun t => (value t).length ≠ 0).map fun t => ⟨t, (value t).length, value t⟩

def optionMap (occ : List (Nat × Bytes)) : List DhcpOption := optionsOf (gather occ)

theorem optionMap_eq : optionMap occ = (presentTags occ).map fun t => ⟨t, valueLen occ t, gather occ t⟩ := rfl

theorem valueLen_cons : valueLen (o :: occ) t = (if o.1 = t then o.2.length else 0) + valueLen occ t := by
  rw [valueLen, gather_cons, length_append, valueLen]
  split <;> rfl

theorem valueLen_append_single : valueLen (pre ++ [o]) t = valueLen pre t + if o.1 = t then o.2.length else 0 := by
  rw [valueLen, gather_append, length_append, gather_single, valueLen]
  split <;> rfl

variable {opCount : Nat → DhcpOptionCount} {context : DhcpOptionContext} {rest : List (Nat × Bytes)}

theorem foldl_getOptionLen (h : ∀ t, (opCount t).offset < 2^16) (t : Nat) :
    occ.foldl (checked dhcpGetOptionLen) opCount t =
      ⟨(opCount t).index, toUint16 ((opCount t).offset + valueLen occ t)⟩ := by
  induction occ generalizing opCount with
  | nil =>
    show opCount t = ⟨(opCount t).index, toUint16 ((opCount t).offset + 0)⟩
    rw [add_zero, toUint16, Nat.mod_eq_of_lt (h t)]
  | cons o occ ih =>
    have hstep : checked dhcpGetOptionLen opCount o = update opCount o.1
        { opCount o.1 with offset := toUint16 ((opCount o.1).offset + o.2.length) } := rfl
    have hlt : ∀ t, (checked dhcpGetOptionLen opCount o t).offset < 2^16 := by
      intro t
      rw [hstep]
      by_cases ht : t = o.1
      · subst ht
        rw [update_self]
        exact Nat.mod_lt _ (by decide)
      · rw [update_of_ne ht]
        exact h t
    rw [foldl_cons, ih hlt, hstep, valueLen_cons]
    by_cases ht : t = o.1
    · subst ht
      simp only [update_self, if_pos, toUint16, Nat.mod_add_mod, add_assoc]
    · rw [update_of_ne ht, if_neg (Ne.symm ht), zero_add]

def countedLen (occ : List (Nat × Bytes)) (t : Nat) : Nat := toUint16 (valueLen occ t)

def countAfter (occ : List (Nat × Bytes)) (k t : Nat) : DhcpOptionCount :=
  if t < k ∧ countedLen occ t ≠ 0 then ⟨rank (countedLen occ) t % 256, toUint16 (place (countedLen occ) t)⟩
  else ⟨0, countedLen occ t⟩

theorem toUint16_back {p l : Nat} (h : l < 2^16) : toUint16 (toUint16 (p+l) + (2^16-l)) = toUint16 p := by
  simp only [toUint16]
  omega

theorem foldl_step (h : ∀ t, opCount t = ⟨0, countedLen occ t⟩) :
    (range k).foldl Counting.step ⟨0, 0, opCount⟩ =
      ⟨toUint16 (place (countedLen occ) k), rank (countedLen occ) k, countAfter occ k⟩ := by
  induction k with
  | zero =>
    have hzero : opCount = countAfter occ 0 := by
      funext t
      rw [h t, countAfter, if_neg (by simp)]
    rw [range_zero, foldl_nil, hzero]
    rfl
  | succ k ih =>
    have hat : countAfter occ k k = ⟨0, countedLen occ k⟩ := by rw [countAfter, if_neg (by simp)]
    rw [range_succ, foldl_append, ih, foldl_cons, foldl_nil]
    simp only [Counting.step, hat]
    by_cases hk : countedLen occ k = 0
    · have hsame : countAfter occ (k+1) = countAfter occ k := by
        funext t
        by_cases ht : t = k
        · subst ht
          simp [countAfter, hk]
        · have hiff : t < k+1 ↔ t < k := by omega
          simp only [countAfter, hiff]
      rw [if_neg (by simpa using hk), place_succ, rank_succ, hk, hsame]
      rfl
    · have hlt : countedLen occ k < 2^16 := Nat.mod_lt _ (by decide)
      have htotal : toUint16 (toUint16 (place (countedLen occ) k) + countedLen occ k) =
          toUint16 (place (countedLen occ) (k+1)) := by
        rw [place_succ]
        exact Nat.mod_add_mod _ _ _
      have hoff : toUint16 (toUint16 (place (countedLen occ) (k+1)) + (2^16 - countedLen occ k)) =
          toUint16 (place (countedLen occ) k) := by
        rw [place_succ]
        exact toUint16_back hlt
      simp only [htotal, hoff, rank_succ, if_pos hk]
      congr 1
      funext t
      by_cases ht : t = k
      · subst ht
        rw [update_self, countAfter, if_pos ⟨Nat.lt_succ_self _, hk⟩]
      · have hiff : t < k+1 ↔ t < k := by omega
        rw [update_of_ne ht]
        simp only [countAfter, hiff]

def counting (occ : List (Nat × Bytes)) : Counting :=
  ⟨toUint16 (place (countedLen occ) DHCP_MAX_OPTIONS), rank (countedLen occ) DHCP_MAX_OPTIONS,
    countAfter occ DHCP_MAX_OPTIONS⟩

theorem countOptions_foldl :
    countOptions (occ.foldl (checked dhcpGetOptionLen) fun _ => ⟨0, 0⟩) = counting occ := by
  apply foldl_step
  intro t
  rw [foldl_getOptionLen fun _ => by decide, zero_add]
  rfl

def baseOf (occ : List (Nat × Bytes)) (t : Nat) : Nat := (countAfter occ DHCP_MAX_OPTIONS t).offset

def indexOf (occ : List (Nat × Bytes)) (t : Nat) : Nat := (countAfter occ DHCP_MAX_OPTIONS t).index

/-- The counts and the buffer after some of the options, while no access has left the buffer. -/
structure Filling (occ pre : List (Nat × Bytes)) (context : DhcpOptionContext) : Prop where
  opCount : ∀ t, context.opCount t = ⟨indexOf occ t, toUint16 (baseOf occ t + valueLen pre t)⟩
  length_buf : context.buf.length = (counting occ).totalLen
  optNum : context.optNum = (counting occ).optNum
  inside : ∀ t, valueLen pre t = 0 ∨ baseOf occ t + valueLen pre t ≤ (counting occ).totalLen
  outside : context.outside = false

theorem baseOf_lt : baseOf occ t < 2^16 := by
  rw [baseOf, countAfter]
  split
  · exact Nat.mod_lt _ (by decide)
  · exact Nat.mod_lt _ (by decide)

theorem totalLen_counting_lt : (counting occ).totalLen < 2^16 := Nat.mod_lt _ (by decide)

theorem filling_initial : Filling occ [] (optionContext (counting occ)) where
  opCount := fun t => by
    have hlt : toUint16 (baseOf occ t) = baseOf occ t := Nat.mod_eq_of_lt baseOf_lt
    show countAfter occ DHCP_MAX_OPTIONS t = ⟨indexOf occ t, toUint16 (baseOf occ t + 0)⟩
    rw [add_zero, hlt, indexOf, baseOf]
  length_buf := by simp only [optionContext, length_replicate]
  optNum := by rw [optionContext]
  inside := by simp [valueLen]
  outside := rfl

theorem Filling.offset_eq (h : Filling occ pre context) :
    (context.opCount t).offset = baseOf occ t + valueLen pre t := by
  have hlt : baseOf occ t < 2^16 := baseOf_lt
  have htotal : (counting occ).totalLen < 2^16 := totalLen_counting_lt
  rw [h.opCount]
  rcases h.inside t with hzero | hle
  · rw [hzero]
    exact Nat.mod_eq_of_lt hlt
  · exact Nat.mod_eq_of_lt (by omega)

def Fits (occ pre : List (Nat × Bytes)) (o : Nat × Bytes) : Prop := indexOf occ o.1 < (counting occ).optNum ∧
    (o.2 = [] ∨ baseOf occ o.1 + valueLen pre o.1 + o.2.length ≤ (counting occ).totalLen)

def filled (context : DhcpOptionContext) (o : Nat × Bytes) : DhcpOptionContext :=
  let count := context.opCount o.1
  let entry := context.options count.index
  let entry := if entry.data = none then { entry with tag := o.1, data := some count.offset } else entry
  { context with
    opCount := update context.opCount o.1 { count with offset := toUint16 (count.offset+o.2.length) }
    options := update context.options count.index { entry with len := toUint16 (entry.len+o.2.length) }
    buf := patch context.buf count.offset o.2 }

theorem Filling.checked_eq (h : Filling occ pre context) :
    (Fits occ pre o ∧ checked dhcpFillOption context o = filled context o) ∨
    (¬ Fits occ pre o ∧ (checked dhcpFillOption context o).outside = true) := by
  have hidx : (context.opCount o.1).index = indexOf occ o.1 := by rw [h.opCount]
  have hfits : ((context.opCount o.1).index < context.optNum ∧
      (o.2 = [] ∨ (context.opCount o.1).offset + o.2.length ≤ context.buf.length)) ↔ Fits occ pre o := by
    rw [hidx, h.offset_eq, h.length_buf, h.optNum, Fits]
  by_cases hf : Fits occ pre o
  · refine .inl ⟨hf, ?_⟩
    rw [checked, dhcpFillOption]
    rw [if_pos (hfits.mpr hf)]
    rfl
  · refine .inr ⟨hf, ?_⟩
    rw [checked, dhcpFillOption]
    rw [if_neg (fun hc => hf (hfits.mp hc))]

theorem Filling.filled (h : Filling occ pre context) (hf : Fits occ pre o) :
    Filling occ (pre ++ [o]) (filled context o) where
  opCount := by
    intro t
    by_cases ht : t = o.1
    · subst ht
      simp only [Dhcp4.filled, update_self, h.opCount, valueLen_append_single, if_pos, toUint16,
        Nat.mod_add_mod, add_assoc]
    · simp only [Dhcp4.filled, update_of_ne ht, h.opCount, valueLen_append_single,
        if_neg (Ne.symm ht), add_zero]
  length_buf := by
    rcases hf.2 with hnil | hle
    · simp only [Dhcp4.filled, hnil, patch_nil]
      exact h.length_buf
    · simp only [Dhcp4.filled, h.offset_eq]
      rw [length_patch (by rw [h.length_buf]; exact hle), h.length_buf]
  optNum := h.optNum
  inside := by
    intro t
    rw [valueLen_append_single]
    by_cases ht : o.1 = t
    · subst ht
      rw [if_pos rfl]
      rcases hf.2 with hnil | hle
      · rw [hnil]
        exact h.inside o.1
      · exact .inr (by omega)
    · rw [if_neg ht]
      exact h.inside t
  outside := h.outside

theorem outside_foldl (h : context.outside = true) :
    (occ.foldl (checked dhcpFillOption) context).outside = true := by
  induction occ generalizing context with
  | nil => exact h
  | cons o occ ih =>
    apply ih
    rw [checked, dhcpFillOption]
    split
    · exact h
    · rfl

theorem Filling.foldl (h : Filling occ pre context) :
    (rest.foldl (checked dhcpFillOption) context).outside = true ∨
      Filling occ (pre ++ rest) (rest.foldl (checked dhcpFillOption) context) := by
  induction rest generalizing pre context with
  | nil => exact .inr (by simpa using h)
  | cons o rest ih =>
    rw [foldl_cons]
    rcases h.checked_eq (o := o) with ⟨hfits,heq⟩ | ⟨-,hout⟩
    · rw [heq]
      have hrest := ih (h.filled hfits)
      rwa [append_assoc] at hrest
    · exact .inl (outside_foldl hout)

theorem Filling.totalLen_lt (h : Filling occ occ context) : totalLen occ < 2^16 := by
  have htotal : (counting occ).totalLen < 2^16 := totalLen_counting_lt
  have hcnt : ∀ t, countedLen occ t = valueLen occ t := by
    intro t
    rcases h.inside t with hzero | hle
    · rw [countedLen, hzero]
      rfl
    · exact Nat.mod_eq_of_lt (by omega)
  have hplace : ∀ k ≤ DHCP_MAX_OPTIONS, place (valueLen occ) k ≤ (counting occ).totalLen := by
    intro k hk
    induction k with
    | zero => exact Nat.zero_le _
    | succ k ih =>
      rw [place_succ]
      rcases h.inside k with hzero | hle
      · omega
      by_cases hzero : valueLen occ k = 0
      · omega
      have hbase : baseOf occ k = place (valueLen occ) k := by
        have hcond : k < DHCP_MAX_OPTIONS ∧ countedLen occ k ≠ 0 := ⟨by omega, by rw [hcnt]; exact hzero⟩
        rw [baseOf, countAfter, if_pos hcond, funext hcnt]
        exact Nat.mod_eq_of_lt (by omega)
      omega
  have hall := hplace _ le_rfl
  rw [totalLen]
  omega

section NoWrap

variable (htags : ∀ o ∈ occ, o.1 < DHCP_MAX_OPTIONS) (hfew : totalLen occ < 2^16)

include htags

theorem valueLen_eq_zero (ht : DHCP_MAX_OPTIONS ≤ t) : valueLen occ t = 0 := by
  rw [valueLen, gather_eq_nil_of_not_mem, length_nil]
  intro o ho heq
  have hlt := htags o ho
  omega

theorem lt_of_valueLen (h : valueLen occ t ≠ 0) : t < DHCP_MAX_OPTIONS := by
  by_contra hge
  exact h (valueLen_eq_zero htags (by omega))

theorem place_valueLen_le : place (valueLen occ) t + valueLen occ t ≤ totalLen occ := by
  rcases lt_or_ge t DHCP_MAX_OPTIONS with hlt | hge
  · exact place_add_le hlt
  have hbeh : ∀ k, place (valueLen occ) (DHCP_MAX_OPTIONS+k) = totalLen occ := by
    intro k
    induction k with
    | zero => rfl
    | succ k ih =>
      rw [← add_assoc, place_succ, ih, valueLen_eq_zero htags (Nat.le_add_right _ _), add_zero]
  obtain ⟨k,rfl⟩ := Nat.exists_eq_add_of_le hge
  rw [hbeh, valueLen_eq_zero htags (Nat.le_add_right _ _), add_zero]

include hfew

theorem countedLen_eq : countedLen occ = valueLen occ := by
  funext t
  have hle := place_valueLen_le htags (t := t)
  exact Nat.mod_eq_of_lt (by omega)

theorem counting_totalLen : (counting occ).totalLen = totalLen occ := by
  rw [counting, countedLen_eq htags hfew]
  exact Nat.mod_eq_of_lt hfew

theorem counting_optNum : (counting occ).optNum = rank (valueLen occ) DHCP_MAX_OPTIONS := by
  rw [counting, countedLen_eq htags hfew]

theorem baseOf_eq (h : valueLen occ t ≠ 0) : baseOf occ t = place (valueLen occ) t := by
  have hle := place_valueLen_le htags (t := t)
  have hcond : t < DHCP_MAX_OPTIONS ∧ valueLen occ t ≠ 0 := ⟨lt_of_valueLen htags h, h⟩
  rw [baseOf, countAfter, countedLen_eq htags hfew, if_pos hcond]
  exact Nat.mod_eq_of_lt (by omega)

theorem indexOf_eq (h : valueLen occ t ≠ 0) : indexOf occ t = rank (valueLen occ) t := by
  have hlt := lt_of_valueLen htags h
  rw [indexOf, countAfter, countedLen_eq htags hfew, if_pos ⟨hlt, h⟩]
  exact Nat.mod_eq_of_lt (lt_of_le_of_lt rank_le hlt)

theorem countAfter_of_zero (h : valueLen occ t = 0) : baseOf occ t = 0 ∧ indexOf occ t = 0 := by
  have hcond : ¬ (t < DHCP_MAX_OPTIONS ∧ valueLen occ t ≠ 0) := fun hc => hc.2 h
  rw [baseOf, indexOf, countAfter, countedLen_eq htags hfew, if_neg hcond]
  exact ⟨h, rfl⟩

theorem indexOf_lt (h : 0 < (counting occ).optNum) : indexOf occ t < (counting occ).optNum := by
  by_cases hzero : valueLen occ t = 0
  · rw [(countAfter_of_zero htags hfew hzero).2]
    exact h
  · rw [indexOf_eq htags hfew hzero, counting_optNum htags hfew]
    exact rank_lt (lt_of_valueLen htags hzero) hzero

theorem baseOf_add_le : baseOf occ t + valueLen occ t ≤ totalLen occ := by
  by_cases hzero : valueLen occ t = 0
  · rw [(countAfter_of_zero htags hfew hzero).1, hzero]
    exact Nat.zero_le _
  · rw [baseOf_eq htags hfew hzero]
    exact place_valueLen_le htags

/-- Tags that share an entry: only one of them has a value, and then it is the first entry. -/
theorem baseOf_of_indexOf_eq (ht : valueLen occ t ≠ 0) (hne : u ≠ t) (h : indexOf occ u = indexOf occ t) :
    valueLen occ u = 0 ∧ baseOf occ t = 0 := by
  have hu : valueLen occ u = 0 := by
    by_contra hu
    rw [indexOf_eq htags hfew hu, indexOf_eq htags hfew ht] at h
    exact hne (rank_inj hu ht h)
  refine ⟨hu, ?_⟩
  rw [(countAfter_of_zero htags hfew hu).2, indexOf_eq htags hfew ht] at h
  rw [baseOf_eq htags hfew ht, place]
  apply Finset.sum_eq_zero
  intro i hi
  by_contra hne
  have hlt := rank_lt (Finset.mem_range.mp hi) hne
  omega

end NoWrap

def firstTag (occ pre : List (Nat × Bytes)) (index : Nat) : Option Nat :=
  (pre.find? fun o => indexOf occ o.1 = index).map Prod.fst

def entryOf (occ pre : List (Nat × Bytes)) (t : Nat) : OptionEntry :=
  match firstTag occ pre (indexOf occ t) with
  | none => ⟨0, 0, none⟩
  | some label => ⟨label, valueLen pre t, some (baseOf occ t)⟩

theorem firstTag_append_single (index : Nat) : firstTag occ (pre ++ [o]) index =
    (firstTag occ pre index).or (if indexOf occ o.1 = index then some o.1 else none) := by
  rw [firstTag, find?_append, firstTag]
  cases pre.find? fun o => indexOf occ o.1 = index with
  | some p => rfl
  | none =>
    by_cases h : indexOf occ o.1 = index
    · simp [h]
    · simp [h]

theorem valueLen_of_firstTag (h : firstTag occ pre (indexOf occ t) = none) : valueLen pre t = 0 := by
  rw [firstTag, Option.map_eq_none_iff, find?_eq_none] at h
  rw [valueLen, gather_eq_nil_of_not_mem, length_nil]
  intro o ho heq
  exact h o ho (by simp [heq])

/-- The values so far lie in the buffer at their places, and the entries describe them. -/
structure Contents (occ pre : List (Nat × Bytes)) (context : DhcpOptionContext) : Prop where
  filling : Filling occ pre context
  value : ∀ t, valueLen occ t ≠ 0 → slice context.buf (baseOf occ t) (valueLen pre t) = gather pre t
  entry : ∀ t, valueLen occ t ≠ 0 → context.options (indexOf occ t) = entryOf occ pre t

theorem contents_initial : Contents occ [] (optionContext (counting occ)) where
  filling := filling_initial
  value := fun t _ => by simp [valueLen, slice]
  entry := fun t _ => rfl

section Fill

variable {rest : List (Nat × Bytes)} {context : DhcpOptionContext}
  (htags : ∀ o ∈ occ, o.1 < DHCP_MAX_OPTIONS) (hfew : totalLen occ < 2^16)
  (hocc : occ = pre ++ o :: rest)

include hocc in
theorem valueLen_add_le : valueLen pre t + (if o.1 = t then o.2.length else 0) ≤ valueLen occ t := by
  have hlen : valueLen occ t = valueLen pre t + ((if o.1 = t then o.2.length else 0) + valueLen rest t) := by
    rw [hocc, ← valueLen_cons, valueLen, gather_append, length_append]
    rfl
  omega

include htags hfew hocc

theorem fits_of_few (hnum : 0 < (counting occ).optNum) : Fits occ pre o := by
  have hle := valueLen_add_le hocc (t := o.1)
  have hbase := baseOf_add_le htags hfew (t := o.1)
  rw [if_pos rfl] at hle
  refine ⟨indexOf_lt htags hfew hnum, .inr ?_⟩
  rw [counting_totalLen htags hfew]
  omega

theorem Contents.shared (h : Contents occ pre context) (ht : valueLen occ t ≠ 0)
    (hidx : indexOf occ o.1 = indexOf occ t) : valueLen (pre ++ [o]) t = valueLen pre t + o.2.length ∧
      (firstTag occ pre (indexOf occ t) = none → (context.opCount o.1).offset = baseOf occ t) := by
  rw [h.filling.offset_eq, valueLen_append_single]
  by_cases heq : o.1 = t
  · subst heq
    rw [if_pos rfl]
    refine ⟨rfl, fun hnone => ?_⟩
    rw [valueLen_of_firstTag hnone, add_zero]
  obtain ⟨hzero,hbase⟩ := baseOf_of_indexOf_eq htags hfew ht heq hidx
  have hle := valueLen_add_le hocc (t := o.1)
  rw [if_pos rfl, hzero] at hle
  rw [if_neg heq, hbase, (countAfter_of_zero htags hfew hzero).1]
  refine ⟨?_, fun _ => ?_⟩
  · omega
  · omega

theorem Contents.filled (h : Contents occ pre context) (hnum : 0 < (counting occ).optNum) :
    Contents occ (pre ++ [o]) (filled context o) where
  filling := h.filling.filled (fits_of_few htags hfew hocc hnum)
  value := by
    intro t ht
    have hbuf := h.filling.length_buf
    have hoff := h.filling.offset_eq (t := o.1)
    have hbnd := baseOf_add_le htags hfew (t := o.1)
    have hpart := valueLen_add_le hocc (t := o.1)
    rw [if_pos rfl] at hpart
    rw [counting_totalLen htags hfew] at hbuf
    simp only [Dhcp4.filled, hoff]
    rw [valueLen_append_single, gather_append, gather_single]
    by_cases heq : o.1 = t
    · subst heq
      rw [if_pos rfl, if_pos rfl, slice_patch_behind (by omega), h.value _ ht]
    rw [if_neg heq, if_neg heq, add_zero, append_nil]
    by_cases hzero : valueLen occ o.1 = 0
    · have hnil : o.2 = [] := eq_nil_of_length_eq_zero (by omega)
      rw [hnil, patch_nil, h.value t ht]
    have hpart' := valueLen_add_le hocc (t := t)
    rw [slice_patch_of_disjoint (by omega) ?_, h.value t ht]
    rw [baseOf_eq htags hfew ht, baseOf_eq htags hfew hzero]
    rcases Nat.lt_or_gt_of_ne heq with hlt | hgt
    · have hplace : place (valueLen occ) o.1 + valueLen occ o.1 ≤ place (valueLen occ) t := place_add_le hlt
      omega
    · have hplace : place (valueLen occ) t + valueLen occ t ≤ place (valueLen occ) o.1 := place_add_le hgt
      omega
  entry := by
    intro t ht
    have hidx : (context.opCount o.1).index = indexOf occ o.1 := by rw [h.filling.opCount]
    have hprev := h.entry t ht
    simp only [Dhcp4.filled, hidx]
    rw [entryOf, firstTag_append_single]
    by_cases heq : indexOf occ o.1 = indexOf occ t
    · obtain ⟨hlen,hoff⟩ := h.shared htags hfew hocc ht heq
      have hlt : valueLen (pre ++ [o]) t < 2^16 := by
        have hpart := valueLen_add_le hocc (t := t)
        have hbnd := baseOf_add_le htags hfew (t := t)
        rw [← valueLen_append_single] at hpart
        omega
      rw [heq, update_self, hprev, entryOf, if_pos rfl, hlen]
      rw [hlen] at hlt
      cases hfst : firstTag occ pre (indexOf occ t) with
      | none =>
        have hzero := valueLen_of_firstTag hfst
        rw [hzero, zero_add] at hlt
        have hfits : toUint16 o.2.length = o.2.length := Nat.mod_eq_of_lt hlt
        simp [hoff hfst, hzero, hfits]
      | some label =>
        have hfits : toUint16 (valueLen pre t + o.2.length) = valueLen pre t + o.2.length :=
          Nat.mod_eq_of_lt hlt
        simp [hfits]
    · have hne : o.1 ≠ t := fun h => heq (by rw [h])
      rw [update_of_ne (Ne.symm heq), if_neg heq, Option.or_none, hprev, entryOf,
        valueLen_append_single, if_neg hne, add_zero]

end Fill

theorem contents_foldl (htags : ∀ o ∈ occ, o.1 < DHCP_MAX_OPTIONS) (hfew : totalLen occ < 2^16)
    (hnum : 0 < (counting occ).optNum) (hocc : occ = pre ++ rest) (h : Contents occ pre context) :
    Contents occ occ (rest.foldl (checked dhcpFillOption) context) := by
  induction rest generalizing pre context with
  | nil =>
    rw [append_nil] at hocc
    subst hocc
    exact h
  | cons o rest ih =>
    rw [foldl_cons]
    rcases h.filling.checked_eq (o := o) with ⟨-,heq⟩ | ⟨hno,-⟩
    · rw [heq]
      exact ih (by simp [hocc]) (h.filled htags hfew hocc hnum)
    · exact absurd (fits_of_few htags hfew hocc hnum) hno

def labelOf (occ : List (Nat × Bytes)) (t : Nat) : Nat := (firstTag occ occ (indexOf occ t)).getD 0

def parsedOptions (occ : List (Nat × Bytes)) : List DhcpOption :=
  (presentTags occ).map fun t => ⟨labelOf occ t, valueLen occ t, gather occ t⟩

theorem mem_presentTags : t ∈ presentTags occ ↔ t < DHCP_MAX_OPTIONS ∧ valueLen occ t ≠ 0 := by
  simp [presentTags]

theorem firstTag_eq_label (ht : valueLen occ t ≠ 0) : firstTag occ occ (indexOf occ t) = some (labelOf occ t) := by
  rw [labelOf]
  cases hfst : firstTag occ occ (indexOf occ t) with
  | none => exact absurd (valueLen_of_firstTag hfst) ht
  | some label => rfl

theorem read_entryOf {buf : Bytes} (ht : valueLen occ t ≠ 0)
    (hval : slice buf (baseOf occ t) (valueLen occ t) = gather occ t) :
    (entryOf occ occ t).read buf = ⟨labelOf occ t, valueLen occ t, gather occ t⟩ := by
  simp [entryOf, firstTag_eq_label ht, OptionEntry.read, hval]

theorem entries_of_contents (htags : ∀ o ∈ occ, o.1 < DHCP_MAX_OPTIONS)
    (hfew : totalLen occ < 2^16) (h : Contents occ occ context) :
    ((range (counting occ).optNum).map fun i => (context.options i).read context.buf) =
      parsedOptions occ := by
  rw [counting_optNum htags hfew, ← map_rank, map_map]
  apply map_congr_left
  intro t ht
  obtain ⟨-,hvalued⟩ := mem_presentTags.mp ht
  rw [Function.comp_apply, ← indexOf_eq htags hfew hvalued, h.entry t hvalued,
    read_entryOf hvalued (h.value t hvalued)]

theorem success_dhcpGetOptionLen (tag : Nat) (data : Bytes) (opCount : Nat → DhcpOptionCount) :
    (dhcpGetOptionLen tag data opCount).1 = .success := rfl

theorem success_dhcpFillOption (tag : Nat) (data : Bytes) (context : DhcpOptionContext) :
    (dhcpFillOption tag data context).1 = .success := by
  rw [dhcpFillOption]
  split <;> rfl

variable {packet : EfiDhcp4Packet}

theorem dhcpIterateOptions_eq {σ : Type*} {check : CheckOption σ} (hheld : packet.Held)
    (hchk : ∀ tag data s, (check tag data s).1 = .success) (hocc : PacketOptions packet occ) (s : σ) :
    dhcpIterateOptions check packet s = some (.success, occ.foldl (checked check) s) := by
  rcases dhcpIterateOptions_spec hchk hheld s with ⟨os,hos,hres⟩ | ⟨hnone,-⟩
  · rw [hres, hos.unique hocc]
  · exact absurd hocc (hnone occ)

theorem dhcpParseOption_malformed (hheld : packet.Held) (h : ∀ occ, ¬ PacketOptions packet occ)
    (optionsAllocated : Bool) : dhcpParseOption true optionsAllocated packet = some (.invalidParameter, []) := by
  rcases dhcpIterateOptions_spec success_dhcpGetOptionLen hheld fun _ => ⟨0, 0⟩ with
    ⟨os, hos, -⟩ | ⟨-, s', hres⟩
  · exact absurd hos (h os)
  · simp [dhcpParseOption, hres, EfiStatus.isError]

theorem dhcpParseOption_eq (hheld : packet.Held) (hocc : PacketOptions packet occ) :
    dhcpParseOption true true packet = if (counting occ).optNum = 0 then some (.success, [])
      else if (occ.foldl (checked dhcpFillOption) (optionContext (counting occ))).outside then none
      else some (.success, (range (counting occ).optNum).map fun i =>
        ((occ.foldl (checked dhcpFillOption) (optionContext (counting occ))).options i).read
          (occ.foldl (checked dhcpFillOption) (optionContext (counting occ))).buf) := by
  simp only [dhcpParseOption, dhcpIterateOptions_eq hheld success_dhcpGetOptionLen hocc, countOptions_foldl,
    Option.bind_some, EfiStatus.isError, Bool.false_eq_true, if_false, if_true, fillOptions,
    dhcpIterateOptions_eq hheld success_dhcpFillOption hocc]

theorem optNum_pos (htags : ∀ o ∈ occ, o.1 < DHCP_MAX_OPTIONS) (hfew : totalLen occ < 2^16)
    (ht : valueLen occ t ≠ 0) : 0 < (counting occ).optNum := by
  have hlt := indexOf_eq htags hfew ht ▸ rank_lt (lt_of_valueLen htags ht) ht
  rw [counting_optNum htags hfew]
  omega

theorem dhcpParseOption_few (hheld : packet.Held) (hocc : PacketOptions packet occ)
    (hfew : totalLen occ < 2^16) : dhcpParseOption true true packet = some (.success, parsedOptions occ) := by
  have htags : ∀ o ∈ occ, o.1 < DHCP_MAX_OPTIONS := fun o ho =>
    lt_trans (hocc.tag_bounds o ho).2 (by decide)
  rw [dhcpParseOption_eq hheld hocc]
  by_cases hnum : (counting occ).optNum = 0
  · have hnone : presentTags occ = [] := by
      rw [eq_nil_iff_forall_not_mem]
      intro t ht
      have hpos := optNum_pos htags hfew (mem_presentTags.mp ht).2
      omega
    rw [if_pos hnum, parsedOptions, hnone]
    rfl
  · have hcont := contents_foldl htags hfew (Nat.pos_of_ne_zero hnum) (nil_append occ).symm
      contents_initial
    rw [if_neg hnum, hcont.filling.outside, entries_of_contents htags hfew hcont]
    rfl

theorem dhcpParseOption_many (hheld : packet.Held) (hocc : PacketOptions packet occ)
    (hmany : 2^16 ≤ totalLen occ) :
    dhcpParseOption true true packet = none ∨ dhcpParseOption true true packet = some (.success, []) := by
  rw [dhcpParseOption_eq hheld hocc]
  by_cases hnum : (counting occ).optNum = 0
  · exact .inr (if_pos hnum)
  rw [if_neg hnum]
  have hinitial : Filling occ [] (optionContext (counting occ)) := filling_initial
  rcases hinitial.foldl with hout | hfilling
  · exact .inl (if_pos hout)
  · have hlt := Filling.totalLen_lt hfilling
    omega

/-- The first option visited that is of the smallest tag with a value, or of a tag without a value, is of the
former: otherwise the first entry is labelled with the latter. -/
def FirstLabelled (occ : List (Nat × Bytes)) : Prop :=
  ∀ t ∈ (presentTags occ).head?, ∀ o ∈ occ.find? (fun o => o.1 = t ∨ valueLen occ o.1 = 0), o.1 = t

section Labels

variable (htags : ∀ o ∈ occ, o.1 < DHCP_MAX_OPTIONS) (hfew : totalLen occ < 2^16)

theorem head_presentTags : t ∈ (presentTags occ).head? ↔ t ∈ presentTags occ ∧ rank (valueLen occ) t = 0 := by
  have hranks : (presentTags occ).map (rank (valueLen occ)) = range (rank (valueLen occ) DHCP_MAX_OPTIONS) :=
    map_rank
  cases hpresent : presentTags occ with
  | nil => simp
  | cons t' ts =>
    rw [hpresent] at hranks
    have hzero : rank (valueLen occ) t' = 0 := by
      cases hnum : rank (valueLen occ) DHCP_MAX_OPTIONS with
      | zero => simp [hnum] at hranks
      | succ n =>
        rw [hnum, range_succ_eq_map, map_cons] at hranks
        exact (cons.inj hranks).1
    have ht' : valueLen occ t' ≠ 0 := (mem_presentTags.mp (hpresent ▸ mem_cons_self)).2
    simp only [head?_cons, Option.mem_def, Option.some.injEq]
    constructor
    · rintro rfl
      exact ⟨mem_cons_self, hzero⟩
    · rintro ⟨ht,hrank⟩
      exact rank_inj ht' (mem_presentTags.mp (hpresent ▸ ht)).2 (hzero.trans hrank.symm)

theorem labelOf_eq_of_find {o : Nat × Bytes} (h : occ.find? (fun o => indexOf occ o.1 = indexOf occ t) = some o) :
    labelOf occ t = o.1 := by
  rw [labelOf, firstTag, h]
  rfl

theorem exists_find (ht : valueLen occ t ≠ 0) :
    ∃ o ∈ occ, occ.find? (fun o => indexOf occ o.1 = indexOf occ t) = some o ∧
      indexOf occ o.1 = indexOf occ t ∧ labelOf occ t = o.1 := by
  have hfst := firstTag_eq_label ht
  rw [firstTag, Option.map_eq_some_iff] at hfst
  obtain ⟨o,hfind,hlabel⟩ := hfst
  have hsame := find?_some hfind
  exact ⟨o, mem_of_find?_eq_some hfind, hfind, by simpa using hsame, hlabel.symm⟩

include htags hfew

theorem labelOf_eq_of_rank (ht : valueLen occ t ≠ 0) (hrank : rank (valueLen occ) t ≠ 0) : labelOf occ t = t := by
  obtain ⟨o,-,-,hidx,hlabel⟩ := exists_find ht
  rw [hlabel]
  by_contra hne
  obtain ⟨hzero,-⟩ := baseOf_of_indexOf_eq htags hfew ht hne hidx
  rw [(countAfter_of_zero htags hfew hzero).2, indexOf_eq htags hfew ht] at hidx
  exact hrank hidx.symm

theorem indexOf_eq_first (ht : valueLen occ t ≠ 0) (hrank : rank (valueLen occ) t = 0) :
    indexOf occ u = indexOf occ t ↔ u = t ∨ valueLen occ u = 0 := by
  constructor
  · intro h
    by_cases heq : u = t
    · exact .inl heq
    · exact .inr (baseOf_of_indexOf_eq htags hfew ht heq h).1
  · rintro (rfl | hzero)
    · rfl
    · rw [(countAfter_of_zero htags hfew hzero).2, indexOf_eq htags hfew ht, hrank]

theorem parsedOptions_eq_iff : parsedOptions occ = optionMap occ ↔ FirstLabelled occ := by
  rw [parsedOptions, optionMap_eq, map_inj_left]
  constructor
  · intro h t ht o ho
    obtain ⟨hmem,hrank⟩ := head_presentTags.mp ht
    have hvalued := (mem_presentTags.mp hmem).2
    have hlabel : labelOf occ t = t := congrArg DhcpOption.tag (h t hmem)
    simp only [← indexOf_eq_first htags hfew hvalued hrank] at ho
    rw [← labelOf_eq_of_find ho]
    exact hlabel
  · intro h t hmem
    have hvalued := (mem_presentTags.mp hmem).2
    have hlabel : labelOf occ t = t := by
      by_cases hrank : rank (valueLen occ) t = 0
      · obtain ⟨o,-,hfind,-,hlabel⟩ := exists_find hvalued
        simp only [indexOf_eq_first htags hfew hvalued hrank] at hfind
        rw [hlabel]
        exact h t (head_presentTags.mpr ⟨hmem, hrank⟩) o hfind
      · exact labelOf_eq_of_rank htags hfew hvalued hrank
    rw [hlabel]

end Labels

/-- Parsing a well-formed packet gives its options exactly where the value bytes fit into 16 bits and the first
entry is labelled with its tag. -/
theorem dhcpParseOption_iff (hheld : packet.Held) (hocc : PacketOptions packet occ) :
    dhcpParseOption true true packet = some (.success, optionMap occ) ↔
      totalLen occ < 2^16 ∧ FirstLabelled occ := by
  have htags : ∀ o ∈ occ, o.1 < DHCP_MAX_OPTIONS := fun o ho =>
    lt_trans (hocc.tag_bounds o ho).2 (by decide)
  rcases lt_or_ge (totalLen occ) (2^16) with hfew | hmany
  · rw [dhcpParseOption_few hheld hocc hfew, Option.some.injEq, Prod.mk.injEq, and_iff_right rfl,
      parsedOptions_eq_iff htags hfew, and_iff_right hfew]
  constructor
  · intro h
    rcases dhcpParseOption_many hheld hocc hmany with hnone | hnil
    · rw [hnone] at h
      exact nomatch h
    rw [hnil, Option.some.injEq, Prod.mk.injEq, optionMap_eq] at h
    have hpresent : presentTags occ = [] := map_eq_nil_iff.mp h.2.symm
    have hzero : totalLen occ = 0 := by
      rw [totalLen, place]
      apply Finset.sum_eq_zero
      intro t ht
      by_contra hne
      have hmem := mem_presentTags.mpr ⟨Finset.mem_range.mp ht, hne⟩
      rw [hpresent] at hmem
      exact nomatch hmem
    omega
  · intro h
    omega

end Liano.Dhcp4
