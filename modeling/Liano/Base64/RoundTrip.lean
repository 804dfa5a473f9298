import Mathlib.Data.List.Basic
import Liano.Base64.Codec

/-! The canonical encodings, which `Base64Encode` writes and which alone `Base64Decode` accepts. -/
namespace Liano.Base64

open List

def InAlphabet (c : UInt8) (v : Nat) : Prop := base64Value c = some v

theorem uint8_forall {p : UInt8 → Prop} (h : ∀ n < 256, p (UInt8.ofNat n)) (c : UInt8) : p c := by
  have hc := h c.toNat c.toNat_lt
  rwa [UInt8.ofNat_toNat] at hc

variable {v : Nat} {s : List UInt8}

theorem InAlphabet.lt {c : UInt8} (h : InAlphabet c v) : v < 64 := by
  have hall : ∀ c : UInt8, ∀ v ∈ base64Value c, v < 64 := uint8_forall (by decide +kernel)
  exact hall c v h

theorem InAlphabet.encoded {c : UInt8} (h : InAlphabet c v) : encoded v = c := by
  have hall : ∀ c : UInt8, ∀ v ∈ base64Value c, Base64.encoded v = c := uint8_forall (by decide +kernel)
  exact hall c v h

theorem inAlphabet_encoded (h : v < 64) : InAlphabet (encoded v) v := by
  have hall : ∀ v < 64, base64Value (encoded v) = some v := by decide +kernel
  exact hall v h

theorem InAlphabet.not_whitespace {c : UInt8} (h : InAlphabet c v) : isWhitespace c = false := by
  have hall : ∀ c : UInt8, ∀ v ∈ base64Value c, isWhitespace c = false := uint8_forall (by decide +kernel)
  exact hall c v h

theorem isWhitespace_pad : isWhitespace pad = false := by decide +kernel

/-- Complete quanta, with the padding that the last one needs, and unused bits that are zero. -/
inductive Canonical : List UInt8 → Prop
  | nil : Canonical []
  | one {c d : UInt8} {v w : Nat} : InAlphabet c v → InAlphabet d w → w % 16 = 0 → Canonical [c, d, pad, pad]
  | two {c d e : UInt8} {v w x : Nat} :
      InAlphabet c v → InAlphabet d w → InAlphabet e x → x % 4 = 0 → Canonical [c, d, e, pad]
  | three {c d e f : UInt8} {v w x y : Nat} {rest : List UInt8} :
      InAlphabet c v → InAlphabet d w → InAlphabet e x → InAlphabet f y → Canonical rest →
        Canonical (c :: d :: e :: f :: rest)

inductive Decodes : List UInt8 → List UInt8 → Prop
  | nil : Decodes [] []
  | one {c d : UInt8} {v w : Nat} : InAlphabet c v → InAlphabet d w → w % 16 = 0 →
        Decodes [c, d, pad, pad] [UInt8.ofNat (v*4 + w / 16)]
  | two {c d e : UInt8} {v w x : Nat} : InAlphabet c v → InAlphabet d w → InAlphabet e x → x % 4 = 0 →
        Decodes [c, d, e, pad] [UInt8.ofNat (v*4 + w / 16), UInt8.ofNat (w % 16 * 16 + x / 4)]
  | three {c d e f : UInt8} {v w x y : Nat} {rest bytes : List UInt8} :
      InAlphabet c v → InAlphabet d w → InAlphabet e x → InAlphabet f y → Decodes rest bytes →
        Decodes (c :: d :: e :: f :: rest)
          (UInt8.ofNat (v*4 + w / 16) :: UInt8.ofNat (w % 16 * 16 + x / 4) ::
            UInt8.ofNat (x % 4 * 64 + y) :: bytes)

theorem canonical_iff_decodes : Canonical s ↔ ∃ bytes, Decodes s bytes := by
  constructor
  · intro h
    induction h with
    | nil => exact ⟨_, .nil⟩
    | one hc hd hw => exact ⟨_, .one hc hd hw⟩
    | two hc hd he hx => exact ⟨_, .two hc hd he hx⟩
    | three hc hd he hf _ ih =>
      obtain ⟨bytes,hbs⟩ := ih
      exact ⟨_, .three hc hd he hf hbs⟩
  · rintro ⟨bytes,h⟩
    induction h with
    | nil => exact .nil
    | one hc hd hw => exact .one hc hd hw
    | two hc hd he hx => exact .two hc hd he hx
    | three hc hd he hf _ ih => exact .three hc hd he hf ih

theorem octet_bits {n : Nat} (h : n < 256) :
    (n &&& 0xfc) >>> 2 = n / 4 ∧ (n &&& 0x03) <<< 4 = n % 4 * 16 ∧ (n &&& 0xf0) >>> 4 = n / 16 ∧
      (n &&& 0x0f) <<< 2 = n % 16 * 4 ∧ (n &&& 0xc0) >>> 6 = n / 64 ∧ n &&& 0x3f = n % 64 := by
  have hall : ∀ n < 256, (n &&& 0xfc) >>> 2 = n / 4 ∧ (n &&& 0x03) <<< 4 = n % 4 * 16 ∧
      (n &&& 0xf0) >>> 4 = n / 16 ∧ (n &&& 0x0f) <<< 2 = n % 16 * 4 ∧
      (n &&& 0xc0) >>> 6 = n / 64 ∧ n &&& 0x3f = n % 64 := by decide +kernel
  exact hall n h

theorem encodeChars_three (a b c : UInt8) (rest : List UInt8) : encodeChars (a :: b :: c :: rest) =
      encoded (a.toNat / 4) :: encoded (a.toNat % 4 * 16 + b.toNat / 16) ::
        encoded (b.toNat % 16 * 4 + c.toNat / 64) :: encoded (c.toNat % 64) :: encodeChars rest := by
  obtain ⟨ha,ha',-⟩ := octet_bits a.toNat_lt
  obtain ⟨-,-,hb,hb',-⟩ := octet_bits b.toNat_lt
  obtain ⟨-,-,-,-,hc,hc'⟩ := octet_bits c.toNat_lt
  rw [encodeChars, ha, ha', hb, hb', hc, hc']

theorem encodeChars_two (a b : UInt8) : encodeChars [a, b] =
      [encoded (a.toNat / 4), encoded (a.toNat % 4 * 16 + b.toNat / 16),
        encoded (b.toNat % 16 * 4), pad] := by
  obtain ⟨ha,ha',-⟩ := octet_bits a.toNat_lt
  obtain ⟨-,-,hb,hb',-⟩ := octet_bits b.toNat_lt
  rw [encodeChars, ha, ha', hb, hb']

theorem encodeChars_one (a : UInt8) :
    encodeChars [a] = [encoded (a.toNat / 4), encoded (a.toNat % 4 * 16), pad, pad] := by
  obtain ⟨ha,ha',-⟩ := octet_bits a.toNat_lt
  rw [encodeChars, ha, ha']

theorem toNat_ofNat_of_lt {n : Nat} (h : n < 256) : (UInt8.ofNat n).toNat = n := UInt8.toNat_ofNat_of_lt' h

theorem Decodes.encode {bytes : List UInt8} (h : Decodes s bytes) : encodeChars bytes = s := by
  induction h with
  | nil => rfl
  | one hc hd hw =>
    have hv := hc.lt
    have hw' := hd.lt
    rw [encodeChars_one, toNat_ofNat_of_lt (by omega), ← hc.encoded, ← hd.encoded]
    congr 3 <;> omega
  | two hc hd he hx =>
    have hv := hc.lt
    have hw := hd.lt
    have hx' := he.lt
    rw [encodeChars_two, toNat_ofNat_of_lt (by omega), toNat_ofNat_of_lt (by omega),
      ← hc.encoded, ← hd.encoded, ← he.encoded]
    congr 4 <;> omega
  | three hc hd he hf _ ih =>
    have hv := hc.lt
    have hw := hd.lt
    have hx := he.lt
    have hy := hf.lt
    rw [encodeChars_three, toNat_ofNat_of_lt (by omega), toNat_ofNat_of_lt (by omega),
      toNat_ofNat_of_lt (by omega), ih, ← hc.encoded, ← hd.encoded, ← he.encoded, ← hf.encoded]
    congr 5 <;> omega

theorem ofNat_eq_of_toNat {a : UInt8} {n : Nat} (h : n = a.toNat) : UInt8.ofNat n = a := by
  rw [h, UInt8.ofNat_toNat]

theorem decodes_encodeChars (bytes : List UInt8) : Decodes (encodeChars bytes) bytes := by
  induction bytes using encodeChars.induct with
  | case1 a b c rest ih =>
    have ha := a.toNat_lt
    have hb := b.toNat_lt
    have hc := c.toNat_lt
    rw [encodeChars_three]
    have h := Decodes.three (inAlphabet_encoded (v := a.toNat / 4) (by omega))
      (inAlphabet_encoded (v := a.toNat % 4 * 16 + b.toNat / 16) (by omega))
      (inAlphabet_encoded (v := b.toNat % 16 * 4 + c.toNat / 64) (by omega))
      (inAlphabet_encoded (v := c.toNat % 64) (by omega)) ih
    rwa [ofNat_eq_of_toNat (a := a) (by omega), ofNat_eq_of_toNat (a := b) (by omega),
      ofNat_eq_of_toNat (a := c) (by omega)] at h
  | case2 a b =>
    have ha := a.toNat_lt
    have hb := b.toNat_lt
    rw [encodeChars_two]
    have h := Decodes.two (inAlphabet_encoded (v := a.toNat / 4) (by omega))
      (inAlphabet_encoded (v := a.toNat % 4 * 16 + b.toNat / 16) (by omega))
      (inAlphabet_encoded (v := b.toNat % 16 * 4) (by omega)) (by omega)
    rwa [ofNat_eq_of_toNat (a := a) (by omega), ofNat_eq_of_toNat (a := b) (by omega)] at h
  | case3 a =>
    have ha := a.toNat_lt
    rw [encodeChars_one]
    have h := Decodes.one (inAlphabet_encoded (v := a.toNat / 4) (by omega))
      (inAlphabet_encoded (v := a.toNat % 4 * 16) (by omega)) (by omega)
    rwa [ofNat_eq_of_toNat (a := a) (by omega)] at h
  | case4 => exact .nil

def withoutWhitespace (chars : List UInt8) : List UInt8 := chars.filter fun c => !isWhitespace c

theorem withoutWhitespace_canonical (h : Canonical s) : withoutWhitespace s = s := by
  have hpad := isWhitespace_pad
  unfold withoutWhitespace
  rw [filter_eq_self]
  intro c hc
  rw [Bool.not_eq_true']
  induction h with
  | nil => cases hc
  | one ha hb _ =>
    simp only [mem_cons, not_mem_nil, or_false] at hc
    rcases hc with rfl | rfl | rfl | rfl
    · exact ha.not_whitespace
    · exact hb.not_whitespace
    · exact hpad
    · exact hpad
  | two ha hb he _ =>
    simp only [mem_cons, not_mem_nil, or_false] at hc
    rcases hc with rfl | rfl | rfl | rfl
    · exact ha.not_whitespace
    · exact hb.not_whitespace
    · exact he.not_whitespace
    · exact hpad
  | three ha hb he hf _ ih =>
    simp only [mem_cons] at hc
    rcases hc with rfl | rfl | rfl | rfl | hc
    · exact ha.not_whitespace
    · exact hb.not_whitespace
    · exact he.not_whitespace
    · exact hf.not_whitespace
    · exact ih hc

section
variable {size v w x n groups acc : Nat} {st st' : DecodeState} {c : UInt8} {s : List UInt8}
  {p : Bool} {memory : Nat → UInt8}

theorem decodeLoop_whitespace (chars : List UInt8) (st : DecodeState) :
    decodeLoop size chars st = decodeLoop size (withoutWhitespace chars) st := by
  unfold withoutWhitespace
  induction chars generalizing st with
  | nil => rfl
  | cons c cs ih =>
    by_cases hc : isWhitespace c = true
    · rw [filter_cons_of_neg (by rw [hc]; decide), ← ih, decodeLoop, decodeStep, if_pos hc]
    rw [filter_cons_of_pos (by rw [Bool.not_eq_true] at hc; rw [hc]; rfl), decodeLoop, decodeLoop]
    cases decodeStep size st c with
    | none => rfl
    | some st' => exact ih st'

/-! The four positions of a quantum. -/

theorem shift_or {a v : Nat} (ha : a < 2^26) (hv : v < 64) : toUint32 (a <<< 6) ||| v = a*64+v := by
  rw [toUint32_of_lt (by rw [Nat.shiftLeft_eq]; omega),
    ← Nat.shiftLeft_add_eq_or_of_lt (show v < 2^6 from hv), Nat.shiftLeft_eq]

theorem feed_first (hv : v < 64) : feed size ⟨p, 0, 0, n, memory⟩ v = ⟨p, 1, v, n, memory⟩ := by
  unfold feed
  have hfst : toUint32 (0 <<< 6) ||| v = v := by rw [shift_or (by decide) hv, zero_mul, zero_add]
  rw [hfst]
  rfl

theorem feed_second (hv : v < 64) (hw : w < 64) : feed size ⟨p, 1, v, n, memory⟩ w =
      ⟨p, 2, w % 16, n+1, stored size n (UInt8.ofNat (v*4 + w / 16)) memory⟩ := by
  unfold feed
  dsimp only
  rw [shift_or (by omega) hw]
  have hpend : (v*64+w) &&& 0xf = w % 16 := by
    rw [show 0xf = 2^4-1 from rfl, Nat.and_two_pow_sub_one_eq_mod]
    omega
  have hoctet : (v*64+w) >>> 4 = v*4 + w / 16 := by omega
  rw [hpend, hoctet]
  rfl

theorem feed_third (hx : x < 64) : feed size ⟨p, 2, w % 16, n, memory⟩ x =
      ⟨p, 3, x % 4, n+1, stored size n (UInt8.ofNat (w % 16 * 16 + x / 4)) memory⟩ := by
  unfold feed
  dsimp only
  rw [shift_or (by omega) hx]
  have hpend : (w % 16 * 64 + x) &&& 0x3 = x % 4 := by
    rw [show 0x3 = 2^2-1 from rfl, Nat.and_two_pow_sub_one_eq_mod]
    omega
  have hoctet : (w % 16 * 64 + x) >>> 2 = w % 16 * 16 + x / 4 := by omega
  rw [hpend, hoctet]
  rfl

theorem feed_fourth (hv : v < 64) : feed size ⟨p, 3, x % 4, n, memory⟩ v =
      ⟨p, 0, 0, n+1, stored size n (UInt8.ofNat (x % 4 * 64 + v)) memory⟩ := by
  unfold feed
  dsimp only
  rw [shift_or (by omega) hv]
  rfl

theorem decodeLoop_value (hc : InAlphabet c v) : decodeLoop size (c :: s) ⟨false, groups, acc, n, memory⟩ =
      decodeLoop size s (feed size ⟨false, groups, acc, n, memory⟩ v) := by
  rw [decodeLoop, decodeStep, hc.not_whitespace, if_ff,
    if_ff, show base64Value c = some v from hc]

theorem decodeLoop_pad (hgrp : groups = 2 ∨ groups = 3) :
    decodeLoop size (pad :: s) ⟨false, groups, 0, n, memory⟩ =
      decodeLoop size s ⟨true, if groups = 2 then 3 else 0, 0, n, memory⟩ := by
  rcases hgrp with rfl | rfl
  · rfl
  · rfl

theorem decodeLoop_padding : decodeLoop size (pad :: s) ⟨true, 3, 0, n, memory⟩ =
      decodeLoop size s ⟨true, 0, 0, n, memory⟩ := by
  rw [decodeLoop, decodeStep, isWhitespace_pad, if_ff, if_pos rfl, if_pos ⟨rfl, rfl⟩]

theorem decodeStep_cases (hpadding : st.paddingMode = false) (hc : isWhitespace c = false)
    (h : decodeStep size st c = some st') :
    (∃ v, InAlphabet c v ∧ st' = feed size st v) ∨ (c = pad ∧ enterPadding st = some st') := by
  rw [decodeStep, hc, if_ff, hpadding, if_ff] at h
  cases hval : base64Value c with
  | some v =>
    rw [hval] at h
    exact .inl ⟨v, hval, (Option.some.inj h).symm⟩
  | none =>
    rw [hval] at h
    dsimp only at h
    split at h
    · rename_i hpad
      exact .inr ⟨hpad, h⟩
    · cases h

theorem decodeStep_padding_cases (hpadding : st.paddingMode = true) (hc : isWhitespace c = false)
    (h : decodeStep size st c = some st') :
    c = pad ∧ st.sixBitGroupsConsumed = 3 ∧ st' = { st with sixBitGroupsConsumed := 0 } := by
  rw [decodeStep, hc, if_ff, if_pos hpadding] at h
  split at h
  · rename_i hpad
    exact ⟨hpad.1, hpad.2, (Option.some.inj h).symm⟩
  · cases h

/-- A canonical encoding is read to its end, and its octets are spilled one after the other. -/
theorem decodeLoop_decodes {bytes : List UInt8} (h : Decodes s bytes) (n : Nat) (memory : Nat → UInt8) :
    ∃ p, decodeLoop size s ⟨false, 0, 0, n, memory⟩ =
      ({ bytes.foldl (spill size) ⟨false, 0, 0, n, memory⟩ with paddingMode := p }, true) := by
  induction h generalizing n memory with
  | nil => exact ⟨false, rfl⟩
  | one hc hd hw =>
    rw [decodeLoop_value hc, feed_first hc.lt, decodeLoop_value hd, feed_second hc.lt hd.lt, hw,
      decodeLoop_pad (.inl rfl), if_pos rfl, decodeLoop_padding]
    exact ⟨true, rfl⟩
  | two hc hd he hx =>
    rw [decodeLoop_value hc, feed_first hc.lt, decodeLoop_value hd, feed_second hc.lt hd.lt,
      decodeLoop_value he, feed_third he.lt, hx, decodeLoop_pad (.inr rfl), if_neg (by decide)]
    exact ⟨true, rfl⟩
  | three hc hd he hf _ ih =>
    rw [decodeLoop_value hc, feed_first hc.lt, decodeLoop_value hd, feed_second hc.lt hd.lt,
      decodeLoop_value he, feed_third he.lt, decodeLoop_value hf, feed_fourth hf.lt]
    exact ih _ _

def Accepts (size : Nat) (s : List UInt8) (st : DecodeState) : Prop :=
  (decodeLoop size s st).2 = true ∧ (decodeLoop size s st).1.sixBitGroupsConsumed = 0

theorem accepts_cons (h : Accepts size (c :: s) st) :
    ∃ st', decodeStep size st c = some st' ∧ Accepts size s st' := by
  unfold Accepts at h
  rw [decodeLoop] at h
  cases hstep : decodeStep size st c with
  | some st' =>
    rw [hstep] at h
    exact ⟨st', rfl, h⟩
  | none =>
    rw [hstep] at h
    exact absurd h.1 Bool.false_ne_true

theorem accepts_within (h : Accepts size s st) (hgrp : st.sixBitGroupsConsumed ≠ 0) :
    ∃ c rest, s = c :: rest := by
  cases s with
  | nil => exact absurd h.2 hgrp
  | cons c rest => exact ⟨c, rest, rfl⟩

theorem accepts_behind_padding (hs : ∀ c ∈ s, isWhitespace c = false) (h : Accepts size s st)
    (hpadding : st.paddingMode = true) (hgrp : st.sixBitGroupsConsumed = 0) : s = [] := by
  cases s with
  | nil => rfl
  | cons c rest =>
    obtain ⟨st',hstep,-⟩ := accepts_cons h
    have hcases := decodeStep_padding_cases hpadding (hs c mem_cons_self) hstep
    rw [hgrp] at hcases
    exact absurd hcases.2.1 (by decide)

theorem enterPadding_cases (h : enterPadding st = some st') : st.accumulator = 0 ∧
      ((st.sixBitGroupsConsumed = 2 ∧ st' = { st with paddingMode := true, sixBitGroupsConsumed := 3 }) ∨
        (st.sixBitGroupsConsumed = 3 ∧
          st' = { st with paddingMode := true, sixBitGroupsConsumed := 0 })) := by
  unfold enterPadding at h
  split at h
  · rename_i hgrp
    split at h
    · rename_i hacc
      exact ⟨hacc, .inl ⟨hgrp, (Option.some.inj h).symm⟩⟩
    · cases h
  split at h
  · rename_i hgrp
    split at h
    · rename_i hacc
      exact ⟨hacc, .inr ⟨hgrp, (Option.some.inj h).symm⟩⟩
    · cases h
  · cases h

theorem accepts_value (hs : ∀ d ∈ c :: s, isWhitespace d = false)
    (h : Accepts size (c :: s) ⟨false, groups, acc, n, memory⟩) (hgrp : groups < 2) :
    ∃ v, InAlphabet c v ∧ Accepts size s (feed size ⟨false, groups, acc, n, memory⟩ v) := by
  obtain ⟨st',hstep,hrest⟩ := accepts_cons h
  rcases decodeStep_cases rfl (hs c mem_cons_self) hstep with ⟨v,hv,rfl⟩ | ⟨-,henter⟩
  · exact ⟨v, hv, hrest⟩
  obtain ⟨-,⟨hg,-⟩ | ⟨hg,-⟩⟩ := enterPadding_cases henter
  · dsimp only at hg
    omega
  · dsimp only at hg
    omega

theorem canonical_of_accepts (hs : ∀ c ∈ s, isWhitespace c = false)
    (h : Accepts size s ⟨false, 0, 0, n, memory⟩) : Canonical s := by
  induction hlen : s.length using Nat.strong_induction_on generalizing s n memory with
  | _ len ih =>
    cases s with
    | nil => exact .nil
    | cons c s =>
      obtain ⟨v,hc,h⟩ := accepts_value hs h (by decide)
      rw [feed_first hc.lt] at h
      have hs1 := fun d hd => hs d (mem_cons_of_mem _ hd)
      obtain ⟨d,s,rfl⟩ := accepts_within h Nat.one_ne_zero
      obtain ⟨w,hd,h⟩ := accepts_value hs1 h (by decide)
      rw [feed_second hc.lt hd.lt] at h
      have hs2 := fun e he => hs1 e (mem_cons_of_mem _ he)
      obtain ⟨e,s,rfl⟩ := accepts_within h (Nat.succ_ne_zero 1)
      obtain ⟨st',hstep,h⟩ := accepts_cons h
      have hs3 := fun f hf => hs2 f (mem_cons_of_mem _ hf)
      rcases decodeStep_cases rfl (hs2 e mem_cons_self) hstep with
        ⟨x, he, rfl⟩ | ⟨rfl, henter⟩
      · rw [feed_third he.lt] at h
        obtain ⟨f,s,rfl⟩ := accepts_within h (Nat.succ_ne_zero 2)
        obtain ⟨st',hstep,h⟩ := accepts_cons h
        have hs4 := fun g hg => hs3 g (mem_cons_of_mem _ hg)
        rcases decodeStep_cases rfl (hs3 f mem_cons_self) hstep with
          ⟨y, hf, rfl⟩ | ⟨rfl, henter⟩
        · rw [feed_fourth hf.lt] at h
          refine .three hc hd he hf (ih s.length ?_ hs4 h rfl)
          simp only [length_cons] at hlen
          omega
        obtain ⟨hzero,⟨hg,-⟩ | ⟨-,rfl⟩⟩ := enterPadding_cases henter
        · exact absurd hg (show ¬ 3 = 2 by decide)
        · obtain rfl := accepts_behind_padding hs4 h rfl rfl
          exact .two hc hd he hzero
      · obtain ⟨hzero,⟨-,rfl⟩ | ⟨hg,-⟩⟩ := enterPadding_cases henter
        · obtain ⟨f,s,rfl⟩ := accepts_within h (Nat.succ_ne_zero 2)
          obtain ⟨st',hstep,h⟩ := accepts_cons h
          obtain ⟨rfl,-,rfl⟩ := decodeStep_padding_cases rfl (hs3 f mem_cons_self) hstep
          have hs4 := fun g hg => hs3 g (mem_cons_of_mem _ hg)
          obtain rfl := accepts_behind_padding hs4 h rfl rfl
          exact .one hc hd hzero
        · exact absurd hg (show ¬ 2 = 3 by decide)

theorem spill_foldl_destinationSize (bytes : List UInt8) (st : DecodeState) :
    (bytes.foldl (spill size) st).destinationSize = st.destinationSize+bytes.length := by
  induction bytes generalizing st with
  | nil => rfl
  | cons b bytes ih =>
    rw [foldl_cons, ih, length_cons]
    show st.destinationSize+1+bytes.length = _
    omega

theorem spill_foldl_groups (bytes : List UInt8) (st : DecodeState) :
    (bytes.foldl (spill size) st).sixBitGroupsConsumed = st.sixBitGroupsConsumed := by
  induction bytes generalizing st with
  | nil => rfl
  | cons b bytes ih =>
    rw [foldl_cons, ih]
    rfl

theorem spill_memory (st : DecodeState) (octet : UInt8) (i : Nat) : (spill size st octet).memory i =
      if i = st.destinationSize ∧ i < size then octet else st.memory i := by
  unfold spill stored
  split
  · rename_i hroom
    dsimp only
    by_cases hi : i = st.destinationSize
    · rw [if_pos hi, if_pos ⟨hi, hi ▸ hroom⟩]
    · rw [if_neg hi, if_neg fun h => hi h.1]
  rename_i hroom
  rw [if_neg]
  rintro ⟨rfl,hlt⟩
  exact hroom hlt

theorem spill_foldl_memory (bytes : List UInt8) (st : DecodeState) (i : Nat) :
    (bytes.foldl (spill size) st).memory i = if st.destinationSize ≤ i ∧ i < size then
        (bytes[i-st.destinationSize]?).getD (st.memory i)
      else st.memory i := by
  induction bytes generalizing st with
  | nil => rw [foldl_nil, getElem?_nil, Option.getD_none, ite_self]
  | cons b bytes ih =>
    rw [foldl_cons, ih, spill_memory]
    show (if st.destinationSize+1 ≤ i ∧ i < size then
      (bytes[i - (st.destinationSize+1)]?).getD _ else _) = _
    rcases lt_trichotomy i st.destinationSize with hlt | rfl | hgt
    · rw [if_neg (by omega), if_neg (by omega), if_neg (by omega)]
    · rw [if_neg (by omega), Nat.sub_self, getElem?_cons_zero, Option.getD_some]
      by_cases hsize : st.destinationSize < size
      · rw [if_pos ⟨rfl, hsize⟩, if_pos ⟨le_rfl, hsize⟩]
      · rw [if_neg fun h => hsize h.2, if_neg fun h => hsize h.2]
    have hidx : i-st.destinationSize = i - (st.destinationSize+1) + 1 := by omega
    rw [hidx, getElem?_cons_succ, if_neg (show ¬ (i = st.destinationSize ∧ i < size) by omega)]
    by_cases hsize : i < size
    · rw [if_pos ⟨hgt, hsize⟩, if_pos ⟨by omega, hsize⟩]
    · rw [if_neg fun h => hsize h.2, if_neg fun h => hsize h.2]

theorem feed_memory (st : DecodeState) (v : Nat) {i : Nat} (hi : size ≤ i) :
    (feed size st v).memory i = st.memory i := by
  have hspill : ∀ (st : DecodeState) (octet : UInt8), (spill size st octet).memory i = st.memory i := by
    intro st octet
    rw [spill_memory, if_neg fun h => absurd h.2 (by omega)]
  unfold feed
  split
  · rfl
  · exact hspill _ _
  · exact hspill _ _
  · exact hspill _ _

theorem decodeStep_memory (h : decodeStep size st c = some st') {i : Nat} (hi : size ≤ i) :
    st'.memory i = st.memory i := by
  rw [decodeStep] at h
  split at h
  · rw [← Option.some.inj h]
  split at h
  · split at h
    · rw [← Option.some.inj h]
    · cases h
  split at h
  · rw [← Option.some.inj h]
    exact feed_memory st _ hi
  split at h
  · obtain ⟨-,⟨-,rfl⟩ | ⟨-,rfl⟩⟩ := enterPadding_cases h
    · rfl
    · rfl
  · cases h

theorem decodeLoop_memory (s : List UInt8) (st : DecodeState) {i : Nat} (hi : size ≤ i) :
    (decodeLoop size s st).1.memory i = st.memory i := by
  induction s generalizing st with
  | nil => rfl
  | cons c s ih =>
    rw [decodeLoop]
    cases hstep : decodeStep size st c with
    | none => rfl
    | some st' => rw [ih, decodeStep_memory hstep hi]

/-- What `Base64Decode` returns for the encoding of some octets: these octets, as far as they are
asked for. -/
structure Returns (r : DecodeResult) (size : Nat) (bytes : List UInt8) : Prop where
  status : r.status = if bytes.length ≤ size then .success else .bufferTooSmall
  destinationSize : r.destinationSize = some bytes.length
  memory : ∀ i < bytes.length, i < size → some (r.memory i) = bytes[i]?

variable {source destination : Option Nat} {chars : List UInt8}

section
variable (harrays : arraysOk source chars.length destination size = true)
include harrays

theorem base64Decode_eq : base64Decode source chars destination (some size) memory =
      let r := decodeLoop size (withoutWhitespace chars) ⟨false, 0, 0, 0, memory⟩
      if !r.2 || r.1.sixBitGroupsConsumed != 0 then
        ⟨.invalidParameter, some r.1.destinationSize, r.1.memory⟩
      else if r.1.destinationSize ≤ size then
        ⟨.success, some r.1.destinationSize, r.1.memory⟩
      else ⟨.bufferTooSmall, some r.1.destinationSize, r.1.memory⟩ := by
  rw [base64Decode, if_pos harrays, decodeLoop_whitespace]

theorem base64Decode_encodeChars
    {bytes : List UInt8} (hchars : withoutWhitespace chars = encodeChars bytes) :
    Returns (base64Decode source chars destination (some size) memory) size bytes := by
  obtain ⟨p,hloop⟩ := @decodeLoop_decodes size _ bytes (decodes_encodeChars bytes) 0 memory
  have hgrp := @spill_foldl_groups size bytes ⟨false, 0, 0, 0, memory⟩
  have hsize := @spill_foldl_destinationSize size bytes ⟨false, 0, 0, 0, memory⟩
  have hmem := @spill_foldl_memory size bytes ⟨false, 0, 0, 0, memory⟩
  rw [base64Decode_eq harrays, hchars, hloop]
  generalize bytes.foldl (spill size) ⟨false, 0, 0, 0, memory⟩ = st at hgrp hsize hmem
  dsimp only at hgrp hsize hmem ⊢
  rw [hgrp, hsize]
  have hsto : ∀ i < bytes.length, i < size → some (st.memory i) = bytes[i]? := by
    intro i hi hroom
    rw [hmem, if_pos ⟨Nat.zero_le i, hroom⟩, Nat.sub_zero, getElem?_eq_getElem hi, Option.getD_some]
  by_cases hroom : bytes.length ≤ size
  · exact ⟨by simp [hroom], by simp [hroom], by simpa [hroom] using hsto⟩
  · exact ⟨by simp [hroom], by simp [hroom], by simpa [hroom] using hsto⟩

theorem canonical_of_base64Decode
    (h : (base64Decode source chars destination (some size) memory).status ≠ .invalidParameter) :
    Canonical (withoutWhitespace chars) := by
  have hs : ∀ c ∈ withoutWhitespace chars, isWhitespace c = false := by
    intro c hc
    have hpos := (mem_filter.mp hc).2
    rwa [Bool.not_eq_true'] at hpos
  rw [base64Decode_eq harrays] at h
  dsimp only at h
  have hacc : Accepts size (withoutWhitespace chars) ⟨false, 0, 0, 0, memory⟩ := by
    split at h
    · exact absurd rfl h
    rename_i hcond
    rw [Bool.or_eq_true, not_or, Bool.not_eq_true', Bool.not_eq_false, bne_iff_ne, not_not]
      at hcond
    exact hcond
  exact canonical_of_accepts hs hacc

end

/-- What `Base64Encode` returns: the encoding with its terminator, or the size that these take. -/
structure Encodes (r : EncodeResult) (size : Nat) (bytes : List UInt8) : Prop where
  status : r.status = if (encodeChars bytes).length < size then .success else .bufferTooSmall
  written : r.written = if (encodeChars bytes).length < size then encodeChars bytes ++ [0] else []
  requiredSize : size ≤ (encodeChars bytes).length → r.destinationSize = some ((encodeChars bytes).length + 1)

theorem length_encodeChars (bytes : List UInt8) : (encodeChars bytes).length = (bytes.length+2) / 3 * 4 := by
  induction bytes using encodeChars.induct with
  | case1 a b c rest ih =>
    rw [encodeChars, length_cons, length_cons, length_cons, length_cons, ih]
    simp only [length_cons]
    omega
  | case2 => simp [encodeChars]
  | case3 => simp [encodeChars]
  | case4 => rfl

theorem base64Encode_encodes {source destination size : Nat} {bytes : List UInt8}
    (hsource : bytes.length < maxAddress-source) (hdestination : size < maxAddress-destination)
    (hfits : (encodeChars bytes).length < maxAddress) :
    Encodes (base64Encode (some source) bytes (some destination) (some size)) size bytes := by
  cases bytes with
  | nil =>
    by_cases hsize : size < 1
    · simp only [base64Encode, length_nil, if_true, if_pos hsize]
      exact ⟨(if_neg (by simp [encodeChars]; omega)).symm, (if_neg (by simp [encodeChars]; omega)).symm, fun _ => rfl⟩
    · simp only [base64Encode, length_nil, if_true, if_neg hsize]
      exact ⟨(if_pos (by simp [encodeChars]; omega)).symm, (if_pos (by simp [encodeChars]; omega)).symm, fun _ => rfl⟩
  | cons a rest =>
    -- an encoding that fits in the address space has a size that does not wrap
    have hrequired : toUint64 (toUint64 ((a :: rest).length + 2) / 3 * 4 + 1) = (encodeChars (a :: rest)).length + 1 := by
      rw [length_encodeChars] at hfits ⊢
      unfold maxAddress at hfits
      have hlen : (a :: rest).length + 2 < 2^64 := by omega
      rw [toUint64, toUint64, Nat.mod_eq_of_lt hlen, Nat.mod_eq_of_lt (by omega)]
    have hpos : ¬(a :: rest).length = 0 := by simp
    have hvalid : ¬((a :: rest).length ≥ maxAddress-source ∨ size ≥ maxAddress - (some destination).getD 0) := by
      simp only [Option.getD_some]
      omega
    simp only [base64Encode, if_neg hpos, if_neg hvalid, hrequired]
    by_cases hroom : (encodeChars (a :: rest)).length < size
    · rw [if_neg (by simp; omega)]
      exact ⟨(if_pos hroom).symm, (if_pos hroom).symm, fun h => absurd hroom (by omega)⟩
    · rw [if_pos (by simp; omega)]
      exact ⟨(if_neg hroom).symm, (if_neg hroom).symm, fun _ => rfl⟩

theorem base64Encode_written {esource edestination esize : Option Nat} {bytes : List UInt8}
    (h : (base64Encode esource bytes edestination esize).status = .success) :
    (base64Encode esource bytes edestination esize).written = encodeChars bytes ++ [0] := by
  unfold base64Encode at h ⊢
  split at h
  · dsimp only at h ⊢
    split at h
    · rename_i hlen
      rw [length_eq_zero_iff] at hlen
      subst hlen
      split at h
      · cases h
      · rename_i hroom
        rw [if_neg hroom]
        rfl
    · rename_i hlen
      rw [if_neg hlen]
      split at h
      · cases h
      rename_i hval
      rw [if_neg hval]
      split at h
      · cases h
      · rename_i hroom
        rw [if_neg hroom]
  · cases h

/-- Encoding writes the encoding wherever there is room for it; decoding undoes encoding; what is accepted,
whitespace apart, are the canonical encodings, each the encoding of what it decodes to; a destination that is
too small is answered by the size that is needed; and nothing is stored past the size given. -/
theorem base64Decode_spec (source : Option Nat) (chars : List UInt8) (destination : Option Nat)
    (size : Nat) (memory : Nat → UInt8)
    (harrays : arraysOk source chars.length destination size = true) :
    (∀ (esource edestination esize : Nat) (bytes : List UInt8), bytes.length < maxAddress-esource →
      esize < maxAddress-edestination → (encodeChars bytes).length < maxAddress →
        Encodes (base64Encode (some esource) bytes (some edestination) (some esize)) esize bytes) ∧
    (∀ (esource : Option Nat) (bytes : List UInt8) (edestination esize : Option Nat),
      (base64Encode esource bytes edestination esize).status = .success →
      (base64Encode esource bytes edestination esize).written = chars ++ [0] →
        Returns (base64Decode source chars destination (some size) memory) size bytes) ∧
    ((base64Decode source chars destination (some size) memory).status ≠ .invalidParameter ↔
      Canonical (withoutWhitespace chars)) ∧
    (Canonical (withoutWhitespace chars) → ∃ bytes, withoutWhitespace chars = encodeChars bytes ∧
      Returns (base64Decode source chars destination (some size) memory) size bytes) ∧ ∀ i, size ≤ i →
      (base64Decode source chars destination (some size) memory).memory i = memory i := by
  have hcanonical : Canonical (withoutWhitespace chars) →
      ∃ bytes, withoutWhitespace chars = encodeChars bytes ∧
        Returns (base64Decode source chars destination (some size) memory) size bytes := by
    intro h
    obtain ⟨bytes,hbs⟩ := canonical_iff_decodes.mp h
    exact ⟨bytes, hbs.encode.symm, base64Decode_encodeChars harrays hbs.encode.symm⟩
  refine ⟨fun _ _ _ _ => base64Encode_encodes, ?_, ⟨canonical_of_base64Decode harrays, ?_⟩, hcanonical, ?_⟩
  · intro esource bytes edestination esize hstatus hwritten
    rw [base64Encode_written hstatus] at hwritten
    obtain rfl := append_cancel_right hwritten
    refine base64Decode_encodeChars harrays (withoutWhitespace_canonical ?_)
    exact canonical_iff_decodes.mpr ⟨bytes, decodes_encodeChars bytes⟩
  · intro h
    obtain ⟨bytes,-,hreturns⟩ := hcanonical h
    rw [hreturns.status]
    split
    · decide
    · decide
  · intro i hi
    rw [base64Decode_eq harrays]
    have hmem := decodeLoop_memory (withoutWhitespace chars) ⟨false, 0, 0, 0, memory⟩ hi
    dsimp only
    split
    · exact hmem
    · split
      · exact hmem
      · exact hmem

end

/-- "f" is encoded as "Zg==" where there are five bytes for it, and "Zg==" with a line break in the padding
decodes to "f". -/
theorem base64Decode_spec_f :
    Encodes (base64Encode (some 0x1000) [0x66] (some 0x2000) (some 5)) 5 [0x66] ∧
      encodeChars [0x66] = [0x5a, 0x67, 0x3d, 0x3d] ∧
      Canonical (withoutWhitespace [0x5a, 0x67, 0x3d, 0x0a, 0x3d]) ∧
      (base64Decode (some 0x1000) [0x5a, 0x67, 0x3d, 0x0a, 0x3d] (some 0x2000) (some 4)
        fun _ => 0).status ≠ .invalidParameter := by
  have hspec := base64Decode_spec (some 0x1000) [0x5a, 0x67, 0x3d, 0x0a, 0x3d] (some 0x2000) 4
    (fun _ => 0) (by decide +kernel)
  have hst : (base64Decode (some 0x1000) [0x5a, 0x67, 0x3d, 0x0a, 0x3d] (some 0x2000) (some 4)
      fun _ => 0).status ≠ .invalidParameter := by decide +kernel
  exact ⟨hspec.1 0x1000 0x2000 5 [0x66] (by decide) (by decide) (by decide +kernel), by decide +kernel,
    hspec.2.2.1.mp hst, hst⟩

end Liano.Base64
