import Liano.Efi
import Mathlib.Data.List.TakeWhile

/-! The conversions of Null-terminated strings to 64-bit numbers in BaseLib. A string is the list of its
characters without the terminator, and a pointer into it is what follows. The cells that the caller passes are
`none` for a null pointer; `*EndPointer` is kept as the number of characters before it. `rsizeMax` is
PcdMaximumUnicodeStringLength, and `before` the character that lies in front of the string in memory. -/
namespace Liano.SafeString

open List

abbrev Char16 := UInt16

/-- The code of an ASCII character, as in `L'x'`. -/
def wide (c : Char) : Char16 := c.toNat.toUInt16

def maxUint64 : Nat := 2^64-1

def isDecimalDigit (c : Char16) : Bool := c ≥ wide '0' && c ≤ wide '9'

def charToUpper (c : Char16) : Char16 := if c ≥ wide 'a' ∧ c ≤ wide 'z' then c - (wide 'a' - wide 'A') else c

def hexCharToUintn (c : Char16) : Nat :=
  if isDecimalDigit c then c.toNat-48 else 10 + (charToUpper c).toNat - 65

def isHexaDecimalDigit (c : Char16) : Bool :=
  isDecimalDigit c || (c ≥ wide 'A' && c ≤ wide 'F') || (c ≥ wide 'a' && c ≤ wide 'f')

def isPad (c : Char16) : Bool := c == wide ' ' || c == 9

structure Radix where
  isDigit : Char16 → Bool
  value : Char16 → Nat
  base : Nat

def decimal : Radix := ⟨isDecimalDigit, fun c => c.toNat-48, 10⟩

def hexadecimal : Radix := ⟨isHexaDecimalDigit, hexCharToUintn, 16⟩

/-- The digit loop: the status, `*Data` and what follows. -/
def digitLoop (r : Radix) : List Char16 → Nat → EfiStatus × Nat × List Char16
  | [], data => (.success, data, [])
  | c :: l, data =>
    if r.isDigit c then
      if data > (maxUint64 - r.value c) / r.base then (.unsupported, maxUint64, c :: l)
      else digitLoop r l (toUint64 (toUint64 (data*r.base) + r.value c))
    else (.success, data, c :: l)

/-- What a conversion leaves: the status, `*EndPointer` and `*Data`. -/
abbrev Outcome := EfiStatus × Option Nat × Option Nat

/-- The digit loop from `rest` on in `string`, and the stores behind it. -/
def convertDigits (r : Radix) (string rest : List Char16) (endPointer : Option Nat) : Outcome :=
  let (status,data,stop) := digitLoop r rest 0
  (status, endPointer.map fun _ => string.length-stop.length, some data)

def constrained (rsizeMax : Nat) (string : Option (List Char16)) (endPointer data : Option Nat)
    (convert : List Char16 → Outcome) : Outcome := match string, data with
  | some s, some _ =>
    if rsizeMax ≠ 0 ∧ ¬ s.length ≤ rsizeMax then (.invalidParameter, endPointer, data) else convert s
  | _, _ => (.invalidParameter, endPointer, data)

def strDecimalToUint64S (rsizeMax : Nat) (string : Option (List Char16))
    (endPointer data : Option Nat) : Outcome := constrained rsizeMax string endPointer data fun s =>
    convertDigits decimal s ((s.dropWhile isPad).dropWhile (· == wide '0')) endPointer

def strHexToUint64S (before : Char16) (rsizeMax : Nat) (string : Option (List Char16))
    (endPointer data : Option Nat) : Outcome := constrained rsizeMax string endPointer data fun s =>
    let rest := (s.dropWhile isPad).dropWhile (· == wide '0')
    if charToUpper (rest.headD 0) = wide 'X' then
      -- `*(String - 1)`, which lies in front of the string if nothing was skipped
      if (s.take (s.length-rest.length)).getLastD before ≠ wide '0' then
        (.success, endPointer.map fun _ => 0, some 0)
      else convertDigits hexadecimal s rest.tail endPointer
    else convertDigits hexadecimal s rest endPointer

def number (r : Radix) (digits : List Char16) (n : Nat) : Nat :=
  digits.foldl (fun n c => n*r.base + r.value c) n

/-- The prefix of a string in the form of a number: the characters before its last digits, these digits, and
whether it has a digit at all. -/
structure Text where
  skipped : Nat
  digits : List Char16
  hasDigit : Bool

/-- `[spaces][decimal digits]`, the digits without the zeros they begin with. -/
def decimalText (s : List Char16) : Text := let text := s.dropWhile isPad
  let rest := text.dropWhile (· == wide '0')
  ⟨s.length-rest.length, rest.takeWhile isDecimalDigit, isDecimalDigit (text.headD 0)⟩

/-- `[spaces][zeros][x][hexadecimal digits]`, where an x follows a zero. -/
def hexText (s : List Char16) : Text := let text := s.dropWhile isPad
  let rest := text.dropWhile (· == wide '0')
  let rest := if charToUpper (rest.headD 0) = wide 'X' ∧ text.headD 0 = wide '0' then rest.tail else rest
  ⟨s.length-rest.length, rest.takeWhile isHexaDecimalDigit, isHexaDecimalDigit (text.headD 0)⟩

/-- The outcome that the number of a text asks for. If it is too large, the conversion stops at the digit that
makes it so. -/
def Denotes (r : Radix) (t : Text) (o : Outcome) : Prop :=
  if t.hasDigit = false then o = (.success, some 0, some 0)
  else if number r t.digits 0 ≤ maxUint64 then
    o = (.success, some (t.skipped+t.digits.length), some (number r t.digits 0))
  else ∃ k, number r (t.digits.take k) 0 ≤ maxUint64 ∧ maxUint64 < number r (t.digits.take (k+1)) 0 ∧
    o = (.unsupported, some (t.skipped+k), some maxUint64)

def Converts (r : Radix) (text : List Char16 → Text) (rsizeMax : Nat) (s : List Char16)
    (endPointer data : Nat) (o : Outcome) : Prop :=
  if rsizeMax ≠ 0 ∧ ¬ s.length ≤ rsizeMax then o = (.invalidParameter, some endPointer, some data)
  else Denotes r (text s) o

section
variable {r : Radix} {s rest l : List Char16} {n : Nat}

theorem le_number (hbase : 0 < r.base) (l : List Char16) (n : Nat) : n ≤ number r l n := by
  induction l generalizing n with
  | nil => exact le_rfl
  | cons c l ih =>
    have hle : n ≤ n*r.base + r.value c := Nat.le_add_right_of_le (Nat.le_mul_of_pos_right n hbase)
    exact hle.trans (ih _)

section
variable (hbase : 0 < r.base) (hval : ∀ c, r.isDigit c = true → r.value c < 2^16)
include hbase hval

/-- The loop from `n` on: all digits are taken, or it stops at the first that makes the number too large. -/
theorem digitLoop_spec (rest : List Char16) (n : Nat) (hn : n ≤ maxUint64) :
    (number r (rest.takeWhile r.isDigit) n ≤ maxUint64 ∧
      digitLoop r rest n = (.success, number r (rest.takeWhile r.isDigit) n, rest.dropWhile r.isDigit)) ∨
    (maxUint64 < number r (rest.takeWhile r.isDigit) n ∧
      ∃ k ≤ rest.length, number r ((rest.takeWhile r.isDigit).take k) n ≤ maxUint64 ∧
        maxUint64 < number r ((rest.takeWhile r.isDigit).take (k+1)) n ∧
        digitLoop r rest n = (.unsupported, maxUint64, rest.drop k)) := by
  induction rest generalizing n with
  | nil => exact .inl ⟨hn, rfl⟩
  | cons c l ih =>
    rw [digitLoop]
    by_cases hc : r.isDigit c = true
    · have hv := hval c hc
      have hguard : n > (maxUint64 - r.value c) / r.base ↔ maxUint64 < n*r.base + r.value c := by
        have hdiv := Nat.le_div_iff_mul_le (x := n) (y := maxUint64 - r.value c) hbase
        unfold maxUint64 at hdiv ⊢
        omega
      rw [if_pos hc, takeWhile_cons_of_pos hc, dropWhile_cons_of_pos hc]
      by_cases hover : n > (maxUint64 - r.value c) / r.base
      · rw [if_pos hover]
        have hlt := hguard.mp hover
        exact .inr ⟨hlt.trans_le (le_number hbase _ _), 0, Nat.zero_le _, hn, hlt, rfl⟩
      have hle : n*r.base + r.value c ≤ maxUint64 := not_lt.mp (mt hguard.mpr hover)
      have hwrap : toUint64 (toUint64 (n*r.base) + r.value c) = n*r.base + r.value c := by
        unfold maxUint64 at hle
        rw [toUint64_of_lt (n := n*r.base) (by omega), toUint64_of_lt (by omega)]
      rw [if_neg hover, hwrap]
      rcases ih _ hle with ⟨hfits,hloop⟩ | ⟨hbig,k,hk,hlow,hhigh,hloop⟩
      · exact .inl ⟨hfits, hloop⟩
      · exact .inr ⟨hbig, k+1, Nat.succ_le_succ hk, hlow, hhigh, hloop⟩
    · rw [if_neg hc, takeWhile_cons_of_neg hc, dropWhile_cons_of_neg hc]
      exact .inl ⟨hn, rfl⟩

theorem convertDigits_denotes (hsuf : rest <:+ s) (e : Nat) :
    Denotes r ⟨s.length-rest.length, rest.takeWhile r.isDigit, true⟩
      (convertDigits r s rest (some e)) := by
  have hle := hsuf.length_le
  have hrest := congrArg length (takeWhile_append_dropWhile (p := r.isDigit) (l := rest))
  rw [length_append] at hrest
  rw [Denotes, if_neg (Bool.noConfusion)]
  rcases digitLoop_spec hbase hval rest 0 (Nat.zero_le _) with
    ⟨hfits, hloop⟩ | ⟨hbig, k, hk, hlow, hhigh, hloop⟩
  · have hstop : s.length - (rest.dropWhile r.isDigit).length =
        s.length-rest.length + (rest.takeWhile r.isDigit).length := by omega
    rw [if_pos hfits, convertDigits, hloop]
    simp only [Option.map_some, hstop]
  have hstop : s.length - (rest.drop k).length = s.length-rest.length + k := by
    rw [length_drop]
    omega
  rw [if_neg (not_le.mpr hbig), convertDigits, hloop]
  exact ⟨k, hlow, hhigh, by simp only [Option.map_some, hstop]⟩

end

theorem convertDigits_none (s : List Char16) (e : Nat) (hnone : r.isDigit (rest.headD 0) = false) :
    convertDigits r s rest (some e) = (.success, some (s.length-rest.length), some 0) := by
  have hloop : digitLoop r rest 0 = (.success, 0, rest) := by
    cases rest with
    | nil => rfl
    | cons c l =>
      rw [headD_cons] at hnone
      rw [digitLoop, if_neg (by rw [hnone]; decide)]
  rw [convertDigits, hloop]
  rfl

theorem length_dropWhile_pad (s : List Char16) :
    s.length - (s.dropWhile isPad).length = 0 ↔ isPad (s.headD 0) = false := by
  cases s with
  | nil => decide
  | cons c l =>
    have hle := (dropWhile_suffix (l := l) isPad).length_le
    cases hc : isPad c with
    | false => simp [hc]
    | true =>
      rw [dropWhile_cons_of_pos hc, length_cons, headD_cons, hc]
      exact ⟨fun h => by omega, nofun⟩

theorem dropWhile_zero_of_ne {text : List Char16} (h : text.headD 0 ≠ wide '0') :
    text.dropWhile (· == wide '0') = text := by
  cases text with
  | nil => rfl
  | cons c l => exact dropWhile_cons_of_neg fun hc => h (beq_iff_eq.mp hc)

theorem decimal_value (c : Char16) (_ : decimal.isDigit c = true) : decimal.value c < 2^16 :=
  lt_of_le_of_lt (Nat.sub_le _ _) c.toNat_lt

theorem hexadecimal_value (c : Char16) (_ : hexadecimal.isDigit c = true) : hexadecimal.value c < 2^16 := by
  have hupper := (charToUpper c).toNat_lt
  have hc := c.toNat_lt
  change hexCharToUintn c < 2^16
  unfold hexCharToUintn
  split <;> omega

theorem denotes_none {t : Text} (h : t.hasDigit = false) (o : Outcome) :
    Denotes r t o ↔ o = (.success, some 0, some 0) := by rw [Denotes, if_pos h]

/-- Decimal strings: a string without a digit behind its pad spaces must have no pad spaces. -/
theorem strDecimal_denotes_iff (s : List Char16) (e : Nat) : Denotes decimal (decimalText s)
        (convertDigits decimal s ((s.dropWhile isPad).dropWhile (· == wide '0')) (some e)) ↔
      (decimalText s).hasDigit = true ∨ isPad (s.headD 0) = false := by
  cases hdig : (decimalText s).hasDigit with
  | true =>
    have htext : decimalText s = ⟨_, _, true⟩ := congrArg (Text.mk _ _) hdig
    have hsuf := (dropWhile_suffix (· == wide '0')).trans (dropWhile_suffix (l := s) isPad)
    rw [htext]
    simp only [true_or, iff_true]
    exact convertDigits_denotes (by decide) decimal_value hsuf e
  | false =>
    have hnone := @convertDigits_none decimal (s.dropWhile isPad) s e hdig
    have hne : (s.dropWhile isPad).headD 0 ≠ wide '0' := fun h => by
      have hhead : isDecimalDigit ((s.dropWhile isPad).headD 0) = false := hdig
      rw [h] at hhead
      exact absurd hhead (by decide)
    rw [denotes_none hdig, dropWhile_zero_of_ne hne, hnone, ← length_dropWhile_pad]
    simp

/-- The character in front of what is left when a loop has skipped some is one that it skips. -/
theorem behind_skipped {p : Char16 → Bool} {text : List Char16} (hsuf : text <:+ s)
    (hhead : p (text.headD 0) = true) (hend : p 0 = false) : ∃ c, p c = true ∧
      ∀ before, (s.take (s.length - (text.dropWhile p).length)).getLastD before = c := by
  obtain ⟨pre,rfl⟩ := hsuf
  have hsplit := takeWhile_append_dropWhile (p := p) (l := text)
  have hne : text.takeWhile p ≠ [] := by
    cases text with
    | nil => exact absurd hhead (by rw [headD_nil, hend]; decide)
    | cons c l =>
      rw [takeWhile_cons_of_pos (show p c = true from hhead)]
      exact cons_ne_nil _ _
  obtain ⟨skipped,c,hskipped⟩ := eq_nil_or_concat _ |>.resolve_left hne
  have htake : ∀ a b : List Char16, (a ++ b).take ((a ++ b).length - b.length) = a := by
    intro a b
    rw [length_append, Nat.add_sub_cancel, take_left]
  have hs := htake (pre ++ text.takeWhile p) (text.dropWhile p)
  rw [append_assoc, hsplit] at hs
  refine ⟨c, mem_takeWhile_imp (l := text) (by rw [hskipped]; simp), fun before => ?_⟩
  rw [hs, hskipped]
  simp

theorem eq_x_of_upper {c : Char16} (h : charToUpper c = wide 'X') : c = wide 'x' ∨ c = wide 'X' := by
  unfold charToUpper at h
  split at h
  · left
    rw [← UInt16.sub_add_cancel c (wide 'a' - wide 'A'), h]
    rfl
  · exact .inr h

theorem not_hexaDecimalDigit_x {c : Char16} (h : charToUpper c = wide 'X') :
    isHexaDecimalDigit c = false := by rcases eq_x_of_upper h with rfl | rfl <;> decide

/-- Hexadecimal strings: without a digit behind the pad spaces, either there are none, or an x follows them. -/
theorem strHex_denotes_iff (s : List Char16) (e d rsizeMax : Nat)
    (hlen : ¬ (rsizeMax ≠ 0 ∧ ¬ s.length ≤ rsizeMax)) : (∀ before, Denotes hexadecimal (hexText s)
        (strHexToUint64S before rsizeMax (some s) (some e) (some d))) ↔ (hexText s).hasDigit = true ∨
        isPad (s.headD 0) = decide (charToUpper ((s.dropWhile isPad).headD 0) = wide 'X') := by
  have hhex : ∀ before, strHexToUint64S before rsizeMax (some s) (some e) (some d) = _ :=
    fun before => if_neg hlen
  simp only [hhex]
  have hsuf := dropWhile_suffix (l := s) isPad
  have hrest := dropWhile_suffix (l := s.dropWhile isPad) (· == wide '0')
  have hhead : (hexText s).hasDigit = isHexaDecimalDigit ((s.dropWhile isPad).headD 0) := rfl
  cases hdig : (hexText s).hasDigit with
  | true =>
    have htext : hexText s = ⟨_, _, true⟩ := congrArg (Text.mk _ _) hdig
    simp only [true_or, iff_true]
    intro before
    rw [htext]
    by_cases hx : charToUpper (((s.dropWhile isPad).dropWhile (· == wide '0')).headD 0) = wide 'X'
    · have hzero : (s.dropWhile isPad).headD 0 = wide '0' := by
        by_contra hne
        rw [dropWhile_zero_of_ne hne] at hx
        rw [hdig, not_hexaDecimalDigit_x hx] at hhead
        exact Bool.noConfusion hhead
      obtain ⟨c,hc,hbeh⟩ := @behind_skipped s (· == wide '0') _ hsuf (beq_iff_eq.mpr hzero) (by decide)
      rw [if_pos hx, if_pos ⟨hx, hzero⟩, if_neg (not_not.mpr ((hbeh before).trans (beq_iff_eq.mp hc)))]
      exact convertDigits_denotes (by decide) hexadecimal_value
        ((tail_suffix _).trans (hrest.trans hsuf)) e
    · rw [if_neg hx, if_neg fun h => hx h.1]
      exact convertDigits_denotes (by decide) hexadecimal_value (hrest.trans hsuf) e
  | false =>
    rw [hdig] at hhead
    have hne : (s.dropWhile isPad).headD 0 ≠ wide '0' := fun h => by
      rw [h] at hhead
      exact absurd hhead (by decide)
    simp only [denotes_none hdig, dropWhile_zero_of_ne hne, Bool.false_eq_true, false_or]
    by_cases hx : charToUpper ((s.dropWhile isPad).headD 0) = wide 'X'
    · simp only [hx, decide_true, if_true]
      cases hpad : isPad (s.headD 0) with
      | true =>
        obtain ⟨c,hc,hbeh⟩ := behind_skipped suffix_rfl hpad (by decide)
        have hne : c ≠ wide '0' := fun h => by
          rw [h] at hc
          exact absurd hc (by decide)
        refine iff_of_true (fun before => ?_) rfl
        rw [hbeh, if_pos hne]
        rfl
      | false =>
        -- with a zero in front of the string, the x is taken for a part of it
        have hnone := (length_dropWhile_pad s).mpr hpad
        refine iff_of_false (fun hall => ?_) Bool.noConfusion
        have hzero := hall (wide '0')
        rw [hnone, if_neg (by simp)] at hzero
        have hpos : 0 < s.length - (s.dropWhile isPad).tail.length := by
          have hcons : (s.dropWhile isPad) ≠ [] := fun hnil => by
            rw [hnil] at hx
            exact absurd hx (by decide)
          have hlength := length_pos_iff.mpr hcons
          have hle := hsuf.length_le
          rw [length_tail]
          omega
        have hconv := @convertDigits_denotes hexadecimal s _ (by decide) hexadecimal_value
          ((tail_suffix _).trans hsuf) e
        rw [hzero, Denotes, if_neg Bool.noConfusion] at hconv
        dsimp only at hconv
        split at hconv
        · have hend := Option.some.inj (Prod.mk.inj (Prod.mk.inj hconv).2).1
          omega
        · obtain ⟨k,-,-,hst⟩ := hconv
          exact EfiStatus.noConfusion (Prod.mk.inj hst).1
    · simp only [hx, decide_false, ← length_dropWhile_pad]
      rw [@convertDigits_none hexadecimal _ s e hdig]
      simp

end

/-- What the conversions do with a string. The decimal one does as it is documented if and only if the string is
refused for its length, or has a digit behind its pad spaces, or begins with no pad space; the hexadecimal one
does so whatever lies in front of the string if and only if the string is refused, or has a digit there, or
begins with a pad space exactly when an x follows the pad spaces. -/
theorem strToUint64S_iff (rsizeMax : Nat) (s : List Char16) (e d : Nat) :
    (Converts decimal decimalText rsizeMax s e d (strDecimalToUint64S rsizeMax (some s) (some e) (some d)) ↔
      (rsizeMax ≠ 0 ∧ ¬ s.length ≤ rsizeMax) ∨ isDecimalDigit ((s.dropWhile isPad).headD 0) = true ∨
        isPad (s.headD 0) = false) ∧ ((∀ before, Converts hexadecimal hexText rsizeMax s e d
        (strHexToUint64S before rsizeMax (some s) (some e) (some d))) ↔
      (rsizeMax ≠ 0 ∧ ¬ s.length ≤ rsizeMax) ∨ isHexaDecimalDigit ((s.dropWhile isPad).headD 0) = true ∨
          isPad (s.headD 0) = decide (charToUpper ((s.dropWhile isPad).headD 0) = wide 'X')) := by
  by_cases hlong : rsizeMax ≠ 0 ∧ ¬ s.length ≤ rsizeMax
  · refine ⟨iff_of_true ?_ (.inl hlong), iff_of_true (fun before => ?_) (.inl hlong)⟩
    · rw [Converts, if_pos hlong]
      exact if_pos hlong
    · rw [Converts, if_pos hlong]
      exact if_pos hlong
  · have hdecimal := strDecimal_denotes_iff s e
    have hhex := strHex_denotes_iff s e d rsizeMax hlong
    have hcode : strDecimalToUint64S rsizeMax (some s) (some e) (some d) = _ := if_neg hlong
    simp only [Converts, if_neg hlong, hcode, or_iff_right hlong]
    exact ⟨hdecimal, hhex⟩

/-- The string `x1` behind a zero is read as the number 1, and the end of two spaces is the end pointer of the
blank string. -/
theorem strToUint64S_fails : strHexToUint64S (wide '0') 0 (some [wide 'x', wide '1']) (some 9) (some 9) =
        (.success, some 2, some 1) ∧
      strHexToUint64S (wide '1') 0 (some [wide 'x', wide '1']) (some 9) (some 9) =
        (.success, some 0, some 0) ∧ ¬ Converts decimal decimalText 0 [wide ' ', wide ' '] 9 9
        (strDecimalToUint64S 0 (some [wide ' ', wide ' ']) (some 9) (some 9)) := by
  refine ⟨by decide, by decide, ?_⟩
  rw [Converts, if_neg (by decide), denotes_none rfl]
  decide

end Liano.SafeString
