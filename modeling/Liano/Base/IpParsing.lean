import Liano.Base.IpAddress

/-! The documented forms of addresses, and which strings StrToIpv4Address and StrToIpv6Address take for one. -/
namespace Liano.SafeString

open Option (bind_some filter_some)
open List

def plainX : Reader := fun s =>
  if (s.takeWhile isHexaDecimalDigit).length ≤ 4 then
    some (number hexadecimal (s.takeWhile isHexaDecimalDigit) 0, s.dropWhile isHexaDecimalDigit)
  else none

def decimalUpTo (max : Nat) : Reader := fun s =>
  if isDecimalDigit (charAt s) ∧ number decimal (s.takeWhile isDecimalDigit) 0 ≤ max then
    some (number decimal (s.takeWhile isDecimalDigit) 0, s.dropWhile isDecimalDigit)
  else none

/-- The length that StrHexToUintnS and StrDecimalToUintnS take. -/
def Within (rsizeMax : Nat) (s : List Char16) : Prop := rsizeMax = 0 ∨ s.length ≤ rsizeMax

instance (rsizeMax : Nat) (s : List Char16) : Decidable (Within rsizeMax s) :=
  inferInstanceAs (Decidable (_ ∨ _))

abbrev AtDecimal (s : List Char16) : Prop := isDecimalDigit (charAt s) = true

abbrev DotGroups := Groups isDecimalDigit (wide '.')

def ZerosX (s : List Char16) : Prop := charToUpper (charAt (s.dropWhile (· == wide '0'))) = wide 'X'

instance (s : List Char16) : Decidable (ZerosX s) := inferInstanceAs (Decidable (_ = _))

def strictX (rsizeMax : Nat) : Reader := fun s =>
  if Within rsizeMax s ∧ ¬ ZerosX s then plainX s else none

def strictP (rsizeMax max : Nat) : Reader := fun s => if Within rsizeMax s then decimalUpTo max s else none

/-- The documented form of an IPv6 address. -/
abbrev Ipv6Documented := Ipv6Text plainX (decimalUpTo 128)

/-- The form that StrToIpv6Address reads. -/
abbrev Ipv6Read (rsizeMax : Nat) := Ipv6Text (getX rsizeMax) (getP rsizeMax)

/-- The documented form without zeros in front of an x, in reach of the end of the string. -/
abbrev Ipv6Strict (rsizeMax : Nat) := Ipv6Text (strictX rsizeMax) (strictP rsizeMax 128)

section
variable {r : Radix} {s rest : List Char16} {rsizeMax : Nat}

theorem skip_zeros (hzero : r.isDigit (wide '0') = true) (hval : r.value (wide '0') = 0)
    (s : List Char16) :
    number r ((s.dropWhile (· == wide '0')).takeWhile r.isDigit) 0 = number r (s.takeWhile r.isDigit) 0 ∧
      (s.dropWhile (· == wide '0')).dropWhile r.isDigit = s.dropWhile r.isDigit := by
  induction s with
  | nil => exact ⟨rfl, rfl⟩
  | cons c s ih =>
    by_cases hc : c = wide '0'
    · subst hc
      rw [dropWhile_cons_of_pos (p := (· == wide '0')) (beq_self_eq_true _), takeWhile_cons_of_pos hzero,
        dropWhile_cons_of_pos hzero]
      refine ⟨ih.1.trans ?_, ih.2⟩
      rw [number, number, foldl_cons, hval, zero_mul]
    · rw [dropWhile_cons_of_neg (p := (· == wide '0')) (fun h => hc (beq_iff_eq.mp h))]
      exact ⟨rfl, rfl⟩

theorem read_of_denotes {o : Outcome} (hsuf : rest <:+ s)
    (h : Denotes r ⟨s.length-rest.length, rest.takeWhile r.isDigit, true⟩ o) :
    (if o.1.isError then none else some (o.2.2.getD 0, s.drop (o.2.1.getD 0))) =
      if number r (rest.takeWhile r.isDigit) 0 ≤ maxUint64 then
        some (number r (rest.takeWhile r.isDigit) 0, rest.dropWhile r.isDigit)
      else none := by
  rw [Denotes, if_neg Bool.noConfusion] at h
  split at h
  · rename_i hle
    obtain ⟨pre,rfl⟩ := hsuf
    have hsplit := takeWhile_append_dropWhile (p := r.isDigit) (l := rest)
    have hdrop : (pre ++ rest).drop (pre.length + (rest.takeWhile r.isDigit).length) =
        rest.dropWhile r.isDigit := by
      rw [drop_append, drop_eq_nil_of_le (Nat.le_add_right _ _), nil_append, Nat.add_sub_cancel_left]
      exact (congrArg (drop _) hsplit.symm).trans (drop_left' rfl)
    have hpre : (pre ++ rest).length - rest.length = pre.length := by
      rw [length_append, Nat.add_sub_cancel]
    rw [h, if_pos hle]
    refine (if_neg (show ¬ EfiStatus.success.isError = true by decide)).trans ?_
    dsimp only [Option.getD_some]
    rw [hpre, hdrop]
  · rename_i hlt
    obtain ⟨k,-,-,ho⟩ := h
    rw [ho, if_neg hlt]
    rfl

theorem dropWhile_pad (hdig : AtHex s) : s.dropWhile isPad = s := by
  cases s with
  | nil => rfl
  | cons c l =>
    refine dropWhile_cons_of_neg fun hpad => ?_
    change isHexaDecimalDigit c = true at hdig
    rw [isPad, Bool.or_eq_true, beq_iff_eq, beq_iff_eq] at hpad
    rcases hpad with rfl | rfl <;> exact absurd hdig (by decide)

theorem not_within (h : ¬ Within rsizeMax s) : rsizeMax ≠ 0 ∧ ¬ s.length ≤ rsizeMax := not_or.mp h

theorem strHexToUintnS_eq (hdig : AtHex s) (hin : Within rsizeMax s)
    (hrest : rest = if ZerosX s then (s.dropWhile (· == wide '0')).tail
      else s.dropWhile (· == wide '0')) : strHexToUintnS rsizeMax s =
      if number hexadecimal (rest.takeWhile isHexaDecimalDigit) 0 ≤ maxUint64 then
        some (number hexadecimal (rest.takeWhile isHexaDecimalDigit) 0, rest.dropWhile isHexaDecimalDigit)
      else none := by
  have hlen : ¬ (rsizeMax ≠ 0 ∧ ¬ s.length ≤ rsizeMax) := fun h => h.1 (hin.resolve_right h.2)
  have hpad := dropWhile_pad hdig
  have htext : hexText s = ⟨s.length-rest.length, rest.takeWhile isHexaDecimalDigit, true⟩ := by
    have hboth : (charToUpper ((s.dropWhile (· == wide '0')).headD 0) = wide 'X' ∧
        s.headD 0 = wide '0') ↔ ZerosX s := by
      refine ⟨And.left, fun hx => ⟨hx, ?_⟩⟩
      by_contra hne
      have hsame : charToUpper (charAt s) = wide 'X' := by
        rw [ZerosX, dropWhile_zero_of_ne hne] at hx
        exact hx
      exact Bool.false_ne_true ((not_hexaDecimalDigit_x hsame).symm.trans hdig)
    rw [hexText, hpad]
    simp only [hboth, ← hrest]
    exact congrArg (Text.mk _ _) hdig
  have hsuf : rest <:+ s := by
    rw [hrest]
    split
    · exact (tail_suffix _).trans (dropWhile_suffix _)
    · exact dropWhile_suffix _
  have hhas : (hexText s).hasDigit = true := by rw [htext]
  have hdenotes := (strHex_denotes_iff s 0 0 rsizeMax hlen).mpr (.inl hhas) 0
  rw [htext] at hdenotes
  exact @read_of_denotes hexadecimal s rest _ hsuf hdenotes

theorem strHexToUintnS_long (h : ¬ Within rsizeMax s) : strHexToUintnS rsizeMax s = none := by
  have hout : strHexToUint64S 0 rsizeMax (some s) (some 0) (some 0) =
      (.invalidParameter, some 0, some 0) := if_pos (not_within h)
  rw [strHexToUintnS, readNumber, hout]
  rfl

theorem strDecimalToUintnS_long (h : ¬ Within rsizeMax s) : strDecimalToUintnS rsizeMax s = none := by
  have hout : strDecimalToUint64S rsizeMax (some s) (some 0) (some 0) =
      (.invalidParameter, some 0, some 0) := if_pos (not_within h)
  rw [strDecimalToUintnS, readNumber, hout]
  rfl

theorem isHexaDecimalDigit_of_decimal {c : Char16} (h : isDecimalDigit c = true) :
    isHexaDecimalDigit c = true := by
  rw [isHexaDecimalDigit, h]
  rfl

theorem strDecimalToUintnS_eq (hdig : AtDecimal s) (hin : Within rsizeMax s) :
    strDecimalToUintnS rsizeMax s = if number decimal (s.takeWhile isDecimalDigit) 0 ≤ maxUint64 then
      some (number decimal (s.takeWhile isDecimalDigit) 0, s.dropWhile isDecimalDigit) else none := by
  have hlen : ¬ (rsizeMax ≠ 0 ∧ ¬ s.length ≤ rsizeMax) := fun h => h.1 (hin.resolve_right h.2)
  have hpad := dropWhile_pad (isHexaDecimalDigit_of_decimal hdig)
  have hout : strDecimalToUint64S rsizeMax (some s) (some 0) (some 0) =
      convertDigits decimal s ((s.dropWhile isPad).dropWhile (· == wide '0')) (some 0) := if_neg hlen
  have hdenotes := @convertDigits_denotes decimal s _ (by decide) decimal_value
    (dropWhile_suffix (l := s) (· == wide '0')) 0
  obtain ⟨hnum,hdrop⟩ := @skip_zeros decimal (by decide) (by decide) s
  have hread := read_of_denotes (dropWhile_suffix _) hdenotes
  rw [hnum, hdrop] at hread
  rw [strDecimalToUintnS, readNumber, hout, hpad]
  exact hread

theorem strDecimalToUintnS_none (hhex : AtHex s)
    (hdig : isDecimalDigit (charAt s) = false) (hin : Within rsizeMax s) :
    strDecimalToUintnS rsizeMax s = some (0,s) := by
  have hlen : ¬ (rsizeMax ≠ 0 ∧ ¬ s.length ≤ rsizeMax) := fun h => h.1 (hin.resolve_right h.2)
  have hout : strDecimalToUint64S rsizeMax (some s) (some 0) (some 0) =
      convertDigits decimal s ((s.dropWhile isPad).dropWhile (· == wide '0')) (some 0) := if_neg hlen
  have hzero : charAt s ≠ wide '0' := fun h => by
    rw [h] at hdig
    exact absurd hdig (by decide)
  rw [strDecimalToUintnS, readNumber, hout, dropWhile_pad hhex, dropWhile_zero_of_ne hzero,
    convertDigits_none s 0 hdig, Nat.sub_self]
  rfl

theorem number_le (l : List Char16) (n : Nat) (hdigs : ∀ c ∈ l, isHexaDecimalDigit c = true) :
    number hexadecimal l n + 2^16 ≤ (n + 2^16) * 16^l.length := by
  induction l generalizing n with
  | nil => exact le_of_eq (mul_one _).symm
  | cons c l ih =>
    have hval := hexadecimal_value c (hdigs c mem_cons_self)
    have hrest := ih (n*16 + hexadecimal.value c) fun d hd => hdigs d (mem_cons_of_mem _ hd)
    calc number hexadecimal l (n*16 + hexadecimal.value c) + 2^16
        ≤ (n*16 + hexadecimal.value c + 2^16) * 16^l.length := hrest
      _ ≤ (n + 2^16) * 16 * 16^l.length := Nat.mul_le_mul_right _ (by omega)
      _ = (n + 2^16) * 16 ^ (l.length+1) := by rw [mul_assoc, ← Nat.pow_succ']

theorem length_takeWhile (p : Char16 → Bool) (s : List Char16) :
    (s.takeWhile p).length = s.length - (s.dropWhile p).length := by
  have h := congrArg length (takeWhile_append_dropWhile (p := p) (l := s))
  rw [length_append] at h
  omega

theorem dropWhile_lt {p : Char16 → Bool} (hp : p (charAt s) = true) (hnil : p 0 = false) :
    (s.dropWhile p).length < s.length := by
  cases s with
  | nil => exact absurd (hnil.symm.trans hp) Bool.false_ne_true
  | cons c l =>
    rw [dropWhile_cons_of_pos (show p c = true from hp)]
    exact Nat.lt_succ_of_le (dropWhile_suffix _).length_le

theorem getX_eq_plainX (hdig : AtHex s) (hin : Within rsizeMax s)
    (hx : ¬ ZerosX s) : getX rsizeMax s = plainX s := by
  obtain ⟨hnum,hdrop⟩ := @skip_zeros hexadecimal (by decide) (by decide) s
  have hread := strHexToUintnS_eq hdig hin (if_neg hx).symm
  change number hexadecimal ((s.dropWhile (· == wide '0')).takeWhile isHexaDecimalDigit) 0 =
    number hexadecimal (s.takeWhile isHexaDecimalDigit) 0 at hnum
  change (s.dropWhile (· == wide '0')).dropWhile isHexaDecimalDigit = s.dropWhile isHexaDecimalDigit at hdrop
  rw [hnum, hdrop] at hread
  have hlen := length_takeWhile isHexaDecimalDigit s
  rw [getX, plainX]
  by_cases hfour : (s.takeWhile isHexaDecimalDigit).length ≤ 4
  · have hbnd := number_le (s.takeWhile isHexaDecimalDigit) 0 fun c hc => mem_takeWhile_imp hc
    have hpow : 16 ^ (s.takeWhile isHexaDecimalDigit).length ≤ 16^4 := Nat.pow_le_pow_right (by decide) hfour
    have hmax : number hexadecimal (s.takeWhile isHexaDecimalDigit) 0 ≤ maxUint64 := by
      unfold maxUint64
      omega
    rw [if_pos hmax] at hread
    rw [if_pos hfour, hread, filter_some]
    exact if_pos (decide_eq_true (by omega))
  · rw [if_neg hfour, hread]
    split
    · exact (filter_some ..).trans (if_neg fun h => hfour (by
        have := of_decide_eq_true h
        omega))
    · rfl

theorem within_of_getX {y : Nat × List Char16} (h : getX rsizeMax s = some y) : Within rsizeMax s := by
  by_contra hlong
  rw [getX, strHexToUintnS_long hlong] at h
  cases h

theorem getX_of_zerosX (hdig : AtHex s) (hx : ZerosX s) {y : Nat × List Char16}
    (hread : getX rsizeMax s = some y) : y.2.length < (s.dropWhile (· == wide '0')).length := by
  rw [getX, strHexToUintnS_eq hdig (within_of_getX hread) (if_pos hx).symm] at hread
  obtain ⟨hread,-⟩ := Option.filter_eq_some_iff.mp hread
  split at hread
  · rw [← Option.some.inj hread]
    refine lt_of_le_of_lt (dropWhile_suffix _).length_le ?_
    rcases h : s.dropWhile (· == wide '0') with _ | ⟨c,l⟩
    · rw [ZerosX, h] at hx
      exact absurd hx (by decide)
    · exact Nat.lt_succ_self _
  · cases hread

theorem plainX_of_zerosX (hx : ZerosX s) {y : Nat × List Char16} (hplain : plainX s = some y) :
    y.2 = s.dropWhile (· == wide '0') := by
  obtain ⟨-,hdrop⟩ := @skip_zeros hexadecimal (by decide) (by decide) s
  have hhead := not_hexaDecimalDigit_x hx
  have hsame : (s.dropWhile (· == wide '0')).dropWhile isHexaDecimalDigit = s.dropWhile (· == wide '0') := by
    rcases h : s.dropWhile (· == wide '0') with _ | ⟨c,l⟩
    · rfl
    · rw [h] at hhead
      exact dropWhile_cons_of_neg (ne_true_of_eq_false hhead)
  rw [plainX] at hplain
  split at hplain
  · rw [← Option.some.inj hplain]
    exact hdrop.symm.trans hsame
  · cases hplain

theorem getP_eq (hdig : AtHex s) : getP rsizeMax s = strictP rsizeMax 128 s := by
  rw [getP, strictP]
  by_cases hin : Within rsizeMax s
  · rw [if_pos hin, decimalUpTo]
    by_cases hdecimal : AtDecimal s
    · have hlt := dropWhile_lt (p := isDecimalDigit) hdecimal (by decide)
      have hne : s.dropWhile isDecimalDigit ≠ s := fun h => by
        rw [h] at hlt
        exact lt_irrefl _ hlt
      rw [strDecimalToUintnS_eq hdecimal hin]
      by_cases hle : number decimal (s.takeWhile isDecimalDigit) 0 ≤ 128
      · rw [if_pos (hle.trans (by decide)), if_pos ⟨hdecimal, hle⟩, filter_some]
        exact if_pos (by simp [hne, hle])
      have hno : ¬ (AtDecimal s ∧ number decimal (s.takeWhile isDecimalDigit) 0 ≤ 128) := fun h => hle h.2
      split
      · exact (filter_some ..).trans (if_neg fun h => hle (by simp at h; exact h.2))
      · rfl
    · have hno : ¬ (AtDecimal s ∧
          number decimal (s.takeWhile isDecimalDigit) 0 ≤ 128) := fun h => hdecimal h.1
      rw [if_neg hno, strDecimalToUintnS_none hdig (eq_false_of_ne_true hdecimal) hin, filter_some]
      exact if_neg (by simp)
  · rw [if_neg hin, strDecimalToUintnS_long hin]
    rfl

instance : Advances plainX where
  length_lt {s n rest} hdigit h := by
    rw [plainX] at h
    split at h
    · cases h
      exact dropWhile_lt hdigit (by decide)
    · cases h

instance : Advances (strictX rsizeMax) where
  length_lt {s n rest} hdigit h := by
    rw [strictX] at h
    split at h
    · exact Advances.length_lt hdigit h
    · cases h

instance (max : Nat) : Advances (decimalUpTo max) where
  length_lt {s n rest} _ h := by
    rw [decimalUpTo] at h
    split at h
    · rename_i hdecimal
      cases h
      exact dropWhile_lt hdecimal.1 (by decide)
    · cases h

instance (max : Nat) : Advances (strictP rsizeMax max) where
  length_lt {s n rest} hdigit h := by
    rw [strictP] at h
    split at h
    · exact Advances.length_lt hdigit h
    · cases h

instance : Advances (getX rsizeMax) where
  length_lt {s n rest} hdigit h := by
    by_cases hx : ZerosX s
    · have hshort := getX_of_zerosX hdigit hx h
      exact lt_of_lt_of_le hshort (dropWhile_suffix _).length_le
    · rw [getX_eq_plainX hdigit (within_of_getX h) hx] at h
      exact Advances.length_lt hdigit h

instance : Advances (getP rsizeMax) where
  length_lt {s n rest} hdigit h := by
    rw [getP_eq hdigit] at h
    exact Advances.length_lt hdigit h

section
variable {readX readP : Reader} [Advances readX] [Advances readP] {st st' : Ipv6Scan}

theorem run_length (h : run readX readP st = .left st') : st'.pointer.length ≤ st.pointer.length := by
  induction hn : st.pointer.length using Nat.strong_induction_on generalizing st with
  | _ n ih =>
    subst hn
    rw [run_eq] at h
    rcases hturn : ipv6Turn readX readP st with _ | _ | ⟨_ | _,s⟩ <;> rw [hturn] at h
    · cases h
    · cases h
    · cases h
      exact ipv6Turn_length hturn
    · have hlt : s.pointer.length < st.pointer.length := ipv6Turn_length hturn
      exact (ih _ hlt h rfl).trans (le_of_lt hlt)

theorem separate_length (h : separate readX readP st = .left st') :
    st'.pointer.length ≤ st.pointer.length := by
  have hskip := skipSeparator_length st
  rw [separate] at h
  rcases hs : skipSeparator st with ⟨_ | _,s⟩ <;> rw [hs] at h hskip
  · cases h
    exact hskip
  · exact (run_length h).trans (Nat.le_of_succ_le hskip)

end

/-- The loop with the documented forms and the loop of the source: the one with the strict forms ends as the
first, or the second goes further. -/
theorem run_compare {st st₁ st₂ : Ipv6Scan} (h₁ : run plainX (decimalUpTo 128) st = .left st₁)
    (h₂ : run (getX rsizeMax) (getP rsizeMax) st = .left st₂) :
    run (strictX rsizeMax) (strictP rsizeMax 128) st = .left st₁ ∨
      st₂.pointer.length < st₁.pointer.length := by
  induction hn : st.pointer.length using Nat.strong_induction_on generalizing st with
  | _ n ih =>
    subst hn
    have hplain := @run_eq plainX (decimalUpTo 128) _ _ st
    have hcode := @run_eq (getX rsizeMax) (getP rsizeMax) _ _ st
    have hsame : ipv6Turn (getX rsizeMax) (getP rsizeMax) st = ipv6Turn plainX (decimalUpTo 128) st →
        ipv6Turn (strictX rsizeMax) (strictP rsizeMax 128) st = ipv6Turn plainX (decimalUpTo 128) st →
        run (strictX rsizeMax) (strictP rsizeMax 128) st = .left st₁ ∨
          st₂.pointer.length < st₁.pointer.length := by
      intro h2 h3
      rw [h2] at hcode
      rw [run_eq, h3]
      rcases hturn : ipv6Turn plainX (decimalUpTo 128) st with _ | _ | ⟨_ | _,s⟩ <;>
        rw [hturn] at hplain hcode <;> rw [hplain] at h₁
      · cases h₁
      · cases h₁
      · exact .inl h₁
      · have hlt := ipv6Turn_length hturn
        exact ih _ hlt h₁ (hcode.symm.trans h₂) rfl
    rcases hcolon : meetColon st with _ | s
    · exact hsame (by simp only [ipv6Turn, hcolon]) (by simp only [ipv6Turn, hcolon])
    by_cases hdig : AtHex s.pointer
    · by_cases hexpect : s.expectPrefix = true
      · -- the prefix length is one for all, or not in reach
        have hin : Within rsizeMax s.pointer := by
          by_contra hlong
          have hnone : getP rsizeMax s.pointer = none := by rw [getP_eq hdig, strictP, if_neg hlong]
          rw [hcode, ipv6Turn, hcolon] at h₂
          simp only [if_pos hdig, if_pos hexpect, hnone] at h₂
          cases h₂
        have hstrict : strictP rsizeMax 128 s.pointer = decimalUpTo 128 s.pointer := if_pos hin
        have hget := (@getP_eq s.pointer rsizeMax hdig).trans hstrict
        exact hsame (by simp only [ipv6Turn, hcolon, if_pos hdig, if_pos hexpect, hget])
          (by simp only [ipv6Turn, hcolon, if_pos hdig, if_pos hexpect, hstrict])
      · rcases hy : plainX s.pointer with _ | y
        · rw [hplain, ipv6Turn, hcolon] at h₁
          simp only [if_pos hdig, if_neg hexpect, hy] at h₁
          cases h₁
        rcases hy' : getX rsizeMax s.pointer with _ | y'
        · rw [hcode, ipv6Turn, hcolon] at h₂
          simp only [if_pos hdig, if_neg hexpect, hy'] at h₂
          cases h₂
        by_cases hx : ZerosX s.pointer
        · have hlt := getX_of_zerosX hdig hx hy'
          rw [← plainX_of_zerosX hx hy] at hlt
          have hupper : charToUpper (charAt y.2) = wide 'X' := by
            rw [plainX_of_zerosX hx hy]
            exact hx
          right
          have hhead : ∀ c, charToUpper (wide c) ≠ wide 'X' → charAt y.2 ≠ wide c := fun c hc h =>
            hc (h ▸ hupper)
          by_cases hfull : 16 ≤ s.address.length+1
          · rw [hplain, ipv6Turn, hcolon] at h₁
            simp only [if_pos hdig, if_neg hexpect, hy, if_pos hfull] at h₁
            cases h₁
          rw [@run_separate plainX (decimalUpTo 128) _ _ st
            { s with pointer := y.2, address := s.address ++ groupBytes y.1 } (by
              simp only [ipv6Turn, hcolon, if_pos hdig, if_neg hexpect, hy, if_neg hfull]),
            separate, skipSeparator, if_neg (hhead '/' (by decide)),
            if_neg fun h => hhead ':' (by decide) h.1] at h₁
          rw [@run_separate (getX rsizeMax) (getP rsizeMax) _ _ st
            { s with pointer := y'.2, address := s.address ++ groupBytes y'.1 } (by
              simp only [ipv6Turn, hcolon, if_pos hdig, if_neg hexpect, hy', if_neg hfull])] at h₂
          have hle := separate_length h₂
          cases h₁
          exact lt_of_le_of_lt hle hlt
        · have hstrict : strictX rsizeMax s.pointer = plainX s.pointer := if_pos ⟨within_of_getX hy', hx⟩
          have hget := getX_eq_plainX hdig (within_of_getX hy') hx
          exact hsame (by simp only [ipv6Turn, hcolon, if_pos hdig, if_neg hexpect, hget])
            (by simp only [ipv6Turn, hcolon, if_pos hdig, if_neg hexpect, hstrict])
    · exact hsame (by simp only [ipv6Turn, hcolon, if_neg hdig])
        (by simp only [ipv6Turn, hcolon, if_neg hdig])

theorem Groups.mono {isDigit : Char16 → Bool} {sep : Char16} {read read' : Reader} {ns : List Nat}
    (hle : ∀ t y, isDigit (charAt t) = true → read t = some y → read' t = some y)
    (h : Groups isDigit sep read ns s rest) : Groups isDigit sep read' ns s rest := by
  induction h with
  | last hdigit hread => exact .last hdigit (hle _ _ hdigit hread)
  | more hdigit hread _ ih => exact .more hdigit (hle _ _ hdigit hread) ih

theorem Ipv6Text.mono {readX readP readX' readP' : Reader} {bytes : List UInt8} {p : Nat}
    {stop : List Char16} (hX : ∀ t y, AtHex t → readX t = some y → readX' t = some y)
    (hP : ∀ t y, AtHex t → readP t = some y → readP' t = some y)
    (h : Ipv6Text readX readP s bytes p stop) : Ipv6Text readX' readP' s bytes p stop := by
  have hdone : ∀ rest y, prefixEnd readP rest = some y → prefixEnd readP' rest = some y := by
    intro rest y h
    rw [prefixEnd] at h ⊢
    split at h
    · rename_i hslash
      rw [if_pos hslash]
      split at h
      · rename_i hdig
        rw [if_pos hdig]
        exact hP _ _ hdig h
      · cases h
    · rename_i hslash
      rw [if_neg hslash]
      exact h
  cases h with
  | full hgrp hlen hend => exact .full (hgrp.mono hX) hlen (hdone _ _ hend)
  | compressed hfront hback hlen hend =>
    exact .compressed (hfront.imp_right (·.mono hX)) (hback.imp_right (.imp_left (·.mono hX))) hlen
      (hdone _ _ hend)

theorem strictX_plain (t : List Char16) (y : Nat × List Char16) (_ : AtHex t)
    (h : strictX rsizeMax t = some y) : plainX t = some y := by
  rw [strictX] at h
  split at h
  · exact h
  · cases h

theorem strictX_getX (t : List Char16) (y : Nat × List Char16)
    (hdig : AtHex t) (h : strictX rsizeMax t = some y) : getX rsizeMax t = some y := by
  rw [strictX] at h
  split at h
  · rename_i hstrict
    exact (getX_eq_plainX hdig hstrict.1 hstrict.2).trans h
  · cases h

theorem strictP_decimal {max : Nat} (t : List Char16) (y : Nat × List Char16)
    (_ : AtHex t) (h : strictP rsizeMax max t = some y) : decimalUpTo max t = some y := by
  rw [strictP] at h
  split at h
  · exact h
  · cases h

/-- The outcome for a string is the one that its text asks for: the address, and the characters in front of
what follows it, or no change. -/
def Parses (text : List UInt8 → Nat → List Char16 → Prop) (s : List Char16) (c : AddressCells)
    (o : Option (EfiStatus × AddressCells)) : Prop :=
  (∃ bytes p stop, text bytes p stop ∧ o = some (.success, c.store (s.length-stop.length) bytes p)) ∨
    ((∀ bytes p stop, ¬ text bytes p stop) ∧ o = some (.unsupported, c))

theorem copyMem_append {pre tail bytes : List UInt8} {offset : Nat} (hoff : pre.length = offset)
    (hfit : bytes.length ≤ tail.length) :
    copyMem (pre ++ tail) offset bytes = some (pre ++ bytes ++ tail.drop bytes.length) := by
  subst hoff
  rw [copyMem, if_pos (by rw [length_append]; omega), take_left, drop_append,
    drop_eq_nil_of_le (Nat.le_add_right _ _), nil_append, Nat.add_sub_cancel_left]

theorem expand_eq {st : Ipv6Scan} {address : List UInt8} (haddr : address.length = 16)
    (hstart : st.compressStart ≤ st.address.length) (hle : st.address.length ≤ 16) :
    expand st address = some (expanded st) := by
  have htake : (st.address.take st.compressStart).length = st.compressStart := length_take_of_le hstart
  have hdrop : (st.address.drop st.compressStart).length = st.address.length-st.compressStart := length_drop
  have hzeros : (replicate (16-st.address.length) (0 : UInt8)).length = 16-st.address.length :=
    length_replicate
  have h1 := @copyMem_append [] address (st.address.take st.compressStart) 0 rfl (by omega)
  have h2 := @copyMem_append (st.address.take st.compressStart) (address.drop st.compressStart)
    (replicate (16-st.address.length) 0) st.compressStart htake (by
      rw [hzeros, length_drop]
      omega)
  have h3 := @copyMem_append
    (st.address.take st.compressStart ++ replicate (16-st.address.length) 0)
    ((address.drop st.compressStart).drop (16-st.address.length)) (st.address.drop st.compressStart)
    (st.compressStart+16-st.address.length) (by
      rw [length_append, htake, hzeros]
      omega) (by
      rw [hdrop, length_drop, length_drop]
      omega)
  rw [nil_append, nil_append, htake] at h1
  rw [hzeros] at h2
  rw [@drop_eq_nil_of_le _ ((address.drop st.compressStart).drop (16-st.address.length)) _ (by
    rw [hdrop, length_drop, length_drop]
    omega), append_nil] at h3
  rw [expand, h1]
  simp only [Option.bind_eq_bind, bind_some]
  rw [h2, bind_some, h3, expanded]

/-- StrToIpv6Address takes the addresses whose groups StrHexToUintnS reads in four characters. -/
theorem strToIpv6Address_parses {address : List UInt8} (haddr : address.length = 16) (e q : Option Nat) :
    Parses (Ipv6Read rsizeMax s) s ⟨e, some address, q⟩
      (strToIpv6Address rsizeMax (some s) ⟨e, some address, q⟩) := by
  have hloop : ipv6Loop (getX rsizeMax) (getP rsizeMax) (s.length+1) ⟨s, [], 16, false, 255⟩ =
      run (getX rsizeMax) (getP rsizeMax) (scan s [] 16) := rfl
  unfold strToIpv6Address
  dsimp only
  rw [hloop]
  rcases @endsWell_run (getX rsizeMax) (getP rsizeMax) _ _ s with hno | ⟨st,hrun,hends⟩
  · rw [hno]
    refine .inr ⟨fun bytes p stop h => ?_, rfl⟩
    obtain ⟨st,hrun,-⟩ := text_iff.mp h
    rw [hno] at hrun
    cases hrun
  rw [hrun]
  by_cases hacc : Accepted st
  · obtain ⟨hstart,hle,htext⟩ := hends hacc
    refine .inl ⟨_, _, _, htext, ?_⟩
    dsimp only
    rw [if_neg hacc, expand_eq haddr hstart hle]
    rfl
  refine .inr ⟨fun bytes p stop h => ?_, if_pos (not_not.mp hacc)⟩
  obtain ⟨st',hrun',haccepted',-⟩ := text_iff.mp h
  rw [hrun] at hrun'
  cases hrun'
  exact hacc haccepted'

/-- An IPv6 address is read as documented: none of its groups of zeros stands in front of an x, and none of
the groups that are read has an x in it. -/
def Ipv6Plain (rsizeMax : Nat) (s : List Char16) : Prop :=
  ∀ bytes p stop, Ipv6Documented s bytes p stop ∨
    Ipv6Read rsizeMax s bytes p stop →
      Ipv6Strict rsizeMax s bytes p stop

theorem stop_le {readX readP : Reader} [Advances readX] [Advances readP] {bytes : List UInt8}
    {p : Nat} {stop : List Char16} (h : Ipv6Text readX readP s bytes p stop) : stop.length ≤ s.length := by
  obtain ⟨st,hrun,-,-,-,rfl⟩ := text_iff.mp h
  exact run_length hrun

theorem text_unique {readX readP : Reader} [Advances readX] [Advances readP]
    {bytes bytes' : List UInt8} {p p' : Nat} {stop stop' : List Char16}
    (h : Ipv6Text readX readP s bytes p stop) (h' : Ipv6Text readX readP s bytes' p' stop') :
    bytes = bytes' ∧ p = p' ∧ stop = stop' := by
  obtain ⟨st,hrun,-,rfl,rfl,rfl⟩ := text_iff.mp h
  obtain ⟨st',hrun',-,rfl,rfl,rfl⟩ := text_iff.mp h'
  rw [hrun] at hrun'
  cases hrun'
  exact ⟨rfl, rfl, rfl⟩

theorem text_strict {bytes bytes' : List UInt8} {p p' : Nat} {stop stop' : List Char16}
    (h : Ipv6Documented s bytes p stop) (h' : Ipv6Read rsizeMax s bytes' p' stop')
    (hlen : stop.length = stop'.length) : Ipv6Strict rsizeMax s bytes p stop := by
  obtain ⟨st,hrun,hacc,rfl,rfl,rfl⟩ := text_iff.mp h
  obtain ⟨st',hrun',-,-,-,rfl⟩ := text_iff.mp h'
  rcases run_compare hrun hrun' with hstrict | hlt
  · exact text_iff.mpr
      ⟨st, hstrict, hacc, rfl, rfl, rfl⟩
  · omega

theorem strToIpv6Address_iff (rsizeMax : Nat) (s : List Char16) :
    (∀ address e q, address.length = 16 → Parses (Ipv6Documented s) s
      ⟨e, some address, q⟩ (strToIpv6Address rsizeMax (some s) ⟨e, some address, q⟩)) ↔
      Ipv6Plain rsizeMax s := by
  have hgetP : ∀ t y, AtHex t → strictP rsizeMax 128 t = some y →
      getP rsizeMax t = some y := fun t y hdigit h => (getP_eq hdigit).trans h
  constructor
  · intro hparses bytes p stop htext
    have hplain := hparses (replicate 16 0) (some 0) (some 0) length_replicate
    have hcode := @strToIpv6Address_parses s rsizeMax _ (length_replicate (n := 16) (a := 0)) (some 0)
      (some 0)
    rcases hplain with ⟨b₁,p₁,e₁,h₁,ho₁⟩ | ⟨hno₁,ho₁⟩ <;>
      rcases hcode with ⟨b₂,p₂,e₂,h₂,ho₂⟩ | ⟨hno₂,ho₂⟩
    · have hstop : s.length-e₁.length = s.length-e₂.length := by
        have hstore := congrArg (fun o => o.bind fun (r : EfiStatus × AddressCells) => r.2.endPointer)
          (ho₁.symm.trans ho₂)
        exact Option.some.inj hstore
      have hle₁ := stop_le h₁
      have hle₂ := stop_le h₂
      have hstrict := text_strict h₁ h₂ (by omega)
      rcases htext with htext | htext
      · obtain ⟨rfl,rfl,rfl⟩ := text_unique htext h₁
        exact hstrict
      · obtain ⟨rfl,rfl,rfl⟩ := text_unique htext
          (hstrict.mono strictX_getX hgetP)
        exact hstrict
    · cases ho₁.symm.trans ho₂
    · cases ho₁.symm.trans ho₂
    · rcases htext with htext | htext
      · exact absurd htext (hno₁ _ _ _)
      · exact absurd htext (hno₂ _ _ _)
  · intro hcond address e q haddress
    rcases @strToIpv6Address_parses s rsizeMax address haddress e q with ⟨b,p,stop,h,ho⟩ | ⟨hno,ho⟩
    · exact .inl ⟨b, p, stop, (hcond b p stop (.inr h)).mono strictX_plain strictP_decimal, ho⟩
    · exact .inr ⟨fun b p stop h => hno b p stop ((hcond b p stop (.inl h)).mono strictX_getX hgetP), ho⟩

/-- `/P` where a digit stands behind the slash. -/
def ipv4End (readP : Reader) : Reader := fun rest =>
  if charAt rest = wide '/' ∧ AtDecimal rest.tail then readP rest.tail
  else some (255,rest)

/-- An IPv4 address in front of the rest `stop` of a string, with its bytes and its prefix length. -/
def Ipv4Text (readD readP : Reader) (s : List Char16) (bytes : List UInt8) (p : Nat) (stop : List Char16) :
    Prop :=
  ∃ ns rest, DotGroups readD ns s rest ∧ ns.length = 4 ∧
    ipv4End readP rest = some (p,stop) ∧ bytes = ns.map Nat.toUInt8

/-- The documented form of an IPv4 address. -/
abbrev Ipv4Documented := Ipv4Text (decimalUpTo 255) (decimalUpTo 32)

/-- The documented form in reach of the end of the string. -/
abbrev Ipv4Strict (rsizeMax : Nat) := Ipv4Text (strictP rsizeMax 255) (strictP rsizeMax 32)

/-- An IPv4 address is read as documented: no slash stands behind it. -/
def Ipv4Plain (rsizeMax : Nat) (s : List Char16) : Prop :=
  ∀ bytes p stop, Ipv4Documented s bytes p stop →
    Ipv4Strict rsizeMax s bytes p stop ∧ charAt stop ≠ wide '/'

def ipv4Slash (rsizeMax fuel : Nat) (st : Ipv4Scan) : Left Ipv4Scan :=
  if charAt st.pointer = wide '/' then
    ipv4Loop (strDecimalToUintnS rsizeMax) fuel { st with pointer := st.pointer.tail }
  else .left st

theorem Groups.unique {isDigit : Char16 → Bool} {sep : Char16} {read : Reader} {ns ns' : List Nat}
    {rest' : List Char16} (h : Groups isDigit sep read ns s rest) (h' : Groups isDigit sep read ns' s rest')
    (hlen : ns.length = ns'.length) : ns = ns' ∧ rest = rest' := by
  induction h generalizing ns' with
  | last _ hread =>
    cases h' with
    | last _ hread' =>
      rw [hread] at hread'
      cases hread'
      exact ⟨rfl, rfl⟩
    | more _ _ hgrp => cases hgrp <;> simp at hlen
  | more _ hread hgrp ih =>
    cases h' with
    | last _ _ => cases hgrp <;> simp at hlen
    | more _ hread' hgroups' =>
      rw [hread] at hread'
      cases hread'
      obtain ⟨rfl,rfl⟩ := ih hgroups' (Nat.succ.inj hlen)
      exact ⟨rfl, rfl⟩

theorem ipv4_read {max : Nat} (hmax : max ≤ 255) (hdig : AtDecimal s) :
    strictP rsizeMax max s = (strDecimalToUintnS rsizeMax s).filter fun y => y.1 ≤ max := by
  rw [strictP]
  by_cases hin : Within rsizeMax s
  · rw [if_pos hin, strDecimalToUintnS_eq hdig hin, decimalUpTo]
    by_cases hle : number decimal (s.takeWhile isDecimalDigit) 0 ≤ max
    · rw [if_pos ⟨hdig, hle⟩, if_pos (hle.trans (hmax.trans (by decide))), filter_some]
      exact (if_pos (decide_eq_true hle)).symm
    rw [if_neg fun h => hle h.2]
    split
    · rw [filter_some, if_neg (by simp [hle])]
    · rfl
  · rw [if_neg hin, strDecimalToUintnS_long hin]
    rfl

section
variable {fuel p : Nat} {t : List Char16} {a : List UInt8}

theorem ipv4Loop_number (hdig : AtDecimal t) (ha : a.length < 4) :
    ipv4Loop (strDecimalToUintnS rsizeMax) (fuel+1) ⟨t, a, p⟩ =
      match strictP rsizeMax 255 t with
      | none => .unsupported
      | some (n,rest) =>
        if a.length+1 = 4 then ipv4Slash rsizeMax fuel ⟨rest, a ++ [n.toUInt8], p⟩
        else if charAt rest = wide '.' then
          ipv4Loop (strDecimalToUintnS rsizeMax) fuel ⟨rest.tail, a ++ [n.toUInt8], p⟩
        else .unsupported := by
  rw [ipv4Loop, ipv4_read le_rfl hdig]
  simp only [if_pos hdig]
  rcases strDecimalToUintnS rsizeMax t with _ | ⟨n,rest⟩
  · rfl
  have hlen : (a ++ [n.toUInt8]).length = a.length+1 := length_append
  by_cases hle : n ≤ 255
  · have hnum : ipv4Number ⟨t, a, p⟩ n rest = .left ⟨rest, a ++ [n.toUInt8], p⟩ :=
      (if_neg (ne_of_lt ha)).trans ((if_neg (not_lt.mpr hle)).trans (if_neg (not_le.mpr ha)))
    rw [filter_some, if_pos (decide_eq_true hle)]
    dsimp only
    rw [hnum]
    simp only [hlen]
    rfl
  · have hnum : ipv4Number ⟨t, a, p⟩ n rest = .unsupported :=
      (if_neg (ne_of_lt ha)).trans (if_pos (Nat.lt_of_not_le hle))
    rw [filter_some, if_neg (by simp [hle])]
    dsimp only
    rw [hnum]

theorem ipv4Loop_slash (hdig : AtDecimal t) (ha : a.length = 4) :
    ipv4Loop (strDecimalToUintnS rsizeMax) (fuel+1) ⟨t, a, p⟩ =
      match strictP rsizeMax 32 t with
      | none => .unsupported
      | some (n,rest) => ipv4Slash rsizeMax fuel ⟨rest, a, n⟩ := by
  rw [ipv4Loop, ipv4_read (by decide) hdig]
  simp only [if_pos hdig]
  rcases strDecimalToUintnS rsizeMax t with _ | ⟨n,rest⟩
  · rfl
  by_cases hle : n ≤ 32
  · have hnum : ipv4Number ⟨t, a, p⟩ n rest = .left ⟨rest, a, n⟩ :=
      (if_pos ha).trans (if_neg (not_lt.mpr hle))
    rw [filter_some, if_pos (decide_eq_true hle)]
    dsimp only
    rw [hnum]
    exact if_pos ha
  have hnum : ipv4Number ⟨t, a, p⟩ n rest = .unsupported :=
    (if_pos ha).trans (if_pos (Nat.lt_of_not_le hle))
  rw [filter_some, if_neg (by simp [hle])]
  dsimp only
  rw [hnum]

theorem strictP_lt {max n : Nat} (hdig : AtDecimal t)
    (h : strictP rsizeMax max t = some (n,rest)) : rest.length < t.length :=
  Advances.length_lt (isHexaDecimalDigit_of_decimal hdig) h

theorem ipv4Loop_of_groups {ns : List Nat} (h : DotGroups (strictP rsizeMax 255) ns t rest)
    (ha : a.length+ns.length = 4) (hfuel : t.length < fuel) :
    ∃ k, rest.length < k ∧ ipv4Loop (strDecimalToUintnS rsizeMax) fuel ⟨t, a, p⟩ =
      ipv4Slash rsizeMax k ⟨rest, a ++ ns.map Nat.toUInt8, p⟩ := by
  induction h generalizing a fuel with
  | @last n t rest hdigit hread =>
    obtain ⟨fuel,rfl⟩ := Nat.exists_eq_succ_of_ne_zero (Nat.ne_zero_of_lt hfuel)
    have hlt := strictP_lt hdigit hread
    rw [length_singleton] at ha
    refine ⟨fuel, by omega, ?_⟩
    rw [ipv4Loop_number hdigit (by omega), hread]
    exact if_pos ha
  | @more n ns t u rest hdigit hread hgrp ih =>
    obtain ⟨fuel,rfl⟩ := Nat.exists_eq_succ_of_ne_zero (Nat.ne_zero_of_lt hfuel)
    have hlt := strictP_lt hdigit hread
    have hpos : 0 < ns.length := by cases hgrp <;> simp
    rw [length_cons] at ha hlt
    have hlen : (a ++ [n.toUInt8]).length = a.length+1 := length_append
    obtain ⟨k,hk,hloop⟩ := @ih fuel (a ++ [n.toUInt8]) (by omega) (by omega)
    refine ⟨k, hk, ?_⟩
    rw [ipv4Loop_number hdigit (by omega), hread]
    dsimp only
    rw [if_neg (by omega)]
    refine (if_pos rfl).trans ?_
    exact hloop.trans (by rw [map_cons, append_assoc, singleton_append])

theorem groups_of_ipv4Loop (ha : a.length < 4) (hfuel : t.length < fuel) :
    ipv4Loop (strDecimalToUintnS rsizeMax) fuel ⟨t, a, p⟩ = .unsupported ∨
      (∃ st : Ipv4Scan, ipv4Loop (strDecimalToUintnS rsizeMax) fuel ⟨t, a, p⟩ = .left st ∧
        st.address.length < 4) ∨
      ∃ ns rest, DotGroups (strictP rsizeMax 255) ns t rest ∧
        a.length+ns.length = 4 := by
  induction fuel generalizing t a with
  | zero => exact absurd hfuel (Nat.not_lt_zero _)
  | succ fuel ih =>
    by_cases hdig : AtDecimal t
    · rw [ipv4Loop_number hdig ha]
      rcases hread : strictP rsizeMax 255 t with _ | ⟨n,rest⟩
      · exact .inl rfl
      have hlt := strictP_lt hdig hread
      have hlen : (a ++ [n.toUInt8]).length = a.length+1 := length_append
      dsimp only
      by_cases hlast : a.length+1 = 4
      · exact .inr (.inr ⟨[n], rest, .last hdig hread, hlast⟩)
      rw [if_neg hlast]
      by_cases hdot : charAt rest = wide '.'
      · have htail := tail_lt hdot (by decide)
        rw [if_pos hdot]
        refine (@ih rest.tail (a ++ [n.toUInt8]) (by omega) (by omega)).imp_right (.imp_right ?_)
        rintro ⟨ns,rest',hgrp,hns⟩
        rw [eq_cons_of_charAt hdot (by decide)] at hread
        refine ⟨n :: ns, rest', .more hdig hread hgrp, ?_⟩
        rw [length_cons]
        omega
      · exact .inl (if_neg hdot)
    · exact .inr (.inl ⟨_, if_neg hdig, ha⟩)

theorem ipv4Slash_ends (ha : a.length = 4) (hfuel : rest.length < fuel) :
    ipv4Slash rsizeMax fuel ⟨rest, a, p⟩ = .unsupported ∨
      ∃ st, ipv4Slash rsizeMax fuel ⟨rest, a, p⟩ = .left st ∧ st.address = a ∧
        st.pointer.length ≤ rest.length ∧ (charAt rest = wide '/' → st.pointer.length < rest.length) := by
  induction fuel generalizing rest p with
  | zero => exact absurd hfuel (Nat.not_lt_zero _)
  | succ fuel ih =>
    rw [ipv4Slash]
    by_cases hslash : charAt rest = wide '/'
    · have hlt := tail_lt hslash (by decide)
      simp only [if_pos hslash]
      by_cases hdig : AtDecimal rest.tail
      · rw [ipv4Loop_slash hdig ha]
        rcases hread : strictP rsizeMax 32 rest.tail with _ | ⟨n,e⟩
        · exact .inl rfl
        have hlt' := strictP_lt hdig hread
        rcases @ih e n (by omega) with hno | ⟨st,hst,haddr,hle,-⟩
        · exact .inl hno
        · exact .inr ⟨st, hst, haddr, by omega, fun _ => by omega⟩
      · rw [ipv4Loop, if_neg hdig]
        exact .inr ⟨_, rfl, rfl, le_of_lt hlt, fun _ => hlt⟩
    · exact .inr ⟨_, if_neg hslash, rfl, le_rfl, fun h => absurd h hslash⟩

/-- Where the loop is left behind the four numbers: no slash is left over, or one is taken that stands behind
the address. -/
theorem ipv4Slash_eq (ha : a.length = 4) (hfuel : rest.length < fuel) :
    match ipv4End (strictP rsizeMax 32) rest with
    | none => ipv4Slash rsizeMax fuel ⟨rest, a, 255⟩ = .unsupported
    | some (p,stop) =>
      stop.length ≤ rest.length ∧
        if charAt stop = wide '/' then
          ipv4Slash rsizeMax fuel ⟨rest, a, 255⟩ = .unsupported ∨
            ∃ st, ipv4Slash rsizeMax fuel ⟨rest, a, 255⟩ = .left st ∧ st.address = a ∧
              st.pointer.length < stop.length
        else ipv4Slash rsizeMax fuel ⟨rest, a, 255⟩ = .left ⟨stop, a, p⟩ := by
  by_cases hslash : charAt rest = wide '/'
  · by_cases hdig : AtDecimal rest.tail
    · obtain ⟨fuel,rfl⟩ := Nat.exists_eq_succ_of_ne_zero (Nat.ne_zero_of_lt hfuel)
      have htail := tail_lt hslash (by decide)
      have hloop : ipv4Slash rsizeMax (fuel+1) ⟨rest, a, 255⟩ = match strictP rsizeMax 32 rest.tail with
          | none => .unsupported
          | some (n,rest) => ipv4Slash rsizeMax fuel ⟨rest, a, n⟩ :=
        (if_pos hslash).trans (ipv4Loop_slash hdig ha)
      rw [ipv4End, if_pos ⟨hslash, hdig⟩]
      rcases hread : strictP rsizeMax 32 rest.tail with _ | ⟨n,e⟩ <;> rw [hread] at hloop
      · exact hloop
      · have hlt := strictP_lt hdig hread
        refine ⟨by omega, ?_⟩
        rw [hloop]
        by_cases hagain : charAt e = wide '/'
        · rw [if_pos hagain]
          rcases @ipv4Slash_ends e rsizeMax fuel n a ha (by omega) with hno | ⟨st,hst,haddr,-,hle⟩
          · exact .inl hno
          · exact .inr ⟨st, hst, haddr, hle hagain⟩
        · rw [if_neg hagain]
          exact if_neg hagain
    · rw [ipv4End, if_neg fun h => hdig h.2]
      refine ⟨le_rfl, ?_⟩
      rw [if_pos hslash]
      rcases @ipv4Slash_ends rest rsizeMax fuel 255 a ha hfuel with hno | ⟨st,hst,haddr,-,hle⟩
      · exact .inl hno
      · exact .inr ⟨st, hst, haddr, hle hslash⟩
  · rw [ipv4End, if_neg fun h => hslash h.1]
    refine ⟨le_rfl, ?_⟩
    rw [if_neg hslash]
    exact if_neg hslash

end

theorem Ipv4Text.plain {bytes : List UInt8} {p : Nat} {stop : List Char16}
    (h : Ipv4Strict rsizeMax s bytes p stop) : Ipv4Documented s bytes p stop := by
  obtain ⟨ns,rest,hgrp,hlen,hend,hbs⟩ := h
  refine ⟨ns, rest, hgrp.mono fun t y hdig h =>
    strictP_decimal t y (isHexaDecimalDigit_of_decimal hdig) h, hlen, ?_, hbs⟩
  rw [ipv4End] at hend ⊢
  split at hend
  · rename_i hdig
    rw [if_pos hdig]
    exact strictP_decimal _ _ (isHexaDecimalDigit_of_decimal hdig.2) hend
  · rename_i hdig
    rw [if_neg hdig]
    exact hend

theorem ipv4_groups_length {ns : List Nat}
    (h : DotGroups (strictP rsizeMax 255) ns s rest) : rest.length ≤ s.length := by
  induction h with
  | last hdigit hread => exact le_of_lt (strictP_lt hdigit hread)
  | more hdigit hread _ ih =>
    have hlt := strictP_lt hdigit hread
    rw [length_cons] at hlt
    omega

/-- What StrToIpv4Address does with an address whose numbers are in reach, and where there is none. -/
theorem strToIpv4Address_cases (address : List UInt8) (e q : Option Nat) :
    ((∀ bytes p stop, ¬ Ipv4Strict rsizeMax s bytes p stop) ∧
      strToIpv4Address rsizeMax (some s) ⟨e, some address, q⟩ =
        some (.unsupported, ⟨e, some address, q⟩)) ∨
    ∃ bytes p stop, Ipv4Strict rsizeMax s bytes p stop ∧
      if charAt stop = wide '/' then
        strToIpv4Address rsizeMax (some s) ⟨e, some address, q⟩ =
          some (.unsupported, ⟨e, some address, q⟩) ∨
        ∃ n r, s.length-stop.length < n ∧ strToIpv4Address rsizeMax (some s) ⟨e, some address, q⟩ =
          some (.success, AddressCells.store ⟨e, some address, q⟩ n bytes r)
      else strToIpv4Address rsizeMax (some s) ⟨e, some address, q⟩ = some (.success,
        AddressCells.store ⟨e, some address, q⟩ (s.length-stop.length) bytes p) := by
  unfold strToIpv4Address
  dsimp only
  by_cases hgrp : ∃ ns rest, DotGroups (strictP rsizeMax 255) ns s rest ∧
      ns.length = 4
  · obtain ⟨ns,rest,hgrp,hns⟩ := hgrp
    have hlen : (ns.map Nat.toUInt8).length = 4 := by rw [length_map, hns]
    have hle := ipv4_groups_length hgrp
    obtain ⟨k,hk,hloop⟩ := @ipv4Loop_of_groups rest rsizeMax (s.length+1) 255 s [] ns hgrp
      (by rw [length_nil, hns]) (Nat.lt_succ_self _)
    have hslash := @ipv4Slash_eq rest rsizeMax k (ns.map Nat.toUInt8) hlen hk
    rcases hend : ipv4End (strictP rsizeMax 32) rest with _ | ⟨p,stop⟩ <;> rw [hend] at hslash
    · rw [hloop.trans hslash]
      refine .inl ⟨?_, rfl⟩
      rintro bytes p stop ⟨ns',rest',hgroups',hns',hend',-⟩
      obtain ⟨-,rfl⟩ := hgrp.unique hgroups' (hns.trans hns'.symm)
      rw [hend] at hend'
      cases hend'
    · obtain ⟨hstop,hslash⟩ := hslash
      refine .inr ⟨_, p, stop, ⟨ns, rest, hgrp, hns, hend, rfl⟩, ?_⟩
      by_cases hmore : charAt stop = wide '/'
      · rw [if_pos hmore] at hslash ⊢
        rcases hslash with hno | ⟨st,hst,haddr,hlt⟩
        · exact .inl (by rw [hloop.trans hno])
        refine .inr ⟨s.length-st.pointer.length, st.prefixLength, by omega, ?_⟩
        rw [← haddr, hloop.trans hst]
        refine if_neg ?_
        rw [haddr, hlen]
        decide
      · rw [if_neg hmore] at hslash ⊢
        rw [hloop.trans hslash]
        exact if_neg (by dsimp only; omega)
  · refine .inl ⟨fun bytes p stop h => ?_, ?_⟩
    · obtain ⟨ns,rest,h,hns,-⟩ := h
      exact hgrp ⟨ns, rest, h, hns⟩
    · rcases @groups_of_ipv4Loop rsizeMax (s.length+1) 255 s [] (by decide) (Nat.lt_succ_self _) with
        hno | ⟨st, hst, hshort⟩ | ⟨ns, rest, h, hns⟩
      · rw [hno]
      · rw [hst]
        exact if_pos hshort
      · exact absurd ⟨ns, rest, h, (zero_add _).symm.trans hns⟩ hgrp

theorem Ipv4Text.unique {readD readP : Reader} {bytes bytes' : List UInt8} {p p' : Nat}
    {stop stop' : List Char16} (h : Ipv4Text readD readP s bytes p stop)
    (h' : Ipv4Text readD readP s bytes' p' stop') : bytes = bytes' ∧ p = p' ∧ stop = stop' := by
  obtain ⟨ns,rest,hgrp,hns,hend,rfl⟩ := h
  obtain ⟨ns',rest',hgroups',hns',hend',rfl⟩ := h'
  obtain ⟨rfl,rfl⟩ := hgrp.unique hgroups' (hns.trans hns'.symm)
  rw [hend] at hend'
  cases hend'
  exact ⟨rfl, rfl, rfl⟩

theorem strToIpv4Address_iff (rsizeMax : Nat) (s : List Char16) :
    (∀ address e q, Parses (Ipv4Documented s) s ⟨e, some address, q⟩
      (strToIpv4Address rsizeMax (some s) ⟨e, some address, q⟩)) ↔ Ipv4Plain rsizeMax s := by
  constructor
  · intro hparses bytes p stop htext
    have hplain := hparses [0, 0, 0, 0] (some 0) (some 0)
    rcases @strToIpv4Address_cases s rsizeMax [0, 0, 0, 0] (some 0) (some 0) with
      ⟨-, hno⟩ | ⟨bytes', p', stop', hstrict, hcode⟩
    · rw [hno] at hplain
      rcases hplain with ⟨_,_,_,_,ho⟩ | ⟨hnone,-⟩
      · cases ho
      · exact absurd htext (hnone _ _ _)
    obtain ⟨rfl,rfl,rfl⟩ := htext.unique hstrict.plain
    refine ⟨hstrict, fun hslash => ?_⟩
    rw [if_pos hslash] at hcode
    rcases hplain with ⟨b,r,e,htext',ho⟩ | ⟨hnone,-⟩
    · obtain ⟨rfl,rfl,rfl⟩ := htext.unique htext'
      rcases hcode with hno | ⟨n,r,hlt,hcode⟩
      · cases hno.symm.trans ho
      · cases hcode.symm.trans ho
        exact lt_irrefl _ hlt
    · exact hnone _ _ _ htext
  · intro hcond address e q
    rcases @strToIpv4Address_cases s rsizeMax address e q with ⟨hnone,hno⟩ | ⟨bytes,p,stop,hstrict,hcode⟩
    · exact .inr ⟨fun bytes p stop htext => hnone _ _ _ (hcond _ _ _ htext).1, hno⟩
    · rw [if_neg (hcond _ _ _ hstrict.plain).2] at hcode
      exact .inl ⟨bytes, p, stop, hstrict.plain, hcode⟩

end

/-- The addresses that are taken as documented. -/
theorem parses_iff_plain (rsizeMax : Nat) (s : List Char16) :
    ((∀ address e q, address.length = 16 → Parses (Ipv6Documented s) s
      ⟨e, some address, q⟩ (strToIpv6Address rsizeMax (some s) ⟨e, some address, q⟩)) ↔
        Ipv6Plain rsizeMax s) ∧
    ((∀ address e q, Parses (Ipv4Documented s) s
      ⟨e, some address, q⟩ (strToIpv4Address rsizeMax (some s) ⟨e, some address, q⟩)) ↔
        Ipv4Plain rsizeMax s) := ⟨strToIpv6Address_iff rsizeMax s, strToIpv4Address_iff rsizeMax s⟩

/-- "0x12::" is taken for an address, and "1.2.3.4/" ends behind its slash. -/
theorem parses_misread :
    ¬ Parses (Ipv6Documented ("0x12::".toList.map wide)) ("0x12::".toList.map wide)
      ⟨some 0, some (replicate 16 0), some 0⟩
      (strToIpv6Address 1000000 (some ("0x12::".toList.map wide))
        ⟨some 0, some (replicate 16 0), some 0⟩) ∧
    ¬ Parses (Ipv4Documented ("1.2.3.4/".toList.map wide))
      ("1.2.3.4/".toList.map wide) ⟨some 0, some [0, 0, 0, 0], some 0⟩
      (strToIpv4Address 1000000 (some ("1.2.3.4/".toList.map wide)) ⟨some 0, some [0, 0, 0, 0], some 0⟩) := by
  constructor
  · have hcode : strToIpv6Address 1000000 (some ("0x12::".toList.map wide))
        ⟨some 0, some (replicate 16 0), some 0⟩ =
          some (.success, ⟨some 6, some (0 :: 0x12 :: replicate 14 0), some 255⟩) := by decide +kernel
    rintro (⟨bytes,p,stop,htext,-⟩ | ⟨-,ho⟩)
    · obtain ⟨st,hrun,hacc,-⟩ := text_iff.mp htext
      cases hrun
      exact hacc (by decide)
    · rw [hcode] at ho
      cases ho
  · have hcode : strToIpv4Address 1000000 (some ("1.2.3.4/".toList.map wide))
        ⟨some 0, some [0, 0, 0, 0], some 0⟩ =
          some (.success, ⟨some 8, some [1, 2, 3, 4], some 255⟩) := by decide +kernel
    have hplain : Ipv4Documented ("1.2.3.4/".toList.map wide) [1, 2, 3, 4] 255
        [wide '/'] :=
      ⟨[1, 2, 3, 4], _, .more rfl rfl (.more rfl rfl (.more rfl rfl (.last rfl rfl))), rfl, rfl, rfl⟩
    rintro (⟨bytes,p,stop,htext,ho⟩ | ⟨hnone,-⟩)
    · obtain ⟨rfl,rfl,rfl⟩ := hplain.unique htext
      exact absurd ho (by decide +kernel)
    · exact hnone _ _ _ hplain

end Liano.SafeString
