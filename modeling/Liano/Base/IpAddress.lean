import Liano.Base.SafeString

/-! The conversions of Null-terminated strings to IPv4 and IPv6 addresses in BaseLib. -/
namespace Liano.SafeString

open List

/-- `*Pointer` -/
def charAt (pointer : List Char16) : Char16 := pointer.headD 0

abbrev Reader := List Char16 → Option (Nat × List Char16)

def readNumber (convert : List Char16 → Outcome) : Reader := fun pointer =>
  if (convert pointer).1.isError then none
  else some ((convert pointer).2.2.getD 0, pointer.drop ((convert pointer).2.1.getD 0))

/-- StrHexToUintnS. The character in front of the pointer is not read where the pointer is at a digit. -/
def strHexToUintnS (rsizeMax : Nat) : Reader :=
  readNumber fun pointer => strHexToUint64S 0 rsizeMax (some pointer) (some 0) (some 0)

def strDecimalToUintnS (rsizeMax : Nat) : Reader :=
  readNumber fun pointer => strDecimalToUint64S rsizeMax (some pointer) (some 0) (some 0)

/-- How a loop ends: the string is not supported, an assertion fails or a store is out of the local address, or
the loop is left. -/
inductive Left (α : Type)
  | unsupported
  | fault
  | left (a : α)

/-- The variables of the loop; `address` is LocalAddress up to AddressIndex. -/
structure Ipv4Scan where
  pointer : List Char16
  address : List UInt8
  prefixLength : Nat

def ipv4Number (s : Ipv4Scan) (uintn : Nat) (pointer : List Char16) : Left Ipv4Scan :=
  if s.address.length = 4 then
    if uintn > 32 then .unsupported else .left { s with pointer := pointer, prefixLength := uintn }
  else if uintn > 255 then .unsupported
  else if 4 ≤ s.address.length then .fault
  else .left { s with pointer := pointer, address := s.address ++ [uintn.toUInt8] }

/-- The loop of StrToIpv4Address. -/
def ipv4Loop (read : Reader) : Nat → Ipv4Scan → Left Ipv4Scan
  | 0, _ => .fault
  | fuel+1, s =>
    if isDecimalDigit (charAt s.pointer) then
      match read s.pointer with
      | none => .unsupported
      | some (uintn,pointer) =>
        match ipv4Number s uintn pointer with
        | .left s =>
          if s.address.length = 4 then
            if charAt s.pointer = wide '/' then ipv4Loop read fuel { s with pointer := s.pointer.tail }
            else .left s
          else if charAt s.pointer = wide '.' then ipv4Loop read fuel { s with pointer := s.pointer.tail }
          else .unsupported
        | r => r
    else .left s

/-- The cells of the caller, none for a null pointer; `*EndPointer` as the number of characters before it. -/
structure AddressCells where
  endPointer : Option Nat
  address : Option (List UInt8)
  prefixLength : Option Nat
deriving DecidableEq

def AddressCells.store (c : AddressCells) (stop : Nat) (address : List UInt8) (prefixLength : Nat) :
    AddressCells := ⟨c.endPointer.map fun _ => stop, some address, c.prefixLength.map fun _ => prefixLength⟩

/-- StrToIpv4Address; none where an assertion fails or a store is out of its buffer. -/
def strToIpv4Address (rsizeMax : Nat) (string : Option (List Char16)) (c : AddressCells) :
    Option (EfiStatus × AddressCells) := match string, c.address with
  | some string, some _ =>
    match ipv4Loop (strDecimalToUintnS rsizeMax) (string.length+1) ⟨string, [], 255⟩ with
    | .unsupported => some (.unsupported, c)
    | .fault => none
    | .left s =>
      if s.address.length < 4 then some (.unsupported, c)
      else some (.success, c.store (string.length-s.pointer.length) s.address s.prefixLength)
  | _, _ => some (.invalidParameter, c)

/-- The variables of the loop of StrToIpv6Address. -/
structure Ipv6Scan where
  pointer : List Char16
  address : List UInt8
  compressStart : Nat
  expectPrefix : Bool
  prefixLength : Nat

def meetColon (s : Ipv6Scan) : Option Ipv6Scan := if isHexaDecimalDigit (charAt s.pointer) then some s
  else if charAt s.pointer ≠ wide ':' then none
  else if s.expectPrefix then none
  else if s.compressStart ≠ 16 ∨ s.address.length = 16 then none
  else if s.address.length = 0 then
    if charAt s.pointer.tail ≠ wide ':' then none
    else some { s with compressStart := s.address.length, pointer := s.pointer.tail.tail }
  else some { s with compressStart := s.address.length, pointer := s.pointer.tail }

def skipSeparator (s : Ipv6Scan) : Bool × Ipv6Scan :=
  if charAt s.pointer = wide '/' then (true, { s with expectPrefix := true, pointer := s.pointer.tail })
  else if charAt s.pointer = wide ':' ∧ s.address.length ≠ 16 then
    (true, { s with pointer := s.pointer.tail })
  else (false,s)

def groupBytes (n : Nat) : List UInt8 := [(n / 256).toUInt8, n.toUInt8]

/-- One turn of the loop of StrToIpv6Address, with whether it goes on. -/
def ipv6Turn (getX getP : Reader) (s : Ipv6Scan) : Left (Bool × Ipv6Scan) := match meetColon s with
  | none => .unsupported
  | some s =>
    if isHexaDecimalDigit (charAt s.pointer) then
      if s.expectPrefix then
        match getP s.pointer with
        | none => .unsupported
        | some (uintn,stop) => .left (false, { s with pointer := stop, prefixLength := uintn })
      else
        match getX s.pointer with
        | none => .unsupported
        | some (uintn,stop) =>
          if 16 ≤ s.address.length+1 then .fault
          else .left (skipSeparator { s with pointer := stop, address := s.address ++ groupBytes uintn })
    else if charAt s.pointer = wide '/' then
      if s.compressStart ≠ s.address.length then .unsupported else .left (skipSeparator s)
    else .left (false,s)

def ipv6Loop (getX getP : Reader) : Nat → Ipv6Scan → Left Ipv6Scan
  | 0, _ => .fault
  | fuel+1, s =>
    match ipv6Turn getX getP s with
    | .unsupported => .unsupported
    | .fault => .fault
    | .left (true,s) => ipv6Loop getX getP fuel s
    | .left (false,s) => .left s

def getX (rsizeMax : Nat) : Reader := fun pointer =>
  (strHexToUintnS rsizeMax pointer).filter fun (_,stop) => pointer.length-stop.length ≤ 4

def getP (rsizeMax : Nat) : Reader := fun pointer =>
  (strDecimalToUintnS rsizeMax pointer).filter fun (uintn,stop) => stop ≠ pointer && uintn ≤ 128

/-- CopyMem or ZeroMem into the address of the caller; none where it does not fit. -/
def copyMem (address : List UInt8) (offset : Nat) (bytes : List UInt8) : Option (List UInt8) :=
  if offset+bytes.length ≤ address.length then
    some (address.take offset ++ bytes ++ address.drop (offset+bytes.length))
  else none

def expand (s : Ipv6Scan) (address : List UInt8) : Option (List UInt8) := do
  let address ← copyMem address 0 (s.address.take s.compressStart)
  let address ← copyMem address s.compressStart (replicate (16-s.address.length) 0)
  copyMem address (s.compressStart+16-s.address.length) (s.address.drop s.compressStart)

def strToIpv6Address (rsizeMax : Nat) (string : Option (List Char16)) (c : AddressCells) :
    Option (EfiStatus × AddressCells) := match string, c.address with
  | some string, some address =>
    match ipv6Loop (getX rsizeMax) (getP rsizeMax) (string.length+1) ⟨string, [], 16, false, 255⟩ with
    | .unsupported => some (.unsupported, c)
    | .fault => none
    | .left s =>
      if (s.address.length = 16 ∧ s.compressStart ≠ 16) ∨ (s.address.length ≠ 16 ∧ s.compressStart = 16) then
        some (.unsupported, c)
      else
        (expand s address).map fun address =>
          (.success, c.store (string.length-s.pointer.length) address s.prefixLength)
  | _, _ => some (.invalidParameter, c)

inductive Groups (isDigit : Char16 → Bool) (sep : Char16) (read : Reader) :
    List Nat → List Char16 → List Char16 → Prop
  | last {n : Nat} {s rest : List Char16} : isDigit (charAt s) = true → read s = some (n,rest) →
      Groups isDigit sep read [n] s rest
  | more {n : Nat} {ns : List Nat} {s t rest : List Char16} : isDigit (charAt s) = true →
      read s = some (n, sep :: t) → Groups isDigit sep read ns t rest →
      Groups isDigit sep read (n :: ns) s rest

abbrev HexGroups := Groups isHexaDecimalDigit (wide ':')

abbrev AtHex (s : List Char16) : Prop := isHexaDecimalDigit (charAt s) = true

/-- `/P`, or nothing where there is no slash. -/
def prefixEnd (readP : Reader) : Reader := fun rest =>
  if charAt rest = wide '/' then
    if isHexaDecimalDigit (charAt rest.tail) then readP rest.tail else none
  else some (255,rest)

def Front (readX : Reader) (xs : List Nat) (s t : List Char16) : Prop :=
  (xs = [] ∧ s = wide ':' :: wide ':' :: t) ∨ HexGroups readX xs s (wide ':' :: wide ':' :: t)

def Back (readX : Reader) (ys : List Nat) (t rest : List Char16) : Prop :=
  (ys = [] ∧ rest = t ∧ isHexaDecimalDigit (charAt t) = false) ∨
    (HexGroups readX ys t rest ∧ charAt rest ≠ wide ':')

/-- An IPv6 address in front of the rest `stop` of a string, with its bytes and its prefix length. -/
inductive Ipv6Text (readX readP : Reader) (s : List Char16) : List UInt8 → Nat → List Char16 → Prop
  | full {ns : List Nat} {rest stop : List Char16} {p : Nat} : HexGroups readX ns s rest → ns.length = 8 →
      prefixEnd readP rest = some (p,stop) → Ipv6Text readX readP s (ns.flatMap groupBytes) p stop
  | compressed {xs ys : List Nat} {t rest stop : List Char16} {p : Nat} :
      Front readX xs s t → Back readX ys t rest → xs.length+ys.length ≤ 7 →
      prefixEnd readP rest = some (p,stop) → Ipv6Text readX readP s (xs.flatMap groupBytes ++
        replicate (16 - 2 * (xs.length+ys.length)) 0 ++ ys.flatMap groupBytes) p stop

def run (readX readP : Reader) (s : Ipv6Scan) : Left Ipv6Scan := ipv6Loop readX readP (s.pointer.length+1) s

def separate (readX readP : Reader) (s : Ipv6Scan) : Left Ipv6Scan := match skipSeparator s with
  | (true,s) => run readX readP s
  | (false,s) => .left s

def scan (t : List Char16) (a : List UInt8) (c : Nat) : Ipv6Scan := ⟨t, a, c, false, 255⟩

/-- A number is read from at least one character. -/
class Advances (read : Reader) : Prop where
  length_lt : ∀ {s : List Char16} {n : Nat} {rest : List Char16}, AtHex s →
    read s = some (n,rest) → rest.length < s.length

section
variable {readX readP : Reader} {s t : List Char16} {a : List UInt8} {c : Nat}

theorem tail_lt {s : List Char16} {x : Char} (h : charAt s = wide x) (hx : wide x ≠ 0) :
    s.tail.length < s.length := by
  cases s with
  | nil => exact absurd h.symm hx
  | cons c l => exact Nat.lt_succ_self _

theorem skipSeparator_length (s : Ipv6Scan) :
    (skipSeparator s).2.pointer.length + (skipSeparator s).1.toNat ≤ s.pointer.length := by
  unfold skipSeparator
  split
  · rename_i h
    exact tail_lt h (by decide)
  split
  · rename_i h
    exact tail_lt h.1 (by decide)
  · exact le_rfl

theorem meetColon_length {s s' : Ipv6Scan} (h : meetColon s = some s') :
    s'.pointer.length ≤ s.pointer.length := by
  unfold meetColon at h
  repeat' split at h
  all_goals cases h
  all_goals simp
  all_goals omega

theorem skip_colon (ha : a.length ≠ 16) : skipSeparator (scan (wide ':' :: t) a c) = (true, scan t a c) :=
  (if_neg (show ¬ wide ':' = wide '/' by decide)).trans (if_pos ⟨rfl, ha⟩)

theorem separate_colon (ha : a.length ≠ 16) :
    separate readX readP (scan (wide ':' :: t) a c) = run readX readP (scan t a c) := by
  rw [separate, skip_colon ha]

variable [Advances readX] [Advances readP]

theorem ipv6Turn_length {s s' : Ipv6Scan} {b : Bool} (h : ipv6Turn readX readP s = .left (b,s')) :
    s'.pointer.length+b.toNat ≤ s.pointer.length := by
  unfold ipv6Turn at h
  split at h
  · cases h
  rename_i s₁ hcolon
  have hle := meetColon_length hcolon
  have hskip := skipSeparator_length
  split at h
  · rename_i hdig
    split at h
    · split at h
      · cases h
      · rename_i hread
        cases h
        exact (le_of_lt (Advances.length_lt hdig hread)).trans hle
    split at h
    · cases h
    rename_i n stop hread
    split at h
    · cases h
    have hlt := Advances.length_lt hdig hread
    have hsep := hskip { s₁ with pointer := stop, address := s₁.address ++ groupBytes n }
    rw [Left.left.inj h] at hsep
    dsimp only at hsep
    omega
  · split at h
    · split at h
      · cases h
      · have hsep := hskip s₁
        rw [Left.left.inj h] at hsep
        exact hsep.trans hle
    · cases h
      exact hle

theorem ipv6Loop_fuel {k m : Nat} {s : Ipv6Scan} (hk : s.pointer.length < k)
    (hm : s.pointer.length < m) : ipv6Loop readX readP k s = ipv6Loop readX readP m s := by
  induction k generalizing m s with
  | zero => exact absurd hk (Nat.not_lt_zero _)
  | succ k ih =>
    obtain ⟨m,rfl⟩ := Nat.exists_eq_succ_of_ne_zero (Nat.ne_zero_of_lt hm)
    rw [ipv6Loop, ipv6Loop]
    rcases hturn : ipv6Turn readX readP s with _ | _ | ⟨b,s'⟩
    · rfl
    · rfl
    have hlt := ipv6Turn_length hturn
    cases b with
    | false => rfl
    | true =>
      change s'.pointer.length + 1 ≤ s.pointer.length at hlt
      exact ih (by omega) (by omega)

theorem run_eq (s : Ipv6Scan) : run readX readP s = match ipv6Turn readX readP s with
      | .unsupported => .unsupported
      | .fault => .fault
      | .left (true,s) => run readX readP s
      | .left (false,s) => .left s := by
  rw [run, ipv6Loop]
  rcases hturn : ipv6Turn readX readP s with _ | _ | ⟨b,s'⟩
  · rfl
  · rfl
  have hlt := ipv6Turn_length hturn
  cases b with
  | false => rfl
  | true => exact ipv6Loop_fuel hlt (Nat.lt_succ_self _)

theorem run_separate {s s' : Ipv6Scan} (h : ipv6Turn readX readP s = .left (skipSeparator s')) :
    run readX readP s = separate readX readP s' := by
  rw [run_eq, h, separate]
  rcases skipSeparator s' with ⟨_ | _,_⟩ <;> rfl

theorem run_group (hdig : AtHex t) : run readX readP (scan t a c) = match readX t with
      | none => .unsupported
      | some (n,rest) =>
        if 16 ≤ a.length+1 then .fault
        else separate readX readP (scan rest (a ++ groupBytes n) c) := by
  have hcolon : meetColon (scan t a c) = some (scan t a c) := if_pos hdig
  have hturn : ipv6Turn readX readP (scan t a c) = match readX t with
      | none => .unsupported
      | some (n,rest) =>
        if 16 ≤ a.length+1 then .fault
        else .left (skipSeparator (scan rest (a ++ groupBytes n) c)) := by
    rw [ipv6Turn, hcolon]
    exact if_pos hdig
  rcases hread : readX t with _ | ⟨n,rest⟩
  · rw [hread] at hturn
    rw [run_eq, hturn]
  rw [hread] at hturn
  dsimp only at hturn ⊢
  split at hturn
  · rename_i hfull
    rw [run_eq, hturn, if_pos hfull]
  · rename_i hroom
    rw [if_neg hroom]
    exact run_separate hturn

theorem run_slash : run readX readP ⟨t, a, c, true, 255⟩ = if isHexaDecimalDigit (charAt t) then
        match readP t with
        | none => .unsupported
        | some (p,stop) => .left ⟨stop, a, c, true, p⟩
      else .unsupported := by
  by_cases hdig : AtHex t
  · have hcolon : meetColon ⟨t, a, c, true, 255⟩ = some ⟨t, a, c, true, 255⟩ := if_pos hdig
    rw [run_eq, ipv6Turn, hcolon]
    simp only [if_pos hdig]
    rcases readP t with _ | ⟨p,stop⟩ <;> rfl
  have hcolon : meetColon ⟨t, a, c, true, 255⟩ = none := by
    rw [meetColon, if_neg hdig]
    split <;> rfl
  rw [run_eq, ipv6Turn, hcolon, if_neg hdig]

theorem separate_end (hend : charAt t ≠ wide ':' ∨ a.length = 16) :
    separate readX readP (scan t a c) = match prefixEnd readP t with
      | none => .unsupported
      | some (p,stop) => .left ⟨stop, a, c, decide (charAt t = wide '/'), p⟩ := by
  by_cases hslash : charAt t = wide '/'
  · have hskip : skipSeparator (scan t a c) = (true, ⟨t.tail, a, c, true, 255⟩) := if_pos hslash
    rw [separate, hskip, prefixEnd, if_pos hslash, decide_eq_true hslash]
    dsimp only
    rw [run_slash]
    split <;> rfl
  have hno : ¬ (charAt t = wide ':' ∧ a.length ≠ 16) := fun h => hend.elim (· h.1) (h.2 ·)
  have hskip : skipSeparator (scan t a c) = (false, scan t a c) := (if_neg hslash).trans (if_neg hno)
  rw [separate, hskip, prefixEnd, if_neg hslash, decide_eq_false hslash]
  rfl

theorem run_colon {u : List Char16} (hc : a.length = c)
    (hcolon : meetColon (scan t a 16) = some (scan u a c)) : run readX readP (scan t a 16) =
      if isHexaDecimalDigit (charAt u) then run readX readP (scan u a c)
      else match prefixEnd readP u with
        | none => .unsupported
        | some (p,stop) => .left ⟨stop, a, c, decide (charAt u = wide '/'), p⟩ := by
  by_cases hdig : AtHex u
  · have hsame : meetColon (scan u a c) = some (scan u a c) := if_pos hdig
    rw [if_pos hdig, run_eq, run_eq, ipv6Turn, ipv6Turn, hcolon, hsame]
  rw [if_neg hdig]
  by_cases hslash : charAt u = wide '/'
  · have hturn : ipv6Turn readX readP (scan t a 16) = .left (skipSeparator (scan u a c)) := by
      rw [ipv6Turn, hcolon]
      exact (if_neg hdig).trans ((if_pos hslash).trans (if_neg (not_not.mpr hc.symm)))
    rw [run_separate hturn]
    exact separate_end (.inl (by rw [hslash]; decide))
  have hturn : ipv6Turn readX readP (scan t a 16) = .left (false, scan u a c) := by
    rw [ipv6Turn, hcolon]
    exact (if_neg hdig).trans (if_neg hslash)
  rw [run_eq, hturn, prefixEnd, if_neg hslash, decide_eq_false hslash]
  rfl

theorem run_groups {ns : List Nat} {rest : List Char16}
    (h : HexGroups readX ns t rest) (ha : a.length + 2*ns.length ≤ 16) :
    run readX readP (scan t a c) = separate readX readP (scan rest (a ++ ns.flatMap groupBytes) c) := by
  induction h generalizing a with
  | @last n s rest hdigit hread =>
    rw [run_group hdigit, hread]
    have hroom : ¬ 16 ≤ a.length+1 := by
      simp only [length_singleton] at ha
      omega
    dsimp only
    rw [if_neg hroom, flatMap_singleton]
  | @more n ns s t rest hdigit hread hgrp ih =>
    rw [length_cons] at ha
    have hlen : (a ++ groupBytes n).length = a.length+2 := length_append
    have hpos : 0 < ns.length := by cases hgrp <;> simp
    rw [run_group hdigit, hread]
    dsimp only
    rw [if_neg (by omega), separate_colon (by omega), ih (by omega), flatMap_cons, append_assoc]

theorem eq_cons_of_charAt {x : Char} (h : charAt t = wide x) (hx : wide x ≠ 0) : t = wide x :: t.tail := by
  cases t with
  | nil => exact absurd h.symm hx
  | cons c l => exact congrArg (· :: l) h

/-- At a digit there are groups up to where no further group follows, or the string is not supported. -/
theorem groups_of_run {k : Nat} (hk : t.length ≤ k)
    (hdig : AtHex t) (heven : a.length % 2 = 0) (ha : a.length < 16) :
    run readX readP (scan t a c) = .unsupported ∨ ∃ ns rest,
      HexGroups readX ns t rest ∧ a.length + 2*ns.length ≤ 16 ∧
        (charAt rest = wide ':' → a.length + 2*ns.length ≠ 16 →
          isHexaDecimalDigit (charAt rest.tail) = false) := by
  induction k generalizing t a with
  | zero =>
    rw [eq_nil_of_length_eq_zero (Nat.le_zero.mp hk)] at hdig
    exact absurd hdig (by decide)
  | succ k ih =>
    rcases hread : readX t with _ | ⟨n,rest⟩
    · exact .inl (by rw [run_group hdig, hread])
    have hlt := Advances.length_lt hdig hread
    have hlen : (a ++ groupBytes n).length = a.length+2 := length_append
    by_cases hmore : charAt rest = wide ':' ∧ a.length+2 ≠ 16 ∧ AtHex rest.tail
    · have hrest := eq_cons_of_charAt hmore.1 (by decide)
      rw [hrest] at hread hlt
      have hrun : run readX readP (scan t a c) =
          run readX readP (scan rest.tail (a ++ groupBytes n) c) := by
        rw [run_group hdig, hread]
        exact (if_neg (by omega)).trans (separate_colon (by omega))
      rw [length_cons] at hlt
      rcases @ih rest.tail (a ++ groupBytes n) (by omega) hmore.2.2 (by omega) (by omega) with
        hno | ⟨ns, rest', hgrp, hle, hstop⟩
      · exact .inl (hrun.trans hno)
      rw [hlen] at hle hstop
      refine .inr ⟨n :: ns, rest', .more hdig hread hgrp, ?_, fun h hne => hstop h ?_⟩
      · rw [length_cons]
        omega
      · rw [length_cons] at hne
        omega
    · refine .inr ⟨[n], rest, .last hdig hread, ?_, fun h hne => ?_⟩
      · rw [length_singleton]
        omega
      · exact eq_false_of_ne_true fun htrue => hmore ⟨h, hne, htrue⟩

def Accepted (st : Ipv6Scan) : Prop :=
  ¬ ((st.address.length = 16 ∧ st.compressStart ≠ 16) ∨ (st.address.length ≠ 16 ∧ st.compressStart = 16))

def expanded (st : Ipv6Scan) : List UInt8 :=
  st.address.take st.compressStart ++ replicate (16-st.address.length) 0 ++
    st.address.drop st.compressStart

def EndsWell (readX readP : Reader) (s : List Char16) (r : Left Ipv6Scan) : Prop :=
  r = .unsupported ∨ ∃ st, r = .left st ∧ (Accepted st → st.compressStart ≤ st.address.length ∧
    st.address.length ≤ 16 ∧ Ipv6Text readX readP s (expanded st) st.prefixLength st.pointer)

theorem groupBytes_length (ns : List Nat) : (ns.flatMap groupBytes).length = 2*ns.length := by
  induction ns with
  | nil => rfl
  | cons n ns ih =>
    rw [flatMap_cons, length_append, ih, length_cons]
    change 2 + _ = _
    omega

theorem expanded_append (xs ys : List Nat) (stop : List Char16) (b : Bool) (p : Nat) :
    expanded ⟨stop, xs.flatMap groupBytes ++ ys.flatMap groupBytes, 2*xs.length, b, p⟩ =
      xs.flatMap groupBytes ++ replicate (16 - 2 * (xs.length+ys.length)) 0 ++
        ys.flatMap groupBytes := by
  rw [expanded]
  rw [← groupBytes_length xs, take_left, drop_left, length_append, groupBytes_length,
    groupBytes_length, mul_add]

variable {xs : List Nat}

theorem endsWell_back (hfront : Front readX xs s t) (hxs : xs.length ≤ 7) : EndsWell readX readP s
      (if isHexaDecimalDigit (charAt t) then
        run readX readP (scan t (xs.flatMap groupBytes) (2*xs.length))
      else match prefixEnd readP t with
        | none => .unsupported
        | some (p,stop) =>
          .left ⟨stop, xs.flatMap groupBytes, 2*xs.length, decide (charAt t = wide '/'), p⟩) := by
  have hlen := groupBytes_length xs
  by_cases hdig : AtHex t
  · rw [if_pos hdig]
    rcases @groups_of_run readX readP t (xs.flatMap groupBytes) (2*xs.length) _ _ _ le_rfl
      hdig (by omega) (by omega) with hno | ⟨ys,rest,hgrp,hle,hstop⟩
    · exact .inl hno
    have hlen' : (xs.flatMap groupBytes ++ ys.flatMap groupBytes).length = 2 * (xs.length+ys.length) := by
      rw [length_append, hlen, groupBytes_length, mul_add]
    rw [hlen] at hle hstop
    rw [run_groups hgrp (by omega)]
    by_cases hmore : charAt rest = wide ':' ∧ 2*xs.length + 2*ys.length ≠ 16
    · -- a colon in front of no digit is not supported behind a double colon
      have hnone : meetColon (scan rest.tail (xs.flatMap groupBytes ++ ys.flatMap groupBytes)
          (2*xs.length)) = none := by
        refine (if_neg (ne_true_of_eq_false (hstop hmore.1 hmore.2))).trans ?_
        split
        · rfl
        · exact (if_neg Bool.noConfusion).trans (if_pos (.inl (by change 2 * xs.length ≠ 16; omega)))
      rw [eq_cons_of_charAt hmore.1 (by decide), separate_colon (by omega), run_eq, ipv6Turn, hnone]
      exact .inl rfl
    · rw [separate_end ((not_and_or.mp hmore).imp id fun h => by omega)]
      rcases hdone : prefixEnd readP rest with _ | ⟨p,stop⟩
      · exact .inl rfl
      refine .inr ⟨_, rfl, fun hacc => ⟨?_, ?_, ?_⟩⟩
      · dsimp only
        omega
      · dsimp only
        omega
      · have hshort : xs.length+ys.length ≤ 7 := by
          by_contra hlong
          exact hacc (.inl ⟨by dsimp only; omega, by dsimp only; omega⟩)
        rw [expanded_append]
        exact .compressed hfront (.inr ⟨hgrp, fun h => hmore ⟨h, by omega⟩⟩) hshort hdone
  · rw [if_neg hdig]
    rcases hdone : prefixEnd readP t with _ | ⟨p,stop⟩
    · exact .inl rfl
    refine .inr ⟨_, rfl, fun _ => ⟨?_, ?_, ?_⟩⟩
    · dsimp only
      omega
    · dsimp only
      omega
    · have happ := expanded_append xs [] stop (decide (charAt t = wide '/')) p
      rw [flatMap_nil, append_nil] at happ
      rw [happ]
      exact .compressed hfront (.inl ⟨rfl, rfl, eq_false_of_ne_true hdig⟩) hxs hdone

section
variable {w : List Char16} (hdig : isHexaDecimalDigit (charAt w) = false) (hxs : xs.length ≤ 7)
include hdig hxs

theorem meetColon_front (hw : (xs = [] ∧ w = wide ':' :: wide ':' :: t) ∨ (xs ≠ [] ∧ w = wide ':' :: t)) :
    meetColon (scan w (xs.flatMap groupBytes) 16) = some (scan t (xs.flatMap groupBytes) (2*xs.length)) := by
  have hlen := groupBytes_length xs
  have hroom : ¬ ((16 : Nat) ≠ 16 ∨ (xs.flatMap groupBytes).length = 16) := by omega
  rcases hw with ⟨rfl,rfl⟩ | ⟨hne,rfl⟩
  · rfl
  have hpos := length_pos_iff.mpr hne
  refine (if_neg (ne_true_of_eq_false hdig)).trans ((if_neg (not_not.mpr rfl)).trans
    ((if_neg Bool.noConfusion).trans ((if_neg hroom).trans ((if_neg ?_).trans ?_))))
  · change (xs.flatMap groupBytes).length ≠ 0
    omega
  · rw [← hlen]
    rfl

theorem endsWell_front (hgrp : if xs = [] then w = s else
      HexGroups readX xs s (wide ':' :: w)) :
    EndsWell readX readP s (run readX readP (scan w (xs.flatMap groupBytes) 16)) := by
  by_cases hfront : ∃ t, (xs = [] ∧ w = wide ':' :: wide ':' :: t) ∨ (xs ≠ [] ∧ w = wide ':' :: t)
  · obtain ⟨t,hw⟩ := hfront
    have hcolon := meetColon_front hdig hxs hw
    have hback : Front readX xs s t := by
      rcases hw with ⟨hnil,rfl⟩ | ⟨hne,rfl⟩
      · rw [if_pos hnil] at hgrp
        exact .inl ⟨hnil, hgrp.symm⟩
      · rw [if_neg hne] at hgrp
        exact .inr hgrp
    rw [run_colon (groupBytes_length xs) hcolon]
    exact endsWell_back hback hxs
  · have hnone : meetColon (scan w (xs.flatMap groupBytes) 16) = none := by
      refine (if_neg (ne_true_of_eq_false hdig)).trans ?_
      by_cases hhead : charAt w = wide ':'
      · have hw := eq_cons_of_charAt hhead (by decide)
        have hnil : xs = [] := by
          by_contra hne
          exact hfront ⟨_, .inr ⟨hne, hw⟩⟩
        subst hnil
        have hnext : charAt w.tail ≠ wide ':' := fun h =>
          hfront ⟨_, .inl ⟨rfl, hw.trans (congrArg _ (eq_cons_of_charAt h (by decide)))⟩⟩
        exact (if_neg (not_not.mpr hhead)).trans ((if_neg Bool.noConfusion).trans
          ((if_neg (show ¬ ((16 : Nat) ≠ 16 ∨ 0 = 16) by decide)).trans ((if_pos rfl).trans (if_pos hnext))))
      · exact if_pos hhead
    rw [run_eq, ipv6Turn, hnone]
    exact .inl rfl

end

theorem endsWell_run (s : List Char16) : EndsWell readX readP s (run readX readP (scan s [] 16)) := by
  cases hdig : isHexaDecimalDigit (charAt s) with
  | false => exact @endsWell_front readX readP s _ _ [] s hdig (by decide) ((if_pos rfl).mpr rfl)
  | true =>
    rcases @groups_of_run readX readP s [] 16 _ _ _ le_rfl hdig rfl (by decide) with
      hno | ⟨xs, rest, hgrp, hle, hstop⟩
    · exact .inl hno
    have hlen := groupBytes_length xs
    rw [length_nil, zero_add] at hle hstop
    rw [run_groups hgrp (by rw [length_nil]; omega), nil_append]
    by_cases hmore : charAt rest = wide ':' ∧ 2*xs.length ≠ 16
    · have hrest := eq_cons_of_charAt hmore.1 (by decide)
      have hne : xs ≠ [] := by cases hgrp <;> exact cons_ne_nil _ _
      have hends := @endsWell_front readX readP s _ _ xs rest.tail (hstop hmore.1 hmore.2) (by omega)
        (by rw [if_neg hne, ← hrest]; exact hgrp)
      rw [hrest, separate_colon (by omega)]
      exact hends
    rw [separate_end ((not_and_or.mp hmore).imp id fun h => by omega)]
    rcases hdone : prefixEnd readP rest with _ | ⟨p,stop⟩
    · exact .inl rfl
    refine .inr ⟨_, rfl, fun hacc => ?_⟩
    have hfull : xs.length = 8 := by
      by_contra hshort
      exact hacc (.inr ⟨by dsimp only; omega, rfl⟩)
    refine ⟨by dsimp only; omega, by dsimp only; omega, ?_⟩
    have hexpanded : expanded ⟨stop, xs.flatMap groupBytes, 16, decide (charAt rest = wide '/'), p⟩ =
        xs.flatMap groupBytes := by
      have happ := expanded_append xs [] stop (decide (charAt rest = wide '/')) p
      rw [hfull, flatMap_nil, append_nil, append_nil] at happ
      exact happ.trans (append_nil _)
    rw [hexpanded]
    exact .full hgrp hfull hdone

theorem digit_of_groups {isDigit : Char16 → Bool} {sep : Char16} {read : Reader} {ns : List Nat}
    {rest : List Char16} (h : Groups isDigit sep read ns s rest) : isDigit (charAt s) = true ∧ ns ≠ [] := by
  cases h with
  | last hdig _ => exact ⟨hdig, cons_ne_nil _ _⟩
  | more hdig _ _ => exact ⟨hdig, cons_ne_nil _ _⟩

theorem run_front (hfront : Front readX xs s t) (hxs : xs.length ≤ 7) : run readX readP (scan s [] 16) =
      if isHexaDecimalDigit (charAt t) then
        run readX readP (scan t (xs.flatMap groupBytes) (2*xs.length))
      else match prefixEnd readP t with
        | none => .unsupported
        | some (p,stop) =>
          .left ⟨stop, xs.flatMap groupBytes, 2*xs.length, decide (charAt t = wide '/'), p⟩ := by
  have hlen := groupBytes_length xs
  rcases hfront with ⟨rfl,rfl⟩ | hgrp
  · exact run_colon hlen (meetColon_front rfl hxs (.inl ⟨rfl, rfl⟩))
  · rw [run_groups hgrp (by rw [length_nil]; omega), nil_append, separate_colon (by omega)]
    exact run_colon hlen
      (meetColon_front rfl hxs (.inr ⟨(digit_of_groups hgrp).2, rfl⟩))

theorem run_of_text {bytes : List UInt8} {p : Nat}
    {stop : List Char16} (h : Ipv6Text readX readP s bytes p stop) :
    ∃ st, run readX readP (scan s [] 16) = .left st ∧ Accepted st ∧ expanded st = bytes ∧
      st.prefixLength = p ∧ st.pointer = stop := by
  cases h with
  | @full ns rest stop p hgrp hfull hdone =>
    have hlen := groupBytes_length ns
    have happ := expanded_append ns [] stop (decide (charAt rest = wide '/')) p
    rw [hfull, flatMap_nil, append_nil, append_nil] at happ
    rw [run_groups hgrp (by rw [length_nil]; omega), nil_append, separate_end (.inr (by omega)), hdone]
    refine ⟨_, rfl, ?_, happ.trans (append_nil _), rfl, rfl⟩
    rintro (⟨-,hno⟩ | ⟨hno,-⟩)
    · exact hno rfl
    · exact hno (by dsimp only; omega)
  | @compressed xs ys t rest stop p hfront hback hle hdone =>
    have hlen := groupBytes_length xs
    rw [run_front hfront (by omega)]
    rcases hback with ⟨rfl,rfl,hdig⟩ | ⟨hgrp,hend⟩
    · have happ := expanded_append xs [] stop (decide (charAt rest = wide '/')) p
      rw [flatMap_nil, append_nil] at happ
      rw [if_neg (ne_true_of_eq_false hdig), hdone]
      refine ⟨_, rfl, ?_, happ, rfl, rfl⟩
      rintro (⟨hno,-⟩ | ⟨-,hno⟩)
      · dsimp only at hno
        omega
      · dsimp only at hno
        omega
    · have hlen' := groupBytes_length ys
      rw [if_pos (digit_of_groups hgrp).1, run_groups hgrp (by omega), separate_end (.inl hend), hdone]
      refine ⟨_, rfl, ?_, expanded_append xs ys stop _ p, rfl, rfl⟩
      rintro (⟨hno,-⟩ | ⟨-,hno⟩)
      · dsimp only at hno
        rw [length_append] at hno
        omega
      · dsimp only at hno
        omega

theorem text_iff {bytes : List UInt8} {p : Nat} {stop : List Char16} :
    Ipv6Text readX readP s bytes p stop ↔ ∃ st, run readX readP (scan s [] 16) = .left st ∧
      Accepted st ∧ expanded st = bytes ∧ st.prefixLength = p ∧ st.pointer = stop := by
  refine ⟨run_of_text, ?_⟩
  rintro ⟨st,hrun,hacc,rfl,rfl,rfl⟩
  rcases @endsWell_run readX readP _ _ s with hno | ⟨st',hrun',htext⟩
  · rw [hno] at hrun
    cases hrun
  · rw [hrun'] at hrun
    cases hrun
    exact (htext hacc).2.2

end

end Liano.SafeString
