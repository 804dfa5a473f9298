import Liano.Smbios.Record

/-! The string section of a record as a list of strings: what it is measured as, where its strings lie, and what
another string makes of it. -/
namespace Liano.Smbios

open List hiding after

open Bytes

/-- Characters without a NUL, fewer than the limit. -/
structure IsString (maxLen : Nat) (string : Bytes) : Prop where
  nonempty : string ≠ []
  noNul : (0 : UInt8) ∉ string
  short : string.length < maxLen

/-- The strings with their NULs. -/
def encodeStrings (strings : List Bytes) : Bytes := strings.flatMap (· ++ [0])

@[simp] theorem encodeStrings_cons (string : Bytes) (strings : List Bytes) :
    encodeStrings (string :: strings) = string ++ 0 :: encodeStrings strings := by simp [encodeStrings]

@[simp] theorem encodeStrings_append (strings strings' : List Bytes) :
    encodeStrings (strings ++ strings') = encodeStrings strings ++ encodeStrings strings' := by
  simp [encodeStrings]

/-- The string section: a NUL may come before the strings. -/
def stringSection (lead : Bool) (strings : List Bytes) : Bytes :=
  (if lead || strings.isEmpty then [0] else []) ++ encodeStrings strings ++ [0]

section
variable {maxLen : Nat} {string rest : Bytes}

theorem scanString_append (h : (0 : UInt8) ∉ string) (hshort : string.length < maxLen) :
    scanString (string ++ 0 :: rest) maxLen = some string.length := by
  induction string generalizing maxLen with
  | nil =>
    rw [nil_append, scanString, if_pos (.inr rfl)]
    rfl
  | cons char string ih =>
    rw [mem_cons, not_or] at h
    rw [length_cons] at hshort
    rw [cons_append, scanString, if_neg (by
      rintro (hzero | hzero)
      · omega
      · exact h.1 hzero.symm), ih h.2 (by omega)]
    rfl

theorem scanString_eq_some {memory : Bytes} {strLen : Nat} (h : scanString memory maxLen = some strLen)
    (hlim : strLen ≠ maxLen) :
    ∃ string rest, memory = string ++ 0 :: rest ∧ string.length = strLen ∧ (0 : UInt8) ∉ string ∧
      strLen < maxLen := by
  induction memory generalizing maxLen strLen with
  | nil =>
    unfold scanString at h
    split at h
    · rename_i hzero
      cases h
      exact absurd hzero.symm hlim
    · cases h
  | cons char memory ih =>
    unfold scanString at h
    split at h
    · rename_i hend
      cases h
      rcases hend with hzero | hchar
      · exact absurd hzero.symm hlim
      · exact ⟨[], memory, by rw [hchar, nil_append], rfl, by simp, by omega⟩
    rename_i hend
    rw [not_or] at hend
    obtain ⟨strLen',hscan,rfl⟩ := Option.map_eq_some_iff.mp h
    obtain ⟨string,rest,rfl,rfl,hnoNul,hshort⟩ := ih hscan (by omega)
    refine ⟨char :: string, rest, rfl, rfl, ?_, by omega⟩
    rw [mem_cons, not_or]
    exact ⟨fun hchar => hend.2 hchar.symm, hnoNul⟩

theorem asciiStrLen_append (h : (0 : UInt8) ∉ string) : asciiStrLen (string ++ 0 :: rest) = some string.length := by
  induction string with
  | nil => rfl
  | cons char string ih =>
    rw [mem_cons, not_or] at h
    rw [cons_append, asciiStrLen, if_neg (fun hchar => h.1 hchar.symm), ih h.2]
    rfl

section
variable (h : IsString maxLen string)
include h

theorem IsString.exists_cons : ∃ char tail, string = char :: tail ∧ char ≠ 0 := by
  cases hcase : string with
  | nil => exact absurd hcase h.nonempty
  | cons char tail =>
    refine ⟨char, tail, rfl, fun hzero => h.noNul ?_⟩
    rw [hcase, hzero]
    exact mem_cons_self

theorem measureString_append (size numberOfStrings : Nat)
    (next : Bytes → Nat → Nat → Option (EfiStatus × Nat × Nat)) :
    measureString maxLen (string ++ 0 :: rest) size numberOfStrings next =
      next (0 :: rest) (size+string.length) (numberOfStrings+1) := by
  rw [measureString, scanString_append h.noNul h.short, Option.bind_some, if_neg (ne_of_lt h.short),
    drop_left]

theorem measureStrings_string (fuel size numberOfStrings : Nat) :
    measureStrings maxLen (fuel+1) (string ++ 0 :: rest) size numberOfStrings =
      measureStrings maxLen fuel (0 :: rest) (size+string.length) (numberOfStrings+1) := by
  obtain ⟨char,tail,hcase,hchar⟩ := h.exists_cons
  rw [← measureString_append h size numberOfStrings (measureStrings maxLen fuel), hcase, cons_append]
  exact if_pos hchar

theorem measureStrings_nul_string (fuel size numberOfStrings : Nat) :
    measureStrings maxLen (fuel+1) (0 :: (string ++ 0 :: rest)) size numberOfStrings =
      measureStrings maxLen fuel (0 :: rest) (size+1+string.length) (numberOfStrings+1) := by
  obtain ⟨char,tail,hcase,hchar⟩ := h.exists_cons
  rw [← measureString_append h (size+1) numberOfStrings (measureStrings maxLen fuel), hcase, cons_append]
  exact if_neg hchar

end

variable {strings : List Bytes}
variable {fuel strIndex : Nat}

theorem measureStrings_nul (h : ∀ string ∈ strings, IsString maxLen string) (behind : Bytes)
    (hfuel : strings.length < fuel) (size numberOfStrings : Nat) :
    measureStrings maxLen fuel (0 :: (encodeStrings strings ++ 0 :: behind)) size numberOfStrings =
      some (.success, size + (encodeStrings strings).length + 2, numberOfStrings+strings.length) := by
  induction strings generalizing fuel size numberOfStrings with
  | nil =>
    cases fuel with
    | zero => cases hfuel
    | succ fuel => rfl
  | cons string strings ih =>
    cases fuel with
    | zero => cases hfuel
    | succ fuel =>
      have hmem : encodeStrings (string :: strings) ++ 0 :: behind =
          string ++ 0 :: (encodeStrings strings ++ 0 :: behind) := by simp
      rw [hmem, measureStrings_nul_string (h string mem_cons_self),
        ih (fun s hs => h s (mem_cons_of_mem _ hs)) (Nat.lt_of_succ_lt_succ hfuel)]
      simp only [encodeStrings_cons, length_append, length_cons, Option.some.injEq, Prod.mk.injEq, true_and]
      omega

theorem measureStrings_section (h : ∀ string ∈ strings, IsString maxLen string) (lead : Bool)
    (behind : Bytes) (hfuel : strings.length < fuel) (size : Nat) :
    measureStrings maxLen fuel (stringSection lead strings ++ behind) size 0 =
      some (.success, size + (stringSection lead strings).length, strings.length) := by
  by_cases hlead : (lead || strings.isEmpty) = true
  · have hmem : stringSection lead strings ++ behind = 0 :: (encodeStrings strings ++ 0 :: behind) := by
      simp [stringSection, hlead]
    rw [hmem, measureStrings_nul h behind hfuel]
    simp [stringSection, hlead]
    omega
  rw [Bool.not_eq_true, Bool.or_eq_false_iff] at hlead
  cases strings with
  | nil => cases hlead.2
  | cons string strings =>
    cases fuel with
    | zero => cases hfuel
    | succ fuel =>
      have hmem : stringSection lead (string :: strings) ++ behind =
          string ++ 0 :: (encodeStrings strings ++ 0 :: behind) := by simp [stringSection, hlead.1]
      rw [hmem, measureStrings_string (h string mem_cons_self),
        measureStrings_nul (fun s hs => h s (mem_cons_of_mem _ hs)) behind (Nat.lt_of_succ_lt_succ hfuel)]
      simp [stringSection, hlead.1]
      omega

theorem section_of_measureStrings {memory : Bytes} {size numberOfStrings size' numberOfStrings' : Nat}
    (h : measureStrings maxLen fuel memory size numberOfStrings = some (.success, size', numberOfStrings')) :
    ∃ lead strings behind, memory = stringSection lead strings ++ behind ∧
      (∀ string ∈ strings, IsString maxLen string) ∧ size' = size + (stringSection lead strings).length ∧
      numberOfStrings' = numberOfStrings+strings.length := by
  induction fuel generalizing memory size numberOfStrings with
  | zero => cases h
  | succ fuel ih =>
    -- a string at the start of the memory, and the section from its NUL on
    have hstr : ∀ memory size, memory.head? ≠ some 0 →
        measureString maxLen memory size numberOfStrings (measureStrings maxLen fuel) =
          some (.success, size', numberOfStrings') →
        ∃ strings behind, memory = stringSection false strings ++ behind ∧ strings ≠ [] ∧
          (∀ string ∈ strings, IsString maxLen string) ∧ size' = size + (stringSection false strings).length ∧
          numberOfStrings' = numberOfStrings+strings.length := by
      intro memory size hhead hmeas
      obtain ⟨strLen,hscan,hnext⟩ := Option.bind_eq_some_iff.mp hmeas
      split at hnext
      · cases hnext
      rename_i hlim
      obtain ⟨string,rest,rfl,rfl,hnoNul,hshort⟩ := scanString_eq_some hscan hlim
      rw [drop_left] at hnext
      obtain ⟨lead,strings,behind,hmem,hstrs,hsize,hnum⟩ := ih hnext
      have hnonempty : string ≠ [] := by
        rintro rfl
        exact hhead rfl
      have hlead : (lead || strings.isEmpty) = true := by
        by_contra hlead
        rw [Bool.not_eq_true, Bool.or_eq_false_iff] at hlead
        cases strings with
        | nil => cases hlead.2
        | cons first strings =>
          obtain ⟨char,tail,hcase,hchar⟩ := (hstrs first mem_cons_self).exists_cons
          simp [stringSection, hlead.1, hcase] at hmem
          exact hchar hmem.1.symm
      simp only [stringSection, hlead, if_true, cons_append, nil_append, cons.injEq, true_and] at hmem
      refine ⟨string :: strings, behind, ?_, by simp, ?_, ?_, ?_⟩
      · rw [hmem]
        simp [stringSection]
      · intro s hs
        rcases mem_cons.mp hs with rfl | hs
        · exact ⟨hnonempty, hnoNul, hshort⟩
        · exact hstrs s hs
      · rw [hsize]
        simp [stringSection, hlead]
        omega
      · rw [hnum, length_cons]
        omega
    cases memory with
    | nil => cases h
    | cons char rest =>
      by_cases hchar : char ≠ 0
      · have hmeas : measureString maxLen (char :: rest) size numberOfStrings (measureStrings maxLen fuel) =
            some (.success, size', numberOfStrings') := (if_pos hchar).symm.trans h
        obtain ⟨strings,behind,hmem,-,hstrs,hsize,hnum⟩ := hstr _ size (by simpa using hchar) hmeas
        exact ⟨false, strings, behind, hmem, hstrs, hsize, hnum⟩
      rw [not_not] at hchar
      subst hchar
      cases rest with
      | nil => cases h
      | cons char' rest =>
        by_cases hchar' : char' = 0
        · subst hchar'
          cases h
          exact ⟨false, [], rest, rfl, by simp, rfl, rfl⟩
        have hmeas : measureString maxLen (char' :: rest) (size+1) numberOfStrings
            (measureStrings maxLen fuel) = some (.success, size', numberOfStrings') :=
          (if_neg hchar').symm.trans h
        obtain ⟨strings,behind,hmem,hne,hstrs,hsize,hnum⟩ := hstr _ (size+1) (by simpa using hchar') hmeas
        have hsome : strings.isEmpty = false := by simpa using hne
        refine ⟨true, strings, behind, ?_, hstrs, ?_, hnum⟩
        · rw [hmem]
          simp [stringSection, hsome]
        · rw [hsize]
          simp [stringSection, hsome]
          omega

variable {stringNumber : Nat}

theorem skipStrings_found (h : stringNumber ≤ strIndex) (memory : Bytes) (targetStrOffset : Nat) :
    skipStrings stringNumber memory strIndex targetStrOffset = some (.found targetStrOffset) := by
  cases memory with
  | nil => exact if_neg (not_lt.mpr h)
  | cons char memory => exact if_neg (not_lt.mpr h)

theorem skipStrings_string (h : (0 : UInt8) ∉ string) (hidx : strIndex < stringNumber)
    (targetStrOffset : Nat) : skipStrings stringNumber (string ++ 0 :: rest) strIndex targetStrOffset =
      skipStrings stringNumber (0 :: rest) strIndex (targetStrOffset+string.length) := by
  induction string generalizing targetStrOffset with
  | nil => rfl
  | cons char string ih =>
    rw [mem_cons, not_or] at h
    have hskip : skipStrings stringNumber (char :: (string ++ 0 :: rest)) strIndex targetStrOffset =
        skipStrings stringNumber (string ++ 0 :: rest) strIndex (targetStrOffset+1) :=
      (if_pos hidx).trans (if_neg fun hchar => h.1 hchar.symm)
    rw [cons_append, hskip, ih h.2, length_cons]
    congr 1
    omega

theorem skipStrings_nul (h : IsString maxLen string)
    (hidx : strIndex < stringNumber) (targetStrOffset : Nat) :
    skipStrings stringNumber (0 :: (string ++ 0 :: rest)) strIndex targetStrOffset =
      skipStrings stringNumber (string ++ 0 :: rest) (strIndex+1) (targetStrOffset+1) := by
  obtain ⟨char,tail,hcase,hchar⟩ := h.exists_cons
  rw [hcase, cons_append]
  exact (if_pos hidx).trans ((if_pos rfl).trans (if_neg hchar))

theorem skipStrings_encode (h : ∀ string ∈ strings, IsString maxLen string)
    (hidx : strIndex ≤ stringNumber)
    (hnum : stringNumber-strIndex < strings.length) (targetStrOffset : Nat) :
    skipStrings stringNumber (encodeStrings strings ++ [0]) strIndex targetStrOffset =
      some (.found (targetStrOffset + (encodeStrings (strings.take (stringNumber-strIndex))).length)) := by
  induction strings generalizing strIndex targetStrOffset with
  | nil => cases hnum
  | cons string strings ih =>
    by_cases hend : strIndex = stringNumber
    · rw [hend, Nat.sub_self, take_zero]
      exact skipStrings_found le_rfl _ _
    have hlt : strIndex < stringNumber := Nat.lt_of_le_of_ne hidx hend
    cases strings with
    | nil =>
      rw [length_singleton] at hnum
      omega
    | cons next strings =>
      have hnext := h next (mem_cons_of_mem _ mem_cons_self)
      have hmem : encodeStrings (string :: next :: strings) ++ [0] =
          string ++ 0 :: (next ++ 0 :: (encodeStrings strings ++ [0])) := by simp
      have hrest : next ++ 0 :: (encodeStrings strings ++ [0]) = encodeStrings (next :: strings) ++ [0] := by
        simp
      have htake : stringNumber-strIndex = stringNumber - (strIndex+1) + 1 := by omega
      rw [hmem, skipStrings_string (h string mem_cons_self).noNul hlt, skipStrings_nul hnext hlt,
        hrest, ih (fun s hs => h s (mem_cons_of_mem _ hs)) hlt (by
          rw [length_cons] at hnum
          omega), htake, take_succ_cons]
      simp only [encodeStrings_cons, length_append, length_cons, Option.some.injEq,
        StringSearch.found.injEq, Nat.succ_eq_add_one]
      omega

/-- The NUL before the strings. -/
def leadOf (lead : Bool) : Bytes := if lead then [0] else []

theorem stringSection_eq (lead : Bool) {before after : List Bytes} :
    stringSection lead (before ++ string :: after) =
      leadOf lead ++ encodeStrings before ++ string ++ 0 :: (encodeStrings after ++ [0]) := by
  cases lead <;> simp [stringSection, leadOf]

theorem findString_section (h : ∀ string ∈ strings, IsString maxLen string) (lead : Bool)
    (hpos : 0 < stringNumber) (hnum : stringNumber ≤ strings.length) :
    ∃ before string after, strings = before ++ string :: after ∧
      findString (stringSection lead strings) stringNumber =
        some (.found ((leadOf lead).length + (encodeStrings before).length)) := by
  have hsplit : ∀ k < strings.length, ∃ string after, strings = strings.take k ++ string :: after ∧
      IsString maxLen string := by
    intro k hk
    refine ⟨strings[k], strings.drop (k+1), ?_, h _ (getElem_mem hk)⟩
    rw [← drop_eq_getElem_cons hk, take_append_drop]
  have hempty : strings.isEmpty = false := by
    cases strings with
    | nil =>
      rw [length_nil] at hnum
      omega
    | cons string strings => rfl
  -- the character at the offset of a string is not a NUL
  have hfnd : ∀ before string after, strings = before ++ string :: after → IsString maxLen string →
      ((stringSection lead strings)[(leadOf lead).length + (encodeStrings before).length]?.map fun char =>
        StringSearch.found (if char = 0 then (leadOf lead).length + (encodeStrings before).length + 1
          else (leadOf lead).length + (encodeStrings before).length)) =
        some (.found ((leadOf lead).length + (encodeStrings before).length)) := by
    intro before string after hstrs hstr
    obtain ⟨char,tail,hcase,hchar⟩ := hstr.exists_cons
    rw [hstrs, stringSection_eq, hcase, append_assoc, getElem?_append_right (by
      rw [length_append]), length_append, Nat.sub_self]
    simp [hchar]
  cases lead with
  | false =>
    obtain ⟨string,after,hstrs,hstr⟩ := hsplit (stringNumber - 1) (by omega)
    refine ⟨_, string, after, hstrs, ?_⟩
    have hskip := skipStrings_encode h hpos (by omega : stringNumber-1 < strings.length) 0
    have hsection : stringSection false strings = encodeStrings strings ++ [0] := by
      simp [stringSection, hempty]
    have hat := hfnd _ string after hstrs hstr
    rw [findString, hsection, hskip, Option.bind_some]
    rw [hsection] at hat
    simpa [leadOf] using hat
  | true =>
    have hsection : stringSection true strings = 0 :: (encodeStrings strings ++ [0]) := by
      simp [stringSection]
    by_cases hone : stringNumber = 1
    · obtain ⟨string,after,hstrs,hstr⟩ := hsplit 0 (by omega)
      refine ⟨_, string, after, hstrs, ?_⟩
      rw [findString, hone, skipStrings_found le_rfl, hsection]
      rfl
    obtain ⟨string,after,hstrs,hstr⟩ := hsplit (stringNumber - 2) (by omega)
    refine ⟨_, string, after, hstrs, ?_⟩
    obtain ⟨first,rest,hfst⟩ : ∃ first rest, strings = first :: rest := by
      cases strings with
      | nil => cases hempty
      | cons first rest => exact ⟨first, rest, rfl⟩
    have hmem : encodeStrings strings ++ [0] = first ++ 0 :: (encodeStrings rest ++ [0]) := by
      rw [hfst]
      simp
    have hskip := skipStrings_encode h (by omega : 2 ≤ stringNumber)
      (by omega : stringNumber-2 < strings.length) 1
    have hat := hfnd _ string after hstrs hstr
    rw [findString, hsection, hmem, skipStrings_nul (h first (by rw [hfst]; exact mem_cons_self))
      (by omega), ← hmem, hskip, Option.bind_some, ← hsection]
    simpa [leadOf] using hat

theorem replaceString_section (formatted : Bytes) (lead : Bool) (before after : List Bytes) (string' : Bytes) :
    replaceString (formatted ++ stringSection lead (before ++ string :: after)) formatted.length
        ((leadOf lead).length + (encodeStrings before).length) string.length string' =
      formatted ++ stringSection lead (before ++ string' :: after) := by
  have hsplit : formatted ++ stringSection lead (before ++ string :: after) =
      (formatted ++ (leadOf lead ++ encodeStrings before)) ++ (string ++ [0]) ++ (encodeStrings after ++ [0]) := by
    rw [stringSection_eq]
    simp
  have hfst : (formatted ++ (leadOf lead ++ encodeStrings before)).length =
      formatted.length + ((leadOf lead).length + (encodeStrings before).length) := by
    rw [length_append, length_append]
  have hsecond : ((formatted ++ (leadOf lead ++ encodeStrings before)) ++ (string ++ [0])).length =
      formatted.length + ((leadOf lead).length + (encodeStrings before).length) + string.length + 1 := by
    rw [length_append, hfst, length_append, length_singleton]
    omega
  have htake : (formatted ++ stringSection lead (before ++ string :: after)).take
      (formatted.length + ((leadOf lead).length + (encodeStrings before).length)) =
        formatted ++ (leadOf lead ++ encodeStrings before) := by
    rw [hsplit, ← hfst, append_assoc, take_left]
  have hdrop : (formatted ++ stringSection lead (before ++ string :: after)).drop
      (formatted.length + ((leadOf lead).length + (encodeStrings before).length) + string.length + 1) =
        encodeStrings after ++ [0] := by rw [hsplit, ← hsecond, drop_left]
  rw [replaceString, htake, hdrop, stringSection_eq]
  simp

end

end Liano.Smbios
