import Liano.Efi
import Liano.Lib.Bytes

/-! SMBIOS records in memory: their size, and the strings behind the formatted area (SmbiosDxe/SmbiosDxe.c). A
result of none is a read behind the memory that is given. -/
namespace Liano.Smbios
open Bytes

def SMBIOS_STRING_MAX_LENGTH : Nat := 64
def SMBIOS_TABLE_MAX_LENGTH : Nat := 0xFFFF
def SMBIOS_3_0_TABLE_MAX_LENGTH : Nat := 0xFFFFFFFF
def SMBIOS_HANDLE_PI_RESERVED : Nat := 0xFFFE

/-- The version of the specification, PcdSmbiosEntryPointProvideMethod and PcdMaximumAsciiStringLength. -/
structure SmbiosConfig where
  majorVersion : Nat
  minorVersion : Nat
  provideMethod : Nat
  maximumAsciiStringLength : Nat
deriving DecidableEq, Repr

def SmbiosConfig.isBefore27 (cfg : SmbiosConfig) : Bool :=
  decide (cfg.majorVersion < 2) || (cfg.majorVersion == 2 && decide (cfg.minorVersion < 7))

def SmbiosConfig.maxLen (cfg : SmbiosConfig) : Nat := if cfg.isBefore27 then SMBIOS_STRING_MAX_LENGTH
  else if cfg.majorVersion < 3 then SMBIOS_TABLE_MAX_LENGTH
  else SMBIOS_3_0_TABLE_MAX_LENGTH

def formattedLength (memory : Bytes) : Option Nat := memory[1]?.map UInt8.toNat

def recordHandle (record : Bytes) : Nat := leValue (slice record 2 2)

/-- The characters up to a NUL, `maxLen` at most. -/
def scanString : Bytes → Nat → Option Nat
  | [], maxLen => if maxLen = 0 then some 0 else none
  | char :: memory, maxLen =>
    if maxLen = 0 ∨ char = 0 then some 0 else (scanString memory (maxLen-1)).map (· + 1)

def measureString (maxLen : Nat) (memory : Bytes) (size numberOfStrings : Nat)
    (next : Bytes → Nat → Nat → Option (EfiStatus × Nat × Nat)) : Option (EfiStatus × Nat × Nat) :=
  (scanString memory maxLen).bind fun strLen =>
    if strLen = maxLen then some (.invalidParameter, size, numberOfStrings)
    else next (memory.drop strLen) (size+strLen) (numberOfStrings+1)

/-- The loop over the strings, from CharInStr on: the status, the size and the number of strings. -/
def measureStrings (maxLen : Nat) : Nat → Bytes → Nat → Nat → Option (EfiStatus × Nat × Nat)
  | 0, _, _, _ => none
  | _+1, [], _, _ => none
  | fuel+1, char :: rest, size, numberOfStrings =>
    if char ≠ 0 then measureString maxLen (char :: rest) size numberOfStrings (measureStrings maxLen fuel)
    else
      match rest with
      | [] => none
      | char' :: _ =>
        if char' = 0 then some (.success, size+2, numberOfStrings)
        else measureString maxLen rest (size+1) numberOfStrings (measureStrings maxLen fuel)

def getSmbiosStructureSize (cfg : SmbiosConfig) (memory : Bytes) : Option (EfiStatus × Nat × Nat) :=
  (formattedLength memory).bind fun length =>
    measureStrings cfg.maxLen (memory.length+1) (memory.drop length) length 0

def asciiStrLen : Bytes → Option Nat
  | [] => none
  | char :: memory => if char = 0 then some 0 else (asciiStrLen memory).map (· + 1)

inductive StringSearch
  | notFound
  | found (targetStrOffset : Nat)
deriving DecidableEq, Repr

def skipStrings (stringNumber : Nat) : Bytes → Nat → Nat → Option StringSearch
  | [], strIndex, targetStrOffset =>
    if strIndex < stringNumber then none else some (.found targetStrOffset)
  | char :: memory, strIndex, targetStrOffset =>
    if strIndex < stringNumber then
      if char = 0 then
        match memory with
        | [] => none
        | char' :: _ =>
          if char' = 0 then some .notFound
          else skipStrings stringNumber memory (strIndex+1) (targetStrOffset+1)
      else skipStrings stringNumber memory strIndex (targetStrOffset+1)
    else some (.found targetStrOffset)

def findString (section_ : Bytes) (stringNumber : Nat) : Option StringSearch :=
  (skipStrings stringNumber section_ 1 0).bind fun
    | .notFound => some .notFound
    | .found targetStrOffset =>
      section_[targetStrOffset]?.map fun char =>
        .found (if char = 0 then targetStrOffset+1 else targetStrOffset)

def replaceString (record : Bytes) (length targetStrOffset targetStrLen : Nat) (string : Bytes) : Bytes :=
  record.take (length+targetStrOffset) ++ string ++ [0] ++
    record.drop (length+targetStrOffset+targetStrLen+1)

end Liano.Smbios
