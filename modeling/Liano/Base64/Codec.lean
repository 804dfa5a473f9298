import Liano.Efi

/-! `String.c`: `Base64Encode` and `Base64Decode`. -/
namespace Liano.Base64

def maxAddress : Nat := 0xffffffffffffffff

def encodingTable : List Char :=
  ['A', 'B', 'C', 'D', 'E', 'F', 'G', 'H', 'I', 'J', 'K', 'L', 'M', 'N', 'O', 'P', 'Q', 'R', 'S',
    'T', 'U', 'V', 'W', 'X', 'Y', 'Z', 'a', 'b', 'c', 'd', 'e', 'f', 'g', 'h', 'i', 'j', 'k', 'l',
    'm', 'n', 'o', 'p', 'q', 'r', 's', 't', 'u', 'v', 'w', 'x', 'y', 'z', '0', '1', '2', '3', '4',
    '5', '6', '7', '8', '9', '+', '/']

def char8 (c : Char) : UInt8 := UInt8.ofNat c.toNat

/-- `EncodingTable[Index]`. -/
def encoded (index : Nat) : UInt8 := char8 (encodingTable.getD index '=')

def pad : UInt8 := char8 '='

def encodeChars : List UInt8 → List UInt8
  | a :: b :: c :: rest =>
    encoded ((a.toNat &&& 0xfc) >>> 2) :: encoded (((a.toNat &&& 0x03) <<< 4) + ((b.toNat &&& 0xf0) >>> 4)) ::
    encoded (((b.toNat &&& 0x0f) <<< 2) + ((c.toNat &&& 0xc0) >>> 6)) ::
    encoded (c.toNat &&& 0x3f) :: encodeChars rest
  | [a, b] =>
    [encoded ((a.toNat &&& 0xfc) >>> 2), encoded (((a.toNat &&& 0x03) <<< 4) + ((b.toNat &&& 0xf0) >>> 4)),
      encoded ((b.toNat &&& 0x0f) <<< 2), pad]
  | [a] => [encoded ((a.toNat &&& 0xfc) >>> 2), encoded ((a.toNat &&& 0x03) <<< 4), pad, pad]
  | [] => []

/-- The status, `*DestinationSize` and what is written at `Destination`. -/
structure EncodeResult where
  status : EfiStatus
  destinationSize : Option Nat
  written : List UInt8
deriving DecidableEq, Repr

/-- `Base64Encode`; `source` and `destination` are addresses, `none` for `NULL`. -/
def base64Encode (source : Option Nat) (bytes : List UInt8) (destination : Option Nat)
    (destinationSize : Option Nat) : EncodeResult := match source, destinationSize with
  | some source, some size =>
    if bytes.length = 0 then
      if size < 1 then ⟨.bufferTooSmall, some 1, []⟩ else ⟨.success, some 1, [0]⟩
    else if bytes.length ≥ maxAddress-source ∨ size ≥ maxAddress - destination.getD 0 then
      ⟨.invalidParameter, some size, []⟩
    else
      let requiredSize := toUint64 (toUint64 (bytes.length+2) / 3 * 4 + 1)
      if destination = none ∨ size < requiredSize then
        ⟨.bufferTooSmall, some requiredSize, []⟩
      else ⟨.success, some size, encodeChars bytes ++ [0]⟩
  | _, size => ⟨.invalidParameter, size, []⟩

/-- The checks of the arrays; `length` is `SourceSize`. -/
def arraysOk (source : Option Nat) (length : Nat) (destination : Option Nat) (size : Nat) : Bool :=
  (match source with
    | none => length == 0
    | some source => decide (length ≤ maxAddress-source)) &&
  (match destination with
    | none => size == 0
    | some destination => decide (size ≤ maxAddress-destination)) &&
  (match source, destination with
    | some source, some destination =>
      decide (source+length ≤ destination) || decide (destination+size ≤ source)
    | _, _ => true)

/-- The locals of the decoding loop, `*DestinationSize` and the bytes from `Destination` on. -/
structure DecodeState where
  paddingMode : Bool
  sixBitGroupsConsumed : Nat
  accumulator : Nat
  destinationSize : Nat
  memory : Nat → UInt8

def isWhitespace (c : UInt8) : Bool :=
  c == 0x09 || c == 0x0a || c == 0x0b || c == 0x0c || c == 0x0d || c == char8 ' '

/-- `Base64Value`; `none` outside of the alphabet. -/
def base64Value (c : UInt8) : Option Nat :=
  if char8 'A' ≤ c ∧ c ≤ char8 'Z' then some (c.toNat - (char8 'A').toNat)
  else if char8 'a' ≤ c ∧ c ≤ char8 'z' then some (26 + (c.toNat - (char8 'a').toNat))
  else if char8 '0' ≤ c ∧ c ≤ char8 '9' then some (52 + (c.toNat - (char8 '0').toNat))
  else if c = char8 '+' then some 62
  else if c = char8 '/' then some 63
  else none

/-- The bytes at `Destination` with one more octet, if there is room left for it. -/
def stored (originalDestinationSize destinationSize : Nat) (destinationOctet : UInt8)
    (memory : Nat → UInt8) : Nat → UInt8 := if destinationSize < originalDestinationSize then
    fun i => if i = destinationSize then destinationOctet else memory i
  else memory

section
variable (originalDestinationSize : Nat) (st : DecodeState)

def spill (destinationOctet : UInt8) : DecodeState :=
  { st with
    memory := stored originalDestinationSize st.destinationSize destinationOctet st.memory
    destinationSize := st.destinationSize + 1 }

def feed (value : Nat) : DecodeState :=
  let accumulator := toUint32 (st.accumulator <<< 6) ||| value
  match st.sixBitGroupsConsumed + 1 with
  | 1 => { st with accumulator := accumulator, sixBitGroupsConsumed := 1 }
  | 2 => spill originalDestinationSize
      { st with accumulator := accumulator &&& 0xf, sixBitGroupsConsumed := 2 }
      (UInt8.ofNat (accumulator >>> 4))
  | 3 => spill originalDestinationSize
      { st with accumulator := accumulator &&& 0x3, sixBitGroupsConsumed := 3 }
      (UInt8.ofNat (accumulator >>> 2))
  | _ => spill originalDestinationSize { st with accumulator := 0, sixBitGroupsConsumed := 0 }
      (UInt8.ofNat accumulator)

def enterPadding (st : DecodeState) : Option DecodeState := if st.sixBitGroupsConsumed = 2 then
    if st.accumulator = 0 then some { st with paddingMode := true, sixBitGroupsConsumed := 3 }
    else none
  else if st.sixBitGroupsConsumed = 3 then
    if st.accumulator = 0 then some { st with paddingMode := true, sixBitGroupsConsumed := 0 }
    else none
  else none

/-- One character; `none` where the function returns `RETURN_INVALID_PARAMETER`. -/
def decodeStep (c : UInt8) : Option DecodeState :=
  if isWhitespace c then some st
  else if st.paddingMode then
    if c = pad ∧ st.sixBitGroupsConsumed = 3 then some { st with sixBitGroupsConsumed := 0 }
    else none
  else
    match base64Value c with
    | some value => some (feed originalDestinationSize st value)
    | none => if c = pad then enterPadding st else none

end

def decodeLoop (originalDestinationSize : Nat) : List UInt8 → DecodeState → DecodeState × Bool
  | [], st => (st,true)
  | c :: cs, st =>
    match decodeStep originalDestinationSize st c with
    | some st' => decodeLoop originalDestinationSize cs st'
    | none => (st,false)

/-- The status, `*DestinationSize` and the bytes from `Destination` on. -/
structure DecodeResult where
  status : EfiStatus
  destinationSize : Option Nat
  memory : Nat → UInt8

/-- `Base64Decode`; where it fails in or behind the loop, `*DestinationSize` is indeterminate. -/
def base64Decode (source : Option Nat) (chars : List UInt8) (destination : Option Nat)
    (destinationSize : Option Nat) (memory : Nat → UInt8) : DecodeResult := match destinationSize with
  | none => ⟨.invalidParameter, none, memory⟩
  | some size =>
    if arraysOk source chars.length destination size then
      let r := decodeLoop size chars ⟨false, 0, 0, 0, memory⟩
      if !r.2 || r.1.sixBitGroupsConsumed != 0 then
        ⟨.invalidParameter, some r.1.destinationSize, r.1.memory⟩
      else if r.1.destinationSize ≤ size then
        ⟨.success, some r.1.destinationSize, r.1.memory⟩
      else ⟨.bufferTooSmall, some r.1.destinationSize, r.1.memory⟩
    else ⟨.invalidParameter, some size, memory⟩

end Liano.Base64
