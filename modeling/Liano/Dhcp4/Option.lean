import Liano.Efi
import Liano.Lib.Bytes
import Mathlib.Logic.Function.Basic

/-! The options of a DHCPv4 packet: visiting them, parsing them by key-indexed counting and building a packet
from a seed (NetworkPkg/Dhcp4Dxe/Dhcp4Option.c). A result of none is an access outside an area or a buffer. -/
namespace Liano.Dhcp4

open Function (update)

open Bytes

def DHCP4_TAG_PAD : Nat := 0
def DHCP4_TAG_OVERLOAD : Nat := 52
def DHCP4_TAG_EOP : Nat := 255

def DHCP_OVERLOAD_FILENAME : Nat := 1
def DHCP_OVERLOAD_SVRNAME : Nat := 2
def DHCP_OVERLOAD_BOTH : Nat := 3

def DHCP_MAX_OPTIONS : Nat := 256
def DHCP_OPTION_MAGIC : Nat := 0x63538263

/-- `sizeof (EFI_DHCP4_HEADER)` -/
def sizeofHeader : Nat := 236

/-- `sizeof (EFI_DHCP4_PACKET)`, with one byte of options. -/
def sizeofPacket : Nat := 249

/-- EFI_DHCP4_HEADER, whose last 192 bytes are ServerName and BootFileName. -/
structure EfiDhcp4Header where
  bytes : Bytes
  length_bytes : bytes.length = sizeofHeader

def EfiDhcp4Header.serverName (header : EfiDhcp4Header) : Bytes := slice header.bytes 44 64

def EfiDhcp4Header.bootFileName (header : EfiDhcp4Header) : Bytes := slice header.bytes 108 128

/-- EFI_DHCP4_PACKET with the bytes from `Dhcp4.Option` to the end of its buffer. -/
structure EfiDhcp4Packet where
  size : Nat
  length : Nat
  header : EfiDhcp4Header
  magik : Nat
  option : Bytes

def EfiDhcp4Packet.optionLen (packet : EfiDhcp4Packet) : Nat := packet.length-sizeofHeader-4

def EfiDhcp4Packet.optionArea (packet : EfiDhcp4Packet) : Bytes := packet.option.take packet.optionLen

/-- `DHCP_CHECK_OPTION`, with its context. -/
abbrev CheckOption (σ : Type*) := Nat → Bytes → σ → EfiStatus × σ

section Iterate

variable {σ : Type*} (check : CheckOption σ)

/-- The option at `cur`, behind which the loop goes on with `next`. The place for the overload value may be
NULL. -/
def visitOption (buffer : Bytes) (bufLen : Nat) (next : Nat → Option Nat → σ → Option (EfiStatus × Option Nat × σ))
    (cur tag len : Nat) (overload : Option Nat) (s : σ) : Option (EfiStatus × Option Nat × σ) :=
  if cur+2+len > bufLen then some (.invalidParameter, overload, s)
  else if tag = DHCP4_TAG_OVERLOAD ∧ overload.isSome ∧ len ≠ 1 then some (.invalidParameter, overload, s)
  else
    let overload := if tag = DHCP4_TAG_OVERLOAD ∧ overload.isSome then buffer[cur+2]?.map UInt8.toNat else overload
    -- the callback reads the whole of the option's data
    if cur+2+len ≤ buffer.length then
      let (status,s) := check tag (slice buffer (cur+2) len) s
      if status.isError then some (.invalidParameter, overload, s) else next (cur+2+len) overload s
    else none

/-- The loop of DhcpIterateBufferOptions. -/
def iterateFrom (buffer : Bytes) (bufLen : Nat) :
    Nat → Nat → Option Nat → σ → Option (EfiStatus × Option Nat × σ)
  | 0, _, overload, s => some (.invalidParameter, overload, s)
  | fuel+1, cur, overload, s =>
    if cur < bufLen then
      buffer[cur]?.bind fun tag =>
        if tag.toNat = DHCP4_TAG_PAD then iterateFrom buffer bufLen fuel (cur+1) overload s
        else if tag.toNat = DHCP4_TAG_EOP then some (.success, overload, s)
        else if cur+1 = bufLen then some (.invalidParameter, overload, s)
        else
          buffer[cur+1]?.bind fun len =>
            visitOption check buffer bufLen (iterateFrom buffer bufLen fuel) cur tag.toNat len.toNat overload s
    else some (.invalidParameter, overload, s)

def dhcpIterateBufferOptions (buffer : Bytes) (bufLen : Nat) (overload : Option Nat) (s : σ) :
    Option (EfiStatus × Option Nat × σ) := iterateFrom check buffer bufLen bufLen 0 overload s

def iterateOverloaded (overloaded : Bool) (buffer : Bytes) (bufLen : Nat) (s : σ) : Option (EfiStatus × σ) :=
  if overloaded then (dhcpIterateBufferOptions check buffer bufLen none s).map fun r => (r.1,r.2.2)
  else some (.success, s)

def overloadsFileName (overload : Nat) : Bool :=
  overload == DHCP_OVERLOAD_FILENAME || overload == DHCP_OVERLOAD_BOTH

def overloadsServerName (overload : Nat) : Bool :=
  overload == DHCP_OVERLOAD_SVRNAME || overload == DHCP_OVERLOAD_BOTH

def dhcpIterateOptions (packet : EfiDhcp4Packet) (s : σ) : Option (EfiStatus × σ) :=
  (dhcpIterateBufferOptions check packet.optionArea packet.optionLen (some 0) s).bind fun (status,overload,s) =>
    if status.isError then some (status,s)
    else
      (iterateOverloaded check (overloadsFileName (overload.getD 0)) packet.header.bootFileName 128 s).bind
        fun (status,s) =>
          if status.isError then some (status,s)
          else iterateOverloaded check (overloadsServerName (overload.getD 0)) packet.header.serverName 64 s

end Iterate

structure DhcpOptionCount where
  index : Nat
  offset : Nat

def dhcpGetOptionLen : CheckOption (Nat → DhcpOptionCount) := fun tag data opCount =>
  (.success, update opCount tag { opCount tag with offset := toUint16 ((opCount tag).offset + data.length) })

/-- DHCP_OPTION in the array under construction; `data` is a place in the buffer behind the array. -/
structure OptionEntry where
  tag : Nat
  len : Nat
  data : Option Nat

/-- DHCP_OPTION_CONTEXT, with the sizes of the array and of the buffer. -/
structure DhcpOptionContext where
  opCount : Nat → DhcpOptionCount
  options : Nat → OptionEntry
  optNum : Nat
  buf : Bytes
  outside : Bool

def dhcpFillOption : CheckOption DhcpOptionContext := fun tag data context =>
  let count := context.opCount tag
  let entry := context.options count.index
  let entry := if entry.data = none then { entry with tag := tag, data := some count.offset } else entry
  if count.index < context.optNum ∧ (data = [] ∨ count.offset+data.length ≤ context.buf.length) then
    (.success, { context with
      opCount := update context.opCount tag { count with offset := toUint16 (count.offset+data.length) }
      options := update context.options count.index { entry with len := toUint16 (entry.len+data.length) }
      buf := patch context.buf count.offset data })
  else (.success, { context with outside := true })

/-- The loop of DhcpParseOption that turns lengths into indices and offsets. -/
structure Counting where
  totalLen : Nat
  optNum : Nat
  opCount : Nat → DhcpOptionCount

def Counting.step (c : Counting) (index : Nat) : Counting := if (c.opCount index).offset ≠ 0 then
    let totalLen := toUint16 (c.totalLen + (c.opCount index).offset)
    { totalLen := totalLen
      optNum := c.optNum+1
      opCount := update c.opCount index
        ⟨c.optNum % 256, toUint16 (totalLen + (2^16 - (c.opCount index).offset))⟩ }
  else c

def countOptions (opCount : Nat → DhcpOptionCount) : Counting :=
  (List.range DHCP_MAX_OPTIONS).foldl Counting.step ⟨0, 0, opCount⟩

/-- DHCP_OPTION with the bytes that `Data` points to. -/
structure DhcpOption where
  tag : Nat
  len : Nat
  data : Bytes
deriving DecidableEq

def OptionEntry.read (buf : Bytes) (entry : OptionEntry) : DhcpOption :=
  ⟨entry.tag, entry.len, slice buf (entry.data.getD 0) entry.len⟩

/-- AllocateZeroPool for the array and the buffer behind it. -/
def optionContext (c : Counting) : DhcpOptionContext where
  opCount := c.opCount
  options := fun _ => ⟨0, 0, none⟩
  optNum := c.optNum
  buf := List.replicate c.totalLen 0
  outside := false

/-- The second pass of DhcpParseOption. -/
def fillOptions (packet : EfiDhcp4Packet) (c : Counting) : Option (EfiStatus × List DhcpOption) :=
  (dhcpIterateOptions dhcpFillOption packet (optionContext c)).bind fun (status,context) =>
    if context.outside then none
    else if status.isError then some (status, [])
    else some (.success, (List.range c.optNum).map fun i => (context.options i).read context.buf)

/-- `countAllocated` and `optionsAllocated` tell whether the two allocations succeed. -/
def dhcpParseOption (countAllocated optionsAllocated : Bool) (packet : EfiDhcp4Packet) :
    Option (EfiStatus × List DhcpOption) := if countAllocated then
    (dhcpIterateOptions dhcpGetOptionLen packet fun _ => ⟨0, 0⟩).bind fun (status,opCount) =>
      if status.isError then some (status, [])
      else
        let c := countOptions opCount
        if c.optNum = 0 then some (status, [])
        else if optionsAllocated then fillOptions packet c
        else some (.outOfResources, [])
  else some (.outOfResources, [])

structure EfiDhcp4PacketOption where
  opCode : UInt8
  length : UInt8
  data : Bytes
  length_data : data.length = length.toNat

def optionPiece (tag dataLen : Nat) (data : Bytes) (index : Nat) : Bytes :=
  let len := min 255 (dataLen - index*255)
  UInt8.ofNat tag :: UInt8.ofNat len :: slice data (index*255) len

def dhcpAppendOption (tag dataLen : Nat) (data : Bytes) : Bytes :=
  (List.range ((dataLen+254) / 255)).flatMap (optionPiece tag dataLen data)

def initialMark (index : Nat) : DhcpOption := ⟨index, 0, []⟩

section
variable (mark : Nat → DhcpOption)

def markSeed (option : DhcpOption) : Nat → DhcpOption :=
  update mark option.tag option

def markDeleted (tag : UInt8) : Nat → DhcpOption :=
  update mark tag.toNat { mark tag.toNat with len := 0 }

def markAppended (option : EfiDhcp4PacketOption) : Nat → DhcpOption :=
  update mark option.opCode.toNat
    { mark option.opCode.toNat with len := option.length.toNat, data := option.data }

def marks (seedOptions : List DhcpOption) (deleteList : List UInt8) (appendList : List EfiDhcp4PacketOption) :
    Nat → DhcpOption :=
  appendList.foldl markAppended (deleteList.foldl markDeleted (seedOptions.foldl markSeed initialMark))

def packetLen : Nat := (List.range DHCP_MAX_OPTIONS).foldl
    (fun len index =>
      if (mark index).len ≠ 0 then toUint32 (len + ((mark index).len + 254) / 255 * 2 + (mark index).len) else len)
    sizeofPacket

def packetOptions : Bytes := ((List.range DHCP_MAX_OPTIONS).flatMap fun index =>
    if (mark index).len ≠ 0 then dhcpAppendOption (mark index).tag (mark index).len (mark index).data else []) ++
    [UInt8.ofNat DHCP4_TAG_EOP]

end

def dhcpBuild (markAllocated countAllocated optionsAllocated packetAllocated : Bool)
    (seedPacket : EfiDhcp4Packet) (deleteList : List UInt8) (appendList : List EfiDhcp4PacketOption) :
    Option (EfiStatus × Option EfiDhcp4Packet) := if markAllocated then
    (dhcpParseOption countAllocated optionsAllocated seedPacket).map fun (status,seedOptions) =>
      if status.isError then (status,none)
      else if packetAllocated then
        let mark := marks seedOptions deleteList appendList
        let option := packetOptions mark
        (.success, some
          { size := packetLen mark
            length := toUint32 (sizeofHeader+4+option.length)
            header := seedPacket.header
            magik := DHCP_OPTION_MAGIC
            option := option })
      else (.outOfResources, none)
  else some (.outOfResources, none)

end Liano.Dhcp4
