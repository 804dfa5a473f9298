import Liano.Lib.FirstMatch
import Liano.Lib.Spans
import Liano.Net.FromBufList
import Liano.Net.Resize

/-! `Ip6Input.c`: the reassembly of a packet from its fragments. As for IPv4 the buckets of the assemble
table are one list. A buffer that has been freed and is still on the list of fragments is marked. -/
namespace Liano.Net

open Memory Liano.Lib

/-- What `Ip6Reassemble` reads of an `IP6_CLIP_INFO`; `stop` is `End`. -/
structure Ip6ClipInfo where
  start : Nat
  stop : Nat
  length : Int
  id : Nat
  headLen : Nat
  nextHeader : UInt8
  lastFrag : Bool
  formerNextHeader : Nat
deriving DecidableEq, Repr

/-- A received `NET_BUF` with the addresses of its header, where that header is (`Ip.Ip6`), and its per
packet information. -/
structure Ip6Packet where
  dst : Nat
  src : Nat
  ip6 : Nat
  info : Ip6ClipInfo
  nbuf : NetBuf
  freed : Bool
deriving DecidableEq, Repr

/-- `IP6_ASSEMBLE_ENTRY`, without its life. `Info` points to the information of the first fragment, which
is the first of the list, and `Packet` to the copy of that fragment: they count for not being NULL. -/
structure Ip6AssembleEntry where
  dst : Nat
  src : Nat
  id : Nat
  totalLen : Int
  curLen : Int
  fragments : List Ip6Packet
  head : Option Nat
  info : Bool
  packet : Bool
deriving DecidableEq, Repr

def ip6CreateAssembleEntry (dst src id : Nat) : Ip6AssembleEntry :=
  ⟨dst, src, id, 0, 0, [], none, false, false⟩

/-- The part of `Ip6TrimPacket` that trims the head, for a packet that starts before `start`. -/
def ip6TrimHead (packet : Ip6Packet) (start : Nat) : Except Fault Ip6Packet :=
  if packet.info.start < start then
    let len : Int := start-packet.info.start
    match netbufTrim packet.nbuf (UInt32.ofInt len) true with
    | .error fault => .error fault
    | .ok (nbuf,_) =>
      .ok { packet with
        nbuf := nbuf
        info := { packet.info with start := start, length := packet.info.length - len } }
  else .ok packet

/-- The part that trims the tail; `Len` is the new end less the old one. -/
def ip6TrimTail (packet : Ip6Packet) (stop : Nat) : Except Fault Ip6Packet := if stop < packet.info.stop then
    let len : Int := stop-packet.info.stop
    match netbufTrim packet.nbuf (UInt32.ofInt len) false with
    | .error fault => .error fault
    | .ok (nbuf,_) =>
      .ok { packet with
        nbuf := nbuf
        info := { packet.info with stop := stop, length := packet.info.length - len } }
  else .ok packet

def ip6TrimPacket (packet : Ip6Packet) (start stop : Nat) : Except Fault Ip6Packet :=
  if packet.info.start+packet.info.length ≠ packet.info.stop then .error .assertion
  else if ¬ (packet.info.start < stop ∧ start < packet.info.stop) then .error .assertion
  else
    match ip6TrimHead packet start with
    | .error fault => .error fault
    | .ok packet => ip6TrimTail packet stop

def ip6InsertPoint (start : Nat) (fragments : List Ip6Packet) : List Ip6Packet × List Ip6Packet :=
  fragments.span fun fragment => !decide (start < fragment.info.start)

/-- The check against the fragment before the insert point, whose tail may be trimmed; `none` where the
packet is freed. -/
def ip6CheckPrevious (before : List Ip6Packet) (packet : Ip6Packet) :
    Except Fault (Option (List Ip6Packet)) := match before.getLast? with
  | none => .ok (some before)
  | some node =>
    if packet.info.start < node.info.stop then
      if packet.info.stop ≤ node.info.stop then .ok none
      else
        match ip6TrimPacket node node.info.start packet.info.start with
        | .error fault => .error fault
        | .ok node => .ok (some (before.dropLast ++ [node]))
    else .ok (some before)

/-- What the check of the fragments behind the insert point leaves: the packet, if it stays, these
fragments and `CurLen`. -/
structure Ip6Behind where
  packet : Option Ip6Packet
  fragments : List Ip6Packet
  curLen : Int

def ip6CheckBehind (packet : Ip6Packet) : List Ip6Packet → Int → Except Fault Ip6Behind
  | [], curLen => .ok ⟨some packet, [], curLen⟩
  | node :: rest, curLen =>
    if node.info.stop ≤ packet.info.stop then
      ip6CheckBehind packet rest (curLen-node.info.length)
    else if node.info.start < packet.info.stop then
      if packet.info.start = node.info.start then .ok ⟨none, node :: rest, curLen⟩
      else
        match ip6TrimPacket packet packet.info.start node.info.start with
        | .error fault => .error fault
        | .ok packet => .ok ⟨some packet, node :: rest, curLen⟩
    else .ok ⟨some packet, node :: rest, curLen⟩

/-- What a call finds of memory: the entry, the copy of the first fragment, the buffer for the
unfragmentable part and the one for the packet. -/
structure Ip6Pool where
  entry : Bool
  duplicate : Bool
  fragment : Bool
  buffers : BufListPool
deriving DecidableEq, Repr

def ip6Fragment : UInt8 := 44

/-- Where the field NextHeader in front of the fragment header is; none where there is no such byte. -/
def nextHeaderAddress (packet : Ip6Packet) : Option Nat :=
  if packet.info.headLen = 40 then some (packet.ip6+6)
  else
    (netbufGetByte packet.nbuf (UInt32.ofNat (packet.info.formerNextHeader+40))).map Prod.snd

inductive Ip6Enqueued
  | returns
  | delivers
deriving DecidableEq, Repr

section
variable (m : Memory) (pool : Ip6Pool)

/-- The part for the first fragment. The packet is on the list already: where there is an error it is
freed and stays there. -/
def ip6FirstFragment (a : Ip6AssembleEntry) (packet : Ip6Packet)
    (before rest : List Ip6Packet) : Except Fault (Memory × Ip6AssembleEntry × Ip6Enqueued) :=
  let failed : Ip6AssembleEntry := { a with fragments := before ++ { packet with freed := true } :: rest }
  if a.head.isSome = true ∨ a.packet = true then .ok (m, failed, .returns)
  else if pool.duplicate = false then .ok (m, failed, .returns)
  else if packet.info.headLen = 40 ∧ m (packet.ip6+6) ≠ ip6Fragment then .error .assertion
  else
    match nextHeaderAddress packet with
    | none => .ok (m, { failed with packet := true }, .returns)
    | some address =>
      .ok (Function.update m address packet.info.nextHeader, { a with
          fragments := before ++ packet :: rest
          packet := true
          head := some packet.ip6
          info := true }, .delivers)

def ip6UpdateTotal (a : Ip6AssembleEntry) (packet : Ip6Packet) : Ip6AssembleEntry := { a with
    totalLen := if packet.info.lastFrag = true ∧ a.totalLen = 0 then packet.info.stop else a.totalLen }

def ip6Enqueue (a : Ip6AssembleEntry) (packet : Ip6Packet) :
    Except Fault (Memory × Ip6AssembleEntry × Ip6Enqueued) :=
  let (before,behind) := ip6InsertPoint packet.info.start a.fragments
  match ip6CheckPrevious before packet with
  | .error fault => .error fault
  | .ok none => .ok (m, a, .returns)
  | .ok (some before) =>
    match ip6CheckBehind packet behind a.curLen with
    | .error fault => .error fault
    | .ok ⟨none, rest, curLen⟩ =>
      .ok (m, { a with fragments := before ++ rest, curLen := curLen }, .returns)
    | .ok ⟨some packet, rest, curLen⟩ =>
      let a := { a with curLen := curLen + packet.info.length }
      if packet.info.start = 0 then
        match ip6FirstFragment m pool a packet before rest with
        | .error fault => .error fault
        | .ok (m, a, .returns) => .ok (m, a, .returns)
        | .ok (m, a, .delivers) => .ok (m, ip6UpdateTotal a packet, .delivers)
      else
        .ok (m, ip6UpdateTotal { a with fragments := before ++ packet :: rest } packet, .delivers)

structure Ip6Assembled where
  ip6 : Option Nat
  info : Ip6ClipInfo
  nbuf : NetBuf
deriving DecidableEq, Repr

def ip6TrimHeaders (len : UInt32) : List Ip6Packet → Except Fault (List NetBuf)
  | [] => .ok []
  | fragment :: rest =>
    match netbufTrim fragment.nbuf len true with
    | .error fault => .error fault
    | .ok (nbuf,_) =>
      match ip6TrimHeaders len rest with
      | .error fault => .error fault
      | .ok nbufs => .ok (nbuf :: nbufs)

/-- The delivery of an entry whose fragments have all been received. Where it fails, the packet is freed
with the entry and once more. -/
def ip6Deliver (a : Ip6AssembleEntry) :
    Except Fault (Memory × Ip6Assembled) := match a.fragments.head?, a.fragments.getLast? with
  | some first, some last =>
    if (last.info.stop : Int) ≠ a.totalLen then .error .outOfBounds
    else if a.info = false then .error .outOfBounds
    else
      match netbufGetFragment first.nbuf 0 (UInt32.ofNat first.info.headLen) 0 pool.fragment none with
      | .error fault => .error fault
      | .ok none => .error .assertion
      | .ok (some tmp) =>
        match ip6TrimHeaders (UInt32.ofNat (first.info.headLen+8)) a.fragments with
        | .error fault => .error fault
        | .ok nbufs =>
          match netbufFromBufList m (tmp :: nbufs) 0 0 pool.buffers with
          | .error fault => .error fault
          | .ok (_,none) => .error .outOfBounds
          | .ok (m, some nbuf) => .ok (m, ⟨a.head, first.info, nbuf⟩)
  | _, _ => .error .outOfBounds

def ip6Matches (dst src id : Nat) (a : Ip6AssembleEntry) : Bool := a.id == id && a.src == src && a.dst == dst

structure Ip6Result where
  memory : Memory
  table : List Ip6AssembleEntry
  packet : Option Ip6Assembled

def ip6ReassembleEntry (table : List Ip6AssembleEntry)
    (a : Ip6AssembleEntry) (packet : Ip6Packet) : Except Fault Ip6Result :=
  let matching := ip6Matches packet.dst packet.src packet.info.id
  match ip6Enqueue m pool a packet with
  | .error fault => .error fault
  | .ok (m,a,enqueued) =>
    if enqueued = .delivers ∧ a.totalLen ≠ 0 ∧ a.curLen ≥ a.totalLen then
      match ip6Deliver m pool a with
      | .error fault => .error fault
      | .ok (m,assembled) => .ok ⟨m, table.eraseP matching, some assembled⟩
    else .ok ⟨m, replaceFirst matching a table, none⟩

def ip6Reassemble (table : List Ip6AssembleEntry)
    (packet : Ip6Packet) : Except Fault Ip6Result :=
  match table.find? (ip6Matches packet.dst packet.src packet.info.id) with
  | some a => ip6ReassembleEntry m pool table a packet
  | none =>
    if pool.entry = false then .ok ⟨m, table, none⟩
    else
      let a := ip6CreateAssembleEntry packet.dst packet.src packet.info.id
      ip6ReassembleEntry m pool (a :: table) a packet

end

end Liano.Net
