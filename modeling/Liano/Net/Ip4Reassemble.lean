import Liano.Lib.Spans
import Liano.Net.FromBufList
import Liano.Net.Resize

/-! `Ip4Input.c`: the reassembly of a datagram from its fragments. The buckets of the assemble table
are one list, since only an entry with the packet's addresses, identification and protocol is looked
for. -/
namespace Liano.Net

open Memory Liano.Lib

/-- What `Ip4Reassemble` reads of an `IP4_HEAD`, in host order. -/
structure Ip4Head where
  dst : Nat
  src : Nat
  id : Nat
  protocol : Nat
  fragment : Nat
deriving DecidableEq, Repr

def ip4HeadMfMask : Nat := 0x2000

def ip4LastFragment (fragment : Nat) : Bool := fragment &&& ip4HeadMfMask == 0

/-- What `Ip4Reassemble` reads of an `IP4_CLIP_INFO`; `stop` is `End`. -/
structure Ip4ClipInfo where
  start : Nat
  stop : Nat
  length : Int
deriving DecidableEq, Repr

/-- A received `NET_BUF` with its header and its per packet information. -/
structure Ip4Packet where
  ip4 : Ip4Head
  info : Ip4ClipInfo
  nbuf : NetBuf
deriving DecidableEq, Repr

/-- `IP4_ASSEMBLE_ENTRY`, without its life. -/
structure Ip4AssembleEntry where
  dst : Nat
  src : Nat
  id : Nat
  protocol : Nat
  totalLen : Int
  curLen : Int
  fragments : List Ip4Packet
  head : Option Ip4Head
  info : Option Ip4ClipInfo
deriving DecidableEq, Repr

def ip4CreateAssembleEntry (dst src id protocol : Nat) : Ip4AssembleEntry :=
  ⟨dst, src, id, protocol, 0, 0, [], none, none⟩

/-- The part of `Ip4TrimPacket` that trims the head, for a packet that starts before `start`. -/
def ip4TrimHead (packet : Ip4Packet) (start : Nat) : Except Fault Ip4Packet :=
  if packet.info.start < start then
    let len : Int := start-packet.info.start
    match netbufTrim packet.nbuf (UInt32.ofInt len) true with
    | .error fault => .error fault
    | .ok (nbuf,_) =>
      .ok { packet with
        nbuf := nbuf
        info := { packet.info with start := start, length := packet.info.length - len } }
  else .ok packet

/-- The part that trims the tail; `Len` is the new end less the old one. -/
def ip4TrimTail (packet : Ip4Packet) (stop : Nat) : Except Fault Ip4Packet := if stop < packet.info.stop then
    let len : Int := stop-packet.info.stop
    match netbufTrim packet.nbuf (UInt32.ofInt len) false with
    | .error fault => .error fault
    | .ok (nbuf,_) =>
      .ok { packet with
        nbuf := nbuf
        info := { packet.info with stop := stop, length := packet.info.length - len } }
  else .ok packet

def ip4TrimPacket (packet : Ip4Packet) (start stop : Nat) : Except Fault Ip4Packet :=
  if packet.info.start+packet.info.length ≠ packet.info.stop then .error .assertion
  else if ¬ (packet.info.start < stop ∧ start < packet.info.stop) then .error .assertion
  else
    match ip4TrimHead packet start with
    | .error fault => .error fault
    | .ok packet => ip4TrimTail packet stop

/-- The check against the fragment before the insert point; `none` where the packet is freed. -/
def ip4CheckPrevious (prev : Option Ip4Packet) (packet : Ip4Packet) : Except Fault (Option Ip4Packet) :=
  match prev with
  | none => .ok (some packet)
  | some node =>
    if packet.info.start < node.info.stop then
      if packet.info.stop ≤ node.info.stop then .ok none
      else
        match ip4TrimPacket packet node.info.stop packet.info.stop with
        | .error fault => .error fault
        | .ok packet => .ok (some packet)
    else .ok (some packet)

/-- What the check of the fragments behind the insert point leaves: the packet, if it stays, these
fragments and `CurLen`. -/
structure Ip4Behind where
  packet : Option Ip4Packet
  fragments : List Ip4Packet
  curLen : Int

def ip4CheckBehind (packet : Ip4Packet) : List Ip4Packet → Int → Except Fault Ip4Behind
  | [], curLen => .ok ⟨some packet, [], curLen⟩
  | node :: rest, curLen =>
    if node.info.stop ≤ packet.info.stop then
      ip4CheckBehind packet rest (curLen-node.info.length)
    else if node.info.start < packet.info.stop then
      if packet.info.start = node.info.start then .ok ⟨none, node :: rest, curLen⟩
      else
        match ip4TrimPacket packet packet.info.start node.info.start with
        | .error fault => .error fault
        | .ok packet => .ok ⟨some packet, node :: rest, curLen⟩
    else .ok ⟨some packet, node :: rest, curLen⟩

def ip4InsertPoint (start : Nat) (fragments : List Ip4Packet) : List Ip4Packet × List Ip4Packet :=
  fragments.span fun fragment => !decide (start < fragment.info.start)

def ip4UpdateEntry (a : Ip4AssembleEntry) (packet : Ip4Packet) (fragments : List Ip4Packet)
    (curLen : Int) : Ip4AssembleEntry := { a with
    fragments := fragments
    curLen := curLen+packet.info.length
    head := if packet.info.start = 0 then some packet.ip4 else a.head
    info := if packet.info.start = 0 then some packet.info else a.info
    totalLen := if ip4LastFragment packet.ip4.fragment = true ∧ a.totalLen = 0 then packet.info.stop
      else a.totalLen }

def ip4Enqueue (a : Ip4AssembleEntry) (packet : Ip4Packet) : Except Fault (Ip4AssembleEntry × Bool) :=
  let (before,behind) := ip4InsertPoint packet.info.start a.fragments
  match ip4CheckPrevious before.getLast? packet with
  | .error fault => .error fault
  | .ok none => .ok (a,false)
  | .ok (some packet) =>
    match ip4CheckBehind packet behind a.curLen with
    | .error fault => .error fault
    | .ok ⟨none, rest, curLen⟩ => .ok ({ a with fragments := before ++ rest, curLen := curLen }, false)
    | .ok ⟨some packet, rest, curLen⟩ =>
      if packet.info.start = 0 ∧ a.head.isSome = true then .error .assertion
      else .ok (ip4UpdateEntry a packet (before ++ packet :: rest) curLen, true)

structure Ip4Assembled where
  ip4 : Option Ip4Head
  info : Ip4ClipInfo
  nbuf : NetBuf
deriving DecidableEq, Repr

def ip4Deliver (m : Memory) (pool : BufListPool) (a : Ip4AssembleEntry) :
    Except Fault (Memory × Option Ip4Assembled) := match a.fragments.getLast? with
  | none => .error .outOfBounds
  | some last =>
    if (last.info.stop : Int) ≠ a.totalLen then .ok (m,none)
    else
      match netbufFromBufList m (a.fragments.map (·.nbuf)) 0 0 pool with
      | .error fault => .error fault
      | .ok (m,none) => .ok (m,none)
      | .ok (m, some nbuf) =>
        match a.info with
        | none => .error .assertion
        | some info => .ok (m, some ⟨a.head, info, nbuf⟩)

def ip4Matches (head : Ip4Head) (a : Ip4AssembleEntry) : Bool :=
  a.dst == head.dst && a.src == head.src && a.id == head.id && a.protocol == head.protocol

def replaceEntry (p : Ip4AssembleEntry → Bool) (a : Ip4AssembleEntry) :
    List Ip4AssembleEntry → List Ip4AssembleEntry
  | [] => []
  | e :: es => if p e then a :: es else e :: replaceEntry p a es

structure Ip4Pool where
  entry : Bool
  buffers : BufListPool
deriving DecidableEq, Repr

structure Ip4Result where
  memory : Memory
  table : List Ip4AssembleEntry
  packet : Option Ip4Assembled

def ip4ReassembleEntry (m : Memory) (pool : Ip4Pool) (table : List Ip4AssembleEntry)
    (a : Ip4AssembleEntry) (packet : Ip4Packet) : Except Fault Ip4Result := match ip4Enqueue a packet with
  | .error fault => .error fault
  | .ok (a,accepted) =>
    if accepted = true ∧ a.totalLen ≠ 0 ∧ a.curLen ≥ a.totalLen then
      match ip4Deliver m pool.buffers a with
      | .error fault => .error fault
      | .ok (m,assembled) => .ok ⟨m, table.eraseP (ip4Matches packet.ip4), assembled⟩
    else .ok ⟨m, replaceEntry (ip4Matches packet.ip4) a table, none⟩

def ip4Reassemble (m : Memory) (pool : Ip4Pool) (table : List Ip4AssembleEntry)
    (packet : Ip4Packet) : Except Fault Ip4Result := match table.find? (ip4Matches packet.ip4) with
  | some a => ip4ReassembleEntry m pool table a packet
  | none =>
    if pool.entry = false then .ok ⟨m, table, none⟩
    else
      let a := ip4CreateAssembleEntry packet.ip4.dst packet.ip4.src packet.ip4.id
        packet.ip4.protocol
      ip4ReassembleEntry m pool (a :: table) a packet

end Liano.Net
