import Liano.Efi
import Liano.Lib.Bytes

/-! The messages of the XenStore service: headers and bodies on the wire, the strings of a watch event and
the status that an error reply stands for (OvmfPkg/XenBusDxe/XenStore.c, MdePkg/Library/BaseLib). -/
namespace Liano.Xen
open Bytes

structure XsdSockmsg where
  type : Nat
  reqId : Nat
  txId : Nat
  len : Nat
deriving DecidableEq

def XsdSockmsg.size : Nat := 16

def XS_WATCH_EVENT : Nat := 15
def XS_ERROR : Nat := 16

def XsdSockmsg.bytes (header : XsdSockmsg) : Bytes :=
  leBytes 4 header.type ++ leBytes 4 header.reqId ++ leBytes 4 header.txId ++ leBytes 4 header.len

def XsdSockmsg.ofBytes (b : Bytes) : XsdSockmsg where
  type := leValue (slice b 0 4)
  reqId := leValue (slice b 4 4)
  txId := leValue (slice b 8 4)
  len := leValue (slice b 12 4)

structure XenstoreMessage where
  header : XsdSockmsg
  body : Bytes
deriving DecidableEq

def XenstoreMessage.bytes (message : XenstoreMessage) : Bytes := message.header.bytes ++ message.body

def XenstoreMessage.isReply (message : XenstoreMessage) : Bool := message.header.type != XS_WATCH_EVENT

inductive XenstoreStatus
  | success | fail | einval | eacces | eexist | eisdir | enoent | enomem | enospc | eio | enotempty | enosys
  | erofs | ebusy | eagain | eisconn | e2big
deriving DecidableEq

def gXenStoreErrors : List (XenstoreStatus × String) :=
  [(.einval, "EINVAL"), (.eacces, "EACCES"), (.eexist, "EEXIST"), (.eisdir, "EISDIR"), (.enoent, "ENOENT"),
    (.enomem, "ENOMEM"), (.enospc, "ENOSPC"), (.eio, "EIO"), (.enotempty, "ENOTEMPTY"), (.enosys, "ENOSYS"),
    (.erofs, "EROFS"), (.ebusy, "EBUSY"), (.eagain, "EAGAIN"), (.eisconn, "EISCONN"), (.e2big, "E2BIG")]

def asciiString (b : Bytes) : Bytes := b.takeWhile (· != 0)

def xenStoreGetError (errorStr : Bytes) : XenstoreStatus :=
  ((gXenStoreErrors.find? fun e => asciiString errorStr = e.2.toUTF8.toList).map Prod.fst).getD .einval

/-- What XenStoreTalkv returns for a reply. -/
def xenStoreTalkvResult (reply : XenstoreMessage) : XenstoreStatus × Option Bytes :=
  if reply.header.type = XS_ERROR then (xenStoreGetError reply.body, none) else (.success, some reply.body)

/-- The strings of a buffer whose last byte is NUL, behind the characters met of the first. -/
def extractStrings : Bytes → Bytes → List Bytes
  | _, [] => []
  | met, c :: cs => if c = 0 then met :: extractStrings [] cs else extractStrings (met ++ [c]) cs

def split (strings : Bytes) : List Bytes :=
  extractStrings [] (if strings = [] then [] else strings.dropLast ++ [0])

def XS_WATCH_TOKEN : Nat := 1

/-- `PcdMaximumAsciiStringLength` -/
def asciiRsizeMax : Nat := 1000000

def asciiHexCharToUintn (c : UInt8) : Option Nat :=
  if 48 ≤ c.toNat ∧ c.toNat ≤ 57 then some (c.toNat-48)
  else if 65 ≤ c.toNat ∧ c.toNat ≤ 70 then some (c.toNat-55)
  else if 97 ≤ c.toNat ∧ c.toNat ≤ 102 then some (c.toNat-87)
  else none

def MAX_UINTN : Nat := 2^64-1

def hexDigits : Nat → Bytes → Nat
  | data, [] => data
  | data, c :: cs =>
    match asciiHexCharToUintn c with
    | none => data
    | some digit => if data > (MAX_UINTN-digit) >>> 4 then MAX_UINTN else hexDigits ((data <<< 4) + digit) cs

/-- `data` is what the result holds where the string is too long to be converted. -/
def asciiStrHexToUintn (data : Nat) (string : Bytes) : Nat := if string.length > asciiRsizeMax then data
  else
    let string := string.dropWhile fun c => c == 32 || c == 9
    let digits := string.dropWhile (· == 48)
    match digits with
    | [] => 0
    | c :: cs =>
      if c = 88 ∨ c = 120 then
        if digits.length = string.length then 0 else hexDigits 0 cs
      else hexDigits 0 digits

def xenStoreFindWatch (registeredWatches : List Nat) (data : Nat) (token : Bytes) : Option Nat :=
  registeredWatches.find? (· = asciiStrHexToUintn data token)

structure XenstoreMessage.WellFormed (message : XenstoreMessage) : Prop where
  type_lt : message.header.type < 2^32
  reqId_lt : message.header.reqId < 2^32
  txId_lt : message.header.txId < 2^32
  len_lt : message.header.len < 2^32
  length_body : message.body.length = message.header.len

@[simp] theorem XsdSockmsg.length_bytes (header : XsdSockmsg) : header.bytes.length = XsdSockmsg.size := by
  simp [XsdSockmsg.bytes, XsdSockmsg.size]

theorem leValue_leBytes_four {n : Nat} (h : n < 2^32) : leValue (leBytes 4 n) = n := by
  rw [leValue_leBytes]
  exact Nat.mod_eq_of_lt h

theorem XsdSockmsg.ofBytes_bytes {message : XenstoreMessage} (h : message.WellFormed) :
    XsdSockmsg.ofBytes message.header.bytes = message.header := by
  have htype := leValue_leBytes_four h.type_lt
  have hreq := leValue_leBytes_four h.reqId_lt
  have htx := leValue_leBytes_four h.txId_lt
  have hlen := leValue_leBytes_four h.len_lt
  simp [XsdSockmsg.ofBytes, XsdSockmsg.bytes, slice, List.drop_append, List.drop_eq_nil_of_le,
    List.take_of_length_le, htype, hreq, htx, hlen]

end Liano.Xen
