import Liano.Efi
import Liano.Lib.Bytes

/-! IFR op-codes, the fields that are read from them, and the nodes of the registered form sets. -/
namespace Liano.Hii
open Bytes

/-- An op-code with its header taken apart; `Length` has seven bits and counts the header. -/
structure Op where
  opCode : UInt8
  scope : Bool
  data : Bytes
  fits : data.length+2 < 128

def Op.length (op : Op) : Nat := op.data.length+2

def Op.encode (op : Op) : Bytes :=
  [op.opCode, UInt8.ofNat (op.length + if op.scope then 128 else 0)] ++ op.data

def byteSize : List Op → Nat
  | [] => 0
  | op :: ops => op.length + byteSize ops

def EFI_IFR_FORM_OP : UInt8 := 0x01
def EFI_IFR_ONE_OF_OP : UInt8 := 0x05
def EFI_IFR_CHECKBOX_OP : UInt8 := 0x06
def EFI_IFR_NUMERIC_OP : UInt8 := 0x07
def EFI_IFR_FORM_SET_OP : UInt8 := 0x0E
def EFI_IFR_REF_OP : UInt8 := 0x0F
def EFI_IFR_STRING_OP : UInt8 := 0x1C
def EFI_IFR_ORDERED_LIST_OP : UInt8 := 0x23
def EFI_IFR_END_OP : UInt8 := 0x29

/-- `sizeof (EFI_IFR_FORM_SET)`. -/
def sizeOfFormSet : Nat := 23

/-- `sizeof (EFI_IFR_REF3)`. -/
def sizeOfRef3 : Nat := 33

/-- An `EFI_IFR_OP_HEADER *`: the op-code it points to, those behind it, and what lies in memory behind the
block that holds them. -/
structure Cursor where
  op : Op
  rest : List Op
  behind : Nat → UInt8

namespace Cursor

def ops (c : Cursor) : List Op := c.op :: c.rest

def byte (c : Cursor) (offset : Nat) : UInt8 := let bytes := c.ops.flatMap Op.encode
  bytes.getD offset (c.behind (offset-bytes.length))

def word (c : Cursor) (offset : Nat) : UInt16 :=
  UInt16.ofNat (leValue [c.byte offset, c.byte (offset+1)])

def guidAt (c : Cursor) (offset : Nat) : Bytes := (List.range 16).map fun i => c.byte (offset+i)

/-! The fields of `EFI_IFR_FORM_SET` and `EFI_IFR_FORM`. -/

def formSetGuid (c : Cursor) : Bytes := c.guidAt 2
def formSetTitle (c : Cursor) : UInt16 := c.word 18
def formSetFlags (c : Cursor) : UInt8 := c.byte 22
def formId (c : Cursor) : UInt16 := c.word 2
def formTitle (c : Cursor) : UInt16 := c.word 4

/-! The fields of `EFI_IFR_QUESTION_HEADER`, and the target of `EFI_IFR_REF` and `EFI_IFR_REF3`. -/

def prompt (c : Cursor) : UInt16 := c.word 2
def questionId (c : Cursor) : UInt16 := c.word 6
def refFormId (c : Cursor) : UInt16 := c.word 13
def refFormSetId (c : Cursor) : Bytes := c.guidAt 17

end Cursor

structure FormNode where
  form : Cursor
  formSize : Nat

structure FormSetNode where
  hiiHandle : Nat
  formSet : Cursor
  formSetSize : Nat
  formList : List FormNode

def FormNode.formId (f : FormNode) : UInt16 := f.form.formId
def FormSetNode.guid (s : FormSetNode) : Bytes := s.formSet.formSetGuid

/-- The op-codes behind the cursor that start before `n` more bytes are over. -/
def Cursor.visited (n : Nat) (behind : Nat → UInt8) : List Op → List Cursor
  | [] => []
  | op :: rest => if n = 0 then [] else ⟨op, rest, behind⟩ :: Cursor.visited (n-op.length) behind rest

/-- What the walk over a form visits: the op-codes behind `FORM` within `FormSize`. -/
def FormNode.opCodes (f : FormNode) : List Cursor :=
  Cursor.visited (f.formSize-f.form.op.length) f.form.behind f.form.rest

/-- The loop of the lookups: it stops at the first node that matches and leaves the node it looked at last
in the variable that is returned. -/
def lastLookedAt {α : Type} (p : α → Bool) : Option α → List α → Option α
  | last, [] => last
  | _, a :: rest => if p a then some a else lastLookedAt p (some a) rest

def attributeQuestionGetFormSet (mFormSetList : List FormSetNode) (formSetId : Option Bytes) :
    Option FormSetNode := match formSetId with
  | none => mFormSetList.head?
  | some guid => lastLookedAt (fun s => guid == s.guid) none mFormSetList

def attributeQuestionGetForm (mFormSetList : List FormSetNode) (formSetId : Option Bytes)
    (formId : UInt16) : Option FormNode := match attributeQuestionGetFormSet mFormSetList formSetId with
  | none => none
  | some s =>
    if formId = 0 then s.formList.head?
    else lastLookedAt (fun f => f.formId == formId) none s.formList

variable {α : Type} {p : α → Bool} {xs : List α}

theorem lastLookedAt_found (last : Option α)
    (h : ∃ a ∈ xs, p a = true) : lastLookedAt p last xs = xs.find? p := by
  induction xs generalizing last with
  | nil => simp at h
  | cons a rest ih =>
    cases hp : p a with
    | true => simp [lastLookedAt, hp]
    | false =>
      have hrest : ∃ a ∈ rest, p a = true := by simpa [hp] using h
      simpa [lastLookedAt, hp] using ih (some a) hrest

theorem lastLookedAt_missing (last : Option α)
    (h : ∀ a ∈ xs, p a = false) : lastLookedAt p last xs = xs.getLast?.or last := by
  induction xs generalizing last with
  | nil => rfl
  | cons a rest ih =>
    have hrest := ih (some a) fun b hb => h b (List.mem_cons_of_mem a hb)
    rw [lastLookedAt, h a List.mem_cons_self, if_ff, hrest]
    cases rest <;> simp [List.getLast?_cons]

/-- The loop finds what a search finds if there is something to be found, or nothing to look at. -/
theorem lastLookedAt_eq_find? :
    lastLookedAt p none xs = xs.find? p ↔ (∃ a ∈ xs, p a = true) ∨ xs = [] := by
  by_cases hfnd : ∃ a ∈ xs, p a = true
  · exact iff_of_true (lastLookedAt_found none hfnd) (.inl hfnd)
  have hmiss : ∀ a ∈ xs, p a = false := by simpa using hfnd
  have hnone : xs.find? p = none := List.find?_eq_none.mpr (by simpa using hfnd)
  rw [lastLookedAt_missing none hmiss, hnone, Option.or_none, List.getLast?_eq_none_iff]
  exact ⟨.inr, fun h => h.resolve_left hfnd⟩

end Liano.Hii
