import Liano.Hii.Ifr

/-! The scan of a package list for form sets and their forms. -/
namespace Liano.Hii

abbrev Pool := Nat → Option (Nat → UInt8)

def EFI_HII_PACKAGE_FORMS : UInt8 := 0x02

structure Package where
  type : UInt8
  ops : List Op
  behind : Nat → UInt8

/-- `InTheForm` and `InTheFormSet` at the next op-code. -/
def scopeCount (count : Nat) (op : Op) : Nat := if op.scope then count+1
  else if op.opCode = EFI_IFR_END_OP then count-1
  else count

/-- The inner loop of `AttributeQuestionFormListInit`, from the op-code behind `FORM` on: the bytes up to
the end of the op-code where the loop stops, and what is left behind it. The header of the op-code is read
there in any case. -/
def formEnd (behind : Nat → UInt8) : Nat → List Op → Nat × List Op
  | _, [] => ((behind 1).toNat % 128, [])
  | count, op :: rest =>
    if scopeCount count op = 0 then (op.length,rest)
    else
      let (size,left) := formEnd behind (scopeCount count op) rest
      (op.length+size, left)

/-- The loop of `AttributeQuestionFormListInit`: the forms among the op-codes that are left, and the number
of allocations so far. Every turn passes an op-code, so their number is enough fuel. -/
def formListLoop (pool : Pool) (behind : Nat → UInt8) : Nat → List Op → Nat → Option (List FormNode × Nat)
  | fuel+1, op :: rest, calls =>
    if op.opCode = EFI_IFR_FORM_OP then
      let (size,left) := formEnd behind 1 rest
      match pool calls with
      | none => none
      | some _ =>
        match formListLoop pool behind fuel left (calls+1) with
        | none => none
        | some (forms,calls') => some (⟨⟨op, rest, behind⟩, op.length+size⟩ :: forms, calls')
    else formListLoop pool behind fuel rest calls
  | _, _, calls => some ([], calls)

/-- `none` is `EFI_OUT_OF_RESOURCES`, with the list freed. The copy of the form set ends at `FormSetSize`. -/
def attributeQuestionFormListInit (pool : Pool) (formSet : Cursor) (calls : Nat) :
    Option (List FormNode × Nat) :=
  formListLoop pool formSet.behind formSet.rest.length formSet.rest calls

/-- The op-codes in the first `n` bytes. -/
def takeBytes : Nat → List Op → List Op
  | _, [] => []
  | n, op :: rest => if op.length ≤ n then op :: takeBytes (n-op.length) rest else []

/-- `AllocateCopyPool (FormSetSize, FormSet)`. -/
def Cursor.copy (c : Cursor) (size : Nat) (behind : Nat → UInt8) : Cursor :=
  ⟨c.op, takeBytes (size-c.op.length) c.rest, behind⟩

/-- The test for the form set that is asked for. The class GUIDs are looked for at an `EFI_IFR_OP_HEADER *`
moved by `sizeof (EFI_IFR_FORM_SET)` headers of two bytes. -/
def formSetFound (formSetId : Option Bytes) (c : Cursor) : Bool := match formSetId with
  | none => true
  | some guid =>
    guid == c.formSetGuid ||
      c.op.length > sizeOfFormSet &&
        (List.range (c.formSetFlags.toNat % 4)).any fun index =>
          guid == c.guidAt (2*sizeOfFormSet + 16*index)

/-- `NodeOfFormSet` is the last node of `mFormSetList`. -/
structure Scan where
  calls : Nat
  mFormSetList : List FormSetNode
  inTheFormSet : Nat

def finishFormSet (pool : Pool) (rest : List Op) (s : Scan) : Option Scan :=
  match s.mFormSetList.getLast? with
  | none => some s
  | some node =>
    let size := byteSize node.formSet.ops - byteSize rest
    match pool s.calls with
    | none => none
    | some behind =>
      let formSet := node.formSet.copy size behind
      match attributeQuestionFormListInit pool formSet (s.calls+1) with
      | none => none
      | some (forms,calls) => some {
          calls := calls
          mFormSetList := s.mFormSetList.dropLast ++
            [{ node with formSet := formSet, formSetSize := size, formList := forms }]
          inTheFormSet := 0 }

def countScope (pool : Pool) (c : Cursor) (s : Scan) : Option Scan := if s.inTheFormSet = 0 then some s
  else if scopeCount s.inTheFormSet c.op = 0 then finishFormSet pool c.rest s
  else some { s with inTheFormSet := scopeCount s.inTheFormSet c.op }

def openFormSet (pool : Pool) (hiiHandle : Nat) (formSetId : Option Bytes) (c : Cursor) (s : Scan) :
    Option Scan := if c.op.opCode = EFI_IFR_FORM_SET_OP ∧ formSetFound formSetId c = true then
    match pool s.calls with
    | none => none
    | some _ => some {
        calls := s.calls+1
        mFormSetList := s.mFormSetList ++ [⟨hiiHandle, c, 0, []⟩]
        inTheFormSet := 1 }
  else some s

section Register

variable (pool : Pool) (hiiHandle : Nat) (formSetId : Option Bytes)

def scanOpCodes (behind : Nat → UInt8) : List Op → Scan → Option Scan
  | [], s => some s
  | op :: rest, s =>
    match countScope pool ⟨op, rest, behind⟩ s with
    | none => none
    | some s' =>
      match openFormSet pool hiiHandle formSetId ⟨op, rest, behind⟩ s' with
      | none => none
      | some s'' => scanOpCodes behind rest s''

/-- The scan of `AttributeQuestionFormSetRegister`. `none` is `EFI_OUT_OF_RESOURCES`. -/
def formSetScan : List Package → Scan → Option Scan
  | [], s => some s
  | package :: packages, s =>
    if package.type ≠ EFI_HII_PACKAGE_FORMS then formSetScan packages s
    else
      match scanOpCodes pool hiiHandle formSetId package.behind package.ops { s with inTheFormSet := 0 } with
      | none => none
      | some s' => formSetScan packages s'

end Register

/-- What the HII database answers: the package list of a handle, and the first of the handles for a form
set, where `none` is `NULL`. -/
structure HiiDatabase where
  exportPackageLists : Nat → Option (List Package)
  hiiGetHiiHandles : Bytes → Option Nat

/-- A call of `AttributeQuestionFormSetRegister`. -/
structure Ask where
  hiiHandle : Nat
  formSetId : Option Bytes

/-- `asks` are the calls so far. They are kept for the statements below; no function of the source reads
them. -/
structure Registry where
  calls : Nat
  mFormSetList : List FormSetNode
  mFormRefList : List (Bytes × UInt16)
  asks : List Ask

section Depex

variable (callee : Ask → Registry → Option (Option Registry))

/-- The loop of `AttributeQuestionFormSetRegisterDepex`. `failed` says whether `Status`, which the first
`REF3` sets, is an error. -/
def depexLoop (hiiGetHiiHandles : Bytes → Option Nat) : List Cursor → Bool → Registry → Option (Option Registry)
  | [], _, r => some (some r)
  | c :: cs, failed, r =>
    if c.op.opCode = EFI_IFR_REF_OP then
      if c.op.length ≥ sizeOfRef3 then
        match hiiGetHiiHandles c.refFormSetId with
        | none => some none
        | some hiiHandle =>
          match callee ⟨hiiHandle, some c.refFormSetId⟩ r with
          | some (some r') => depexLoop hiiGetHiiHandles cs false r'
          | stopped => stopped
      else if failed then some none
      else depexLoop hiiGetHiiHandles cs failed r
    else depexLoop hiiGetHiiHandles cs failed r

/-- The form set and the form are those that the lookups find, and a form that has been passed is left
out. -/
def attributeQuestionFormSetRegisterDepex (db : HiiDatabase) (pool : Pool) (unset : Nat → Bool)
    (formSetId : Bytes) (resetGoto : Bool) (r : Registry) : Option (Option Registry) :=
  let mFormRefList := if resetGoto then [] else r.mFormRefList
  match attributeQuestionGetFormSet r.mFormSetList (some formSetId),
      attributeQuestionGetForm r.mFormSetList (some formSetId) 0 with
  | some _, some form =>
    if mFormRefList.contains (formSetId,form.formId) then some (some { r with mFormRefList := mFormRefList })
    else
      match pool r.calls with
      | none => some none
      | some _ => depexLoop callee db.hiiGetHiiHandles form.opCodes (unset r.calls) { r with
          calls := r.calls+1
          mFormRefList := mFormRefList ++ [(formSetId,form.formId)] }
  | _, _ => some none

end Depex

/-- `NodeOfFormSet` is the last node that this call has made. The fuel bounds the depth of the recursion:
`none` is a recursion that is deeper, and `some none` a status other than `EFI_SUCCESS`, or a package list
without the form set, which leaves `NodeOfFormSet` unset. `unset` says what the variable `Status` of
`AttributeQuestionFormSetRegisterDepex` holds before it is set. -/
def attributeQuestionFormSetRegister (db : HiiDatabase) (pool : Pool) (unset : Nat → Bool) :
    Nat → Ask → Bool → Registry → Option (Option Registry)
  | 0, _, _, _ => none
  | fuel+1, ask, resetGoto, r =>
    match db.exportPackageLists ask.hiiHandle with
    | none => some none
    | some packages =>
      match formSetScan pool ask.hiiHandle ask.formSetId packages ⟨r.calls, r.mFormSetList, 0⟩ with
      | none => some none
      | some s =>
        match (s.mFormSetList.drop r.mFormSetList.length).getLast? with
        | none => some none
        | some nodeOfFormSet => attributeQuestionFormSetRegisterDepex
            (fun ask r => attributeQuestionFormSetRegister db pool unset fuel ask false r) db pool unset
            nodeOfFormSet.guid resetGoto { r with
              calls := s.calls
              mFormSetList := s.mFormSetList
              asks := r.asks ++ [ask] }

end Liano.Hii
