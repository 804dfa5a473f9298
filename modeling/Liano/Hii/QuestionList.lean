import Liano.Hii.Extraction

/-! The walk over the forms that makes the list of questions, each with the page it stands on and the page
its form was reached from. -/
namespace Liano.Hii

inductive Status
  | success
  | notReady
  | outOfResources
deriving DecidableEq, Repr

structure AqPage where
  hiiHandle : Nat
  formSetId : Bytes
  formSetTitle : UInt16
  formId : UInt16
  formTitle : UInt16
deriving DecidableEq, Repr

inductive AqType
  | question
  | refForm
  | refFset
deriving DecidableEq, Repr

/-- `AQ_NODE`; `PrevPage` is the page of a node, given by its place in `gAttributeQuestionList`. -/
structure AqNode where
  thisPage : AqPage
  prevPage : Option Nat
  type : AqType
  questionId : UInt16
  prompt : UInt16
deriving DecidableEq, Repr

def attributeQuestionIsOp (opCode : UInt8) : Bool :=
  opCode == EFI_IFR_ONE_OF_OP || opCode == EFI_IFR_CHECKBOX_OP || opCode == EFI_IFR_NUMERIC_OP ||
    opCode == EFI_IFR_STRING_OP || opCode == EFI_IFR_ORDERED_LIST_OP

def attributeQuestionGetSelf (gAttributeQuestionList : List AqNode) (formSetId : Bytes) (questionId : UInt16) :
    Option AqNode :=
  lastLookedAt (fun n => formSetId == n.thisPage.formSetId && questionId == n.questionId) none
    gAttributeQuestionList

/-- The form that a call walks, with the `FormSetId` and `FormId` it pushes. -/
structure Entry where
  formSet : FormSetNode
  form : FormNode
  formSetId : Bytes
  formId : UInt16

/-- The `FORMREF_NODE`. -/
def Entry.ids (e : Entry) : Bytes × UInt16 := (e.formSetId,e.formId)

/-- A node, with the form it was made for and the op-code it was made from. The two are kept for the
statements below; no function of the source reads them. -/
structure Made where
  node : AqNode
  entry : Entry
  cursor : Cursor

structure World where
  calls : Nat
  mFormRefList : List (Bytes × UInt16)
  gAttributeQuestionList : List Made

structure Call where
  formSetId : Option Bytes
  formId : UInt16
  prevPage : Option Nat

def enter (mFormSetList : List FormSetNode) (call : Call) : Option Entry :=
  match attributeQuestionGetFormSet mFormSetList call.formSetId with
  | none => none
  | some formSet =>
    let formSetId := call.formSetId.getD formSet.guid
    match attributeQuestionGetForm mFormSetList (some formSetId) call.formId with
    | none => none
    | some form => some ⟨formSet, form, formSetId, if call.formId = 0 then form.formId else call.formId⟩

/-- `ThisPage` with the given ids. -/
def Entry.page (e : Entry) (formSetId : Bytes) (formId : UInt16) : AqPage where
  hiiHandle := e.formSet.hiiHandle
  formSetId := formSetId
  formSetTitle := e.formSet.formSet.formSetTitle
  formId := formId
  formTitle := e.form.form.formTitle

/-- A question's page has the id of the form itself, and the variable `FormSetId`. -/
def Entry.question (e : Entry) (prevPage : Option Nat) (ids : Bytes × UInt16) (c : Cursor) : Made where
  node := {
    thisPage := e.page ids.1 e.form.formId
    prevPage := prevPage
    type := .question
    questionId := c.questionId
    prompt := c.prompt }
  entry := e
  cursor := c

def Entry.reference (e : Entry) (prevPage : Option Nat) (ids : Bytes × UInt16) (c : Cursor) : Made where
  node := {
    thisPage := e.page ids.1 ids.2
    prevPage := prevPage
    type := if c.op.length ≥ sizeOfRef3 then .refFset else .refForm
    questionId := c.questionId
    prompt := c.prompt }
  entry := e
  cursor := c

/-- The variables `FormSetId` and `FormId` behind a `REF`. -/
def retarget (c : Cursor) (ids : Bytes × UInt16) : Bytes × UInt16 :=
  if c.op.length ≥ sizeOfRef3 then (c.refFormSetId,0) else (ids.1,c.refFormId)

def World.make (w : World) (m : Made) : World :=
  { w with calls := w.calls+1, gAttributeQuestionList := w.gAttributeQuestionList ++ [m] }

def World.freed (w : World) : World := { w with gAttributeQuestionList := [] }

def World.popped (w : World) (status : Status) : World :=
  if status = .notReady then w else { w with mFormRefList := w.mFormRefList.dropLast }

def World.failed (w : World) (status : Status) : World := if status = .outOfResources then w.freed else w

def walk (pool : Pool) (callee : Call → World → Option (Status × World)) (e : Entry) (prevPage : Option Nat) :
    List Cursor → Bytes × UInt16 → World → Option (Status × World)
  | [], _, w => some (.success, w)
  | c :: cs, ids, w =>
    if attributeQuestionIsOp c.op.opCode then
      match pool w.calls with
      | none => some (.outOfResources, w.freed)
      | some _ => walk pool callee e prevPage cs ids (w.make (e.question prevPage ids c))
    else if c.op.opCode = EFI_IFR_REF_OP then
      match pool w.calls with
      | none => some (.outOfResources, w.freed)
      | some _ =>
        let next := retarget c ids
        match callee ⟨some next.1, next.2, some w.gAttributeQuestionList.length⟩
            (w.make (e.reference prevPage ids c)) with
        | none => none
        | some (.success, w') => walk pool callee e prevPage cs next (w'.popped .success)
        | some (status,w') => some (status, (w'.popped status).failed status)
    else walk pool callee e prevPage cs ids w

def World.push (w : World) (e : Entry) : World :=
  { w with calls := w.calls+1, mFormRefList := w.mFormRefList ++ [e.ids] }

/-- `AttributeQuestionListInit` behind the reset of `mFormRefList`. The fuel bounds the depth of the
recursion; `none` is a recursion that is deeper. -/
def listInit (mFormSetList : List FormSetNode) (pool : Pool) : Nat → Call → World → Option (Status × World)
  | 0, _, _ => none
  | fuel+1, call, w =>
    match enter mFormSetList call with
    | none => some (.notReady, w)
    | some e =>
      match pool w.calls with
      | none => some (.outOfResources, w.freed)
      | some _ =>
        if e.ids ∈ w.mFormRefList then some (.success, w.push e)
        else walk pool (listInit mFormSetList pool fuel) e call.prevPage e.form.opCodes e.ids (w.push e)

def attributeQuestionListInit (mFormSetList : List FormSetNode) (pool : Pool) (fuel : Nat) (call : Call)
    (resetGoto : Bool) (w : World) : Option (Status × World) :=
  listInit mFormSetList pool fuel call (if resetGoto then { w with mFormRefList := [] } else w)

end Liano.Hii
