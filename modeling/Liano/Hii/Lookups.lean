import Liano.Hii.Registration

/-! What the scan records and what the lookups return, against the scopes of the stream and a search. -/
namespace Liano.Hii

def formSetAsked (mFormSetList : List FormSetNode) : Option Bytes → Option FormSetNode
  | none => mFormSetList.head?
  | some guid => mFormSetList.find? fun s => guid == s.guid

section
variable (forms : List FormNode) (formId : UInt16)

def formIn : Option FormNode :=
  if formId = 0 then forms.head? else forms.find? fun f => f.formId == formId

def formAsked (mFormSetList : List FormSetNode) (formSetId : Option Bytes) (formId : UInt16) :
    Option FormNode := (formSetAsked mFormSetList formSetId).bind fun s => formIn s.formList formId

def FormIdKnown : Prop :=
  formId = 0 ∨ (∃ f ∈ forms, f.formId = formId) ∨ forms = []

def FormKnown (mFormSetList : List FormSetNode) (formSetId : Option Bytes) (formId : UInt16) : Prop :=
  match formSetAsked mFormSetList formSetId with
  | some s => FormIdKnown s.formList formId
  | none => ∀ s ∈ mFormSetList.getLast?, s.formList = []

theorem getFormSet_eq_iff (mFormSetList : List FormSetNode) (guid : Bytes) :
    attributeQuestionGetFormSet mFormSetList (some guid) = formSetAsked mFormSetList (some guid) ↔
      (∃ s ∈ mFormSetList, s.guid = guid) ∨ mFormSetList = [] := by
  refine lastLookedAt_eq_find?.trans (or_congr_left (exists_congr fun s => and_congr_right fun _ => ?_))
  rw [beq_iff_eq, eq_comm]

variable {mFormSetList : List FormSetNode} {formSetId : Option Bytes}

theorem getFormSet_of_asked {s : FormSetNode} (h : formSetAsked mFormSetList formSetId = some s) :
    attributeQuestionGetFormSet mFormSetList formSetId = some s := by
  cases formSetId with
  | none => exact h
  | some guid =>
    have hfind : mFormSetList.find? (fun a => guid == a.guid) = some s := h
    have hguid := List.find?_some hfind
    exact (lastLookedAt_found none ⟨s, List.mem_of_find?_eq_some hfind, hguid⟩).trans hfind

theorem getFormSet_of_missing (h : formSetAsked mFormSetList formSetId = none) :
    attributeQuestionGetFormSet mFormSetList formSetId = mFormSetList.getLast? := by
  cases formSetId with
  | none =>
    rw [List.head?_eq_none_iff.mp h]
    rfl
  | some guid =>
    have hmiss : ∀ a ∈ mFormSetList, (guid == a.guid) = false := by simpa using List.find?_eq_none.mp h
    exact (lastLookedAt_missing none hmiss).trans (Option.or_none ..)

def lookedUpForm : Option FormNode :=
  if formId = 0 then forms.head? else lastLookedAt (fun f => f.formId == formId) none forms

theorem lookedUpForm_eq_iff :
    lookedUpForm forms formId = formIn forms formId ↔ FormIdKnown forms formId := by
  unfold lookedUpForm formIn FormIdKnown
  split
  · rename_i hzero
    exact iff_of_true rfl (.inl hzero)
  · rename_i hne
    rw [lastLookedAt_eq_find?]
    simp [hne]

theorem lookedUpForm_eq_none_iff :
    lookedUpForm forms formId = none ↔ forms = [] := by
  constructor
  · intro h
    unfold lookedUpForm at h
    split at h
    · exact List.head?_eq_none_iff.mp h
    cases forms with
    | nil => rfl
    | cons f rest =>
      have hlast (xs : List FormNode) (a : FormNode) :
          lastLookedAt (fun f => f.formId == formId) (some a) xs ≠ none := by
        induction xs generalizing a with
        | nil => exact Option.some_ne_none a
        | cons b xs ih =>
          rw [lastLookedAt]
          split
          · exact Option.some_ne_none b
          · exact ih b
      rw [lastLookedAt] at h
      split at h
      · cases h
      · exact absurd h (hlast rest f)
  · rintro rfl
    unfold lookedUpForm
    split <;> rfl

end

theorem getForm_eq_iff (mFormSetList : List FormSetNode) (formSetId : Option Bytes) (formId : UInt16) :
    attributeQuestionGetForm mFormSetList formSetId formId = formAsked mFormSetList formSetId formId ↔
      FormKnown mFormSetList formSetId formId := by
  unfold FormKnown formAsked
  cases hasked : formSetAsked mFormSetList formSetId with
  | some s =>
    have hget : attributeQuestionGetForm mFormSetList formSetId formId = lookedUpForm s.formList formId := by
      rw [attributeQuestionGetForm, getFormSet_of_asked hasked]
      rfl
    rw [hget]
    exact lookedUpForm_eq_iff s.formList formId
  | none =>
    rw [attributeQuestionGetForm, getFormSet_of_missing hasked]
    cases hlast : mFormSetList.getLast? with
    | none => simp
    | some s =>
      simp only [Option.bind_none, Option.mem_some_iff, forall_eq']
      exact lookedUpForm_eq_none_iff s.formList formId

theorem getSelf_eq_iff (gAttributeQuestionList : List AqNode) (formSetId : Bytes) (questionId : UInt16) :
    attributeQuestionGetSelf gAttributeQuestionList formSetId questionId =
        gAttributeQuestionList.find? (fun n =>
          formSetId == n.thisPage.formSetId && questionId == n.questionId) ↔
      (∃ n ∈ gAttributeQuestionList, n.thisPage.formSetId = formSetId ∧ n.questionId = questionId) ∨
        gAttributeQuestionList = [] := by
  refine lastLookedAt_eq_find?.trans (or_congr_left (exists_congr fun n => and_congr_right fun _ => ?_))
  rw [Bool.and_eq_true, beq_iff_eq, beq_iff_eq, eq_comm, @eq_comm _ questionId]

namespace Crossing

/-- A reference to the form set of the second GUID. -/
def crossing : Op where
  opCode := EFI_IFR_REF_OP
  scope := false
  data := [5, 0, 0, 0, 6, 0, 0, 0, 0, 0, 0, 0, 0, 0, 0] ++ List.replicate 16 9
  fits := by decide

def secondFormSet : Op where
  opCode := EFI_IFR_FORM_SET_OP
  scope := true
  data := List.replicate 16 9 ++ [6, 0, 0, 0, 0]
  fits := by decide

/-- A reference of the first form set to itself. -/
def selfReference : Op where
  opCode := EFI_IFR_REF_OP
  scope := false
  data := [5, 0, 0, 0, 6, 0, 0, 0, 0, 0, 0, 0, 0, 0, 0] ++ Dangling.formSetOp.data.take 16
  fits := by decide

def oneForm (formSet : Opener) (inForm : Stream) : Stream := .scope formSet
  (.scope ⟨Dangling.formOp, rfl⟩ inForm ⟨Dangling.endOp, rfl, rfl⟩ .nil) ⟨Dangling.endOp, rfl, rfl⟩ .nil

def refersTo (op : Op) (hplain : op.scope = false) (hop : op.opCode = EFI_IFR_REF_OP) : Stream :=
  .leaf ⟨op, hplain, by rw [hop]; decide, by rw [hop]; decide, by rw [hop]; decide⟩ .nil

/-- Two package lists with a form set each; the first one's form holds `inForm`. -/
def db (inForm : Stream) : NestedDatabase where
  exportPackageLists
    | 1 => some [.forms (oneForm ⟨Dangling.formSetOp, rfl⟩ inForm) fun _ => 0]
    | 2 => some [.forms (oneForm ⟨secondFormSet, rfl⟩ .nil) fun _ => 0]
    | _ => none
  hiiGetHiiHandles guid := if guid = List.replicate 16 9 then some 2 else some 1

def crossed : NestedDatabase := db (refersTo crossing rfl rfl)

def start : Registry := ⟨0, [], [], []⟩

theorem flat_first : ∀ f ∈ crossed.formSets ⟨1, none⟩, f.Flat none := by
  intro f hf
  rw [List.mem_singleton.mp hf]
  refine ⟨rfl, fun g hg => ?_⟩
  rw [List.mem_singleton.mp hg]
  rfl

theorem flat_second : ∀ f ∈ crossed.formSets ⟨2, some (List.replicate 16 9)⟩,
    f.Flat (some (List.replicate 16 9)) := by
  intro f hf
  rw [List.mem_singleton.mp hf]
  refine ⟨rfl, fun g hg => ?_⟩
  rw [List.mem_singleton.mp hg]
  rfl

end Crossing

/-- A form set that refers to itself is recorded twice. -/
theorem register_selfReference_twice : (attributeQuestionFormSetRegister
      (Crossing.db (Crossing.refersTo Crossing.selfReference rfl rfl)).database Dangling.pool (fun _ => true) 2
      ⟨1, none⟩ true Crossing.start).map (Option.map fun r => r.mFormSetList.map FormSetNode.guid) =
    some (some [Dangling.formSet.guid, Dangling.formSet.guid]) := rfl

end Liano.Hii
