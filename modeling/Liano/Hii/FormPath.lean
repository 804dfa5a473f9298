import Liano.Hii.QuestionList
import Mathlib.Data.Finset.Card
import Mathlib.Data.Finset.Prod

/-! The list of the forms that are being walked: it is restored by every call that succeeds, and it bounds
the depth of the recursion. -/
namespace Liano.Hii

open List hiding Cursor after

section Path

variable {mFormSetList : List FormSetNode} {pool : Pool}

def Balanced (mFormSetList : List FormSetNode) (callee : Call → World → Option (Status × World)) : Prop :=
  ∀ call w w', callee call w = some (.success, w') →
    ∃ e, enter mFormSetList call = some e ∧ w'.mFormRefList = w.mFormRefList ++ [e.ids]

/-- The variables `FormSetId` and `FormId` behind an op-code. -/
def carry (ids : Bytes × UInt16) (c : Cursor) : Bytes × UInt16 :=
  if attributeQuestionIsOp c.op.opCode then ids
  else if c.op.opCode = EFI_IFR_REF_OP then retarget c ids
  else ids

section Walk

variable {callee : Call → World → Option (Status × World)} {e : Entry} {prevPage : Option Nat}

variable {ids : Bytes × UInt16}
variable {c : Cursor} {cs : List Cursor} {w' : World}

theorem walk_question {w : World} (hop : attributeQuestionIsOp c.op.opCode = true)
    (h : walk pool callee e prevPage (c :: cs) ids w = some (.success, w')) : (pool w.calls).isSome ∧
      walk pool callee e prevPage cs ids (w.make (e.question prevPage ids c)) = some (.success, w') := by
  rw [walk, if_pos hop] at h
  split at h
  · cases h
  · rename_i hpool
    exact ⟨by rw [hpool]; rfl, h⟩

theorem walk_reference {w : World}
    (hop : ¬ attributeQuestionIsOp c.op.opCode = true) (href : c.op.opCode = EFI_IFR_REF_OP)
    (h : walk pool callee e prevPage (c :: cs) ids w = some (.success, w')) : (pool w.calls).isSome ∧ ∃ w1,
      callee ⟨some (retarget c ids).1, (retarget c ids).2, some w.gAttributeQuestionList.length⟩
        (w.make (e.reference prevPage ids c)) = some (.success, w1) ∧
      walk pool callee e prevPage cs (retarget c ids) (w1.popped .success) = some (.success, w') := by
  rw [walk, if_neg hop, if_pos href] at h
  split at h
  · cases h
  rename_i hpool
  refine ⟨by rw [hpool]; rfl, ?_⟩
  dsimp only at h
  split at h
  · cases h
  · rename_i w1 hcall
    exact ⟨w1, hcall, h⟩
  · rename_i status _ hstatus _
    simp only [Option.some.injEq, Prod.mk.injEq] at h
    exact absurd h.1 hstatus

theorem walk_other {w : World}
    (hop : ¬ attributeQuestionIsOp c.op.opCode = true) (href : ¬ c.op.opCode = EFI_IFR_REF_OP) :
    walk pool callee e prevPage (c :: cs) ids w = walk pool callee e prevPage cs ids w := by
  rw [walk, if_neg hop, if_neg href]

theorem popped_eq {w w1 : World} {p : Bytes × UInt16} (h : w1.mFormRefList = w.mFormRefList ++ [p]) :
    (w1.popped .success).mFormRefList = w.mFormRefList := by simp [World.popped, h]

theorem walk_keeps (hbal : Balanced mFormSetList callee)
    {w : World} (h : walk pool callee e prevPage cs ids w = some (.success, w')) :
    w'.mFormRefList = w.mFormRefList := by
  induction cs generalizing ids w with
  | nil =>
    cases h
    rfl
  | cons c cs ih =>
    by_cases hop : attributeQuestionIsOp c.op.opCode = true
    · exact (ih (walk_question hop h).2).trans rfl
    by_cases href : c.op.opCode = EFI_IFR_REF_OP
    · obtain ⟨-,w1,hcall,hrest⟩ := walk_reference hop href h
      obtain ⟨e',-,hlist⟩ := hbal _ _ _ hcall
      exact (ih hrest).trans (popped_eq hlist)
    · rw [walk_other hop href] at h
      exact ih h

end Walk

variable {call : Call} {w : World}
variable {fuel : Nat} {w' : World} {callee : Call → World → Option (Status × World)} {e : Entry}
  {prevPage : Option Nat} {ids : Bytes × UInt16} {r : Status × World} {gone : List (Bytes × UInt16)}
  {start : Call} {path : List Entry}

theorem listInit_success (h : listInit mFormSetList pool (fuel+1) call w = some (.success, w')) :
    ∃ e, enter mFormSetList call = some e ∧ (pool w.calls).isSome ∧
      (e.ids ∈ w.mFormRefList ∧ w' = w.push e ∨ e.ids ∉ w.mFormRefList ∧
        walk pool (listInit mFormSetList pool fuel) e call.prevPage e.form.opCodes e.ids (w.push e) =
          some (.success, w')) := by
  rw [listInit] at h
  split at h
  · cases h
  rename_i e henter
  split at h
  · cases h
  rename_i hpool
  refine ⟨e, henter, by rw [hpool]; rfl, ?_⟩
  split at h
  · rename_i hgone
    cases h
    exact .inl ⟨hgone, rfl⟩
  · rename_i hnew
    exact .inr ⟨hnew, h⟩

theorem listInit_balanced (fuel : Nat) : Balanced mFormSetList (listInit mFormSetList pool fuel) := by
  induction fuel with
  | zero =>
    intro call w w' h
    cases h
  | succ fuel ih =>
    intro call w w' h
    obtain ⟨e,henter,-,⟨-,rfl⟩ | ⟨-,hwalk⟩⟩ := listInit_success h
    · exact ⟨e, henter, rfl⟩
    · exact ⟨e, henter, walk_keeps ih hwalk⟩

theorem walk_mono {callee' : Call → World → Option (Status × World)}
    (hmono : ∀ call w r, callee call w = some r → callee' call w = some r) {cs : List Cursor}
    (h : walk pool callee e prevPage cs ids w = some r) : walk pool callee' e prevPage cs ids w = some r := by
  induction cs generalizing ids w with
  | nil => exact h
  | cons c cs ih =>
    unfold walk at h ⊢
    split
    · rename_i hop
      rw [if_pos hop] at h
      split at h
      · exact h
      · exact ih h
    rename_i hop
    rw [if_neg hop] at h
    split
    · rename_i href
      rw [if_pos href] at h
      split at h
      · exact h
      dsimp only at h ⊢
      cases hcall : callee ⟨some (retarget c ids).1, (retarget c ids).2,
          some w.gAttributeQuestionList.length⟩ (w.make (e.reference prevPage ids c)) with
      | none =>
        rw [hcall] at h
        cases h
      | some result =>
        rw [hcall] at h
        rw [hmono _ _ _ hcall]
        obtain ⟨status,w1⟩ := result
        cases status with
        | success => exact ih h
        | notReady => exact h
        | outOfResources => exact h
    · rename_i href
      rw [if_neg href] at h
      exact ih h

theorem listInit_mono (h : listInit mFormSetList pool fuel call w = some r) :
    listInit mFormSetList pool (fuel+1) call w = some r := by
  induction fuel generalizing call w r with
  | zero => cases h
  | succ fuel ih =>
    rw [listInit] at h ⊢
    split at h
    · exact h
    split at h
    · exact h
    split at h
    · rename_i hgone
      rw [if_pos hgone]
      exact h
    · rename_i hnew
      rw [if_neg hnew]
      exact walk_mono (fun _ _ _ => ih) h

theorem listInit_mono_le {fuel' : Nat} (hle : fuel ≤ fuel')
    (h : listInit mFormSetList pool fuel call w = some r) :
    listInit mFormSetList pool fuel' call w = some r := by
  induction hle with
  | refl => exact h
  | step _ ih => exact listInit_mono ih

theorem lastLookedAt_mem {α : Type} {p : α → Bool} {a : α} {last : Option α} {xs : List α}
    (h : lastLookedAt p last xs = some a) : a ∈ xs ∨ last = some a := by
  induction xs generalizing last with
  | nil => exact .inr h
  | cons b rest ih =>
    rw [lastLookedAt] at h
    split at h
    · cases h
      exact .inl mem_cons_self
    rcases ih h with hmem | hlast
    · exact .inl (mem_cons_of_mem b hmem)
    · cases hlast
      exact .inl mem_cons_self

theorem getFormSet_again {formSetId : Option Bytes} {s : FormSetNode}
    (h : attributeQuestionGetFormSet mFormSetList formSetId = some s) :
    attributeQuestionGetFormSet mFormSetList (some (formSetId.getD s.guid)) = some s := by
  cases formSetId with
  | some guid => exact h
  | none =>
    cases mFormSetList with
    | nil => cases h
    | cons s' rest =>
      cases h
      simp [attributeQuestionGetFormSet, lastLookedAt]

/-- What a call walks: a registered form set and a form of it, under the ids that were asked for. -/
theorem enter_some (h : enter mFormSetList call = some e) :
    attributeQuestionGetFormSet mFormSetList call.formSetId = some e.formSet ∧
      attributeQuestionGetForm mFormSetList (some e.formSetId) call.formId = some e.form ∧
      e.formSet ∈ mFormSetList ∧ e.form ∈ e.formSet.formList ∧
      e.formSetId = call.formSetId.getD e.formSet.guid ∧
      e.formId = if call.formId = 0 then e.form.formId else call.formId := by
  unfold enter at h
  split at h
  · cases h
  rename_i formSet hset
  dsimp only at h
  split at h
  · cases h
  rename_i form hform
  cases h
  refine ⟨hset, hform, ?_, ?_, rfl, rfl⟩
  · unfold attributeQuestionGetFormSet at hset
    split at hset
    · exact mem_of_head? hset
    · exact (lastLookedAt_mem hset).resolve_right nofun
  · unfold attributeQuestionGetForm at hform
    rw [getFormSet_again hset] at hform
    dsimp only at hform
    split at hform
    · exact mem_of_head? hform
    · exact (lastLookedAt_mem hform).resolve_right nofun

def allFormIds : Finset UInt16 := (Finset.range (2^16)).image UInt16.ofNat

theorem mem_allFormIds (id : UInt16) : id ∈ allFormIds :=
  Finset.mem_image.mpr ⟨id.toNat, Finset.mem_range.mpr id.toNat_lt, UInt16.ofNat_toNat⟩

structure Closed (mFormSetList : List FormSetNode) (guids : Finset Bytes) : Prop where
  own : ∀ s ∈ mFormSetList, s.guid ∈ guids
  target : ∀ s ∈ mFormSetList, ∀ f ∈ s.formList, ∀ c ∈ f.opCodes, c.refFormSetId ∈ guids

def leftOver (guids : Finset Bytes) (gone : List (Bytes × UInt16)) : Finset (Bytes × UInt16) :=
  (guids ×ˢ allFormIds) \ gone.toFinset

variable {guids : Finset Bytes}

theorem leftOver_push {p : Bytes × UInt16} (hguid : p.1 ∈ guids) (hnew : p ∉ gone) :
    (leftOver guids (gone ++ [p])).card < (leftOver guids gone).card := by
  apply Finset.card_lt_card
  refine Finset.ssubset_iff_of_subset (fun x hx => ?_) |>.mpr ⟨p, ?_, ?_⟩
  · simp only [leftOver, Finset.mem_sdiff, mem_toFinset, mem_append, not_or] at hx ⊢
    exact ⟨hx.1, hx.2.1⟩
  · simp only [leftOver, Finset.mem_sdiff, mem_toFinset, Finset.mem_product]
    exact ⟨⟨hguid, mem_allFormIds p.2⟩, hnew⟩
  · simp [leftOver]

theorem retarget_mem {c : Cursor} (hids : ids.1 ∈ guids)
    (hc : c.refFormSetId ∈ guids) : (retarget c ids).1 ∈ guids := by
  unfold retarget
  split
  · exact hc
  · exact hids

theorem walk_ends (hbal : Balanced mFormSetList callee)
    (hends : ∀ guid ∈ guids, ∀ formId prev w, w.mFormRefList = gone →
      ∃ r, callee ⟨some guid, formId, prev⟩ w = some r)
    {cs : List Cursor} (hcs : ∀ c ∈ cs, c.refFormSetId ∈ guids)
    (hids : ids.1 ∈ guids) (hw : w.mFormRefList = gone) :
    ∃ r, walk pool callee e prevPage cs ids w = some r := by
  induction cs generalizing ids w with
  | nil => exact ⟨_, rfl⟩
  | cons c cs ih =>
    have hrest : ∀ c' ∈ cs, c'.refFormSetId ∈ guids := fun c' hc' => hcs c' (mem_cons_of_mem c hc')
    unfold walk
    split
    · split
      · exact ⟨_, rfl⟩
      · exact ih hrest hids hw
    split
    · split
      · exact ⟨_, rfl⟩
      have hnext := retarget_mem hids (hcs c mem_cons_self)
      obtain ⟨⟨status,w1⟩,hcall⟩ := hends _ hnext (retarget c ids).2
        (some w.gAttributeQuestionList.length) (w.make (e.reference prevPage ids c)) hw
      dsimp only
      rw [hcall]
      cases status with
      | success =>
        obtain ⟨e',-,hlist⟩ := hbal _ _ _ hcall
        exact ih hrest hnext ((popped_eq hlist).trans hw)
      | notReady => exact ⟨_, rfl⟩
      | outOfResources => exact ⟨_, rfl⟩
    · exact ih hrest hids hw

theorem listInit_ends (hclosed : Closed mFormSetList guids)
    (hcall : ∀ guid, call.formSetId = some guid → guid ∈ guids)
    (hfuel : (leftOver guids w.mFormRefList).card < fuel) :
    ∃ r, listInit mFormSetList pool fuel call w = some r := by
  induction fuel generalizing call w with
  | zero => exact absurd hfuel (Nat.not_lt_zero _)
  | succ fuel ih =>
    rw [listInit]
    split
    · exact ⟨_, rfl⟩
    rename_i e henter
    split
    · exact ⟨_, rfl⟩
    split
    · exact ⟨_, rfl⟩
    rename_i hnew
    obtain ⟨-,-,hset,hform,hid,-⟩ := enter_some henter
    have hguid : e.formSetId ∈ guids := by
      rw [hid]
      cases hask : call.formSetId with
      | none => exact hclosed.own _ hset
      | some guid => exact hcall guid hask
    have hless : (leftOver guids (w.push e).mFormRefList).card < _ := leftOver_push hguid hnew
    refine walk_ends (listInit_balanced fuel)
      (fun guid hmem formId prev w' hw' => ih ?_ ?_) (hclosed.target _ hset _ hform) hguid rfl
    · intro guid' heq
      cases heq
      exact hmem
    · rw [hw']
      omega

def namedGuids (mFormSetList : List FormSetNode) (call : Call) : Finset Bytes :=
  (call.formSetId.toList ++ mFormSetList.map FormSetNode.guid ++ mFormSetList.flatMap fun s =>
    s.formList.flatMap fun f => f.opCodes.map Cursor.refFormSetId).toFinset

theorem namedGuids_closed (mFormSetList : List FormSetNode) (call : Call) :
    Closed mFormSetList (namedGuids mFormSetList call) where
  own s hs := by
    simp only [namedGuids, mem_toFinset, mem_append, mem_map]
    exact .inl (.inr ⟨s, hs, rfl⟩)
  target s hs f hf c hc := by
    simp only [namedGuids, mem_toFinset, mem_append, mem_flatMap, mem_map]
    exact .inr ⟨s, hs, f, hf, c, hc, rfl⟩

theorem listInit_terminates (mFormSetList : List FormSetNode) (pool : Pool) (call : Call) (w : World) :
    ∃ fuel r, ∀ fuel' ≥ fuel, listInit mFormSetList pool fuel' call w = some r := by
  have hasked : ∀ guid, call.formSetId = some guid → guid ∈ namedGuids mFormSetList call := by
    intro guid hguid
    simp [namedGuids, hguid]
  obtain ⟨r,hr⟩ : ∃ r, listInit mFormSetList pool _ call w = some r :=
    listInit_ends (namedGuids_closed mFormSetList call) hasked (Nat.lt_succ_self _)
  exact ⟨_, r, fun fuel' hle => listInit_mono_le hle hr⟩

def Entry.own (e : Entry) : Bytes × UInt16 := (e.formSet.guid,e.form.formId)

def Entry.Registered (mFormSetList : List FormSetNode) (e : Entry) : Prop :=
  (∃ s ∈ mFormSetList, s.guid = e.formSetId) ∧ ∃ f ∈ e.formSet.formList, f.formId = e.formId

theorem lastLookedAt_property {α : Type} {p : α → Bool} {a : α} {xs : List α}
    (h : lastLookedAt p none xs = some a) (hsome : ∃ b ∈ xs, p b = true) : p a = true := by
  rw [lastLookedAt_found none hsome] at h
  exact find?_some h

/-- A form is walked under its own ids exactly if the ids that were asked for are registered. -/
theorem ids_eq_own_iff (h : enter mFormSetList call = some e) :
    e.ids = e.own ↔ e.Registered mFormSetList := by
  obtain ⟨hset,hform,hmem,hmemForm,hguid,hid⟩ := enter_some h
  constructor
  · intro heq
    simp only [Entry.ids, Entry.own, Prod.mk.injEq] at heq
    exact ⟨⟨e.formSet, hmem, heq.1.symm⟩, e.form, hmemForm, heq.2.symm⟩
  · rintro ⟨⟨s,hs,hsguid⟩,f,hf,hfid⟩
    have hagain := getFormSet_again hset
    rw [← hguid] at hagain
    have hguidFnd : lastLookedAt (fun s => e.formSetId == s.guid) none mFormSetList = some e.formSet := hagain
    have hfst : e.formSetId = e.formSet.guid := by
      have hfnd := lastLookedAt_property hguidFnd ⟨s, hs, by rw [hsguid]; exact beq_self_eq_true _⟩
      exact eq_of_beq hfnd
    have hsecond : e.formId = e.form.formId := by
      rw [hid]
      split
      · rfl
      rename_i hne
      rw [hid, if_neg hne] at hfid
      rw [attributeQuestionGetForm, hagain] at hform
      simp only [if_neg hne] at hform
      have hfnd := lastLookedAt_property hform ⟨f, hf, by rw [hfid]; exact beq_self_eq_true _⟩
      exact (eq_of_beq hfnd).symm
    rw [Entry.ids, Entry.own, hfst, hsecond]

/-- The calls that are active at once: the forms that are being walked, outermost first, and the innermost
call with the state it starts from. -/
inductive Active (mFormSetList : List FormSetNode) (pool : Pool) (start : Call) (w : World) :
    List Entry → Call → World → Prop
  | start : Active mFormSetList pool start w [] start w
  | call {path : List Entry} {call : Call} {w1 w2 : World} {e : Entry} {fuel : Nat}
      {before after : List Cursor} {c : Cursor} :
      Active mFormSetList pool start w path call w1 → enter mFormSetList call = some e →
      (pool w1.calls).isSome → e.ids ∉ w1.mFormRefList → e.form.opCodes = before ++ c :: after →
      walk pool (listInit mFormSetList pool fuel) e call.prevPage before e.ids (w1.push e) =
        some (.success, w2) →
      attributeQuestionIsOp c.op.opCode = false → c.op.opCode = EFI_IFR_REF_OP → (pool w2.calls).isSome →
      Active mFormSetList pool start w (path ++ [e])
        ⟨some (retarget c (before.foldl carry e.ids)).1, (retarget c (before.foldl carry e.ids)).2,
          some w2.gAttributeQuestionList.length⟩
        (w2.make (e.reference call.prevPage (before.foldl carry e.ids) c))

theorem Active.mFormRefList_eq (h : Active mFormSetList pool start w path call w') :
    w'.mFormRefList = w.mFormRefList ++ path.map Entry.ids := by
  induction h with
  | start => simp
  | call _ _ _ _ _ hwalk _ _ _ ih =>
    have hkept := walk_keeps (listInit_balanced _) hwalk
    rw [map_append, ← append_assoc, ← ih]
    exact hkept

theorem Active.entered (h : Active mFormSetList pool start w path call w') :
    ∀ e ∈ path, ∃ call', enter mFormSetList call' = some e := by
  induction h with
  | start => simp
  | call _ henter _ _ _ _ _ _ _ ih =>
    intro e he
    rcases mem_append.mp he with hmem | hlast
    · exact ih e hmem
    · rw [mem_singleton.mp hlast]
      exact ⟨_, henter⟩

def ComparesWithPath (w w' : World) (path : List Entry) : Prop :=
  w'.mFormRefList = w.mFormRefList ++ path.map Entry.own

theorem Active.comparesWithPath_iff (h : Active mFormSetList pool start w path call w') :
    ComparesWithPath w w' path ↔ ∀ e ∈ path, e.Registered mFormSetList := by
  rw [ComparesWithPath, h.mFormRefList_eq, append_cancel_left_eq, map_inj_left]
  refine forall₂_congr fun e he => ?_
  obtain ⟨call',henter⟩ := h.entered e he
  exact ids_eq_own_iff henter

/-- The walk ends; a call that succeeds has pushed one entry and no more; and the cycle test compares
against exactly the forms on the path if and only if the references on the path name registered forms. -/
theorem attributeQuestionListInit_path (mFormSetList : List FormSetNode) (pool : Pool) (call : Call)
    (resetGoto : Bool) (w : World) : (∃ fuel r, ∀ fuel' ≥ fuel,
      attributeQuestionListInit mFormSetList pool fuel' call resetGoto w = some r) ∧
    (∀ fuel w', attributeQuestionListInit mFormSetList pool fuel call resetGoto w = some (.success, w') →
      ∃ e, enter mFormSetList call = some e ∧
        w'.mFormRefList = (if resetGoto then [] else w.mFormRefList) ++ [e.ids]) ∧
    ∀ path call' w', Active mFormSetList pool call (if resetGoto then { w with mFormRefList := [] } else w)
        path call' w' → w'.mFormRefList = (if resetGoto then [] else w.mFormRefList) ++ path.map Entry.ids ∧
      (ComparesWithPath (if resetGoto then { w with mFormRefList := [] } else w) w' path ↔
        ∀ e ∈ path, e.Registered mFormSetList) := by
  have hreset : (if resetGoto then { w with mFormRefList := [] } else w).mFormRefList =
      if resetGoto then [] else w.mFormRefList := by split <;> rfl
  refine ⟨listInit_terminates .., fun fuel w' h => ?_, fun path call' w' h => ?_⟩
  · obtain ⟨e,henter,hlist⟩ := listInit_balanced fuel _ _ _ h
    exact ⟨e, henter, hreset ▸ hlist⟩
  · exact ⟨hreset ▸ h.mFormRefList_eq, h.comparesWithPath_iff⟩

end Path

namespace Dangling

def reference : Op where
  opCode := EFI_IFR_REF_OP
  scope := false
  data := [0, 0, 0, 0, 7, 0, 0, 0, 0, 0, 0, 9, 0]
  fits := by decide

def formOp : Op where
  opCode := EFI_IFR_FORM_OP
  scope := true
  data := [1, 0, 3, 0]
  fits := by decide

def formSetOp : Op where
  opCode := EFI_IFR_FORM_SET_OP
  scope := true
  data := [1, 2, 3, 4, 5, 6, 7, 8, 9, 10, 11, 12, 13, 14, 15, 16, 2, 0, 0, 0, 0]
  fits := by decide

def endOp : Op where
  opCode := EFI_IFR_END_OP
  scope := false
  data := []
  fits := by decide

def form : FormNode := ⟨⟨formOp, [reference, endOp, endOp], fun _ => 0⟩, 23⟩

def formSet : FormSetNode := ⟨1, ⟨formSetOp, [formOp, reference, endOp, endOp], fun _ => 0⟩, 48, [form]⟩

def pool : Pool := fun _ => some fun _ => 0

def call : Call := ⟨none, 0, none⟩

def first : Entry := ⟨formSet, form, formSet.guid, 1⟩

def again : Entry := ⟨formSet, form, formSet.guid, 9⟩

def toNine : Cursor := ⟨reference, [endOp, endOp], fun _ => 0⟩

theorem opCodes_form : form.opCodes = [] ++ toNine :: [⟨endOp, [endOp], fun _ => 0⟩] := rfl

theorem active_first : ∃ w', Active [formSet] pool call ⟨0, [], []⟩ [first] ⟨some formSet.guid, 9, some 0⟩ w' ∧
    w'.calls = 2 ∧ w'.mFormRefList = [first.ids] :=
  ⟨_, @Active.call _ _ _ _ _ _ _ _ first 0 _ _ _ .start rfl rfl (by decide) opCodes_form rfl rfl rfl rfl,
    rfl, rfl⟩

/-- The form that is being walked is entered a second time, under the id of the missing one. -/
theorem active_again : ∃ call' w', Active [formSet] pool call ⟨0, [], []⟩ [first, again] call' w' := by
  obtain ⟨w1,hactive,hcalls,hlist⟩ := active_first
  refine ⟨_, _, @Active.call _ _ _ _ _ _ _ _ again 0 _ _ _ hactive rfl rfl ?_ opCodes_form rfl rfl rfl rfl⟩
  rw [hlist]
  decide

end Dangling

/-- The cycle test does not compare against the forms that are being walked: under a reference to a form
that is missing, a form is walked within itself. -/
theorem cycle_test_misses_form : ¬ ∀ (mFormSetList : List FormSetNode) (pool : Pool) (start call : Call)
    (w w' : World) (path : List Entry), Active mFormSetList pool start w path call w' →
      ComparesWithPath w w' path := by
  intro hclaim
  obtain ⟨call',w',hactive⟩ := Dangling.active_again
  have hlist := (hclaim _ _ _ _ _ _ _ hactive).symm.trans hactive.mFormRefList_eq
  exact absurd hlist (by decide)

theorem attributeQuestionListInit_path_dangling :
    (∃ w', attributeQuestionListInit [Dangling.formSet] Dangling.pool 4 Dangling.call true ⟨0, [], []⟩ =
        some (.success, w') ∧ w'.mFormRefList = [Dangling.first.ids]) ∧
      ∃ call' w', Active [Dangling.formSet] Dangling.pool Dangling.call ⟨0, [], []⟩
          [Dangling.first, Dangling.again] call' w' ∧
        w'.mFormRefList = [Dangling.first.ids, Dangling.again.ids] := by
  have hpath := attributeQuestionListInit_path [Dangling.formSet] Dangling.pool Dangling.call true ⟨0, [], []⟩
  refine ⟨⟨_, rfl, ?_⟩, ?_⟩
  · obtain ⟨e,henter,hlist⟩ := hpath.2.1 4 _ rfl
    cases henter
    exact hlist
  · obtain ⟨call',w',hactive⟩ := Dangling.active_again
    exact ⟨call', w', hactive, (hpath.2.2 _ _ _ hactive).1⟩

end Liano.Hii
