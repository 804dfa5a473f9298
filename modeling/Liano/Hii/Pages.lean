import Liano.Hii.Lookups

/-! The pages of the questions: which form a question stands on, and by which references its form was
reached. -/
namespace Liano.Hii

open List hiding Cursor

/-- The op-codes with the variables `FormSetId` and `FormId` at each. -/
def turnsFrom : List Cursor → Bytes × UInt16 → List (Cursor × (Bytes × UInt16))
  | [], _ => []
  | c :: cs, ids => (c,ids) :: turnsFrom cs (carry ids c)

def Entry.turns (e : Entry) : List (Cursor × (Bytes × UInt16)) := turnsFrom e.form.opCodes e.ids

def Cursor.isRef (c : Cursor) : Prop :=
  attributeQuestionIsOp c.op.opCode = false ∧ c.op.opCode = EFI_IFR_REF_OP

def requestOf (ids : Bytes × UInt16) : Call := ⟨some ids.1, ids.2, none⟩

/-- The forms that are walked in a call: along references, and no pair of ids twice on the way. -/
inductive Walked (mFormSetList : List FormSetNode) : List (Bytes × UInt16) → Call → Entry → Prop
  | here {gone : List (Bytes × UInt16)} {call : Call} {e : Entry} :
      enter mFormSetList call = some e → e.ids ∉ gone → Walked mFormSetList gone call e
  | deeper {gone : List (Bytes × UInt16)} {call : Call} {e e' : Entry} {t : Cursor × (Bytes × UInt16)} :
      enter mFormSetList call = some e → e.ids ∉ gone → t ∈ e.turns → t.1.isRef →
      Walked mFormSetList (gone ++ [e.ids]) (requestOf (retarget t.1 t.2)) e' →
      Walked mFormSetList gone call e'

/-- At an op-code that makes a node, the form was asked for under its own ids, and the variables that go
into the node still are the form's own. -/
def TidyTurn (e : Entry) (t : Cursor × (Bytes × UInt16)) : Prop :=
  (attributeQuestionIsOp t.1.op.opCode = true → e.ids = e.own ∧ t.2.1 = e.formSet.guid) ∧
    (t.1.isRef → e.ids = e.own ∧ t.2 = e.own)

def Entry.Tidy (e : Entry) : Prop := ∀ t ∈ e.turns, TidyTurn e t

def Cursor.isRef3 (c : Cursor) : Prop := c.isRef ∧ c.op.length ≥ sizeOfRef3

instance (c : Cursor) : Decidable c.isRef := by
  unfold Cursor.isRef
  infer_instance

instance (c : Cursor) : Decidable c.isRef3 := by
  unfold Cursor.isRef3
  infer_instance

/-- A `REF3` asks for the first form. -/
def Cursor.formAsked (c : Cursor) : UInt16 := if c.op.length ≥ sizeOfRef3 then 0 else c.refFormId

/-- The last `REF3` among these op-codes, if there is one, leads to the form set itself. -/
def StaysInFormSet (guid : Bytes) (before : List Cursor) : Prop :=
  ∀ r ∈ (before.filter fun c => c.isRef3).getLast?, r.refFormSetId = guid

/-- And the last reference leads to the form itself. -/
def StaysOnForm (own : Bytes × UInt16) (before : List Cursor) : Prop :=
  StaysInFormSet own.1 before ∧ ∀ r ∈ (before.filter fun c => c.isRef).getLast?, r.formAsked = own.2

/-- A form with questions or references is registered under the ids it was asked for, and no reference
before one of them leads away. -/
structure Entry.Straight (mFormSetList : List FormSetNode) (e : Entry) : Prop where
  question : ∀ before c after, e.form.opCodes = before ++ c :: after →
    attributeQuestionIsOp c.op.opCode = true → e.Registered mFormSetList ∧ StaysInFormSet e.formSet.guid before
  reference : ∀ before c after, e.form.opCodes = before ++ c :: after → c.isRef →
    e.Registered mFormSetList ∧ StaysOnForm e.own before

/-- The forms that the references lead to as they stand in the form sets: a `REF` to a form of its own form
set, a `REF3` to the first form of another, and no pair of ids twice on the way. -/
inductive Reached (mFormSetList : List FormSetNode) : List (Bytes × UInt16) → Call → Entry → Prop
  | here {gone : List (Bytes × UInt16)} {call : Call} {e : Entry} :
      enter mFormSetList call = some e → e.ids ∉ gone → Reached mFormSetList gone call e
  | deeper {gone : List (Bytes × UInt16)} {call : Call} {e e' : Entry} {c : Cursor} :
      enter mFormSetList call = some e → e.ids ∉ gone → c ∈ e.form.opCodes → c.isRef →
      Reached mFormSetList (gone ++ [e.ids]) (requestOf (retarget c e.own)) e' →
      Reached mFormSetList gone call e'

def Made.OnItsPage (m : Made) : Prop :=
  m.node.thisPage.formSetId = m.entry.formSet.guid ∧ m.node.thisPage.formId = m.entry.form.formId

def Targets (mFormSetList : List FormSetNode) (call : Call) (page : AqPage) : Prop :=
  ∃ s f, formSetAsked mFormSetList call.formSetId = some s ∧ formIn s.formList call.formId = some f ∧
    page.formSetId = s.guid ∧ page.formId = f.formId

/-- What a reference asks for: `REF3` the first form of the form set in it, `REF` a form of its own. -/
def Made.target (d : Made) : Call := requestOf (retarget d.cursor d.entry.own)

/-- From the node, `PrevPage` leads in finitely many steps to a page of the start form, and each step goes
through a reference to the page that is left. -/
inductive Trail (mFormSetList : List FormSetNode) (start : Call) (made : List Made) : Made → Prop
  | start {m : Made} : m.node.prevPage = none → Targets mFormSetList start m.node.thisPage →
      Trail mFormSetList start made m
  | step {m d : Made} {k : Nat} : m.node.prevPage = some k → made[k]? = some d → d.node.type ≠ .question →
      Targets mFormSetList d.target m.node.thisPage → Trail mFormSetList start made d →
      Trail mFormSetList start made m

section Pages

variable {mFormSetList : List FormSetNode} {pool : Pool}

def Linked (mFormSetList : List FormSetNode) (start : Call) (made : List Made) (m : Made) : Prop :=
  match m.node.prevPage with
  | none => Targets mFormSetList start m.node.thisPage
  | some k => ∃ d, made[k]? = some d ∧ d.node.type ≠ .question ∧ Targets mFormSetList d.target m.node.thisPage

variable {ids : Bytes × UInt16}
variable {gone : List (Bytes × UInt16)} {prevPage : Option Nat} {e : Entry} {made : List Made} {m : Made}

theorem walked_request_iff
    : Walked mFormSetList gone ⟨some ids.1, ids.2, prevPage⟩ e ↔
      Walked mFormSetList gone (requestOf ids) e := by
  have heq : enter mFormSetList ⟨some ids.1, ids.2, prevPage⟩ = enter mFormSetList (requestOf ids) := rfl
  constructor
  · intro h
    cases h with
    | here henter hnew => exact .here (heq ▸ henter) hnew
    | deeper henter hnew ht href hdeep => exact .deeper (heq ▸ henter) hnew ht href hdeep
  · intro h
    cases h with
    | here henter hnew => exact .here (heq ▸ henter) hnew
    | deeper henter hnew ht href hdeep => exact .deeper (heq ▸ henter) hnew ht href hdeep

variable {call : Call}

/-- A form's own page is the one that is asked for exactly if it was asked for under its own ids. -/
theorem targets_own_iff {page : AqPage} (h : enter mFormSetList call = some e)
    (hset : page.formSetId = e.formSet.guid) (hform : page.formId = e.form.formId) :
    Targets mFormSetList call page ↔ e.ids = e.own := by
  obtain ⟨hget,hgetForm,hmem,hmemForm,hguid,hid⟩ := enter_some h
  constructor
  · rintro ⟨s,f,hs,hf,-,-⟩
    have hsame : s = e.formSet := by
      rw [getFormSet_of_asked hs] at hget
      exact Option.some.inj hget
    subst hsame
    refine (ids_eq_own_iff h).mpr ⟨⟨_, hmem, ?_⟩, ?_⟩
    · rw [hguid]
      cases hask : call.formSetId with
      | none => rfl
      | some guid =>
        rw [hask] at hs
        exact (eq_of_beq (find?_some (p := fun s : FormSetNode => guid == s.guid) hs)).symm
    · rw [hid]
      unfold formIn at hf
      split at hf
      · rename_i hzero
        rw [if_pos hzero]
        exact ⟨_, hmemForm, rfl⟩
      rename_i hne
      rw [if_neg hne]
      exact ⟨f, mem_of_find?_eq_some hf,
        eq_of_beq (find?_some (p := fun f : FormNode => f.formId == call.formId) hf)⟩
  · intro hown
    simp only [Entry.ids, Entry.own, Prod.mk.injEq] at hown
    have hfound : formSetAsked mFormSetList call.formSetId = some e.formSet := by
      cases hask : call.formSetId with
      | none =>
        rw [hask] at hget
        exact hget
      | some guid =>
        rw [hask] at hget hguid
        have hsame : e.formSet.guid = guid := hown.1.symm.trans hguid
        exact ((getFormSet_eq_iff mFormSetList guid).mpr (.inl ⟨_, hmem, hsame⟩)).symm.trans hget
    refine ⟨e.formSet, e.form, hfound, ?_, hset, hform⟩
    have hagain := getFormSet_again hget
    rw [← hguid] at hagain
    rw [attributeQuestionGetForm, hagain] at hgetForm
    have hknown : FormIdKnown e.formSet.formList call.formId := by
      by_cases hzero : call.formId = 0
      · exact .inl hzero
      · rw [if_neg hzero] at hid
        exact .inr (.inl ⟨e.form, hmemForm, hown.2.symm.trans hid⟩)
    exact ((lookedUpForm_eq_iff _ _).mpr hknown).symm.trans hgetForm

/-- What a call asks for is what its `PrevPage` asks for: the reference it belongs to, or the start. -/
def Asked (start : Call) (made : List Made) (call : Call) : Prop := match call.prevPage with
  | none => call.formSetId = start.formSetId ∧ call.formId = start.formId
  | some k => ∃ d, made[k]? = some d ∧ d.node.type ≠ .question ∧
      call.formSetId = d.target.formSetId ∧ call.formId = d.target.formId

variable {start : Call}

theorem linked_iff (hasked : Asked start made call) (hprev : m.node.prevPage = call.prevPage) :
    Linked mFormSetList start made m ↔ Targets mFormSetList call m.node.thisPage := by
  unfold Linked Asked Targets at *
  rw [hprev]
  cases hcall : call.prevPage with
  | none =>
    rw [hcall] at hasked
    rw [hasked.1, hasked.2]
  | some k =>
    rw [hcall] at hasked
    obtain ⟨d,hd,htype,hset,hform⟩ := hasked
    rw [hset, hform]
    constructor
    · rintro ⟨d',hd',-,htargets⟩
      rw [hd] at hd'
      cases hd'
      exact htargets
    · exact fun htargets => ⟨d, hd, htype, htargets⟩

/-- A node's `PrevPage` is that of its call, or a node of the same walk before it. -/
def PrevWithin (base : Nat) (prevPage : Option Nat) (new : List Made) : Prop :=
  ∀ (j : Nat) (m : Made), new[j]? = some m →
    m.node.prevPage = prevPage ∨ ∃ k, m.node.prevPage = some k ∧ base ≤ k ∧ k < base+j

theorem PrevWithin.nil (base : Nat) (prevPage : Option Nat) : PrevWithin base prevPage [] := by
  intro j m h
  simp at h

theorem PrevWithin.cons {base : Nat} {new : List Made}
    (hm : m.node.prevPage = prevPage) (h : PrevWithin (base+1) prevPage new) :
    PrevWithin base prevPage (m :: new) := by
  intro j m' hj
  cases j with
  | zero =>
    cases hj
    exact .inl hm
  | succ j =>
    rcases h j m' hj with hprev | ⟨k,hk,hle,hlt⟩
    · exact .inl hprev
    · exact .inr ⟨k, hk, by omega, by omega⟩

theorem PrevWithin.append {base : Nat} {inner rest : List Made}
    (hinner : PrevWithin (base+1) (some base) inner)
    (hrest : PrevWithin (base+1+inner.length) prevPage rest) (j : Nat) (m : Made)
    (hj : (inner ++ rest)[j]? = some m) :
    m.node.prevPage = prevPage ∨ ∃ k, m.node.prevPage = some k ∧ base ≤ k ∧ k < base + (j+1) := by
  rw [getElem?_append] at hj
  split at hj
  · rcases hinner j m hj with hprev | ⟨k,hk,hle,hlt⟩
    · exact .inr ⟨base, hprev, le_rfl, by omega⟩
    · exact .inr ⟨k, hk, by omega, by omega⟩
  · rcases hrest _ m hj with hprev | ⟨k,hk,hle,hlt⟩
    · exact .inl hprev
    · exact .inr ⟨k, hk, by omega, by omega⟩

def Made.Right (mFormSetList : List FormSetNode) (start : Call) (made : List Made) (m : Made) : Prop :=
  m.OnItsPage ∧ Linked mFormSetList start made m

def Tracks (mFormSetList : List FormSetNode) (start : Call)
    (callee : Call → World → Option (Status × World)) : Prop :=
  ∀ call w w', callee call w = some (.success, w') →
    ∃ new, w'.gAttributeQuestionList = w.gAttributeQuestionList ++ new ∧
      PrevWithin w.gAttributeQuestionList.length call.prevPage new ∧
      ∀ made, w'.gAttributeQuestionList <+: made → Asked start made call →
        ((∀ m ∈ new, m.Right mFormSetList start made) ↔
          ∀ e, Walked mFormSetList w.mFormRefList call e → e.Tidy)

def TurnOk (mFormSetList : List FormSetNode) (gone : List (Bytes × UInt16)) (e : Entry)
    (t : Cursor × (Bytes × UInt16)) : Prop := TidyTurn e t ∧
    (t.1.isRef → ∀ e', Walked mFormSetList gone (requestOf (retarget t.1 t.2)) e' → e'.Tidy)

section
variable {c : Cursor} (henter : enter mFormSetList call = some e) (hasked : Asked start made call)
include henter hasked

theorem question_right_iff (hop : attributeQuestionIsOp c.op.opCode = true) :
    (e.question call.prevPage ids c).Right mFormSetList start made ↔ TurnOk mFormSetList gone e (c,ids) := by
  have hnotRef : ¬ c.isRef := fun href => Bool.false_ne_true (href.1.symm.trans hop)
  rw [Made.Right, linked_iff hasked rfl]
  constructor
  · rintro ⟨hpage,htargets⟩
    have hids := (targets_own_iff henter hpage.1 hpage.2).mp htargets
    exact ⟨⟨fun _ => ⟨hids, hpage.1⟩, fun href => absurd href hnotRef⟩, fun href => absurd href hnotRef⟩
  · rintro ⟨⟨hquestion,-⟩,-⟩
    obtain ⟨hids,hguid⟩ := hquestion hop
    exact ⟨⟨hguid, rfl⟩, (targets_own_iff henter hguid rfl).mpr hids⟩

theorem reference_right_iff (href : c.isRef) :
    (e.reference call.prevPage ids c).Right mFormSetList start made ↔ TidyTurn e (c,ids) := by
  have hnot : ¬ attributeQuestionIsOp c.op.opCode = true := by
    rw [href.1]
    exact Bool.false_ne_true
  rw [Made.Right, linked_iff hasked rfl]
  constructor
  · rintro ⟨hpage,htargets⟩
    have hids := (targets_own_iff henter hpage.1 hpage.2).mp htargets
    exact ⟨fun hop => absurd hop hnot, fun _ => ⟨hids, Prod.ext hpage.1 hpage.2⟩⟩
  · rintro ⟨-,htidy⟩
    obtain ⟨hids,heq⟩ := htidy href
    have hpage : (e.reference call.prevPage ids c).OnItsPage := ⟨congrArg Prod.fst heq, congrArg Prod.snd heq⟩
    exact ⟨hpage, (targets_own_iff henter hpage.1 hpage.2).mpr hids⟩

end

theorem walk_tracks {callee : Call → World → Option (Status × World)}
    (hbal : Balanced mFormSetList callee) (htracks : Tracks mFormSetList start callee)
    (henter : enter mFormSetList call = some e) {cs : List Cursor} {w w' : World}
    (h : walk pool callee e call.prevPage cs ids w = some (.success, w')) :
    ∃ new, w'.gAttributeQuestionList = w.gAttributeQuestionList ++ new ∧
      PrevWithin w.gAttributeQuestionList.length call.prevPage new ∧
      ∀ made, w'.gAttributeQuestionList <+: made → Asked start made call →
        ((∀ m ∈ new, m.Right mFormSetList start made) ↔
          ∀ t ∈ turnsFrom cs ids, TurnOk mFormSetList w.mFormRefList e t) := by
  induction cs generalizing ids w with
  | nil =>
    cases h
    exact ⟨[], (append_nil _).symm, .nil _ _, fun made _ _ => by simp [turnsFrom]⟩
  | cons c cs ih =>
    by_cases hop : attributeQuestionIsOp c.op.opCode = true
    · obtain ⟨new,hlist,hprev,hright⟩ := ih (walk_question hop h).2
      have hcarry : carry ids c = ids := if_pos hop
      refine ⟨e.question call.prevPage ids c :: new, ?_, ?_, fun made hpre hasked => ?_⟩
      · rw [hlist, World.make, append_assoc, singleton_append]
      · rw [World.make, length_append] at hprev
        exact .cons rfl hprev
      · rw [forall_mem_cons, hright made hpre hasked, turnsFrom, forall_mem_cons, hcarry,
          question_right_iff henter hasked hop]
        rfl
    · by_cases hrefOp : c.op.opCode = EFI_IFR_REF_OP
      · have href : c.isRef := ⟨by simpa using hop, hrefOp⟩
        have hcarry : carry ids c = retarget c ids := by rw [carry, if_neg hop, if_pos hrefOp]
        obtain ⟨-,w1,hcall,hrest⟩ := walk_reference hop hrefOp h
        obtain ⟨inner,hinner,hprevInner,hrightInner⟩ := htracks _ _ _ hcall
        obtain ⟨e',-,hgone⟩ := hbal _ _ _ hcall
        obtain ⟨new,hlist,hprev,hright⟩ := ih hrest
        have hkept : (w1.popped .success).mFormRefList = w.mFormRefList := popped_eq hgone
        have hall : w'.gAttributeQuestionList = w.gAttributeQuestionList ++
            e.reference call.prevPage ids c :: (inner ++ new) := by
          rw [hlist]
          simp [World.popped, World.make, hinner]
        have hbase : (w1.popped .success).gAttributeQuestionList.length =
            w.gAttributeQuestionList.length+1+inner.length := by
          simp [World.popped, World.make, hinner]
          omega
        rw [World.make, length_append] at hprevInner
        rw [hbase] at hprev
        refine ⟨_, hall, ?_, fun made hpre hasked => ?_⟩
        · intro j m hj
          cases j with
          | zero =>
            cases hj
            exact .inl rfl
          | succ j => exact hprevInner.append hprev j m hj
        · rw [forall_mem_cons, forall_mem_append, hright made hpre hasked, hkept, turnsFrom,
            forall_mem_cons, hcarry, ← and_assoc]
          refine and_congr_left fun _ => ?_
          rw [reference_right_iff henter hasked href, TurnOk]
          refine and_congr_right fun htidy => ?_
          have hids : ids = e.own := (htidy.2 href).2
          have hat : made[w.gAttributeQuestionList.length]? = some (e.reference call.prevPage ids c) := by
            obtain ⟨behind,rfl⟩ := hpre
            rw [hall, append_assoc, getElem?_append_right le_rfl, Nat.sub_self]
            rfl
          have htype : (e.reference call.prevPage ids c).node.type ≠ .question := by
            unfold Entry.reference
            split <;> exact fun heq => by cases heq
          have hpreInner : w1.gAttributeQuestionList <+: made := by
            refine List.IsPrefix.trans ⟨new, ?_⟩ hpre
            exact hlist.symm
          rw [hrightInner made hpreInner ⟨_, hat, htype, by rw [hids]; rfl, by rw [hids]; rfl⟩]
          constructor
          · exact fun hwalked _ e' he' => hwalked e' (walked_request_iff.mpr he')
          · exact fun hwalked e' he' => hwalked href e' (walked_request_iff.mp he')
      · rw [walk_other hop hrefOp] at h
        obtain ⟨new,hlist,hprev,hright⟩ := ih h
        have hcarry : carry ids c = ids := by rw [carry, if_neg hop, if_neg hrefOp]
        refine ⟨new, hlist, hprev, fun made hpre hasked => ?_⟩
        rw [hright made hpre hasked, turnsFrom, forall_mem_cons, hcarry]
        refine (and_iff_right ?_).symm
        exact ⟨⟨fun hq => absurd hq hop, fun href => absurd href.2 hrefOp⟩, fun href => absurd href.2 hrefOp⟩

theorem listInit_tracks (start : Call) (fuel : Nat) :
    Tracks mFormSetList start (listInit mFormSetList pool fuel) := by
  induction fuel with
  | zero =>
    intro call w w' h
    cases h
  | succ fuel ih =>
    intro call w w' h
    obtain ⟨e,henter,-,⟨hgone,rfl⟩ | ⟨hnew,hwalk⟩⟩ := listInit_success h
    · -- A form that is being walked makes no node, and none is walked in the call.
      refine ⟨[], (append_nil _).symm, .nil _ _, fun made _ _ => ?_⟩
      refine iff_of_true (by simp) fun e' he' => ?_
      cases he' with
      | here henter' hnew =>
        rw [henter] at henter'
        cases henter'
        exact absurd hgone hnew
      | deeper henter' hnew =>
        rw [henter] at henter'
        cases henter'
        exact absurd hgone hnew
    · obtain ⟨new,hlist,hprev,hright⟩ := walk_tracks (listInit_balanced fuel) ih henter hwalk
      refine ⟨new, hlist, hprev, fun made hpre hasked => (hright made hpre hasked).trans ?_⟩
      constructor
      · intro hturns e' he'
        cases he' with
        | here henter' =>
          rw [henter] at henter'
          cases henter'
          exact fun t ht => (hturns t ht).1
        | deeper henter' _ ht href hdeep =>
          rw [henter] at henter'
          cases henter'
          exact (hturns _ ht).2 href e' hdeep
      · intro hall t ht
        exact ⟨hall e (.here henter hnew) t ht, fun href e' hdeep =>
          hall e' (.deeper henter hnew ht href hdeep)⟩

theorem Trail.linked (h : Trail mFormSetList start made m) : Linked mFormSetList start made m := by
  unfold Linked
  cases h with
  | start hprev htargets =>
    rw [hprev]
    exact htargets
  | step hprev hd htype htargets _ =>
    rw [hprev]
    exact ⟨_, hd, htype, htargets⟩

theorem trail_of_linked {old new : List Made} (hprev : PrevWithin old.length none new)
    (hlinked : ∀ m ∈ new, Linked mFormSetList start (old ++ new) m) {j : Nat}
    (hj : new[j]? = some m) : Trail mFormSetList start (old ++ new) m := by
  induction j using Nat.strong_induction_on generalizing m with
  | _ j ih =>
    have hm := hlinked m (mem_of_getElem? hj)
    rw [Linked] at hm
    rcases hprev j m hj with hnone | ⟨k,hk,hle,hlt⟩
    · rw [hnone] at hm
      exact .start hnone hm
    rw [hk] at hm
    obtain ⟨d,hd,htype,htargets⟩ := hm
    have hdj : new[k-old.length]? = some d := by
      rw [← getElem?_append_right hle]
      exact hd
    exact .step hk hd htype htargets (ih _ (by omega) hdj)

theorem mem_turnsFrom {cs : List Cursor} {t : Cursor × (Bytes × UInt16)} :
    t ∈ turnsFrom cs ids ↔ ∃ before c after, cs = before ++ c :: after ∧ t = (c, before.foldl carry ids) := by
  induction cs generalizing ids with
  | nil => simp [turnsFrom]
  | cons a cs ih =>
    rw [turnsFrom, mem_cons, ih]
    constructor
    · rintro (rfl | ⟨before,c,after,rfl,rfl⟩)
      · exact ⟨[], a, cs, rfl, rfl⟩
      · exact ⟨a :: before, c, after, rfl, rfl⟩
    · rintro ⟨before,c,after,hcs,rfl⟩
      cases before with
      | nil =>
        cases hcs
        exact .inl rfl
      | cons b before =>
        cases hcs
        exact .inr ⟨before, c, after, rfl, rfl⟩

/-- What the variables hold behind some op-codes is said by the last references among them. -/
theorem foldl_carry (before : List Cursor) : before.foldl carry ids =
    (((before.filter fun c => c.isRef3).getLast?.map Cursor.refFormSetId).getD ids.1,
      ((before.filter fun c => c.isRef).getLast?.map Cursor.formAsked).getD ids.2) := by
  induction before using reverseRecOn with
  | nil => rfl
  | append_singleton before c ih =>
    rw [foldl_append, ih, filter_append, filter_append]
    by_cases href : c.isRef
    · have hcarry (ids : Bytes × UInt16) : carry ids c = retarget c ids := by
        rw [carry, if_neg (by rw [href.1]; exact Bool.false_ne_true), if_pos href.2]
      by_cases hlong : c.op.length ≥ sizeOfRef3
      · simp [hcarry, retarget, hlong, href, Cursor.isRef3, Cursor.formAsked]
      · simp [hcarry, retarget, hlong, href, Cursor.isRef3, Cursor.formAsked]
    · have hcarry (ids : Bytes × UInt16) : carry ids c = ids := by
        unfold carry
        split
        · rfl
        · rename_i hop
          exact if_neg fun hrefOp => href ⟨by simpa using hop, hrefOp⟩
      simp [hcarry, href, Cursor.isRef3]

theorem getD_map_eq_iff {α β : Type} {o : Option α} {g : α → β} {b : β} :
    (o.map g).getD b = b ↔ ∀ a ∈ o, g a = b := by
  cases o <;> simp

/-- The variables are the form's own exactly where its references have left them alone. -/
theorem tidy_iff_straight (h : enter mFormSetList call = some e) : e.Tidy ↔ e.Straight mFormSetList := by
  have hreg := ids_eq_own_iff h
  have hset (before : List Cursor) (heq : e.ids = e.own) :
      (before.foldl carry e.ids).1 = e.formSet.guid ↔ StaysInFormSet e.formSet.guid before := by
    rw [heq, foldl_carry]
    exact getD_map_eq_iff
  have hform (before : List Cursor) (heq : e.ids = e.own) :
      before.foldl carry e.ids = e.own ↔ StaysOnForm e.own before := by
    rw [heq, foldl_carry, Prod.ext_iff]
    exact and_congr getD_map_eq_iff getD_map_eq_iff
  constructor
  · intro htidy
    refine ⟨fun before c after hat hop => ?_, fun before c after hat href => ?_⟩
    · obtain ⟨heq,hguid⟩ := (htidy _ (mem_turnsFrom.mpr ⟨before, c, after, hat, rfl⟩)).1 hop
      exact ⟨hreg.mp heq, (hset before heq).mp hguid⟩
    · obtain ⟨heq,hown⟩ := (htidy _ (mem_turnsFrom.mpr ⟨before, c, after, hat, rfl⟩)).2 href
      exact ⟨hreg.mp heq, (hform before heq).mp hown⟩
  · rintro ⟨hquestion,hreference⟩ t ht
    obtain ⟨before,c,after,hat,rfl⟩ := mem_turnsFrom.mp ht
    refine ⟨fun hop => ?_, fun href => ?_⟩
    · obtain ⟨hknown,hstays⟩ := hquestion before c after hat hop
      exact ⟨hreg.mpr hknown, (hset before (hreg.mpr hknown)).mpr hstays⟩
    · obtain ⟨hknown,hstays⟩ := hreference before c after hat href
      exact ⟨hreg.mpr hknown, (hform before (hreg.mpr hknown)).mpr hstays⟩

theorem Walked.entered (h : Walked mFormSetList gone call e) : ∃ call', enter mFormSetList call' = some e := by
  induction h with
  | here henter _ => exact ⟨_, henter⟩
  | deeper _ _ _ _ _ ih => exact ih

theorem Reached.entered (h : Reached mFormSetList gone call e) : ∃ call', enter mFormSetList call' = some e := by
  induction h with
  | here henter _ => exact ⟨_, henter⟩
  | deeper _ _ _ _ _ ih => exact ih

theorem Reached.walked (h : Reached mFormSetList gone call e)
    (htidy : ∀ e, Walked mFormSetList gone call e → e.Tidy) : Walked mFormSetList gone call e := by
  induction h with
  | here henter hnew => exact .here henter hnew
  | @deeper gone call e e' c henter hnew hc href _ ih =>
    obtain ⟨before,after,hat⟩ := append_of_mem hc
    have hturn : (c, before.foldl carry e.ids) ∈ e.turns := mem_turnsFrom.mpr ⟨before, c, after, hat, rfl⟩
    have hown : before.foldl carry e.ids = e.own := ((htidy e (.here henter hnew) _ hturn).2 href).2
    refine .deeper henter hnew hturn href ?_
    rw [hown]
    exact ih fun e' he' => htidy e' (.deeper henter hnew hturn href (by rw [hown]; exact he'))

theorem Walked.reached (h : Walked mFormSetList gone call e)
    (hstraight : ∀ e, Reached mFormSetList gone call e → e.Straight mFormSetList) :
    Reached mFormSetList gone call e := by
  induction h with
  | here henter hnew => exact .here henter hnew
  | @deeper gone call e e' t henter hnew ht href _ ih =>
    have htidy := (tidy_iff_straight henter).mpr (hstraight e (.here henter hnew))
    have hown : t.2 = e.own := ((htidy t ht).2 href).2
    have hmem : t.1 ∈ e.form.opCodes := by
      obtain ⟨before,c,after,hat,rfl⟩ := mem_turnsFrom.mp ht
      rw [hat]
      simp
    rw [hown] at ih
    exact .deeper henter hnew hmem href (ih fun e' he' => hstraight e' (.deeper henter hnew hmem href he'))

/-- The walk goes astray nowhere if and only if the form set and form packages let no reference lead it
astray. -/
theorem tidy_walk_iff : (∀ e, Walked mFormSetList gone call e → e.Tidy) ↔
    ∀ e, Reached mFormSetList gone call e → e.Straight mFormSetList := by
  constructor
  · intro htidy e he
    obtain ⟨_,henter⟩ := he.entered
    exact (tidy_iff_straight henter).mp (htidy e (he.walked htidy))
  · intro hstraight e he
    obtain ⟨_,henter⟩ := he.entered
    exact (tidy_iff_straight henter).mpr (hstraight e (he.reached hstraight))

/-- After a walk that succeeded, every node that was made has the page of its form and a trail to the start
if and only if the references of the forms reached lie behind what they would lead astray. -/
theorem pages_iff {fuel : Nat} {w w' : World} (hcall : call.prevPage = none)
    (h : listInit mFormSetList pool fuel call w = some (.success, w')) :
    ∃ new, w'.gAttributeQuestionList = w.gAttributeQuestionList ++ new ∧
      PrevWithin w.gAttributeQuestionList.length none new ∧
      ((∀ m ∈ new, m.OnItsPage ∧ Trail mFormSetList call w'.gAttributeQuestionList m) ↔
        ∀ e, Reached mFormSetList w.mFormRefList call e → e.Straight mFormSetList) := by
  obtain ⟨new,hlist,hprev,hright⟩ := listInit_tracks call fuel _ _ _ h
  rw [hcall] at hprev
  have hasked : Asked call w'.gAttributeQuestionList call := by
    rw [Asked, hcall]
    exact ⟨rfl, rfl⟩
  refine ⟨new, hlist, hprev, Iff.trans ?_ ((hright _ (prefix_refl _) hasked).trans tidy_walk_iff)⟩
  constructor
  · exact fun hall m hm => ⟨(hall m hm).1, (hall m hm).2.linked⟩
  · intro hall m hm
    obtain ⟨j,hj⟩ := mem_iff_getElem?.mp hm
    refine ⟨(hall m hm).1, ?_⟩
    rw [hlist]
    exact trail_of_linked hprev (fun m' hm' => hlist ▸ (hall m' hm').2) hj

end Pages

end Liano.Hii
