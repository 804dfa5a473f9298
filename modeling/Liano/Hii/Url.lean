import Liano.Hii.Pages

/-! The path of a question: the titles of the start page and the prompts along the references to it. -/
namespace Liano.Hii

open List

abbrev Char16 := UInt16

/-- `HiiGetString`: a handle and a string identifier; `none` is `NULL`. -/
abbrev Strings := Nat → UInt16 → Option (List Char16)

def QUESTION_URL_LENGTH : Nat := 256

/-- `QUESTION_URL_SLASH`. -/
def slash : List Char16 := [0x2F]

structure UrlNode where
  hiiHandle : Nat
  name : UInt16
deriving DecidableEq, Repr

/-- `StrCatS (Url, QUESTION_URL_LENGTH, Source)`: what does not fit with its terminator is left out. -/
def strCatS (url : List Char16) : Option (List Char16) → List Char16
  | none => url
  | some source => if source.length < QUESTION_URL_LENGTH-url.length then url ++ source else url

def renderUrl (hiiGetString : Strings) (url : List Char16) (nodes : List UrlNode) : List Char16 :=
  nodes.foldl (fun url n => strCatS (strCatS url (some slash)) (hiiGetString n.hiiHandle n.name)) url

def AqNode.promptNode (n : AqNode) : UrlNode := ⟨n.thisPage.hiiHandle, n.prompt⟩

def AqNode.startNodes (n : AqNode) : List UrlNode :=
  [⟨n.thisPage.hiiHandle, n.thisPage.formSetTitle⟩, ⟨n.thisPage.hiiHandle, n.thisPage.formTitle⟩, n.promptNode]

/-- The loop over `AttributeQuestionGetPrev`: the node where it ends, the allocations so far and the list. -/
def prevLoop (pool : Pool) (gAttributeQuestionList : List AqNode) :
    Nat → AqNode → Nat → List UrlNode → Option (AqNode × Nat × List UrlNode)
  | 0, _, _, _ => none
  | fuel+1, this, calls, nodes =>
    match this.prevPage with
    | none => some (this,calls,nodes)
    | some k =>
      match gAttributeQuestionList[k]?, pool calls with
      | some prev, some _ =>
        prevLoop pool gAttributeQuestionList fuel prev (calls+1) (this.promptNode :: nodes)
      | _, _ => none

/-- `none` is `NULL`, or a path longer than the fuel. -/
def attributeQuestionGetUrl (pool : Pool) (hiiGetString : Strings) (gAttributeQuestionList : List AqNode)
    (fuel calls : Nat) (formSetId : Bytes) (questionId : UInt16) : Option (List Char16) :=
  match attributeQuestionGetSelf gAttributeQuestionList formSetId questionId with
  | none => none
  | some this =>
    if this.type ≠ .question then none
    else
      match prevLoop pool gAttributeQuestionList fuel this calls [] with
      | none => none
      | some (root,calls,nodes) =>
        if (pool calls).isSome ∧ (pool (calls+1)).isSome ∧ (pool (calls+2)).isSome ∧
            (pool (calls+3)).isSome then
          some (renderUrl hiiGetString [] (root.startNodes ++ nodes))
        else none

/-- The way back along `PrevPage` to the node of the start page, with the prompts on it. -/
inductive Route (list : List AqNode) : AqNode → AqNode → List UrlNode → Prop
  | start {n : AqNode} : n.prevPage = none → Route list n n []
  | step {n prev root : AqNode} {k : Nat} {nodes : List UrlNode} : n.prevPage = some k →
      list[k]? = some prev → Route list prev root nodes → Route list n root (nodes ++ [n.promptNode])

def fullPath (hiiGetString : Strings) : List UrlNode → Option (List Char16)
  | [] => some []
  | n :: nodes =>
    match hiiGetString n.hiiHandle n.name, fullPath hiiGetString nodes with
    | some s, some rest => some (slash ++ s ++ rest)
    | _, _ => none

def Grants (pool : Pool) (calls count : Nat) : Prop := ∀ j < count, (pool (calls+j)).isSome

theorem strCatS_length {url : List Char16} {source : Option (List Char16)}
    (h : url.length < QUESTION_URL_LENGTH) : (strCatS url source).length < QUESTION_URL_LENGTH := by
  cases source with
  | none => exact h
  | some s =>
    simp only [strCatS]
    split
    · rw [length_append]
      omega
    · exact h

theorem renderUrl_length (hiiGetStr : Strings) {url : List Char16} (nodes : List UrlNode)
    (h : url.length < QUESTION_URL_LENGTH) :
    (renderUrl hiiGetStr url nodes).length < QUESTION_URL_LENGTH := by
  induction nodes generalizing url with
  | nil => exact h
  | cons n nodes ih => exact ih (strCatS_length (strCatS_length h))

theorem strCatS_fits (url source : List Char16) (h : url.length+source.length < QUESTION_URL_LENGTH) :
    strCatS url (some source) = url ++ source := if_pos (by omega)

theorem renderUrl_fits {hiiGetStr : Strings} {nodes : List UrlNode} (url : List Char16) {full : List Char16}
    (hfull : fullPath hiiGetStr nodes = some full)
    (hfits : url.length+full.length < QUESTION_URL_LENGTH) : renderUrl hiiGetStr url nodes = url ++ full := by
  induction nodes generalizing url full with
  | nil =>
    cases hfull
    exact (append_nil url).symm
  | cons n nodes ih =>
    unfold fullPath at hfull
    split at hfull
    · rename_i s rest hs hrest
      cases hfull
      simp only [length_append] at hfits
      have hslash := strCatS_fits url slash (by omega)
      have hname := strCatS_fits (url ++ slash) s (by rw [length_append]; omega)
      rw [renderUrl, foldl_cons, hs, hslash, hname]
      have htail := ih (url ++ slash ++ s) hrest (by simp only [length_append]; omega)
      rw [renderUrl] at htail
      rw [htail]
      simp only [append_assoc]
    · cases hfull

variable {pool : Pool} {calls : Nat}

theorem Grants.add {a b : Nat} : Grants pool calls (a+b) ↔ Grants pool calls a ∧ Grants pool (calls+a) b := by
  constructor
  · intro h
    refine ⟨fun j hj => h j (by omega), fun j hj => ?_⟩
    rw [add_assoc]
    exact h (a+j) (by omega)
  · rintro ⟨ha,hb⟩ j hj
    by_cases hlt : j < a
    · exact ha j hlt
    · have hnext := hb (j-a) (by omega)
      rwa [add_assoc, Nat.add_sub_cancel' (Nat.le_of_not_lt hlt)] at hnext

theorem Grants.one : Grants pool calls 1 ↔ (pool calls).isSome :=
  ⟨fun h => h 0 Nat.one_pos, fun h j hj => by rwa [Nat.lt_one_iff.mp hj]⟩

section
variable {list : List AqNode} {n root : AqNode} {nodes acc : List UrlNode} {fuel : Nat}

theorem prevLoop_of_route (h : Route list n root nodes) (hgrants : Grants pool calls nodes.length)
    (hfuel : nodes.length < fuel) : prevLoop pool list fuel n calls acc =
      some (root, calls+nodes.length, nodes ++ acc) := by
  induction h generalizing fuel calls acc with
  | start hprev =>
    obtain ⟨fuel,rfl⟩ : ∃ k, fuel = k+1 := ⟨fuel - 1, by omega⟩
    rw [prevLoop, hprev]
    rfl
  | @step n prev root k nodes hprev hk _ ih =>
    rw [length_append, length_singleton] at hfuel hgrants ⊢
    obtain ⟨fuel,rfl⟩ : ∃ k, fuel = k+1 := ⟨fuel - 1, by omega⟩
    rw [add_comm, Grants.add, Grants.one] at hgrants
    obtain ⟨b,hb⟩ := Option.isSome_iff_exists.mp hgrants.1
    rw [prevLoop, hprev]
    simp only [hk, hb]
    rw [ih hgrants.2 (by omega), append_assoc, add_right_comm, add_assoc]
    rfl

theorem prevLoop_route {r : AqNode × Nat × List UrlNode} (h : Route list n root nodes)
    (hr : prevLoop pool list fuel n calls acc = some r) :
    r = (root, calls+nodes.length, nodes ++ acc) ∧ Grants pool calls nodes.length := by
  induction h generalizing fuel calls acc with
  | start hprev =>
    cases fuel with
    | zero => cases hr
    | succ fuel =>
      rw [prevLoop, hprev] at hr
      cases hr
      exact ⟨rfl, fun j hj => absurd hj (Nat.not_lt_zero j)⟩
  | @step n prev root k nodes hprev hk _ ih =>
    cases fuel with
    | zero => cases hr
    | succ fuel =>
      rw [prevLoop, hprev] at hr
      simp only [hk] at hr
      split at hr
      · rename_i hsome hb
        cases hsome
        obtain ⟨rfl,hgrants⟩ := ih hr
        rw [length_append, length_singleton, add_comm nodes.length 1, Grants.add, Grants.one]
        refine ⟨?_, by rw [hb]; rfl, hgrants⟩
        rw [append_assoc, add_assoc]
        rfl
      · cases hr

end

def FirstWith (list : List AqNode) (formSetId : Bytes) (questionId : UInt16) (n : AqNode) : Prop :=
  list.find? (fun n => formSetId == n.thisPage.formSetId && questionId == n.questionId) = some n

def PathOf (hiiGetString : Strings) (list : List AqNode) (n : AqNode) (nodes : List UrlNode)
    (path : List Char16) : Prop :=
  ∃ root, Route list n root nodes ∧ fullPath hiiGetString (root.startNodes ++ nodes) = some path

/-- The path of the first node with the ids is returned if and only if the node is a question, and the path
fits into the buffer, and the pool has room for its nodes. -/
theorem getUrl_iff {hiiGetStr : Strings} {list : List AqNode}
    {formSetId : Bytes} {questionId : UInt16} {n : AqNode} (hfst : FirstWith list formSetId questionId n)
    (nodes : List UrlNode) (path : List Char16) (hpath : PathOf hiiGetStr list n nodes path) :
    (∃ fuel, attributeQuestionGetUrl pool hiiGetStr list fuel calls formSetId questionId = some path) ↔
      n.type = .question ∧ path.length < QUESTION_URL_LENGTH ∧ Grants pool calls (nodes.length+4) := by
  obtain ⟨root,hroute,hfull⟩ := hpath
  have hself : attributeQuestionGetSelf list formSetId questionId = some n :=
    (lastLookedAt_found none ⟨n, mem_of_find?_eq_some hfst, find?_some hfst⟩).trans hfst
  have hfour (start : Nat) : Grants pool start 4 ↔ (pool start).isSome ∧ (pool (start+1)).isSome ∧
      (pool (start+2)).isSome ∧ (pool (start+3)).isSome := by
    rw [show 4 = 1 + (1 + (1+1)) from rfl, Grants.add, Grants.add, Grants.add, Grants.one, Grants.one,
      Grants.one, Grants.one]
  constructor
  · rintro ⟨fuel,hurl⟩
    rw [attributeQuestionGetUrl, hself] at hurl
    dsimp only at hurl
    split at hurl
    · cases hurl
    rename_i htype
    split at hurl
    · cases hurl
    rename_i root' calls' nodes' hloop
    obtain ⟨hsame,hgrants⟩ := prevLoop_route hroute hloop
    obtain ⟨rfl,rfl,rfl⟩ := hsame
    split at hurl
    · rename_i hpool
      refine ⟨not_not.mp htype, ?_, Grants.add.mpr ⟨hgrants, (hfour _).mpr hpool⟩⟩
      rw [← Option.some.inj hurl]
      exact renderUrl_length _ _ (by decide)
    · cases hurl
  · rintro ⟨htype,hlen,hgrants⟩
    obtain ⟨hnodes,hrest⟩ := Grants.add.mp hgrants
    refine ⟨nodes.length+1, ?_⟩
    have hrender := renderUrl_fits [] hfull (by simpa using hlen)
    rw [attributeQuestionGetUrl, hself]
    simp only [htype, ne_eq, not_true_eq_false, if_false,
      prevLoop_of_route hroute hnodes (Nat.lt_succ_self _), append_nil]
    rw [if_pos ((hfour _).mp hrest), hrender]
    rfl

def World.nodes (w : World) : List AqNode := w.gAttributeQuestionList.map Made.node

/-- After a walk that succeeded, every node that was made has the page of its form and leads back to the
start by references to the page that is left, if and only if every form that the references lead to is
registered and none of its references comes before what it would lead astray; and the path of a question is
returned if and only if the first node with its ids is a question, the path fits and the pool has room. -/
theorem attributeQuestionListInit_pages (mFormSetList : List FormSetNode) (pool : Pool) (fuel : Nat)
    (call : Call) (resetGoto : Bool) (w w' : World) (hcall : call.prevPage = none)
    (h : attributeQuestionListInit mFormSetList pool fuel call resetGoto w = some (.success, w')) :
    (∃ new, w'.gAttributeQuestionList = w.gAttributeQuestionList ++ new ∧
      ((∀ m ∈ new, m.OnItsPage ∧ Trail mFormSetList call w'.gAttributeQuestionList m) ↔
        ∀ e, Reached mFormSetList (if resetGoto then [] else w.mFormRefList) call e →
          e.Straight mFormSetList)) ∧
    ∀ (pool : Pool) (hiiGetString : Strings) (calls : Nat) (formSetId : Bytes) (questionId : UInt16) (n : AqNode),
      FirstWith w'.nodes formSetId questionId n → ∀ nodes path, PathOf hiiGetString w'.nodes n nodes path →
        ((∃ fuel, attributeQuestionGetUrl pool hiiGetString w'.nodes fuel calls formSetId questionId =
            some path) ↔
          n.type = .question ∧ path.length < QUESTION_URL_LENGTH ∧ Grants pool calls (nodes.length+4)) := by
  have hreset : (if resetGoto then { w with mFormRefList := [] } else w).mFormRefList =
      if resetGoto then [] else w.mFormRefList := by split <;> rfl
  have hsame : (if resetGoto then { w with mFormRefList := [] } else w).gAttributeQuestionList =
      w.gAttributeQuestionList := by split <;> rfl
  refine ⟨?_, fun pool hiiGetString calls formSetId questionId n hfirst => getUrl_iff hfirst⟩
  obtain ⟨new,hlist,-,hiff⟩ := pages_iff hcall h
  rw [hreset] at hiff
  rw [hsame] at hlist
  exact ⟨new, hlist, hiff⟩

namespace Crossing

def checkbox : Op where
  opCode := EFI_IFR_CHECKBOX_OP
  scope := false
  data := [4, 0, 0, 0, 7, 0, 0, 0, 0, 0, 0]
  fits := by decide

def first : FormSetNode :=
  ⟨1, ⟨Dangling.formSetOp, [Dangling.formOp, crossing, checkbox, Dangling.endOp, Dangling.endOp], fun _ => 0⟩, 79,
    [⟨⟨Dangling.formOp, [crossing, checkbox, Dangling.endOp, Dangling.endOp], fun _ => 0⟩, 54⟩]⟩

def second : FormSetNode :=
  ⟨2, ⟨secondFormSet, [Dangling.formOp, Dangling.endOp, Dangling.endOp], fun _ => 0⟩, 33,
    [⟨⟨Dangling.formOp, [Dangling.endOp, Dangling.endOp], fun _ => 0⟩, 8⟩]⟩

/-- A reference to the second form. -/
def toSecond : Op where
  opCode := EFI_IFR_REF_OP
  scope := false
  data := [4, 0, 0, 0, 5, 0, 0, 0, 0, 0, 0, 2, 0]
  fits := by decide

def secondForm : Op where
  opCode := EFI_IFR_FORM_OP
  scope := true
  data := [2, 0, 5, 0]
  fits := by decide

def numeric : Op where
  opCode := EFI_IFR_NUMERIC_OP
  scope := false
  data := [6, 0, 0, 0, 8, 0, 0, 0, 0, 0, 0, 0, 0, 0, 0]
  fits := by decide

def firstForm : FormNode :=
  ⟨⟨Dangling.formOp, [checkbox, toSecond, Dangling.endOp, secondForm, numeric, Dangling.endOp, Dangling.endOp],
    fun _ => 0⟩, 36⟩

/-- The first form has a check box and a reference to the second one, which has a numeric question. -/
def linked : FormSetNode :=
  ⟨1, ⟨Dangling.formSetOp, firstForm.form.ops, fun _ => 0⟩, 86,
    [firstForm, ⟨⟨secondForm, [numeric, Dangling.endOp, Dangling.endOp], fun _ => 0⟩, 25⟩]⟩

def strings : Strings := fun _ id => some [0x61+id]

theorem linked_straight {e : Entry} (h : Reached [linked] [] Dangling.call e) : e.Straight [linked] := by
  cases h with
  | here henter =>
    refine (tidy_iff_straight henter).mp ?_
    cases henter
    intro t ht
    simp only [Entry.turns] at ht
    rcases mem_cons.mp ht with rfl | ht
    · exact ⟨fun _ => ⟨rfl, rfl⟩, fun href => absurd href.1 (by decide)⟩
    rcases mem_cons.mp ht with rfl | ht
    · exact ⟨fun hop => absurd hop (by decide), fun _ => ⟨rfl, rfl⟩⟩
    · rw [mem_singleton.mp ht]
      exact ⟨fun hop => absurd hop (by decide), fun href => absurd href.2 (by decide)⟩
  | deeper henter _ hc href hdeep =>
    cases henter
    rcases mem_cons.mp hc with rfl | hc
    · exact absurd href.1 (by decide)
    rcases mem_cons.mp hc with rfl | hc
    · cases hdeep with
      | here henter =>
        refine (tidy_iff_straight henter).mp ?_
        cases henter
        intro t ht
        simp only [Entry.turns] at ht
        rcases mem_cons.mp ht with rfl | ht
        · exact ⟨fun _ => ⟨rfl, rfl⟩, fun href => absurd href.1 (by decide)⟩
        · rw [mem_singleton.mp ht]
          exact ⟨fun hop => absurd hop (by decide), fun href => absurd href.2 (by decide)⟩
      | deeper henter _ hc href _ =>
        cases henter
        rcases mem_cons.mp hc with rfl | hc
        · exact absurd href.1 (by decide)
        · rw [mem_singleton.mp hc] at href
          exact absurd href.2 (by decide)
    · rw [mem_singleton.mp hc] at href
      exact absurd href.2 (by decide)

end Crossing

/-- The question on the second form is behind the reference, and its path says so. -/
theorem attributeQuestionListInit_pages_linked :
    ∃ w', attributeQuestionListInit [Crossing.linked] Dangling.pool 2 Dangling.call true ⟨0, [], []⟩ =
        some (.success, w') ∧ (∀ m ∈ w'.gAttributeQuestionList, m.OnItsPage ∧
        Trail [Crossing.linked] Dangling.call w'.gAttributeQuestionList m) ∧
      (∃ fuel, attributeQuestionGetUrl Dangling.pool Crossing.strings w'.nodes fuel 0 Crossing.linked.guid 8 =
        some [0x2F, 0x63, 0x2F, 0x64, 0x2F, 0x65, 0x2F, 0x67]) ∧
      w'.nodes.map AqNode.prevPage = [none, none, some 1] := by
  obtain ⟨⟨new,hlist,hpgs⟩,hurl⟩ := attributeQuestionListInit_pages [Crossing.linked] Dangling.pool 2
    Dangling.call true ⟨0, [], []⟩ _ rfl rfl
  refine ⟨_, rfl, ?_, ?_, rfl⟩
  · rw [hlist]
    rw [hlist] at hpgs
    exact hpgs.mpr fun e he => Crossing.linked_straight he
  · exact (hurl Dangling.pool Crossing.strings 0 Crossing.linked.guid 8 _ rfl _ _
      ⟨_, .step rfl rfl (.start rfl), rfl⟩).mpr ⟨rfl, by decide, fun j hj => rfl⟩

/-- The check box behind a reference to another form set is put on a page of that form set. -/
theorem question_on_other_page : ∃ w' m,
    attributeQuestionListInit [Crossing.first, Crossing.second] Dangling.pool 2 Dangling.call true ⟨0, [], []⟩ =
        some (.success, w') ∧ m ∈ w'.gAttributeQuestionList ∧ ¬ m.OnItsPage := by
  refine ⟨_, _, rfl, mem_cons_of_mem _ mem_cons_self, ?_⟩
  rintro ⟨hguid,-⟩
  exact absurd hguid (by decide)

end Liano.Hii
