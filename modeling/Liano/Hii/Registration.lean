import Liano.Hii.Nesting
import Liano.Hii.FormPath

/-! The calls of `AttributeQuestionFormSetRegister` that one call makes along the references to other form
sets, and how often a form set is recorded in them. -/
namespace Liano.Hii

open List hiding Cursor

structure NestedDatabase where
  exportPackageLists : Nat → Option (List NestedPackage)
  hiiGetHiiHandles : Bytes → Option Nat

namespace NestedDatabase

def database (db : NestedDatabase) : HiiDatabase where
  exportPackageLists hiiHandle := (db.exportPackageLists hiiHandle).map (map NestedPackage.package)
  hiiGetHiiHandles := db.hiiGetHiiHandles

/-- The form sets in the package list of a handle. -/
def allFormSets (db : NestedDatabase) (hiiHandle : Nat) : List Scope :=
  ((db.exportPackageLists hiiHandle).getD []).flatMap (NestedPackage.formSets none)

/-- Those that a call asks for. -/
def formSets (db : NestedDatabase) (a : Ask) : List Scope := wanted a.formSetId (db.allFormSets a.hiiHandle)

/-- The form sets that a call asks for, by their places in the database. -/
def places (db : NestedDatabase) (a : Ask) : List (Nat × Nat) :=
  ((db.allFormSets a.hiiHandle).zipIdx.filter fun f => formSetFound a.formSetId f.1.cursor).map fun f =>
    (a.hiiHandle,f.2)

/-- No form set is recorded twice in these calls. -/
def Once (db : NestedDatabase) (asks : List Ask) : Prop := (asks.flatMap db.places).Nodup

/-- None of the form sets that the call asks for has been recorded in the calls before. -/
def Fresh (db : NestedDatabase) (before : List Ask) (a : Ask) : Prop :=
  ∀ b ∈ before, b.hiiHandle = a.hiiHandle → ∀ f ∈ db.allFormSets a.hiiHandle,
    ¬ (formSetFound b.formSetId f.cursor = true ∧ formSetFound a.formSetId f.cursor = true)

/-- Of each of the calls, with those before it: what it asks for is flat and has not been recorded. -/
def EachFresh (db : NestedDatabase) : List Ask → List Ask → Prop
  | _, [] => True
  | before, a :: asks => ((∀ f ∈ db.formSets a, f.Flat a.formSetId) ∧ db.Fresh before a) ∧
    db.EachFresh (before ++ [a]) asks

/-- A `REF3` in the first form of a recorded form set leads to the call. -/
def Referenced (db : NestedDatabase) (mFormSetList : List FormSetNode) (a : Ask) : Prop :=
  ∃ s ∈ mFormSetList, ∃ form ∈ s.formList.head?, ∃ c ∈ form.opCodes, c.op.opCode = EFI_IFR_REF_OP ∧
    c.op.length ≥ sizeOfRef3 ∧ a.formSetId = some c.refFormSetId ∧
    db.hiiGetHiiHandles c.refFormSetId = some a.hiiHandle

variable {db : NestedDatabase} {before asks asks' : List Ask} {a : Ask}

theorem nodup_places (db : NestedDatabase) (a : Ask) : (db.places a).Nodup := by
  have hindices : ((db.allFormSets a.hiiHandle).zipIdx.map Prod.snd).Nodup := by
    rw [zipIdx_map_snd]
    exact nodup_range'
  refine Nodup.map_on (fun f hf g hg heq => ?_) (Nodup.filter _ (Nodup.of_map _ hindices))
  have hmemF := mem_zipIdx_iff_getElem?.mp (mem_of_mem_filter hf)
  have hmemG := mem_zipIdx_iff_getElem?.mp (mem_of_mem_filter hg)
  have hindex : f.2 = g.2 := (Prod.mk.inj heq).2
  rw [hindex, hmemG] at hmemF
  exact Prod.ext (Option.some.inj hmemF).symm hindex

theorem mem_places_iff {p : Nat × Nat} : p ∈ db.places a ↔ p.1 = a.hiiHandle ∧
    ∃ f, (db.allFormSets a.hiiHandle)[p.2]? = some f ∧ formSetFound a.formSetId f.cursor = true := by
  simp only [places, mem_map, mem_filter, Prod.exists]
  constructor
  · rintro ⟨f,k,⟨hmem,hfound⟩,rfl⟩
    exact ⟨rfl, f, mem_zipIdx_iff_getElem?.mp hmem, hfound⟩
  · rintro ⟨hhandle,f,hget,hfound⟩
    exact ⟨f, p.2, ⟨mem_zipIdx_iff_getElem?.mpr hget, hfound⟩, Prod.ext hhandle.symm rfl⟩

theorem fresh_iff : db.Fresh before a ↔ ∀ p ∈ db.places a, p ∉ before.flatMap db.places := by
  constructor
  · intro h p hp hbefore
    obtain ⟨b,hb,hpb⟩ := mem_flatMap.mp hbefore
    obtain ⟨hhandle,f,hget,hfound⟩ := mem_places_iff.mp hp
    obtain ⟨hhandle',f',hget',hfound'⟩ := mem_places_iff.mp hpb
    have hsame : b.hiiHandle = a.hiiHandle := hhandle'.symm.trans hhandle
    rw [hsame, hget] at hget'
    cases hget'
    exact h b hb hsame f (mem_of_getElem? hget) ⟨hfound', hfound⟩
  · rintro h b hb hsame f hf ⟨hfoundB,hfoundA⟩
    obtain ⟨k,hk⟩ := mem_iff_getElem?.mp hf
    refine h (a.hiiHandle,k) (mem_places_iff.mpr ⟨rfl, f, hk, hfoundA⟩) (mem_flatMap.mpr ⟨b, hb, ?_⟩)
    exact mem_places_iff.mpr ⟨hsame.symm, f, hsame ▸ hk, hfoundB⟩

theorem once_append : db.Once (before ++ [a]) ↔ db.Once before ∧ db.Fresh before a := by
  rw [fresh_iff]
  unfold Once
  rw [flatMap_append, flatMap_singleton, nodup_append']
  constructor
  · rintro ⟨hbefore,-,hapart⟩
    exact ⟨hbefore, fun p hp hp' => hapart hp' hp⟩
  · rintro ⟨hbefore,hfresh⟩
    exact ⟨hbefore, db.nodup_places a, fun p hp hp' => hfresh p hp' hp⟩

def recorded (db : NestedDatabase) (asks : List Ask) : List (Range × List Range) :=
  asks.flatMap fun a => (db.formSets a).map (Scope.recorded a.formSetId)

/-- The ranges of the scopes are recorded, each form set once, if and only if each call met the
condition. -/
theorem eachFresh_iff (honce : db.Once before) :
    db.recorded asks = (asks.flatMap db.formSets).map Scope.formSetRanges ∧ db.Once (before ++ asks) ↔
      db.EachFresh before asks := by
  induction asks generalizing before with
  | nil => simp [recorded, EachFresh, honce]
  | cons a asks ih =>
    have hranges : db.recorded (a :: asks) = ((a :: asks).flatMap db.formSets).map Scope.formSetRanges ↔
        (∀ f ∈ db.formSets a, f.Flat a.formSetId) ∧
          db.recorded asks = (asks.flatMap db.formSets).map Scope.formSetRanges := by
      rw [recorded, flatMap_cons, flatMap_cons, map_append]
      constructor
      · intro h
        obtain ⟨hhead,htail⟩ := append_inj h (by simp)
        exact ⟨fun f hf => (f.recorded_eq_iff a.formSetId).mp (map_inj_left.mp hhead f hf), htail⟩
      · rintro ⟨hflat,htail⟩
        rw [map_inj_left.mpr fun f hf => (f.recorded_eq_iff a.formSetId).mpr (hflat f hf)]
        exact congrArg _ htail
    have hsplit : before ++ a :: asks = (before ++ [a]) ++ asks := by simp
    rw [hranges, hsplit, EachFresh]
    constructor
    · rintro ⟨⟨hflat,htail⟩,hall⟩
      have hhead : db.Once (before ++ [a]) := by
        unfold Once at hall ⊢
        rw [flatMap_append] at hall
        exact (nodup_append'.mp hall).1
      exact ⟨⟨hflat, (once_append.mp hhead).2⟩, (ih hhead).mp ⟨htail, hall⟩⟩
    · rintro ⟨⟨hflat,hfresh⟩,hrest⟩
      obtain ⟨htail,hall⟩ := (ih (once_append.mpr ⟨honce, hfresh⟩)).mpr hrest
      exact ⟨⟨hflat, htail⟩, hall⟩

end NestedDatabase

variable {db : NestedDatabase} {r r' r'' : Registry} {asks asks' : List Ask}

theorem formSets_wanted (formSetId : Option Bytes) (packages : List NestedPackage) :
    packages.flatMap (NestedPackage.formSets formSetId) =
      wanted formSetId (packages.flatMap (NestedPackage.formSets none)) := by
  induction packages with
  | nil => rfl
  | cons p packages ih =>
    rw [flatMap_cons, flatMap_cons, wanted, filter_append, ih]
    congr 1
    cases p with
    | other p hp => rfl
    | forms s behind => simp [NestedPackage.formSets, Stream.formSets, wanted, formSetFound]

/-- What calls add to the registry: a node for each form set that they ask for. -/
structure Adds (db : NestedDatabase) (r r' : Registry) (asks : List Ask) : Prop where
  asked : r'.asks = r.asks ++ asks
  recorded : ∃ new, r'.mFormSetList = r.mFormSetList ++ new ∧ new.map FormSetNode.ranges = db.recorded asks

theorem Adds.same {mFormRefList : List (Bytes × UInt16)} {calls : Nat} :
    Adds db r { r with mFormRefList := mFormRefList, calls := calls } [] where
  asked := (append_nil _).symm
  recorded := ⟨[], (append_nil _).symm, rfl⟩

theorem Adds.trans (h : Adds db r r' asks) (h' : Adds db r' r'' asks') : Adds db r r'' (asks ++ asks') := by
  obtain ⟨hasks,new,hlist,hrngs⟩ := h
  obtain ⟨hasks',new',hlist',hranges'⟩ := h'
  refine ⟨by rw [hasks', hasks, append_assoc], new ++ new', by rw [hlist', hlist, append_assoc], ?_⟩
  rw [map_append, hrngs, hranges', NestedDatabase.recorded, NestedDatabase.recorded, NestedDatabase.recorded,
    flatMap_append]

/-- The call and those along the references. -/
def Registers (db : NestedDatabase) (callee : Ask → Registry → Option (Option Registry)) : Prop :=
  ∀ ask r r', callee ask r = some (some r') → ∃ asks, Adds db r r' (ask :: asks) ∧
    ∀ a ∈ asks, db.Referenced r'.mFormSetList a

theorem NestedDatabase.Referenced.mono {l l' : List FormSetNode} {a : Ask} (h : db.Referenced l a)
    (hl : l <+: l') : db.Referenced l' a := by
  obtain ⟨s,hs,hrest⟩ := h
  exact ⟨s, hl.subset hs, hrest⟩

theorem Adds.grows (h : Adds db r r' asks) : r.mFormSetList <+: r'.mFormSetList := by
  obtain ⟨-,new,hlist,-⟩ := h
  exact ⟨new, hlist.symm⟩

section Depex

variable {callee : Ask → Registry → Option (Option Registry)} {s : FormSetNode} {form : FormNode}

theorem depexLoop_adds (hcallee : Registers db callee) (hform : form ∈ s.formList.head?) {cs : List Cursor}
    (hcs : cs ⊆ form.opCodes) {failed : Bool} (hs : s ∈ r.mFormSetList)
    (h : depexLoop callee db.hiiGetHiiHandles cs failed r = some (some r')) :
    ∃ asks, Adds db r r' asks ∧ ∀ a ∈ asks, db.Referenced r'.mFormSetList a := by
  induction cs generalizing failed r with
  | nil =>
    cases h
    exact ⟨[], Adds.same, by simp⟩
  | cons c cs ih =>
    obtain ⟨hc,hcs⟩ := cons_subset.mp hcs
    rw [depexLoop] at h
    split at h
    · rename_i hop
      split at h
      · rename_i hlong
        split at h
        · cases h
        rename_i hiiHandle hhandle
        split at h
        · rename_i r1 hcall
          obtain ⟨inner,hinner,href⟩ := hcallee _ _ _ hcall
          obtain ⟨rest,hrest,hrefRest⟩ := ih hcs (hinner.grows.subset hs) h
          refine ⟨_, hinner.trans hrest, fun a ha => ?_⟩
          rcases mem_append.mp ha with hmem | hmem
          · rcases mem_cons.mp hmem with rfl | hdeep
            · refine ⟨s, (hinner.trans hrest).grows.subset hs, form, hform, c, hc, hop, hlong, rfl, hhandle⟩
            · exact (href a hdeep).mono hrest.grows
          · exact hrefRest a hmem
        · rename_i hnot
          exact absurd h (hnot _)
      · split at h
        · cases h
        · exact ih hcs hs h
    · exact ih hcs hs h

theorem registerDepex_adds (hcallee : Registers db callee) {pool : Pool} {unset : Nat → Bool}
    {formSetId : Bytes} {resetGoto : Bool}
    (h : attributeQuestionFormSetRegisterDepex callee db.database pool unset formSetId resetGoto r =
      some (some r')) :
    ∃ asks, Adds db r r' asks ∧ ∀ a ∈ asks, db.Referenced r'.mFormSetList a := by
  unfold attributeQuestionFormSetRegisterDepex at h
  dsimp only at h
  generalize (if resetGoto then [] else r.mFormRefList) = mFormRefList at h
  split at h
  · rename_i s form hset hform
    split at h
    · cases h
      exact ⟨[], Adds.same, by simp⟩
    split at h
    · cases h
    have hmem : s ∈ r.mFormSetList := (lastLookedAt_mem hset).resolve_right (Option.some_ne_none s).symm
    have hhead : form ∈ s.formList.head? := by
      rw [attributeQuestionGetForm, hset] at hform
      exact hform
    obtain ⟨asks,hadds,href⟩ := depexLoop_adds hcallee hhead (fun _ hc => hc) (r := { r with
      calls := r.calls+1, mFormRefList := mFormRefList ++ [(formSetId,form.formId)] }) hmem h
    exact ⟨asks, Adds.same.trans hadds, href⟩
  · cases h

end Depex

theorem register_adds (pool : Pool) (unset : Nat → Bool) (fuel : Nat) (resetGoto : Bool) :
    Registers db fun ask r => attributeQuestionFormSetRegister db.database pool unset fuel ask resetGoto r := by
  induction fuel generalizing resetGoto with
  | zero =>
    intro ask r r' h
    cases h
  | succ fuel ih =>
    intro ask r r' h
    simp only [attributeQuestionFormSetRegister] at h
    split at h
    · cases h
    rename_i packages hpackages
    split at h
    · cases h
    rename_i s hscan
    split at h
    · cases h
    rename_i node hnode
    obtain ⟨asks,hadds,href⟩ := registerDepex_adds (ih false) h
    refine ⟨asks, ?_, href⟩
    obtain ⟨nested,hnested,rfl⟩ := Option.map_eq_some_iff.mp hpackages
    obtain ⟨new,hlist,hrngs⟩ := register_recorded hscan
    have hown : Adds db r { r with calls := s.calls, mFormSetList := s.mFormSetList, asks := r.asks ++ [ask] }
        [ask] := by
      refine ⟨rfl, new, hlist, ?_⟩
      rw [hrngs, formSets_wanted, NestedDatabase.recorded, flatMap_singleton, NestedDatabase.formSets,
        NestedDatabase.allFormSets, hnested]
      rfl
    exact hown.trans hadds

end Liano.Hii
