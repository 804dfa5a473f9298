import Liano.Hii.Extraction

/-! Well-nested streams of op-codes: what their scopes are, and what the scan records of them. -/
namespace Liano.Hii

open List hiding Cursor after flatten

structure Leaf where
  op : Op
  plain : op.scope = false
  notEnd : op.opCode ≠ EFI_IFR_END_OP
  notForm : op.opCode ≠ EFI_IFR_FORM_OP
  notFormSet : op.opCode ≠ EFI_IFR_FORM_SET_OP

structure Opener where
  op : Op
  opens : op.scope = true

/-- The `END` of a scope. -/
structure Closer where
  op : Op
  plain : op.scope = false
  isEnd : op.opCode = EFI_IFR_END_OP

inductive Stream
  | nil
  | leaf (l : Leaf) (rest : Stream)
  | scope (o : Opener) (inner : Stream) (c : Closer) (rest : Stream)

namespace Stream

def flatten : Stream → List Op
  | nil => []
  | leaf l rest => l.op :: rest.flatten
  | scope o inner c rest => o.op :: (inner.flatten ++ c.op :: rest.flatten)

end Stream

/-- A scope of a stream: the place where it opens, what is in it and its `END`. -/
structure Scope where
  cursor : Cursor
  inner : Stream
  close : Closer

/-- The op-codes from the one that opens the scope to its `END`. -/
def Scope.ops (f : Scope) : List Op := f.cursor.op :: (f.inner.flatten ++ [f.close.op])

def Stream.scopes (opCode : UInt8) (behind : Nat → UInt8) : List Op → Stream → List Scope
  | _, nil => []
  | tail, leaf _ rest => rest.scopes opCode behind tail
  | tail, scope o inner c rest =>
    (if o.op.opCode = opCode then
      [⟨⟨o.op, inner.flatten ++ c.op :: (rest.flatten ++ tail), behind⟩, inner, c⟩] else []) ++
    inner.scopes opCode behind (c.op :: (rest.flatten ++ tail)) ++ rest.scopes opCode behind tail

structure Range where
  ops : List Op
  size : Nat

def FormNode.range (f : FormNode) : Range := ⟨f.form.ops, f.formSize⟩
def FormSetNode.range (s : FormSetNode) : Range := ⟨s.formSet.ops, s.formSetSize⟩

def FormSetNode.ranges (s : FormSetNode) : Range × List Range := (s.range, s.formList.map FormNode.range)

/-- From the op-code to its `END`, in the block that holds the scope. -/
def Scope.range (f : Scope) : Range := ⟨f.cursor.ops, byteSize f.ops⟩

def Scope.forms (f : Scope) : List Scope := f.inner.scopes EFI_IFR_FORM_OP f.cursor.behind [f.close.op]

def Scope.formSetRanges (f : Scope) : Range × List Range := (⟨f.ops, byteSize f.ops⟩, f.forms.map Scope.range)

def Scope.nested (f : Scope) (opCode : UInt8) : List Scope :=
  f.inner.scopes opCode f.cursor.behind (f.cursor.rest.drop f.inner.flatten.length)

section
variable (formSetId : Option Bytes)

def wanted (fs : List Scope) : List Scope :=
  fs.filter fun f => formSetFound formSetId f.cursor

def Stream.formSets (behind : Nat → UInt8) (tail : List Op) (s : Stream) :
    List Scope := wanted formSetId (s.scopes EFI_IFR_FORM_SET_OP behind tail)

structure Scope.Flat (formSetId : Option Bytes) (f : Scope) : Prop where
  formSets : wanted formSetId (f.nested EFI_IFR_FORM_SET_OP) = []
  forms : ∀ g ∈ f.forms, g.nested EFI_IFR_FORM_OP = []

theorem byteSize_append (a b : List Op) : byteSize (a ++ b) = byteSize a + byteSize b := by
  induction a with
  | nil => simp [byteSize]
  | cons op ops ih => simp only [cons_append, byteSize, ih, add_assoc]

theorem Leaf.scopeCount_eq (l : Leaf) (count : Nat) : scopeCount count l.op = count := by
  simp [scopeCount, l.plain, l.notEnd]

theorem Opener.scopeCount_eq (o : Opener) (count : Nat) : scopeCount count o.op = count+1 := by
  simp [scopeCount, o.opens]

theorem Closer.scopeCount_eq (c : Closer) (count : Nat) : scopeCount count c.op = count-1 := by
  simp [scopeCount, c.plain, c.isEnd]

theorem Closer.not_form (c : Closer) : c.op.opCode ≠ EFI_IFR_FORM_OP := by
  rw [c.isEnd]
  decide

theorem Closer.not_formSet (c : Closer) : c.op.opCode ≠ EFI_IFR_FORM_SET_OP := by
  rw [c.isEnd]
  decide

theorem formEnd_cons (behind : Nat → UInt8) {count next : Nat} {op : Op} (rest : List Op)
    (h : scopeCount count op = next + 1) : formEnd behind count (op :: rest) =
      (op.length + (formEnd behind (next + 1) rest).1, (formEnd behind (next + 1) rest).2) := by
  rw [formEnd, h, if_neg (Nat.succ_ne_zero next)]

theorem formEnd_stream (behind : Nat → UInt8) (s : Stream) (count : Nat) (tail : List Op) :
    formEnd behind (count+1) (s.flatten ++ tail) =
      (byteSize s.flatten + (formEnd behind (count+1) tail).1, (formEnd behind (count+1) tail).2) := by
  induction s generalizing count tail with
  | nil => simp [Stream.flatten, byteSize]
  | leaf l rest ih =>
    rw [Stream.flatten, cons_append, formEnd_cons behind _ (l.scopeCount_eq _), ih]
    simp only [byteSize, add_assoc]
  | scope o inner c rest ihInner ihRest =>
    rw [Stream.flatten, cons_append, append_assoc, cons_append,
      formEnd_cons behind _ (o.scopeCount_eq _), ihInner, formEnd_cons behind _ (c.scopeCount_eq _), ihRest]
    simp only [byteSize, byteSize_append, add_assoc]

theorem formEnd_scope (behind : Nat → UInt8) (inner : Stream) (c : Closer) (after : List Op) :
    formEnd behind 1 (inner.flatten ++ c.op :: after) = (byteSize inner.flatten + c.op.length, after) := by
  rw [formEnd_stream]
  simp [formEnd, c.scopeCount_eq]

def Stream.outerForms (behind : Nat → UInt8) : List Op → Stream → List Scope
  | _, nil => []
  | tail, leaf _ rest => rest.outerForms behind tail
  | tail, scope o inner c rest =>
    (if o.op.opCode = EFI_IFR_FORM_OP then
      [⟨⟨o.op, inner.flatten ++ c.op :: (rest.flatten ++ tail), behind⟩, inner, c⟩]
    else inner.outerForms behind (c.op :: (rest.flatten ++ tail))) ++ rest.outerForms behind tail

theorem formListLoop_stream {pool : Pool} {behind : Nat → UInt8} {s : Stream} {tail : List Op}
    {fuel calls calls' : Nat} {forms : List FormNode} (hfuel : (s.flatten ++ tail).length ≤ fuel)
    (h : formListLoop pool behind fuel (s.flatten ++ tail) calls = some (forms,calls')) :
    ∃ fuel' calls'' recorded left, tail.length ≤ fuel' ∧ forms = recorded ++ left ∧
      recorded.map FormNode.range = (s.outerForms behind tail).map Scope.range ∧
      formListLoop pool behind fuel' tail calls'' = some (left,calls') := by
  induction s generalizing tail fuel calls forms with
  | nil => exact ⟨fuel, calls, [], forms, hfuel, rfl, rfl, h⟩
  | leaf l rest ih =>
    simp only [Stream.flatten, cons_append, length_cons] at hfuel h
    obtain ⟨fuel,rfl⟩ : ∃ k, fuel = k+1 := ⟨fuel - 1, by omega⟩
    rw [formListLoop, if_neg l.notForm] at h
    exact ih (by omega) h
  | scope o inner c rest ihInner ihRest =>
    simp only [Stream.flatten, cons_append, append_assoc, length_cons] at hfuel h
    obtain ⟨fuel,rfl⟩ : ∃ k, fuel = k+1 := ⟨fuel - 1, by omega⟩
    simp only [length_append, length_cons] at hfuel
    by_cases hform : o.op.opCode = EFI_IFR_FORM_OP
    · -- The form is recorded, and the loop goes on behind its `END`.
      rw [formListLoop, if_pos hform, formEnd_scope] at h
      simp only at h
      split at h
      · cases h
      split at h
      · cases h
      rename_i left calls'' hleft
      cases h
      obtain ⟨fuel',k,recorded,left',htail,rfl,hrngs,hrun⟩ := ihRest (by rw [length_append]; omega) hleft
      refine ⟨fuel', k, _ :: recorded, left', htail, rfl, ?_, hrun⟩
      rw [Stream.outerForms, if_pos hform, map_cons, hrngs]
      simp [FormNode.range, Scope.range, Scope.ops, Cursor.ops, byteSize, byteSize_append]
    · rw [formListLoop, if_neg hform] at h
      obtain ⟨fuel1,calls1,recorded,left,hlen,rfl,hrngs,hinner⟩ :=
        ihInner (by simp only [length_append, length_cons]; omega) h
      simp only [length_cons, length_append] at hlen
      obtain ⟨fuel1,rfl⟩ : ∃ k, fuel1 = k+1 := ⟨fuel1 - 1, by omega⟩
      rw [formListLoop, if_neg c.not_form] at hinner
      obtain ⟨fuel',k,recorded',left',htail,rfl,hranges',hrun⟩ := ihRest (by rw [length_append]; omega) hinner
      refine ⟨fuel', k, recorded ++ recorded', left', htail, (append_assoc ..).symm, ?_, hrun⟩
      rw [Stream.outerForms, if_neg hform, map_append, map_append, hrngs, hranges']

theorem outerForms_ranges (s : Stream) (b b' : Nat → UInt8) (tail : List Op) :
    (s.outerForms b tail).map Scope.range = (s.outerForms b' tail).map Scope.range := by
  induction s generalizing tail with
  | nil => rfl
  | leaf l rest ih => exact ih tail
  | scope o inner c rest ihInner ihRest =>
    simp only [Stream.outerForms, map_append, ihRest tail]
    split
    · rfl
    · rw [ihInner]

@[simp] theorem Scope.nested_mk (op : Op) (inner : Stream) (after : List Op) (b : Nat → UInt8) (c : Closer)
    (opCode : UInt8) : Scope.nested ⟨⟨op, inner.flatten ++ after, b⟩, inner, c⟩ opCode =
      inner.scopes opCode b after := by simp [Scope.nested]

theorem outerForms_length_le (s : Stream) (b : Nat → UInt8) (tail : List Op) :
    (s.outerForms b tail).length ≤ (s.scopes EFI_IFR_FORM_OP b tail).length := by
  induction s generalizing tail with
  | nil => exact le_rfl
  | leaf l rest ih => exact ih tail
  | scope o inner c rest ihInner ihRest =>
    have hinner := ihInner (c.op :: (rest.flatten ++ tail))
    have hrest := ihRest tail
    simp only [Stream.outerForms, Stream.scopes, length_append]
    split <;> simp <;> omega

theorem outerForms_eq_iff (s : Stream) (b : Nat → UInt8) (tail : List Op) :
    (s.outerForms b tail).map Scope.range = (s.scopes EFI_IFR_FORM_OP b tail).map Scope.range ↔
      ∀ g ∈ s.scopes EFI_IFR_FORM_OP b tail, g.nested EFI_IFR_FORM_OP = [] := by
  induction s generalizing tail with
  | nil => simp [Stream.outerForms, Stream.scopes]
  | leaf l rest ih => exact ih tail
  | scope o inner c rest ihInner ihRest =>
    have hlen := outerForms_length_le rest b tail
    by_cases hform : o.op.opCode = EFI_IFR_FORM_OP
    · simp only [Stream.outerForms, Stream.scopes, if_pos hform, cons_append, nil_append,
        map_cons, cons.injEq, true_and, forall_mem_cons, Scope.nested_mk, map_append, forall_mem_append]
      rw [← ihRest]
      constructor
      · intro h
        have hcnt := congrArg length h
        simp only [length_append, length_map] at hcnt
        have hnil : inner.scopes EFI_IFR_FORM_OP b (c.op :: (rest.flatten ++ tail)) = [] :=
          length_eq_zero_iff.mp (by omega)
        rw [hnil] at h ⊢
        exact ⟨rfl, fun g hg => absurd hg not_mem_nil, h⟩
      · rintro ⟨hnil,-,hrest⟩
        rw [hnil, hrest]
        rfl
    · have hinner := outerForms_length_le inner b (c.op :: (rest.flatten ++ tail))
      simp only [Stream.outerForms, Stream.scopes, if_neg hform, nil_append, map_append, forall_mem_append]
      rw [← ihInner, ← ihRest]
      constructor
      · intro h
        have hcnt := congrArg length h
        simp only [length_append, length_map] at hcnt
        exact append_inj h (by simp only [length_map]; omega)
      · rintro ⟨h1,h2⟩
        rw [h1, h2]

/-- What the scan records of a form set: a form set in its scope takes its node's place, and the node stays
as it was made. -/
def Scope.recorded (f : Scope) : Range × List Range :=
  if wanted formSetId (f.nested EFI_IFR_FORM_SET_OP) = [] then
    (⟨f.ops, byteSize f.ops⟩, (f.inner.outerForms f.cursor.behind [f.close.op]).map Scope.range)
  else (⟨f.cursor.ops, 0⟩, [])

theorem byteSize_pos (f : Scope) : 0 < byteSize f.ops := by
  simp only [Scope.ops, byteSize, Op.length]
  omega

theorem Scope.recorded_mk (op : Op) (inner : Stream) (after : List Op)
    (b : Nat → UInt8) (c : Closer) : Scope.recorded formSetId ⟨⟨op, inner.flatten ++ after, b⟩, inner, c⟩ =
      if inner.formSets formSetId b after = [] then
        (⟨op :: (inner.flatten ++ [c.op]), byteSize (op :: (inner.flatten ++ [c.op]))⟩,
          (inner.outerForms b [c.op]).map Scope.range)
      else (⟨op :: (inner.flatten ++ after), 0⟩, []) := by
  rw [Scope.recorded, Scope.nested_mk]
  rfl

theorem Scope.recorded_eq_iff (f : Scope) :
    f.recorded formSetId = f.formSetRanges ↔ f.Flat formSetId := by
  unfold Scope.recorded
  split
  · rename_i hnone
    rw [Scope.formSetRanges, Prod.mk.injEq, Scope.forms, outerForms_eq_iff]
    exact ⟨fun h => ⟨hnone, h.2⟩, fun h => ⟨rfl, h.forms⟩⟩
  rename_i hsome
  refine iff_of_false (fun h => ?_) fun h => hsome h.formSets
  have hsize : 0 = byteSize f.ops := congrArg (fun p => p.1.size) h
  exact absurd hsize (ne_of_lt (byteSize_pos f))

theorem takeBytes_append (a b : List Op) : takeBytes (byteSize a) (a ++ b) = a := by
  induction a with
  | nil =>
    cases b with
    | nil => rfl
    | cons op ops =>
      have hlen : ¬ op.length ≤ 0 := by simp [Op.length]
      simp [takeBytes, byteSize, hlen]
  | cons op ops ih => simp [takeBytes, byteSize, ih]

theorem formSets_scope (b : Nat → UInt8) (tail : List Op) (o : Opener)
    (inner : Stream) (c : Closer) (rest : Stream) :
    (Stream.scope o inner c rest).formSets formSetId b tail = (if o.op.opCode = EFI_IFR_FORM_SET_OP then
        wanted formSetId [⟨⟨o.op, inner.flatten ++ c.op :: (rest.flatten ++ tail), b⟩, inner, c⟩] else []) ++
      inner.formSets formSetId b (c.op :: (rest.flatten ++ tail)) ++ rest.formSets formSetId b tail := by
  simp only [Stream.formSets, Stream.scopes, wanted, filter_append]
  split <;> rfl

end

section Scan

variable {pool : Pool} {hiiHandle : Nat} {formSetId : Option Bytes} {b : Nat → UInt8}
variable {s s' : Scan}

theorem scan_cons {op : Op} {rest : List Op}
    (h : scanOpCodes pool hiiHandle formSetId b (op :: rest) s = some s') :
    ∃ s1 s2, countScope pool ⟨op, rest, b⟩ s = some s1 ∧
      openFormSet pool hiiHandle formSetId ⟨op, rest, b⟩ s1 = some s2 ∧
      scanOpCodes pool hiiHandle formSetId b rest s2 = some s' := by
  unfold scanOpCodes at h
  split at h
  · cases h
  rename_i s1 hcnt
  split at h
  · cases h
  · rename_i s2 hopen
    exact ⟨s1, s2, hcnt, hopen, h⟩

theorem countScope_eq {c : Cursor} (next : Nat) (h : s.inTheFormSet = 0 → next = 0)
    (hnext : s.inTheFormSet ≠ 0 → scopeCount s.inTheFormSet c.op = next ∧ next ≠ 0) :
    countScope pool c s = some { s with inTheFormSet := next } := by
  unfold countScope
  split
  · rename_i hzero
    rw [h hzero, ← hzero]
  · rename_i hne
    obtain ⟨hcnt,hpos⟩ := hnext hne
    rw [hcnt, if_neg hpos]

theorem openFormSet_other {c : Cursor} (s : Scan)
    (h : ¬ (c.op.opCode = EFI_IFR_FORM_SET_OP ∧ formSetFound formSetId c = true)) :
    openFormSet pool hiiHandle formSetId c s = some s := if_neg h

/-- The `END` of a form set whose node is the last one: the range is copied into the node. -/
theorem countScope_finish {f : Scope} {after : List Op} {before : List FormSetNode}
    (hrest : f.cursor.rest = f.inner.flatten ++ f.close.op :: after)
    (hlist : s.mFormSetList = before ++ [⟨hiiHandle, f.cursor, 0, []⟩]) (hin : s.inTheFormSet = 1)
    (h : countScope pool ⟨f.close.op, after, b⟩ s = some s') :
    ∃ node : FormSetNode, s'.mFormSetList = before ++ [node] ∧ s'.inTheFormSet = 0 ∧
      node.ranges = (⟨f.ops, byteSize f.ops⟩,
        (f.inner.outerForms f.cursor.behind [f.close.op]).map Scope.range) := by
  have hsize : byteSize f.cursor.ops - byteSize after = byteSize f.ops := by
    rw [Cursor.ops, hrest]
    simp only [Scope.ops, byteSize, byteSize_append]
    omega
  unfold countScope at h
  rw [hin, f.close.scopeCount_eq, if_neg Nat.one_ne_zero, if_pos rfl] at h
  simp only [finishFormSet, hlist, getLast?_concat, dropLast_concat, hsize] at h
  split at h
  · cases h
  rename_i behind hpool
  split at h
  · cases h
  rename_i forms calls hforms
  cases h
  have hcopy : (f.cursor.copy (byteSize f.ops) behind).rest = f.inner.flatten ++ [f.close.op] := by
    have htake := takeBytes_append (f.inner.flatten ++ [f.close.op]) after
    rw [append_assoc, singleton_append] at htake
    rw [Cursor.copy, hrest, Scope.ops, byteSize, Nat.add_sub_cancel_left, htake]
  rw [attributeQuestionFormListInit, hcopy] at hforms
  obtain ⟨fuel,k,recorded,left,hlen,rfl,hrngs,hleft⟩ := formListLoop_stream le_rfl hforms
  obtain ⟨fuel,rfl⟩ : ∃ n, fuel = n+1 := ⟨fuel - 1, by simp at hlen; omega⟩
  have hnil : left = [] := by
    rw [formListLoop, if_neg f.close.not_form] at hleft
    cases fuel <;> cases hleft <;> rfl
  refine ⟨_, rfl, rfl, ?_⟩
  rw [FormSetNode.ranges, hnil, append_nil, hrngs, outerForms_ranges _ _ f.cursor.behind]
  simp only [FormSetNode.range, Cursor.ops, hcopy]
  rfl

theorem countScope_close {c : Closer} {after : List Op} {k : Nat}
    (hin : s.inTheFormSet = if k = 0 then 0 else k+1) (h : countScope pool ⟨c.op, after, b⟩ s = some s') :
    s'.mFormSetList = s.mFormSetList ∧ s'.inTheFormSet = k := by
  have hclose : countScope pool ⟨c.op, after, b⟩ s = some { s with inTheFormSet := k } := by
    rcases Nat.eq_zero_or_pos k with rfl | hpos
    · exact countScope_eq 0 (fun _ => rfl) fun hne => absurd hin hne
    rw [if_neg (ne_of_gt hpos)] at hin
    refine countScope_eq k (fun hzero => ?_) fun _ => ?_
    · exact absurd (hin.symm.trans hzero) (Nat.succ_ne_zero k)
    · rw [hin, c.scopeCount_eq]
      exact ⟨rfl, ne_of_gt hpos⟩
  rw [hclose] at h
  cases h
  exact ⟨rfl, rfl⟩

/-- The scan of a stream appends a node for each form set that is asked for, and is in no form set behind
the last of them. -/
theorem scan_stream (st : Stream) {tail : List Op}
    (h : scanOpCodes pool hiiHandle formSetId b (st.flatten ++ tail) s = some s') :
    ∃ mid new, mid.mFormSetList = s.mFormSetList ++ new ∧
      new.map FormSetNode.ranges = (st.formSets formSetId b tail).map (Scope.recorded formSetId) ∧
      mid.inTheFormSet = (if st.formSets formSetId b tail = [] then s.inTheFormSet else 0) ∧
      scanOpCodes pool hiiHandle formSetId b tail mid = some s' := by
  induction st generalizing tail s with
  | nil => exact ⟨s, [], (append_nil _).symm, rfl, rfl, h⟩
  | leaf l rest ih =>
    obtain ⟨s1,s2,hcnt,hopen,hrest⟩ := scan_cons h
    rw [countScope_eq s.inTheFormSet id fun hne => ⟨l.scopeCount_eq _, hne⟩] at hcnt
    cases hcnt
    rw [openFormSet_other _ fun hset => l.notFormSet hset.1] at hopen
    cases hopen
    exact ih hrest
  | scope o inner c rest ihInner ihRest =>
    simp only [Stream.flatten, cons_append, append_assoc] at h
    obtain ⟨s1,s2,hcnt,hopen,hinner⟩ := scan_cons h
    obtain ⟨mid,new,hlist,hrngs,hin,hclose⟩ := ihInner hinner
    obtain ⟨s3,s4,hcount',hopen',hrest⟩ := scan_cons hclose
    rw [openFormSet_other _ fun hset => c.not_formSet hset.1] at hopen'
    cases hopen'
    obtain ⟨mid',new',hlist',hranges',hin',hrun⟩ := ihRest hrest
    have hopener : countScope pool ⟨o.op, inner.flatten ++ c.op :: (rest.flatten ++ tail), b⟩ s =
        some { s with inTheFormSet := if s.inTheFormSet = 0 then 0 else s.inTheFormSet + 1 } :=
      countScope_eq _ (fun hzero => if_pos hzero) fun hne => by
        rw [if_neg hne]
        exact ⟨o.scopeCount_eq _, Nat.succ_ne_zero _⟩
    rw [hopener] at hcnt
    cases hcnt
    rw [formSets_scope]
    by_cases hset : o.op.opCode = EFI_IFR_FORM_SET_OP ∧
        formSetFound formSetId ⟨o.op, inner.flatten ++ c.op :: (rest.flatten ++ tail), b⟩ = true
    · -- A node is made here, and it is finished at the `END` if no other one is made in between.
      rw [openFormSet, if_pos hset] at hopen
      split at hopen
      · cases hopen
      cases hopen
      have hwanted : wanted formSetId
          [⟨⟨o.op, inner.flatten ++ c.op :: (rest.flatten ++ tail), b⟩, inner, c⟩] =
            [⟨⟨o.op, inner.flatten ++ c.op :: (rest.flatten ++ tail), b⟩, inner, c⟩] := by
        simp [wanted, hset.2]
      rw [if_pos hset.1, hwanted]
      by_cases hnone : inner.formSets formSetId b (c.op :: (rest.flatten ++ tail)) = []
      · rw [if_pos hnone] at hin
        have hnew : new = [] := by simpa [hnone] using hrngs
        rw [hnew, append_nil] at hlist
        obtain ⟨node,hlist3,hin3,hnode⟩ := countScope_finish
          (f := ⟨⟨o.op, inner.flatten ++ c.op :: (rest.flatten ++ tail), b⟩, inner, c⟩) rfl hlist hin hcount'
        refine ⟨mid', node :: new', ?_, ?_, ?_, hrun⟩
        · rw [hlist', hlist3, append_assoc, singleton_append]
        · simp [hnone, hranges', hnode, Scope.recorded_mk, Scope.ops]
        · rw [hin', hin3]
          simp
      · rw [if_neg hnone] at hin
        obtain ⟨hlist3,hin3⟩ := countScope_close (k := 0) hin hcount'
        refine ⟨mid', ⟨hiiHandle, ⟨o.op, inner.flatten ++ c.op :: (rest.flatten ++ tail), b⟩, 0, []⟩ ::
          (new ++ new'), ?_, ?_, ?_, hrun⟩
        · rw [hlist', hlist3, hlist]
          simp
        · simp [hrngs, hranges', hnone, Scope.recorded_mk, FormSetNode.ranges, FormSetNode.range,
            Cursor.ops]
        · rw [hin', hin3]
          simp
    · rw [openFormSet_other _ hset] at hopen
      cases hopen
      have hnone : (if o.op.opCode = EFI_IFR_FORM_SET_OP then wanted formSetId
          [⟨⟨o.op, inner.flatten ++ c.op :: (rest.flatten ++ tail), b⟩, inner, c⟩] else []) = [] := by
        split
        · rename_i hop
          simpa [wanted] using fun hfnd => hset ⟨hop, hfnd⟩
        · rfl
      have hclosed : s3.mFormSetList = mid.mFormSetList ∧ s3.inTheFormSet =
          if inner.formSets formSetId b (c.op :: (rest.flatten ++ tail)) = [] then s.inTheFormSet else 0 := by
        refine countScope_close (hin.trans ?_) hcount'
        split <;> rfl
      refine ⟨mid', new ++ new', ?_, ?_, ?_, hrun⟩
      · rw [hlist', hclosed.1, hlist, append_assoc]
      · rw [hnone, nil_append, map_append, map_append, hrngs, hranges']
      · rw [hin', hclosed.2, hnone, nil_append]
        by_cases hinner : inner.formSets formSetId b (c.op :: (rest.flatten ++ tail)) = [] <;> simp [hinner]

end Scan

inductive NestedPackage
  | forms (s : Stream) (behind : Nat → UInt8)
  | other (p : Package) (h : p.type ≠ EFI_HII_PACKAGE_FORMS)

def NestedPackage.package : NestedPackage → Package
  | forms s behind => ⟨EFI_HII_PACKAGE_FORMS, s.flatten, behind⟩
  | other p _ => p

def NestedPackage.formSets (formSetId : Option Bytes) : NestedPackage → List Scope
  | forms s behind => s.formSets formSetId behind []
  | other _ _ => []

/-- The scan of a package list appends a node for each form set that is asked for, in their order. -/
theorem register_recorded {pool : Pool} {hiiHandle : Nat} {formSetId : Option Bytes}
    {packages : List NestedPackage} {s s' : Scan}
    (h : formSetScan pool hiiHandle formSetId
      (packages.map NestedPackage.package) s = some s') :
    ∃ new, s'.mFormSetList = s.mFormSetList ++ new ∧ new.map FormSetNode.ranges =
      (packages.flatMap (NestedPackage.formSets formSetId)).map (Scope.recorded formSetId) := by
  induction packages generalizing s with
  | nil =>
    cases h
    exact ⟨[], (append_nil _).symm, rfl⟩
  | cons p packages ih =>
    rw [map_cons] at h
    unfold formSetScan at h
    cases p with
    | other p hp =>
      rw [NestedPackage.package, if_pos hp] at h
      exact ih h
    | forms st behind =>
      rw [NestedPackage.package, if_neg fun hne => hne rfl] at h
      split at h
      · cases h
      rename_i mid hscan
      rw [← append_nil st.flatten] at hscan
      obtain ⟨last,new,hlist,hrngs,-,hend⟩ := scan_stream st hscan
      cases hend
      obtain ⟨new',hlist',hranges'⟩ := ih h
      refine ⟨new ++ new', ?_, ?_⟩
      · rw [hlist', hlist, append_assoc]
      · rw [map_append, flatMap_cons, map_append, hrngs, hranges']
        rfl

end Liano.Hii
