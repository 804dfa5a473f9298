import Liano.Auth.Services

/-! certdb and certdbv name the signers of the variables that exist: what a call has to meet for it, and
that it holds over every run whose calls do. -/
namespace Liano.Auth

open Option (filter_some map_some)
open List hiding set

open Variable

def certsOf (nodes : List CertNode) (key : VariableKey) : List Bytes :=
  (nodes.filter fun node => node.key == key).map (·.certData)

def AuthState.timeBased (st : AuthState) (key : VariableKey) : Option UInt32 :=
  ((st.stored key).map (·.attributes)).filter isTimeBased

def hasAccess (attributes : UInt32) : Bool :=
  hasAttribute attributes (efiVariableRuntimeAccess ||| efiVariableBootserviceAccess)

def expectedCerts (attributes : Option UInt32) (cert : Option Bytes) (nonVolatile : Bool) : List Bytes :=
  match attributes with
  | none => []
  | some attributes => if isNonVolatile attributes = nonVolatile then cert.toList else []

/-- For one name: a record exactly where there is a variable, in the database of its kind. -/
structure AgreesAt (st : AuthState) (cert : Option Bytes) (key : VariableKey) : Prop where
  nodes : ∀ nonVolatile, certsOf (st.db nonVolatile) key = expectedCerts (st.timeBased key) cert nonVolatile
  isSome : cert.isSome = (st.timeBased key).isSome
  access : ∀ attributes, st.timeBased key = some attributes → hasAccess attributes = true

/-- The databases agree with the variables, where `recorded` are the signers the variables were created
by. -/
def Agrees (st : AuthState) (recorded : VariableKey → Option Bytes) : Prop :=
  ∀ key, AgreesAt st (recorded key) key

def isProcessed (call : Call) : Bool := !(needPhysicallyPresent call.key && !call.userPhysicalPresent) &&
    !hasAttribute call.attributes efiVariableAuthenticatedWriteAccess && isTimeBased call.attributes

def addsRecord (cfg : AuthConfig) (st : AuthState) (call : Call) : Bool :=
  (st.stored call.key).isNone && isProcessed call && call.auth.payload.length != 0 &&
    nodeFits cfg (st.db (isNonVolatile call.attributes)) call.key &&
    !(st.atRuntime && !isNonVolatile call.attributes) &&
    match verifySigners cfg st call with
    | .error _ => false
    | .ok signers => (cfg.crypt.signChainDigest signers.1 signers.2).isSome

def deletesVariable (cfg : AuthConfig) (st : AuthState) (call : Call) : Bool := match st.find call.key with
  | none => false
  | some var =>
    isTimeBased var.attributes && !(st.atRuntime && !isNonVolatile var.attributes) &&
      (isDeletedAtPresence st call ||
        call.attributes &&& ~~~efiVariableAppendWrite == var.attributes && isProcessed call &&
          isDel st call && (verifySigners cfg st call).toBool)

/-- The attributes let a new variable be stored. -/
def isStorable (st : AuthState) (attributes : UInt32) : Bool :=
  hasAccess attributes && (!st.atRuntime || isRuntime attributes)

/-- The two updates of a creation or a deletion are both stored or none is: the first one stores nothing where it
returns an error, and otherwise what the second one stores, in a creation if the variable may be stored. -/
structure Sound (cfg : AuthConfig) (st : AuthState) (call : Call) : Prop where
  creation : addsRecord cfg st call = true → st.outcome.stored =
    (!st.outcome.status.isError && (isStorable st call.attributes && st.consume.outcome.stored))
  deletion : deletesVariable cfg st call = true → st.outcome.stored =
    (!st.outcome.status.isError && st.consume.outcome.stored)

structure Touches (key : VariableKey) (st st' : AuthState) : Prop where
  stored : ∀ other, other ≠ key → st'.stored other = st.stored other
  certs : ∀ other nonVolatile, other ≠ key →
    certsOf (st'.db nonVolatile) other = certsOf (st.db nonVolatile) other
  atRuntime : st'.atRuntime = st.atRuntime

section
variable {key : VariableKey} {st st' st'' : AuthState} {cfg : AuthConfig} {call : Call}

theorem Touches.refl (key : VariableKey) (st : AuthState) : Touches key st st :=
  ⟨fun _ _ => rfl, fun _ _ _ => rfl, rfl⟩

theorem Touches.trans (h : Touches key st st') (h' : Touches key st' st'') : Touches key st st'' where
  stored other hne := (h'.stored other hne).trans (h.stored other hne)
  certs other nonVolatile hne := (h'.certs other nonVolatile hne).trans (h.certs other nonVolatile hne)
  atRuntime := h'.atRuntime.trans h.atRuntime

theorem touches_put (st : AuthState) (key : VariableKey) (var : Option AuthVariable) :
    Touches key st (st.put key var) where
  stored _ hne := Function.update_of_ne hne _ _
  certs _ _ _ := rfl
  atRuntime := rfl

theorem touches_commit {change : AuthState → AuthState} (hchange : ∀ st, Touches key st (change st))
    (st : AuthState) : Touches key st (st.commit change).2 := by
  have hconsumed : Touches key st st.consume := ⟨fun _ _ => rfl, fun _ _ _ => rfl, rfl⟩
  unfold AuthState.commit
  dsimp only
  split
  · exact hconsumed.trans (hchange _)
  · exact hconsumed

theorem touches_updateVariable (cfg : AuthConfig) (st : AuthState) (key : VariableKey) (data : Bytes)
    (attrs : UInt32) (timeStamp : Option Bytes) :
    Touches key st (updateVariable cfg st key data attrs timeStamp).2 := by
  have hput : ∀ var, Touches key st (st.commit fun st => st.put key var).2 := fun var =>
    touches_commit (fun st => touches_put st key var) st
  unfold updateVariable
  split
  · unfold updateExisting
    repeat' split
    all_goals first | exact Touches.refl key st | exact hput _
  · unfold updateNew
    repeat' split
    all_goals first | exact Touches.refl key st | exact hput _

theorem db_putDb (st : AuthState) (nonVolatile other : Bool) (nodes : List CertNode) :
    (st.putDb nonVolatile nodes).db other = if other = nonVolatile then nodes else st.db other := by
  cases nonVolatile <;> cases other <;> rfl

theorem touches_setCertDb {nonVolatile : Bool} {nodes : List CertNode}
    (hnodes : ∀ other, other ≠ key → certsOf nodes other = certsOf (st.db nonVolatile) other) :
    Touches key st (setCertDb st nonVolatile nodes).2 := by
  unfold setCertDb
  split
  · exact Touches.refl key st
  unfold AuthState.commit
  dsimp only
  split
  swap
  · exact ⟨fun _ _ => rfl, fun _ _ _ => rfl, rfl⟩
  refine ⟨fun other _ => ?_, fun other nonVolatile' hne => ?_, ?_⟩
  · cases nonVolatile <;> rfl
  · rw [db_putDb]
    split
    · rename_i heq
      rw [heq]
      exact hnodes other hne
    · rfl
  · cases nonVolatile <;> rfl

variable {other : VariableKey} {signers : Bytes × Bytes}

theorem certsOf_eraseP (nodes : List CertNode) (hne : other ≠ key) :
    certsOf (nodes.eraseP fun node => node.key == key) other = certsOf nodes other := by
  induction nodes with
  | nil => rfl
  | cons node rest ih =>
    cases hkey : node.key == key with
    | true =>
      rw [eraseP_cons_of_pos (by simpa using hkey)]
      have hother : (node.key == other) = false := by
        rw [beq_iff_eq.mp hkey]
        exact beq_eq_false_iff_ne.mpr hne.symm
      unfold certsOf
      rw [filter_cons_of_neg (by simpa using hother)]
    | false =>
      rw [eraseP_cons_of_neg (by simpa using hkey)]
      unfold certsOf at ih ⊢
      rw [filter_cons, filter_cons]
      split
      · exact congrArg (node.certData :: ·) ih
      · exact ih

theorem certsOf_append (nodes nodes' : List CertNode) (key : VariableKey) :
    certsOf (nodes ++ nodes') key = certsOf nodes key ++ certsOf nodes' key := by
  unfold certsOf
  rw [filter_append, map_append]

theorem certsOf_singleton_ne (hne : other ≠ key) (cert : Bytes) : certsOf [⟨key, cert⟩] other = [] := by
  unfold certsOf
  rw [filter_cons_of_neg (by simpa using hne.symm)]
  rfl

theorem certsOf_singleton_self (key : VariableKey) (cert : Bytes) : certsOf [⟨key, cert⟩] key = [cert] := by
  unfold certsOf
  rw [filter_cons_of_pos (by simp)]
  rfl

theorem touches_deleteCertsFromDb (st : AuthState) (key : VariableKey) (attrs : UInt32) :
    Touches key st (deleteCertsFromDb st key attrs).2 := by
  unfold deleteCertsFromDb
  split
  · exact Touches.refl key st
  · split
    · exact Touches.refl key st
    · exact touches_setCertDb fun other hne => certsOf_eraseP _ hne

section
variable (cfg : AuthConfig) (st : AuthState)

theorem touches_insertCertsToDb (key : VariableKey) (attrs : UInt32) (signers : Bytes × Bytes) :
    Touches key st (insertCertsToDb cfg st key attrs signers).2 := by
  unfold insertCertsToDb
  split
  · exact Touches.refl key st
  split
  · exact Touches.refl key st
  split
  · exact Touches.refl key st
  · refine touches_setCertDb fun other hne => ?_
    rw [certsOf_append, certsOf_singleton_ne hne, append_nil]

theorem touches_verifyTimeBasedPayload (call : Call) :
    Touches call.key st (verifyTimeBasedPayload cfg st call).2 := by
  unfold verifyTimeBasedPayload
  split
  · exact Touches.refl _ st
  split
  · split
    · exact touches_insertCertsToDb ..
    · exact touches_insertCertsToDb ..
  · exact Touches.refl _ st

theorem touches_updateVerified (call : Call) (del : Bool) :
    Touches call.key st (updateVerified cfg st call del).2 := by
  unfold updateVerified
  split
  · exact (touches_updateVariable ..).trans (touches_deleteCertsFromDb ..)
  · exact touches_updateVariable ..

theorem touches_processVariable (call : Call) : Touches call.key st (processVariable cfg st call).2 := by
  unfold processVariable
  split
  · unfold deleteAtPresence
    split
    · exact (touches_updateVariable ..).trans (touches_deleteCertsFromDb ..)
    · exact touches_updateVariable ..
  split
  · exact Touches.refl _ st
  split
  · exact Touches.refl _ st
  split
  · unfold verifyTimeBasedPayloadAndUpdate
    split
    · exact touches_verifyTimeBasedPayload ..
    · exact (touches_verifyTimeBasedPayload ..).trans (touches_updateVerified ..)
  · split
    · exact Touches.refl _ st
    · exact touches_updateVariable ..

theorem touches_setVariable (call : Call) : Touches call.key st (setVariable cfg st call).2 := by
  unfold setVariable
  split
  · exact touches_processVariable ..
  split
  · exact Touches.refl _ st
  · split
    · exact Touches.refl _ st
    · exact touches_processVariable ..

end

variable {cert : Option Bytes}

theorem AgreesAt.touches (h : AgreesAt st cert other)
    (htouches : Touches key st st') (hne : other ≠ key) : AgreesAt st' cert other := by
  have htime : st'.timeBased other = st.timeBased other := by
    unfold AuthState.timeBased
    rw [htouches.stored other hne]
  refine ⟨fun nonVolatile => ?_, ?_, fun attributes hattr => ?_⟩
  · rw [htouches.certs other nonVolatile hne, htime, h.nodes]
  · rw [htime, h.isSome]
  · exact h.access attributes (htime ▸ hattr)

structure Kept (st st' : AuthState) : Prop where
  stored : st'.stored = st.stored
  db : ∀ nonVolatile, st'.db nonVolatile = st.db nonVolatile
  atRuntime : st'.atRuntime = st.atRuntime

theorem Kept.refl (st : AuthState) : Kept st st := ⟨rfl, fun _ => rfl, rfl⟩

theorem Kept.trans (h : Kept st st') (h' : Kept st' st'') : Kept st st'' :=
  ⟨h'.stored.trans h.stored, fun nonVolatile => (h'.db nonVolatile).trans (h.db nonVolatile),
    h'.atRuntime.trans h.atRuntime⟩

theorem kept_consume (st : AuthState) : Kept st st.consume := ⟨rfl, fun _ => rfl, rfl⟩

theorem commit_cases (st : AuthState) (change : AuthState → AuthState) :
    (st.outcome.stored = false ∧ st.commit change = (st.outcome.status, st.consume)) ∨
      (st.outcome.stored = true ∧ st.commit change = (st.outcome.status, change st.consume)) := by
  unfold AuthState.commit
  cases st.outcome.stored with
  | false => exact .inl ⟨rfl, congrArg _ (if_ff _ _)⟩
  | true => exact .inr ⟨rfl, congrArg _ (if_pos rfl)⟩

def asksDeletion (data : Bytes) (attributes : UInt32) : Bool :=
  (!isAppendWrite attributes && data.length == 0) || !hasAccess attributes

/-- What `UpdateVariable` comes to. -/
inductive Updates (st : AuthState) (key : VariableKey) (data : Bytes) (attributes : UInt32) :
    EfiStatus × AuthState → Prop
  | kept (status : EfiStatus) (st' : AuthState) (hkept : Kept st st')
      (hstatus : status.isError = false → asksDeletion data attributes = false ∨ st.find key = none) :
      Updates st key data attributes (status,st')
  | unstored (hno : st.outcome.stored = false)
      (hwritable : ∀ var, st.find key = some var → (st.atRuntime && !isNonVolatile var.attributes) = false) :
      Updates st key data attributes (st.outcome.status, st.consume)
  | deleted (var : AuthVariable) (hfind : st.find key = some var)
      (hwritable : (st.atRuntime && !isNonVolatile var.attributes) = false)
      (hyes : st.outcome.stored = true) (hasks : asksDeletion data attributes = true) :
      Updates st key data attributes (st.outcome.status, st.consume.put key none)
  | stored (var : AuthVariable) (hyes : st.outcome.stored = true)
      (hattr : var.attributes = attributes &&& ~~~efiVariableAppendWrite)
      (haccess : hasAccess attributes = true)
      (hexisting : st.find key ≠ none → asksDeletion data attributes = false)
      (hnew : st.find key = none → data.length ≠ 0 ∧ (st.atRuntime = true → isRuntime attributes = true)) :
      Updates st key data attributes (st.outcome.status, st.consume.put key (some var))

variable {attrs : UInt32} {var : AuthVariable} {data : Bytes} {status : EfiStatus}

theorem Updates.error (hkept : Kept st st') (herr : status.isError = true) :
    Updates st key data attrs (status,st') :=
  .kept _ _ hkept fun hno => absurd (herr.symm.trans hno) (by decide)

theorem isError_of_asks (h : status.isError = false → asksDeletion data attrs = false ∨ st.find key = none)
    (hasks : asksDeletion data attrs = true) (hfind : st.find key ≠ none) : status.isError = true := by
  by_contra herr
  rcases h (Bool.eq_false_iff.mpr herr) with hno | hno
  · rw [hasks] at hno
    cases hno
  · exact hfind hno

theorem updates_commit
    (hattr : var.attributes = attrs &&& ~~~efiVariableAppendWrite)
    (hacc : hasAccess attrs = true)
    (hwritable : ∀ var, st.find key = some var → (st.atRuntime && !isNonVolatile var.attributes) = false)
    (hexisting : st.find key ≠ none → asksDeletion data attrs = false)
    (hnew : st.find key = none → data.length ≠ 0 ∧ (st.atRuntime = true → isRuntime attrs = true)) :
    Updates st key data attrs (st.commit fun st => st.put key (some var)) := by
  rcases commit_cases st (fun st => st.put key (some var)) with ⟨hno,heq⟩ | ⟨hyes,heq⟩
  · exact heq ▸ .unstored hno hwritable
  · exact heq ▸ .stored var hyes hattr hacc hexisting hnew

theorem updates_updateVariable (cfg : AuthConfig) (st : AuthState) (key : VariableKey) (data : Bytes)
    (attrs : UInt32) (timeStamp : Option Bytes) :
    Updates st key data attrs (updateVariable cfg st key data attrs timeStamp) := by
  unfold updateVariable
  split
  · rename_i var hfind
    unfold updateExisting
    split
    · exact .error (Kept.refl st) rfl
    rename_i hwr
    have hwritable : ∀ var, st.find key = some var → (st.atRuntime && !isNonVolatile var.attributes) = false := by
      intro var' hfind'
      rw [← Option.some.inj (hfind.symm.trans hfind')]
      exact Bool.eq_false_iff.mpr hwr
    split
    · rename_i hasks
      rcases commit_cases st (fun st => st.put key none) with ⟨hno,heq⟩ | ⟨hyes,heq⟩
      · exact heq ▸ .unstored hno hwritable
      · exact heq ▸ .deleted var hfind (hwritable var hfind) hyes hasks
    rename_i hasks
    have hnot : asksDeletion data attrs = false := Bool.eq_false_iff.mpr hasks
    have hacc : hasAccess attrs = true := by
      unfold asksDeletion at hnot
      cases hacc : hasAccess attrs with
      | true => rfl
      | false =>
        rw [hacc, Bool.not_false, Bool.or_true] at hnot
        cases hnot
    have hsome : st.find key = none → data.length ≠ 0 ∧ (st.atRuntime = true → isRuntime attrs = true) := by
      intro hnone
      rw [hfind] at hnone
      cases hnone
    split
    · exact .kept _ _ (Kept.refl st) fun _ => .inl hnot
    split
    · split
      · exact .error (Kept.refl st) rfl
      · exact updates_commit rfl hacc hwritable (fun _ => hnot) hsome
    · exact updates_commit rfl hacc hwritable (fun _ => hnot) hsome
  · rename_i hfind
    unfold updateNew
    split
    · exact .kept _ _ (Kept.refl st) fun _ => .inr hfind
    split
    · exact .error (Kept.refl st) rfl
    rename_i hno
    split
    · exact .error (Kept.refl st) rfl
    rename_i hruntime
    rw [Bool.or_eq_true, not_or] at hno
    refine updates_commit rfl ?_ (fun var hvar => ?_) (fun hne => absurd hfind hne) fun _ =>
      ⟨fun hzero => hno.1 (beq_iff_eq.mpr hzero), fun hrt => ?_⟩
    · cases hacc : hasAccess attrs with
      | true => rfl
      | false => exact absurd (congrArg (!·) hacc) hno.2
    · rw [hfind] at hvar
      cases hvar
    · by_contra hnot
      refine hruntime ?_
      change (st.atRuntime && (!isRuntime attrs || _)) = true
      rw [hrt, Bool.eq_false_iff.mpr hnot]
      rfl

def digestOf (cfg : AuthConfig) (call : Call) : Option Bytes :=
  (cfg.crypt.pkcs7GetSigners call.auth.sigData).bind fun signers =>
    cfg.crypt.signChainDigest signers.1 signers.2

def recordOf (cfg : AuthConfig) (st st' : AuthState) (call : Call) (cert : Option Bytes) : Option Bytes :=
  match st.timeBased call.key, st'.timeBased call.key with
  | none, some _ => digestOf cfg call
  | some _, some _ => cert
  | _, none => none

theorem timeBased_eq {var : Option AuthVariable} (h : st.stored key = var) :
    st.timeBased key = (var.map (·.attributes)).filter isTimeBased := by
  unfold AuthState.timeBased
  rw [h]

theorem timeBased_of_none (hsto : st.stored key = none) : st.timeBased key = none := timeBased_eq hsto

theorem timeBased_of_some (hsto : st.stored key = some var) :
    st.timeBased key = if isTimeBased var.attributes = true then some var.attributes else none := by
  rw [timeBased_eq hsto, map_some, filter_some]

theorem stored_put (st : AuthState) (key : VariableKey) (var : Option AuthVariable) :
    (st.put key var).stored key = var := Function.update_self _ _ _

theorem agreesAt_none (hnone : st'.timeBased call.key = none)
    (hcerts : ∀ nonVolatile, certsOf (st'.db nonVolatile) call.key = []) (cert : Option Bytes) :
    AgreesAt st' (recordOf cfg st st' call cert) call.key := by
  have hrec : recordOf cfg st st' call cert = none := by
    unfold recordOf
    rw [hnone]
    cases st.timeBased call.key <;> rfl
  rw [hrec]
  refine ⟨fun nonVolatile => ?_, ?_, fun attrs hattr => ?_⟩
  · rw [hcerts, hnone]
    rfl
  · rw [hnone]
    rfl
  · rw [hnone] at hattr
    cases hattr

theorem agreesAt_stays (h : AgreesAt st cert call.key) {attributes' : UInt32}
    (hbef : st.timeBased call.key = some attrs) (hafter : st'.timeBased call.key = some attributes')
    (hdb : ∀ nonVolatile, st'.db nonVolatile = st.db nonVolatile)
    (hkind : isNonVolatile attributes' = isNonVolatile attrs) (hacc : hasAccess attributes' = true) :
    AgreesAt st' (recordOf cfg st st' call cert) call.key := by
  have hrec : recordOf cfg st st' call cert = cert := by
    unfold recordOf
    rw [hbef, hafter]
  rw [hrec]
  refine ⟨fun nonVolatile => ?_, ?_, fun attributes'' hattr => ?_⟩
  · rw [hdb, h.nodes, hbef, hafter]
    unfold expectedCerts
    dsimp only
    rw [hkind]
  · rw [h.isSome, hbef, hafter]
    rfl
  · rw [hafter] at hattr
    rw [← Option.some.inj hattr]
    exact hacc

theorem AgreesAt.certs_nil (h : AgreesAt st cert key) (hnone : st.timeBased key = none)
    (nonVolatile : Bool) : certsOf (st.db nonVolatile) key = [] := by
  rw [h.nodes, hnone]
  rfl

theorem agreesAt_kept (h : AgreesAt st cert call.key) (hkept : Kept st st') :
    AgreesAt st' (recordOf cfg st st' call cert) call.key := by
  have hsame : st'.timeBased call.key = st.timeBased call.key := timeBased_eq (congrFun hkept.stored call.key)
  cases hbef : st.timeBased call.key with
  | none =>
    refine agreesAt_none (hsame.trans hbef) (fun nonVolatile => ?_) cert
    rw [hkept.db]
    exact h.certs_nil hbef nonVolatile
  | some attrs =>
    exact agreesAt_stays h hbef (hsame.trans hbef) hkept.db rfl (h.access attrs hbef)

theorem agreesAt_untimed (h : AgreesAt st cert call.key)
    (hbef : st.timeBased call.key = none) (hafter : st'.timeBased call.key = none)
    (hdb : ∀ nonVolatile, st'.db nonVolatile = st.db nonVolatile) :
    AgreesAt st' (recordOf cfg st st' call cert) call.key := by
  refine agreesAt_none hafter (fun nonVolatile => ?_) cert
  rw [hdb]
  exact h.certs_nil hbef nonVolatile

theorem certsOf_eraseP_self (nodes : List CertNode) (key : VariableKey) :
    certsOf (nodes.eraseP fun node => node.key == key) key = (certsOf nodes key).tail := by
  induction nodes with
  | nil => rfl
  | cons node rest ih =>
    unfold certsOf at ih ⊢
    cases hkey : node.key == key with
    | true =>
      rw [eraseP_cons_of_pos (by simpa using hkey), filter_cons_of_pos (by simpa using hkey)]
      rfl
    | false =>
      rw [eraseP_cons_of_neg (by simpa using hkey), filter_cons_of_neg (by simpa using hkey),
        filter_cons_of_neg (by simpa using hkey)]
      exact ih

theorem findCertsFromDb_eq (nodes : List CertNode) (key : VariableKey) :
    (findCertsFromDb nodes key).map (·.certData) = (certsOf nodes key).head? := by
  unfold findCertsFromDb certsOf
  rw [head?_map, head?_filter]

theorem agreesAt_deleted (h : AgreesAt st cert call.key)
    {attributes' : UInt32} (htime : st.timeBased call.key = some attrs)
    (hkind : isNonVolatile attributes' = isNonVolatile attrs)
    (hwr : (st.atRuntime && !isNonVolatile attrs) = false) (hyes : st.consume.outcome.stored = true) :
    AgreesAt (deleteCertsFromDb (st.consume.put call.key none) call.key attributes').2
      (recordOf cfg st (deleteCertsFromDb (st.consume.put call.key none) call.key attributes').2 call cert)
      call.key := by
  have hdb : ∀ nonVolatile, (st.consume.put call.key none).db nonVolatile = st.db nonVolatile := fun _ => rfl
  obtain ⟨record,hrec⟩ := Option.isSome_iff_exists.mp (h.isSome.trans (by rw [htime]; rfl))
  have hcerts : certsOf (st.db (isNonVolatile attrs)) call.key = [record] := by
    rw [h.nodes, htime, hrec]
    exact if_pos rfl
  have hother : ∀ nonVolatile, nonVolatile ≠ isNonVolatile attrs →
      certsOf (st.db nonVolatile) call.key = [] := by
    intro nonVolatile hne
    rw [h.nodes, htime]
    exact if_neg hne.symm
  have hne : st.db (isNonVolatile attrs) ≠ [] := by
    intro hnil
    rw [hnil] at hcerts
    cases hcerts
  have hfnd := findCertsFromDb_eq (st.db (isNonVolatile attrs)) call.key
  rw [hcerts] at hfnd
  obtain ⟨node,hnode,-⟩ := Option.map_eq_some_iff.mp hfnd
  unfold deleteCertsFromDb
  rw [hkind, hdb, if_neg hne, hnode]
  unfold setCertDb
  rw [if_neg (show ¬ ((st.consume.put call.key none).atRuntime && !isNonVolatile attrs) = true from
    Bool.eq_false_iff.mp hwr)]
  have hnodes := certsOf_eraseP_self (st.db (isNonVolatile attrs)) call.key
  rw [hcerts] at hnodes
  generalize (st.db (isNonVolatile attrs)).eraseP (fun node => node.key == call.key) = nodes at hnodes ⊢
  rcases commit_cases (st.consume.put call.key none) (fun st => st.putDb (isNonVolatile attrs) nodes) with
    ⟨hno, -⟩ | ⟨-, heq⟩
  · rw [show (st.consume.put call.key none).outcome.stored = true from hyes] at hno
    cases hno
  rw [heq]
  refine agreesAt_none (timeBased_of_none ?_) (fun nonVolatile => ?_) cert
  · cases isNonVolatile attrs <;> exact stored_put st.consume call.key none
  · rw [db_putDb]
    split
    · exact hnodes
    · rename_i hne'
      exact hother nonVolatile hne'

theorem find_of_stored (hsto : st.stored key = some var)
    (hruntime : ¬ (st.atRuntime && !isRuntime var.attributes) = true) : st.find key = some var := by
  unfold AuthState.find
  rw [hsto, filter_some, if_pos]
  cases hrt : st.atRuntime with
  | false => rfl
  | true =>
    rw [hrt, Bool.true_and] at hruntime
    cases h : isRuntime var.attributes with
    | true => rfl
    | false =>
      rw [h] at hruntime
      exact absurd rfl hruntime

theorem agreesAt_plain (h : AgreesAt st cert call.key) {data : Bytes} {timeStamp : Option Bytes}
    (hbef : st.timeBased call.key = none)
    (hplain : isTimeBased (attrs &&& ~~~efiVariableAppendWrite) = false) :
    AgreesAt (updateVariable cfg st call.key data attrs timeStamp).2
      (recordOf cfg st (updateVariable cfg st call.key data attrs timeStamp).2 call cert) call.key := by
  have hupdates := updates_updateVariable cfg st call.key data attrs timeStamp
  generalize updateVariable cfg st call.key data attrs timeStamp = r at hupdates ⊢
  cases hupdates with
  | kept status st' hkept hstatus => exact agreesAt_kept h hkept
  | unstored hno hwritable => exact agreesAt_kept h (kept_consume st)
  | deleted var hfind hwritable hyes hasks =>
    exact agreesAt_untimed h hbef (timeBased_of_none (stored_put st.consume call.key none)) fun _ => rfl
  | stored var hyes hattr haccess hexisting hnew =>
    refine agreesAt_untimed h hbef ?_ fun _ => rfl
    rw [timeBased_of_some (stored_put st.consume call.key (some var)), hattr, hplain, if_ff]

theorem kept_deleteCertsFromDb (hno : st.outcome.stored = false) (key : VariableKey) (attributes : UInt32) :
    Kept st (deleteCertsFromDb st key attributes).2 := by
  unfold deleteCertsFromDb
  split
  · exact Kept.refl st
  split
  · exact Kept.refl st
  unfold setCertDb
  split
  · exact Kept.refl st
  rcases commit_cases st (fun st' => st'.putDb (isNonVolatile attributes)
    ((st.db (isNonVolatile attributes)).eraseP fun node => node.key == key)) with ⟨-,heq⟩ | ⟨hyes,-⟩
  · rw [heq]
    exact kept_consume st
  · rw [hno] at hyes
    cases hyes

/-- A call that deletes a variable: its record goes with it, or both stay. -/
theorem agreesAt_deletes (h : AgreesAt st cert call.key) (hsound : Sound cfg st call)
    (hfind : st.find call.key = some var) (hbef : st.timeBased call.key = some var.attributes)
    {attributes' : UInt32} (hkind : isNonVolatile attributes' = isNonVolatile var.attributes)
    (hasks : asksDeletion data attrs = true)
    (hdeletes : (st.atRuntime && !isNonVolatile var.attributes) = false → deletesVariable cfg st call = true)
    {r : EfiStatus × AuthState} (hr : Updates st call.key data attrs r) :
    AgreesAt (if !r.1.isError then deleteCertsFromDb r.2 call.key attributes' else r).2
      (recordOf cfg st (if !r.1.isError then deleteCertsFromDb r.2 call.key attributes' else r).2 call cert)
      call.key := by
  have hsome : st.find call.key ≠ none := by
    rw [hfind]
    exact Option.some_ne_none var
  cases hr with
  | kept status st' hkept hstatus =>
    rw [isError_of_asks hstatus hasks hsome, if_neg (by decide)]
    exact agreesAt_kept h hkept
  | unstored hno hwritable =>
    have hboth := hsound.deletion (hdeletes (hwritable var hfind))
    rw [hno] at hboth
    cases herr : st.outcome.status.isError with
    | true =>
      rw [if_neg (by decide)]
      exact agreesAt_kept h (kept_consume st)
    | false =>
      rw [herr, Bool.not_false, Bool.true_and] at hboth
      rw [if_pos (by decide)]
      exact agreesAt_kept h ((kept_consume st).trans (kept_deleteCertsFromDb hboth.symm _ _))
  | deleted var' hfind' hwr hyes hasks' =>
    obtain rfl := Option.some.inj (hfind.symm.trans hfind')
    have hboth := hsound.deletion (hdeletes hwr)
    rw [hyes, eq_comm, Bool.and_eq_true] at hboth
    rw [if_pos hboth.1]
    exact agreesAt_deleted h hbef hkind hwr hboth.2
  | stored var' hyes hattr hacc hexisting hnew =>
    rw [hexisting hsome] at hasks
    cases hasks

theorem isDeletedAtPresence_spec (hfind : st.find call.key = some var)
    (hdel : isDeletedAtPresence st call = true) : call.attributes = var.attributes := by
  unfold isDeletedAtPresence at hdel
  rw [hfind, Bool.and_eq_true] at hdel
  have hdelete : isDeleteAuthVariable var.attributes call = true := hdel.1
  unfold isDeleteAuthVariable at hdelete
  rw [Bool.and_eq_true, Bool.and_eq_true, beq_iff_eq] at hdelete
  exact hdelete.1.1

theorem agreesAt_deleteAtPresence (h : AgreesAt st cert call.key)
    (hsound : Sound cfg st call) (hsto : st.stored call.key = some var)
    (hfind : st.find call.key = some var) (hdel : isDeletedAtPresence st call = true) :
    AgreesAt (deleteAtPresence cfg st call).2
      (recordOf cfg st (deleteAtPresence cfg st call).2 call cert) call.key := by
  have hattr := isDeletedAtPresence_spec hfind hdel
  have hbef := timeBased_of_some hsto
  unfold deleteAtPresence
  cases htime : isTimeBased call.attributes with
  | false =>
    rw [← hattr, htime, if_ff] at hbef
    rw [Bool.and_false, if_ff]
    exact agreesAt_plain h hbef (by decide)
  | true =>
    rw [if_pos (hattr ▸ htime)] at hbef
    rw [Bool.and_true]
    refine agreesAt_deletes h hsound hfind hbef (by rw [hattr]) rfl (fun hwr => ?_)
      (updates_updateVariable cfg st call.key [] 0 none)
    unfold deletesVariable
    rw [hfind]
    dsimp only
    rw [← hattr, htime, hattr, hwr, hdel]
    rfl

theorem hasAttribute_clearAppend (attrs : UInt32) {flag : UInt32}
    (hflag : ~~~efiVariableAppendWrite &&& flag = flag) :
    hasAttribute (attrs &&& ~~~efiVariableAppendWrite) flag = hasAttribute attrs flag := by
  unfold hasAttribute
  rw [UInt32.and_assoc, hflag]

theorem isTimeBased_clearAppend (attrs : UInt32) :
    isTimeBased (attrs &&& ~~~efiVariableAppendWrite) = isTimeBased attrs :=
  hasAttribute_clearAppend attrs (by decide)

theorem isNonVolatile_clearAppend (attrs : UInt32) :
    isNonVolatile (attrs &&& ~~~efiVariableAppendWrite) = isNonVolatile attrs :=
  hasAttribute_clearAppend attrs (by decide)

theorem hasAccess_clearAppend (attrs : UInt32) :
    hasAccess (attrs &&& ~~~efiVariableAppendWrite) = hasAccess attrs :=
  hasAttribute_clearAppend attrs (by decide)

theorem isTimeBased_of_processed (hproc : isProcessed call = true) : isTimeBased call.attributes = true :=
  (Bool.and_eq_true_iff.mp hproc).2

theorem agreesAt_updateVerified (h : AgreesAt st cert call.key)
    (hsound : Sound cfg st call) (hsto : st.stored call.key = some var)
    (hfind : st.find call.key = some var)
    (hguard : call.attributes &&& ~~~efiVariableAppendWrite = var.attributes)
    (hproc : isProcessed call = true) (hver : (verifySigners cfg st call).toBool = true) :
    AgreesAt (updateVerified cfg st call (isDel st call)).2
      (recordOf cfg st (updateVerified cfg st call (isDel st call)).2 call cert) call.key := by
  have htime : isTimeBased var.attributes = true := by
    rw [← hguard, isTimeBased_clearAppend, isTimeBased_of_processed hproc]
  have hbef := timeBased_of_some hsto
  rw [if_pos htime] at hbef
  have hkind : isNonVolatile call.attributes = isNonVolatile var.attributes := by
    rw [← hguard, isNonVolatile_clearAppend]
  have hsome : st.find call.key ≠ none := by
    rw [hfind]
    exact Option.some_ne_none var
  have hupdates := updates_updateVariable cfg st call.key call.auth.payload call.attributes
    (some call.auth.timeStamp)
  unfold updateVerified
  have hasks : asksDeletion call.auth.payload call.attributes = isDel st call := by
    have hacc := h.access var.attributes hbef
    rw [← hguard, hasAccess_clearAppend] at hacc
    unfold asksDeletion isDel
    rw [hacc, hfind, Bool.not_true, Bool.or_false, Option.isSome_some, Bool.true_and, Bool.and_comm]
  cases hdel : isDel st call with
  | true =>
    rw [hdel] at hasks
    rw [Bool.true_and]
    refine agreesAt_deletes h hsound hfind hbef hkind hasks (fun hwr => ?_) hupdates
    unfold deletesVariable
    rw [hfind]
    dsimp only
    rw [htime, hwr, hguard, beq_self_eq_true, hproc, hdel, hver]
    exact Bool.or_true _
  | false =>
    rw [hdel] at hasks
    rw [Bool.false_and, if_ff]
    generalize updateVariable cfg st call.key call.auth.payload call.attributes (some call.auth.timeStamp) = r
      at hupdates ⊢
    cases hupdates with
    | kept status st' hkept hst => exact agreesAt_kept h hkept
    | unstored hno hwritable => exact agreesAt_kept h (kept_consume st)
    | deleted var' hfind' hwr hyes hasks' =>
      rw [hasks] at hasks'
      cases hasks'
    | stored var' hyes hattr' hacc hexisting hnew =>
      rw [hguard] at hattr'
      refine @agreesAt_stays st (st.consume.put call.key (some var')) cfg call cert
        var.attributes h var'.attributes hbef ?_ (fun _ => rfl) (by rw [hattr']) ?_
      · rw [timeBased_of_some (stored_put st.consume call.key (some var')), if_pos (by rw [hattr', htime])]
      · rw [hattr']
        exact h.access var.attributes hbef

theorem verifySigners_error {status : EfiStatus} (herr : verifySigners cfg st call = .error status) :
    status.isError = true := by
  unfold verifySigners at herr
  split at herr
  · cases herr
    rfl
  split at herr
  · cases herr
    rfl
  split at herr
  · cases herr
    rfl
  split at herr
  · cases herr
  · cases herr
    rfl

theorem verifySigners_ok (hok : verifySigners cfg st call = .ok signers) :
    cfg.crypt.pkcs7GetSigners call.auth.sigData = some signers ∧ signersMatch cfg st call signers = true ∧
      cfg.crypt.pkcs7Verify call.auth.sigData signers.2
        (signedData call.key call.auth call.attributes) = true := by
  unfold verifySigners at hok
  split at hok
  · cases hok
  split at hok
  · cases hok
  split at hok
  · cases hok
  rename_i signers' hsigners
  split at hok
  · rename_i hboth
    obtain rfl := Except.ok.inj hok
    exact ⟨hsigners, Bool.and_eq_true_iff.mp hboth⟩
  · cases hok

theorem find_of_none (hsto : st.stored key = none) : st.find key = none := by
  unfold AuthState.find
  rw [hsto]
  rfl

/-- A record is added for a variable that does not exist: it is not, or nothing else has changed. -/
theorem insertCertsToDb_cases (h : AgreesAt st cert key)
    (hnone : st.timeBased key = none) (attrs : UInt32) (signers : Bytes × Bytes) :
    ((insertCertsToDb cfg st key attrs signers).1.isError = true ∧
        Kept st (insertCertsToDb cfg st key attrs signers).2) ∨
      ∃ digest, cfg.crypt.signChainDigest signers.1 signers.2 = some digest ∧
        nodeFits cfg (st.db (isNonVolatile attrs)) key = true ∧
        (st.atRuntime && !isNonVolatile attrs) = false ∧ insertCertsToDb cfg st key attrs signers =
          st.commit fun st' => st'.putDb (isNonVolatile attrs)
            (st.db (isNonVolatile attrs) ++ [⟨key, digest⟩]) := by
  have hfnd := findCertsFromDb_eq (st.db (isNonVolatile attrs)) key
  rw [h.certs_nil hnone, head?_nil, Option.map_eq_none_iff] at hfnd
  unfold insertCertsToDb
  rw [hfnd]
  cases hfits : nodeFits cfg (st.db (isNonVolatile attrs)) key with
  | false => exact .inl ⟨rfl, Kept.refl st⟩
  | true =>
    cases hdigest : cfg.crypt.signChainDigest signers.1 signers.2 with
    | none => exact .inl ⟨rfl, Kept.refl st⟩
    | some digest =>
      dsimp only
      unfold setCertDb
      cases hwr : st.atRuntime && !isNonVolatile attrs with
      | true => exact .inl ⟨rfl, Kept.refl st⟩
      | false => exact .inr ⟨digest, rfl, rfl, rfl, rfl⟩

theorem updateVariable_created {st₁ : AuthState} (hfind : st₁.find key = none) {data : Bytes}
    {timeStamp : Option Bytes} (hdata : (data.length != 0) = true) (hacc : hasAccess attrs = true)
    (hwr : (st₁.atRuntime && !isNonVolatile attrs) = false) (hrt : (!st₁.atRuntime || isRuntime attrs) = true)
    (hyes : st₁.outcome.stored = true) :
    ∃ var, var.attributes = attrs &&& ~~~efiVariableAppendWrite ∧
      updateVariable cfg st₁ key data attrs timeStamp = (st₁.outcome.status, st₁.consume.put key (some var)) := by
  have hlen : (data.length == 0) = false := by rwa [bne, Bool.not_eq_true'] at hdata
  refine ⟨updatedVariable ⟨key.name, key.vendorGuid, data, attrs, 0, 0, timeStamp⟩ none data, rfl, ?_⟩
  have haccess' : UpdateRequest.hasAccess ⟨key.name, key.vendorGuid, data, attrs, 0, 0, timeStamp⟩ = true :=
    hacc
  have hruntime' : (st₁.atRuntime && (!isRuntime attrs ||
      !UpdateRequest.isNonVolatile ⟨key.name, key.vendorGuid, data, attrs, 0, 0, timeStamp⟩)) = false := by
    cases hat : st₁.atRuntime with
    | false => rfl
    | true =>
      rw [hat] at hrt hwr
      rw [show isRuntime attrs = true from hrt]
      exact hwr
  unfold updateVariable
  rw [hfind]
  unfold updateNew
  rw [hlen, Bool.false_and, if_ff, haccess', Bool.not_true, Bool.or_false,
    if_ff, hruntime', if_ff]
  unfold AuthState.commit
  rw [hyes]
  rfl

theorem kept_unstorable {st₁ : AuthState} (hfind : st₁.find key = none) {timeStamp : Option Bytes}
    (hno : (isStorable st₁ attrs && st₁.outcome.stored) = false) :
    Kept st₁ (updateVariable cfg st₁ key data attrs timeStamp).2 := by
  have hupdates := updates_updateVariable cfg st₁ key data attrs timeStamp
  generalize updateVariable cfg st₁ key data attrs timeStamp = r at hupdates ⊢
  cases hupdates with
  | kept status st' hkept hstatus => exact hkept
  | unstored hno hwritable => exact kept_consume st₁
  | deleted var hfind' hwr hyes hasks =>
    rw [hfind] at hfind'
    cases hfind'
  | stored var hyes hattr hacc hexisting hnew =>
    have hrt : (!st₁.atRuntime || isRuntime attrs) = true := by
      cases hat : st₁.atRuntime with
      | false => rfl
      | true => exact (hnew hfind).2 hat
    unfold isStorable at hno
    rw [hyes, hacc, hrt] at hno
    cases hno

theorem agreesAt_created (h : AgreesAt st cert call.key)
    (hbef : st.timeBased call.key = none) (hproc : isProcessed call = true)
    (hsigners : cfg.crypt.pkcs7GetSigners call.auth.sigData = some signers)
    {digest : Bytes} (hdigest : cfg.crypt.signChainDigest signers.1 signers.2 = some digest)
    (hacc : hasAccess call.attributes = true)
    (hattr : var.attributes = call.attributes &&& ~~~efiVariableAppendWrite)
    (hst' : st' = ((st.consume.putDb (isNonVolatile call.attributes)
      (st.db (isNonVolatile call.attributes) ++ [⟨call.key, digest⟩])).consume.put call.key (some var))) :
    AgreesAt st' (recordOf cfg st st' call cert) call.key := by
  have htime : isTimeBased var.attributes = true := by
    rw [hattr, isTimeBased_clearAppend, isTimeBased_of_processed hproc]
  have hafter : st'.timeBased call.key = some var.attributes := by
    rw [hst', timeBased_of_some (stored_put _ call.key (some var)), if_pos htime]
  have hrec : recordOf cfg st st' call cert = some digest := by
    unfold recordOf digestOf
    rw [hbef, hafter, hsigners]
    exact hdigest
  have hkind : isNonVolatile var.attributes = isNonVolatile call.attributes := by
    rw [hattr, isNonVolatile_clearAppend]
  have hdb : ∀ nonVolatile, st'.db nonVolatile = if nonVolatile = isNonVolatile call.attributes then
      st.db (isNonVolatile call.attributes) ++ [⟨call.key, digest⟩] else st.db nonVolatile := by
    intro nonVolatile
    rw [hst']
    exact db_putDb st.consume _ nonVolatile _
  rw [hrec]
  refine ⟨fun nonVolatile => ?_, ?_, fun attrs hattributes => ?_⟩
  · rw [hdb, hafter]
    unfold expectedCerts
    dsimp only
    rw [hkind]
    split
    · rename_i heq
      rw [if_pos heq.symm, certsOf_append, certsOf_singleton_self, h.certs_nil hbef]
      rfl
    · rename_i hne
      rw [if_neg (Ne.symm hne)]
      exact h.certs_nil hbef nonVolatile
  · rw [hafter]
    rfl
  · rw [hafter] at hattributes
    rw [← Option.some.inj hattributes, hattr, hasAccess_clearAppend]
    exact hacc

/-- The record of a new variable has been added, or not, and the variable is stored, or not. -/
theorem agreesAt_inserted (h : AgreesAt st cert call.key) (hsto : st.stored call.key = none)
    (hproc : isProcessed call = true) (hdata : (call.auth.payload.length != 0) = true)
    (hsigners : cfg.crypt.pkcs7GetSigners call.auth.sigData = some signers)
    {digest : Bytes} (hdigest : cfg.crypt.signChainDigest signers.1 signers.2 = some digest)
    (hwr : (st.atRuntime && !isNonVolatile call.attributes) = false)
    (hboth : st.outcome.stored = (isStorable st call.attributes && st.consume.outcome.stored))
    {st₁ : AuthState} (hst₁ : st₁ = (st.commit fun st' => st'.putDb (isNonVolatile call.attributes)
      (st.db (isNonVolatile call.attributes) ++ [⟨call.key, digest⟩])).2) {timeStamp : Option Bytes} :
    AgreesAt (updateVariable cfg st₁ call.key call.auth.payload call.attributes timeStamp).2
      (recordOf cfg st (updateVariable cfg st₁ call.key call.auth.payload call.attributes timeStamp).2 call cert)
      call.key := by
  rcases commit_cases st (fun st' => st'.putDb (isNonVolatile call.attributes)
    (st.db (isNonVolatile call.attributes) ++ [⟨call.key, digest⟩])) with ⟨hno,heq⟩ | ⟨hyes,heq⟩
  · rw [heq] at hst₁
    rw [hno] at hboth
    have hfind : st.consume.find call.key = none := find_of_none hsto
    rw [hst₁]
    exact agreesAt_kept h ((kept_consume st).trans (kept_unstorable hfind hboth.symm))
  rw [heq] at hst₁
  rw [hyes, eq_comm, Bool.and_eq_true, isStorable, Bool.and_eq_true] at hboth
  obtain ⟨⟨hacc,hrt⟩,hyes₁⟩ := hboth
  have hconsumed : st₁.stored = st.stored ∧ st₁.atRuntime = st.atRuntime ∧ st₁.outcome = st.consume.outcome := by
    rw [hst₁]
    cases isNonVolatile call.attributes <;> exact ⟨rfl, rfl, rfl⟩
  obtain ⟨hsto₁,hatRt₁,hout₁⟩ := hconsumed
  obtain ⟨var,hattr,hcreated⟩ := @updateVariable_created call.key cfg call.attributes st₁
    (find_of_none ((congrFun hsto₁ call.key).trans hsto)) call.auth.payload timeStamp hdata hacc
    (hatRt₁ ▸ hwr) (hatRt₁ ▸ hrt) (hout₁ ▸ hyes₁)
  rw [hcreated]
  exact agreesAt_created h (timeBased_of_none hsto) hproc hsigners hdigest hacc hattr (by rw [hst₁])

theorem isTimeBased_of_plain (h : isAuthenticated attrs = false) : isTimeBased attrs = false := by
  unfold isAuthenticated hasAttribute at h
  unfold isTimeBased hasAttribute
  rw [bne, Bool.not_eq_false', beq_iff_eq] at h ⊢
  have hflag : (efiVariableTimeBasedAuthenticatedWriteAccess ||| efiVariableAuthenticatedWriteAccess) &&&
      efiVariableTimeBasedAuthenticatedWriteAccess = efiVariableTimeBasedAuthenticatedWriteAccess := by decide
  rw [← hflag, ← UInt32.and_assoc, h, UInt32.zero_and]

theorem verifyTimeBasedPayload_error {status : EfiStatus} (h : verifySigners cfg st call = .error status) :
    verifyTimeBasedPayload cfg st call = (status,st) := by
  unfold verifyTimeBasedPayload
  rw [h]

theorem verifyTimeBasedPayload_success (h : verifySigners cfg st call = .ok signers)
    (hnew : ((st.find call.key).isNone && call.auth.payload.length != 0) = false) :
    verifyTimeBasedPayload cfg st call = (.success, st) := by
  unfold verifyTimeBasedPayload
  rw [h]
  dsimp only
  rw [hnew, if_ff]

section
variable (h : AgreesAt st cert call.key) (hsound : Sound cfg st call)
include h hsound

theorem agreesAt_verified (hsto : st.stored call.key = some var) (hfind : st.find call.key = some var)
    (hguard : call.attributes &&& ~~~efiVariableAppendWrite = var.attributes)
    (hproc : isProcessed call = true) : AgreesAt (verifyTimeBasedPayloadAndUpdate cfg st call).2
      (recordOf cfg st (verifyTimeBasedPayloadAndUpdate cfg st call).2 call cert) call.key := by
  unfold verifyTimeBasedPayloadAndUpdate
  cases hverify : verifySigners cfg st call with
  | error status =>
    rw [verifyTimeBasedPayload_error hverify]
    rw [if_pos (verifySigners_error hverify)]
    exact agreesAt_kept h (Kept.refl st)
  | ok signers =>
    have hnew : ((st.find call.key).isNone && call.auth.payload.length != 0) = false := by
      rw [hfind, Option.isNone_some, Bool.false_and]
    rw [verifyTimeBasedPayload_success hverify hnew]
    exact agreesAt_updateVerified h hsound hsto hfind hguard hproc (by rw [hverify]; rfl)

theorem agreesAt_create (hsto : st.stored call.key = none) (hproc : isProcessed call = true) :
    AgreesAt (verifyTimeBasedPayloadAndUpdate cfg st call).2
      (recordOf cfg st (verifyTimeBasedPayloadAndUpdate cfg st call).2 call cert) call.key := by
  have hfind := find_of_none hsto
  have hbef := timeBased_of_none hsto
  have hdel : isDel st call = false := by
    unfold isDel
    rw [hfind]
    rfl
  unfold verifyTimeBasedPayloadAndUpdate
  rw [hdel]
  have hupd : ∀ st₁, updateVerified cfg st₁ call false =
      updateVariable cfg st₁ call.key call.auth.payload call.attributes (some call.auth.timeStamp) := by
    intro st₁
    unfold updateVerified
    rw [Bool.false_and, if_ff]
  rw [hupd]
  cases hverify : verifySigners cfg st call with
  | error status =>
    rw [verifyTimeBasedPayload_error hverify]
    rw [if_pos (verifySigners_error hverify)]
    exact agreesAt_kept h (Kept.refl st)
  | ok signers =>
    cases hdata : call.auth.payload.length != 0 with
    | false =>
      have hnew : ((st.find call.key).isNone && call.auth.payload.length != 0) = false := by
        rw [hdata, Bool.and_false]
      rw [verifyTimeBasedPayload_success hverify hnew]
      have hupdates := updates_updateVariable cfg st call.key call.auth.payload call.attributes
        (some call.auth.timeStamp)
      generalize updateVariable cfg st call.key call.auth.payload call.attributes
        (some call.auth.timeStamp) = r at hupdates ⊢
      cases hupdates with
      | kept status st' hkept hstatus => exact agreesAt_kept h hkept
      | deleted var hfind' hwr herr hasks =>
        rw [hfind] at hfind'
        cases hfind'
      | unstored hno hwritable => exact agreesAt_kept h (kept_consume st)
      | stored var hyes hattr hacc hexisting hnew =>
        rw [bne, Bool.not_eq_false', beq_iff_eq] at hdata
        exact absurd hdata (hnew hfind).1
    | true =>
      have hpay : verifyTimeBasedPayload cfg st call =
          if (insertCertsToDb cfg st call.key call.attributes signers).1.isError then
            (.securityViolation, (insertCertsToDb cfg st call.key call.attributes signers).2)
          else (.success, (insertCertsToDb cfg st call.key call.attributes signers).2) := by
        unfold verifyTimeBasedPayload
        rw [hverify]
        rw [hdata, hfind]
        exact if_pos rfl
      rcases @insertCertsToDb_cases call.key st cfg cert h hbef call.attributes signers with
        ⟨herr, hkept⟩ | ⟨digest, hdigest, hfits, hwr, heq⟩
      · rw [if_pos herr] at hpay
        rw [hpay]
        exact agreesAt_kept h hkept
      have hadds : addsRecord cfg st call = true := by
        unfold addsRecord
        rw [hsto, hproc, hdata, hfits, hwr, hverify]
        dsimp only
        rw [hdigest]
        rfl
      have hboth := hsound.creation hadds
      rw [heq] at hpay
      cases herr : st.outcome.status.isError with
      | true =>
        -- certdb is not updated, and the variable is not tried
        rw [herr, Bool.not_true, Bool.false_and] at hboth
        rw [hpay.trans (if_pos herr)]
        dsimp only
        rw [if_pos (by decide)]
        rcases commit_cases st (fun st' => st'.putDb (isNonVolatile call.attributes)
          (st.db (isNonVolatile call.attributes) ++ [⟨call.key, digest⟩])) with ⟨-,heq'⟩ | ⟨hyes,-⟩
        · rw [heq']
          exact agreesAt_kept h (kept_consume st)
        · rw [hboth] at hyes
          cases hyes
      | false =>
        rw [herr, Bool.not_false, Bool.true_and] at hboth
        rw [hpay.trans (if_neg (Bool.eq_false_iff.mp herr))]
        dsimp only
        rw [if_neg (by decide)]
        exact agreesAt_inserted h hsto hproc hdata (verifySigners_ok hverify).1 hdigest hwr hboth rfl

theorem agreesAt_setVariable :
    AgreesAt (setVariable cfg st call).2 (recordOf cfg st (setVariable cfg st call).2 call cert) call.key := by
  unfold setVariable
  cases hsto : st.stored call.key with
  | none =>
    have hfind := find_of_none hsto
    have hpresence : isDeletedAtPresence st call = false := by
      unfold isDeletedAtPresence
      rw [hfind]
      rfl
    have hprotected : isWriteProtected st call = false := by
      unfold isWriteProtected
      rw [hfind]
    dsimp only
    unfold processVariable
    rw [hpresence, hprotected, if_ff]
    split
    · exact agreesAt_kept h (Kept.refl st)
    rename_i hpresent
    split
    · exact agreesAt_kept h (Kept.refl st)
    rename_i hcounter
    split
    · rename_i htime
      refine agreesAt_create h hsound hsto ?_
      unfold isProcessed
      rw [Bool.eq_false_iff.mpr hpresent, Bool.eq_false_iff.mpr hcounter, htime]
      rfl
    rename_i htime
    refine agreesAt_plain h (timeBased_of_none hsto) ?_
    rw [isTimeBased_clearAppend]
    exact Bool.eq_false_iff.mpr htime
  | some var =>
    dsimp only
    split
    · exact agreesAt_kept h (Kept.refl st)
    rename_i hrt
    have hfind := find_of_stored hsto hrt
    split
    · exact agreesAt_kept h (Kept.refl st)
    rename_i hattr
    have hguard : call.attributes = 0 ∨
        call.attributes &&& ~~~efiVariableAppendWrite = var.attributes := by
      by_cases hzero : call.attributes = 0
      · exact .inl hzero
      · exact .inr (not_not.mp fun hne => hattr ⟨hzero, hne⟩)
    unfold processVariable
    split
    · rename_i hdel
      exact agreesAt_deleteAtPresence h hsound hsto hfind hdel
    split
    · exact agreesAt_kept h (Kept.refl st)
    rename_i hpresent
    split
    · exact agreesAt_kept h (Kept.refl st)
    rename_i hcounter
    split
    · rename_i htime
      have hsame : call.attributes &&& ~~~efiVariableAppendWrite = var.attributes := by
        refine hguard.resolve_left fun hzero => ?_
        rw [hzero] at htime
        cases htime
      have hproc : isProcessed call = true := by
        unfold isProcessed
        rw [Bool.eq_false_iff.mpr hpresent, Bool.eq_false_iff.mpr hcounter, htime]
        rfl
      exact agreesAt_verified h hsound hsto hfind hsame hproc
    · rename_i htime
      split
      · exact agreesAt_kept h (Kept.refl st)
      rename_i hprotected
      have hplain : isTimeBased var.attributes = false := by
        unfold isWriteProtected at hprotected
        rw [hfind] at hprotected
        exact isTimeBased_of_plain (Bool.eq_false_iff.mpr hprotected)
      refine agreesAt_plain h ?_ ?_
      · rw [timeBased_of_some hsto, hplain, if_ff]
      · rw [isTimeBased_clearAppend]
        exact Bool.eq_false_iff.mpr htime

end

end

inductive Event
  | set (call : Call)
  | exitBootServices
deriving DecidableEq, Repr

def step (cfg : AuthConfig) (st : AuthState) : Event → AuthState
  | .set call => (setVariable cfg st call).2
  | .exitBootServices => { st with atRuntime := true }

def run (cfg : AuthConfig) (st : AuthState) (events : List Event) : AuthState := events.foldl (step cfg) st

def recordStep (cfg : AuthConfig) (st : AuthState) (recorded : VariableKey → Option Bytes) :
    Event → VariableKey → Option Bytes
  | .set call =>
    Function.update recorded call.key
      (recordOf cfg st (setVariable cfg st call).2 call (recorded call.key))
  | .exitBootServices => recorded

def recordRun (cfg : AuthConfig) : AuthState → (VariableKey → Option Bytes) → List Event →
    VariableKey → Option Bytes
  | _, recorded, [] => recorded
  | st, recorded, event :: events => recordRun cfg (step cfg st event) (recordStep cfg st recorded event) events

def SoundRun (cfg : AuthConfig) : AuthState → List Event → Prop
  | _, [] => True
  | st, .set call :: events => Sound cfg st call ∧ SoundRun cfg (setVariable cfg st call).2 events
  | st, .exitBootServices :: events => SoundRun cfg { st with atRuntime := true } events

section
variable {cfg : AuthConfig} {st : AuthState} {recorded : VariableKey → Option Bytes} {call : Call}

theorem Agrees.setVariable (h : Agrees st recorded) (hsound : Sound cfg st call) :
    Agrees (setVariable cfg st call).2 (recordStep cfg st recorded (.set call)) := by
  intro key
  dsimp only [recordStep]
  by_cases hkey : key = call.key
  · rw [hkey, Function.update_self]
    exact agreesAt_setVariable (h call.key) hsound
  · rw [Function.update_of_ne hkey]
    exact (h key).touches (touches_setVariable cfg st call) hkey

theorem Agrees.exitBootServices (h : Agrees st recorded) : Agrees { st with atRuntime := true } recorded :=
  fun key => ⟨(h key).nodes, (h key).isSome, (h key).access⟩

theorem Agrees.run {events : List Event} (h : Agrees st recorded) (hsound : SoundRun cfg st events) :
    Agrees (run cfg st events) (recordRun cfg st recorded events) := by
  induction events generalizing st recorded with
  | nil => exact h
  | cons event events ih =>
    cases event with
    | set call => exact ih (h.setVariable hsound.1) hsound.2
    | exitBootServices => exact ih h.exitBootServices hsound

/-- A call that succeeds for a variable that exists, and is not deleted at user physical presence, is signed
by the signers of its record. -/
theorem Agrees.signed (h : Agrees st recorded) {attrs : UInt32}
    (htime : st.timeBased call.key = some attrs) (hdel : isDeletedAtPresence st call = false)
    (hok : (Auth.setVariable cfg st call).1 = .success) : ∃ signers cert, recorded call.key = some cert ∧
      cfg.crypt.pkcs7GetSigners call.auth.sigData = some signers ∧ isSignedBy cfg signers cert = true ∧
      cfg.crypt.pkcs7Verify call.auth.sigData signers.2
        (signedData call.key call.auth call.attributes) = true := by
  obtain ⟨var,hsto,hvar⟩ : ∃ var, st.stored call.key = some var ∧ isTimeBased var.attributes = true := by
    obtain ⟨hmap,hfilter⟩ := Option.filter_eq_some_iff.mp htime
    obtain ⟨var,hsto,rfl⟩ := Option.map_eq_some_iff.mp hmap
    exact ⟨var, hsto, hfilter⟩
  have hattr : attrs = var.attributes := by
    rw [timeBased_of_some hsto, if_pos hvar] at htime
    exact (Option.some.inj htime).symm
  unfold Auth.setVariable at hok
  rw [hsto] at hok
  dsimp only at hok
  split at hok
  · cases hok
  rename_i hrt
  have hfind := find_of_stored hsto hrt
  split at hok
  · cases hok
  rename_i hguard
  unfold processVariable at hok
  rw [hdel, if_ff] at hok
  split at hok
  · cases hok
  split at hok
  · cases hok
  split at hok
  · rename_i hcall
    have hsame : call.attributes &&& ~~~efiVariableAppendWrite = var.attributes := by
      refine not_not.mp fun hne => hguard ⟨?_, hne⟩
      intro hzero
      rw [hzero] at hcall
      cases hcall
    cases hverify : verifySigners cfg st call with
    | error status =>
      have herr := verifySigners_error hverify
      unfold verifyTimeBasedPayloadAndUpdate at hok
      rw [verifyTimeBasedPayload_error hverify] at hok
      rw [if_pos herr] at hok
      dsimp only at hok
      rw [hok] at herr
      cases herr
    | ok signers =>
      obtain ⟨hsigners,hmatch,hpkcs7⟩ := verifySigners_ok hverify
      have hkind : isNonVolatile call.attributes = isNonVolatile var.attributes := by
        rw [← hsame, isNonVolatile_clearAppend]
      obtain ⟨cert,hcert⟩ := Option.isSome_iff_exists.mp
        ((h call.key).isSome.trans (by rw [htime]; rfl))
      have hcerts : certsOf (st.db (isNonVolatile call.attributes)) call.key = [cert] := by
        rw [(h call.key).nodes, htime, hcert, hattr, hkind]
        exact if_pos rfl
      have hfnd := findCertsFromDb_eq (st.db (isNonVolatile call.attributes)) call.key
      rw [hcerts] at hfnd
      obtain ⟨node,hnode,hdata⟩ := Option.map_eq_some_iff.mp hfnd
      unfold signersMatch at hmatch
      rw [hfind, hnode] at hmatch
      exact ⟨signers, cert, hcert, hsigners, hdata ▸ hmatch, hpkcs7⟩
  · exfalso
    have hprotected : isWriteProtected st call = true := by
      unfold isWriteProtected
      rw [hfind]
      cases hauth : isAuthenticated var.attributes with
      | true => exact hauth
      | false =>
        rw [isTimeBased_of_plain hauth] at hvar
        cases hvar
    rw [hprotected, if_pos rfl] at hok
    cases hok

end

def anySigner : AuthConfig where
  driver :=
    { authFormat := true, emuNvMode := false, flashDevice := FlashDevice.nor, nonVolatileVariableBase := 0
      fvLength := 0, blockMap := [], scratchBufferSize := 4096, maxVariableSize := 1024
      maxAuthVariableSize := 1024, maxVolatileVariableSize := 1024, pcdMaxHardwareErrorVariableSize := 1024
      pcdHwErrStorageSize := 0, commonVariableSpace := 0, commonRuntimeVariableSpace := 0
      commonMaxUserVariableSpace := 0, variablePropertyGet := fun _ _ => false }
  crypt :=
    { pkcs7GetSigners := fun _ => some ([1], [2])
      pkcs7Verify := fun _ _ _ => true
      signChainDigest := fun _ _ => some (replicate 32 7)
      length_digest := fun _ _ _ h => Option.some.inj h ▸ rfl }
  maxCertDbSize := 1000

def noVariables (updates : List UpdateOutcome) : AuthState := ⟨fun _ => none, [], [], false, updates⟩

theorem agrees_noVariables (updates : List UpdateOutcome) : Agrees (noVariables updates) fun _ => none := by
  refine fun key => ⟨fun nonVolatile => ?_, rfl, fun attributes hattr => by cases hattr⟩
  cases nonVolatile <;> rfl

def createA : Call where
  key := ⟨[0x41, 0, 0, 0], replicate 16 1⟩
  auth := ⟨replicate 16 0, winCertTypeEfiGuid, efiCertPkcs7Guid, [], [1]⟩
  raw := []
  attributes := 0x27
  userPhysicalPresent := false

end Liano.Auth
