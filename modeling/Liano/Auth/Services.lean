import Liano.Variable.Update

/-! Time based authenticated variables and the records of their signers (AuthVariableLib/AuthService.c).
The stores are taken as what they hold: a variable for a name, and the nodes of certdb and certdbv. The
variables that `ProcessVariable` is called for are kept; PK, KEK, db, dbx and dbt are none of them, and
certdb and certdbv are read-only for the callers. -/
namespace Liano.Auth
open Variable
open Bytes (leBytes)

/-- The descriptor `EFI_VARIABLE_AUTHENTICATION_2` that Data begins with, and the payload behind it. -/
structure AuthData where
  timeStamp : Bytes
  wCertificateType : Nat
  certType : Bytes
  sigData : Bytes
  payload : Bytes
deriving DecidableEq, Repr

/-- The PKCS#7 and X.509 routines. `pkcs7GetSigners` returns the stack of the signer's certificates and
the top level certificate. -/
structure CryptLib where
  pkcs7GetSigners : Bytes → Option (Bytes × Bytes)
  pkcs7Verify : Bytes → Bytes → Bytes → Bool
  signChainDigest : Bytes → Bytes → Option Bytes
  length_digest : ∀ signerCerts topLevelCert digest,
    signChainDigest signerCerts topLevelCert = some digest → digest.length = 32

structure AuthConfig where
  driver : VariableConfig
  crypt : CryptLib
  maxCertDbSize : Nat

structure AuthVariable where
  attributes : UInt32
  timeStamp : Bytes
  data : Bytes
deriving DecidableEq, Repr

structure CertNode where
  key : VariableKey
  certData : Bytes
deriving DecidableEq, Repr

/-- How `UpdateVariable` ends once it has passed its checks: what it returns, and whether the change is in the store
then. A variable may be stored before a later step fails, and after a reclaim the status is that of the reclaim. -/
structure UpdateOutcome where
  status : EfiStatus
  stored : Bool
deriving DecidableEq, Repr

/-- The stores. The outcomes of the coming store updates are given; where the list ends they succeed. -/
structure AuthState where
  stored : VariableKey → Option AuthVariable
  certDb : List CertNode
  certDbVolatile : List CertNode
  atRuntime : Bool
  updates : List UpdateOutcome

/-- The arguments of a call. `raw` is Data where it is not read as a descriptor. -/
structure Call where
  key : VariableKey
  auth : AuthData
  raw : Bytes
  attributes : UInt32
  userPhysicalPresent : Bool
deriving DecidableEq, Repr

def isNonVolatile (attributes : UInt32) : Bool := hasAttribute attributes efiVariableNonVolatile

def isTimeBased (attributes : UInt32) : Bool :=
  hasAttribute attributes efiVariableTimeBasedAuthenticatedWriteAccess

def isRuntime (attributes : UInt32) : Bool := hasAttribute attributes efiVariableRuntimeAccess

def isAppendWrite (attributes : UInt32) : Bool := hasAttribute attributes efiVariableAppendWrite

/-- `FindVariable` without IgnoreRtCheck. -/
def AuthState.find (st : AuthState) (key : VariableKey) : Option AuthVariable :=
  (st.stored key).filter fun var => !st.atRuntime || isRuntime var.attributes

def AuthState.outcome (st : AuthState) : UpdateOutcome := st.updates.headD ⟨.success, true⟩

def AuthState.consume (st : AuthState) : AuthState := { st with updates := st.updates.tail }

def AuthState.commit (st : AuthState) (change : AuthState → AuthState) : EfiStatus × AuthState :=
  (st.outcome.status, if st.outcome.stored then change st.consume else st.consume)

def AuthState.put (st : AuthState) (key : VariableKey) (var : Option AuthVariable) : AuthState :=
  { st with stored := Function.update st.stored key var }

def maxDataSize (cfg : AuthConfig) (key : VariableKey) (req : UpdateRequest) : Nat :=
  if isHardwareErrorRecord req.attributes then
    uintnSub cfg.driver.pcdMaxHardwareErrorVariableSize
      (getVariableHeaderSize cfg.driver.authFormat + key.name.length)
  else if req.isAuthenticated then
    uintnSub cfg.driver.maxAuthVariableSize
      (getVariableHeaderSize cfg.driver.authFormat + key.name.length)
  else if req.isNonVolatile then
    uintnSub cfg.driver.maxVariableSize
      (getVariableHeaderSize cfg.driver.authFormat + key.name.length)
  else
    uintnSub cfg.driver.maxVolatileVariableSize
      (getVariableHeaderSize cfg.driver.authFormat + key.name.length)

def updatedVariable (req : UpdateRequest) (old : Option AuthVariable) (data : Bytes) : AuthVariable where
  attributes := req.attributes &&& ~~~efiVariableAppendWrite
  timeStamp := newTimeStamp req (old.map (·.timeStamp))
  data := data

section
variable (cfg : AuthConfig) (st : AuthState)

/-- `UpdateVariable` of an existing variable. -/
def updateExisting (key : VariableKey) (req : UpdateRequest)
    (var : AuthVariable) : EfiStatus × AuthState :=
  if st.atRuntime && !isNonVolatile var.attributes then (.writeProtected, st)
  else if (!req.isAppend && req.data.length == 0) || !req.hasAccess then
    st.commit fun st => st.put key none
  else if var.data == req.data && !req.isAppend && req.timeStamp.isNone then (.success, st)
  else if req.isAppend then
    if var.data.length+req.data.length > maxDataSize cfg key req then (.invalidParameter, st)
    else st.commit fun st => st.put key (some (updatedVariable req (some var) (var.data ++ req.data)))
  else st.commit fun st => st.put key (some (updatedVariable req (some var) req.data))

/-- `UpdateVariable` of a new variable. -/
def updateNew (key : VariableKey) (req : UpdateRequest) : EfiStatus × AuthState :=
  if req.data.length == 0 && req.isAppend then (.success, st)
  else if req.data.length == 0 || !req.hasAccess then (.notFound, st)
  else if st.atRuntime && (!isRuntime req.attributes || !req.isNonVolatile) then (.invalidParameter, st)
  else st.commit fun st => st.put key (some (updatedVariable req none req.data))

/-- `UpdateVariable`, behind the lookup of `VariableExLibUpdateVariable`. -/
def updateVariable (key : VariableKey) (data : Bytes)
    (attributes : UInt32) (timeStamp : Option Bytes) : EfiStatus × AuthState := match st.find key with
  | some var => updateExisting cfg st key ⟨key.name, key.vendorGuid, data, attributes, 0, 0, timeStamp⟩ var
  | none => updateNew st key ⟨key.name, key.vendorGuid, data, attributes, 0, 0, timeStamp⟩

def AuthState.db (nonVolatile : Bool) : List CertNode :=
  if nonVolatile then st.certDb else st.certDbVolatile

def AuthState.putDb (nonVolatile : Bool) (nodes : List CertNode) : AuthState :=
  if nonVolatile then { st with certDb := nodes } else { st with certDbVolatile := nodes }

/-- `AuthServiceInternalUpdateVariable` of certdb or certdbv, which exist. -/
def setCertDb (nonVolatile : Bool) (nodes : List CertNode) : EfiStatus × AuthState :=
  if st.atRuntime && !nonVolatile then (.writeProtected, st)
  else st.commit fun st => st.putDb nonVolatile nodes

def CertNode.size (node : CertNode) : Nat := 28 + (node.key.name.length-2) + node.certData.length

def certDbListSize (nodes : List CertNode) : Nat := 4 + (nodes.map CertNode.size).sum

def findCertsFromDb (nodes : List CertNode) (key : VariableKey) : Option CertNode :=
  nodes.find? fun node => node.key == key

def deleteCertsFromDb (key : VariableKey) (attributes : UInt32) : EfiStatus × AuthState :=
  if st.db (isNonVolatile attributes) = [] then (.success, st)
  else
    match findCertsFromDb (st.db (isNonVolatile attributes)) key with
    | none => (.notFound, st)
    | some _ =>
      setCertDb st (isNonVolatile attributes)
        ((st.db (isNonVolatile attributes)).eraseP fun node => node.key == key)

def nodeFits (cfg : AuthConfig) (nodes : List CertNode) (key : VariableKey) : Bool :=
  decide (toUint32 (certDbListSize nodes + (60 + (key.name.length-2))) ≤ cfg.maxCertDbSize)

def insertCertsToDb (key : VariableKey) (attributes : UInt32)
    (signers : Bytes × Bytes) : EfiStatus × AuthState :=
  match findCertsFromDb (st.db (isNonVolatile attributes)) key with
  | some _ => (.accessDenied, st)
  | none =>
    if !nodeFits cfg (st.db (isNonVolatile attributes)) key then (.outOfResources, st)
    else
      match cfg.crypt.signChainDigest signers.1 signers.2 with
      | none => (.aborted, st)
      | some digest =>
        setCertDb st (isNonVolatile attributes)
          (st.db (isNonVolatile attributes) ++ [⟨key, digest⟩])

def authServiceInternalCompareTimeStamp (first second : Bytes) : Bool :=
  variableCompareTimeStampInternal first second

def winCertTypeEfiGuid : Nat := 0x0EF1

def efiCertPkcs7Guid : Bytes :=
  [0x9d, 0xd2, 0xaf, 0x4a, 0xdf, 0x68, 0xee, 0x49, 0x8a, 0xa9, 0x34, 0x7d, 0x37, 0x56, 0x65, 0xa7]

def sha256OidValue : Bytes := [0x60, 0x86, 0x48, 0x01, 0x65, 0x03, 0x04, 0x02, 0x01]

/-- The digest algorithm in a long enough SignedData is SHA-256. -/
def isSha256 (sigData : Bytes) : Bool := decide (sigData.length < 13+sha256OidValue.length) ||
    (sigData.getD 1 0 &&& 0x82 == 0x82 && (sigData.drop 13).take sha256OidValue.length == sha256OidValue)

/-- The checks of the descriptor: the unused parts of the time stamp are zero, it is later than that of the
variable unless the payload is appended, and the signature is of a known kind. -/
def descriptorValid (auth : AuthData) (attributes : UInt32) (orgTimeStamp : Option Bytes) : Bool :=
  (auth.timeStamp.drop 7).all (· == 0) &&
  (match orgTimeStamp with
    | none => true
    | some org => isAppendWrite attributes || !authServiceInternalCompareTimeStamp auth.timeStamp org) &&
  (auth.wCertificateType == winCertTypeEfiGuid && auth.certType == efiCertPkcs7Guid) &&
  (!isTimeBased attributes || isSha256 auth.sigData)

/-- What is signed: the name, the GUID, the attributes, the time stamp and the payload. -/
def signedData (key : VariableKey) (auth : AuthData) (attributes : UInt32) : Bytes :=
  key.name.take (key.name.length-2) ++ key.vendorGuid ++ leBytes 4 attributes.toNat ++ auth.timeStamp ++
    auth.payload

def isSignedBy (cfg : AuthConfig) (signers : Bytes × Bytes) (certData : Bytes) : Bool :=
  if certData.length = 32 then cfg.crypt.signChainDigest signers.1 signers.2 == some certData
  else signers.1 == certData

section
variable (call : Call)

/-- The signers of an existing variable are compared with the record that `GetCertsFromDb` finds. -/
def signersMatch (signers : Bytes × Bytes) : Bool :=
  match st.find call.key with
  | none => true
  | some _ =>
    match findCertsFromDb (st.db (isNonVolatile call.attributes)) call.key with
    | none => false
    | some node => isSignedBy cfg signers node.certData

def verifySigners : Except EfiStatus (Bytes × Bytes) :=
  if !descriptorValid call.auth call.attributes ((st.find call.key).map (·.timeStamp)) then
    .error .securityViolation
  else if (signedData call.key call.auth call.attributes).length > cfg.driver.scratchBufferSize then
    .error .outOfResources
  else
    match cfg.crypt.pkcs7GetSigners call.auth.sigData with
    | none => .error .securityViolation
    | some signers =>
      if signersMatch cfg st call signers && cfg.crypt.pkcs7Verify call.auth.sigData signers.2
          (signedData call.key call.auth call.attributes) then .ok signers
      else .error .securityViolation

def verifyTimeBasedPayload : EfiStatus × AuthState :=
  match verifySigners cfg st call with
  | .error status => (status,st)
  | .ok signers =>
    if (st.find call.key).isNone && call.auth.payload.length != 0 then
      if (insertCertsToDb cfg st call.key call.attributes signers).1.isError then
        (.securityViolation, (insertCertsToDb cfg st call.key call.attributes signers).2)
      else (.success, (insertCertsToDb cfg st call.key call.attributes signers).2)
    else (.success, st)

def isDel : Bool :=
  (st.find call.key).isSome && call.auth.payload.length == 0 && !isAppendWrite call.attributes

def updateVerified (del : Bool) : EfiStatus × AuthState :=
  if del && !(updateVariable cfg st call.key call.auth.payload call.attributes
      (some call.auth.timeStamp)).1.isError then
    deleteCertsFromDb
      (updateVariable cfg st call.key call.auth.payload call.attributes (some call.auth.timeStamp)).2
      call.key call.attributes
  else updateVariable cfg st call.key call.auth.payload call.attributes (some call.auth.timeStamp)

def verifyTimeBasedPayloadAndUpdate :
    EfiStatus × AuthState :=
  if (verifyTimeBasedPayload cfg st call).1.isError then verifyTimeBasedPayload cfg st call
  else updateVerified cfg (verifyTimeBasedPayload cfg st call).2 call (isDel st call)

def authInfoSize : Nat := 560

def isAuthenticated (attributes : UInt32) : Bool := hasAttribute attributes
    (efiVariableTimeBasedAuthenticatedWriteAccess ||| efiVariableAuthenticatedWriteAccess)

def isDeleteAuthVariable (orgAttributes : UInt32) (call : Call) : Bool :=
  call.attributes == orgAttributes && isAuthenticated call.attributes &&
    (if isTimeBased call.attributes then call.auth.payload.length == 0
    else call.raw.length == authInfoSize)

/-- gEfiSecureBootEnableDisableGuid and "SecureBootEnable" -/
def secureBootEnable : VariableKey where
  name := [0x53, 0, 0x65, 0, 0x63, 0, 0x75, 0, 0x72, 0, 0x65, 0, 0x42, 0, 0x6f, 0, 0x6f, 0, 0x74, 0,
    0x45, 0, 0x6e, 0, 0x61, 0, 0x62, 0, 0x6c, 0, 0x65, 0, 0, 0]
  vendorGuid := [0xc7, 0x0b, 0xa3, 0xf0, 0x08, 0xaf, 0x56, 0x45, 0x99, 0xc4, 0x00, 0x10, 0x09, 0xc9, 0x3a,
    0x44]

/-- gEfiCustomModeEnableGuid and "CustomMode" -/
def customMode : VariableKey where
  name := [0x43, 0, 0x75, 0, 0x73, 0, 0x74, 0, 0x6f, 0, 0x6d, 0, 0x4d, 0, 0x6f, 0, 0x64, 0, 0x65, 0, 0, 0]
  vendorGuid := [0x0c, 0xec, 0x76, 0xc0, 0x28, 0x70, 0x99, 0x43, 0xa0, 0x72, 0x71, 0xee, 0x5c, 0x44, 0x8b,
    0x9f]

def needPhysicallyPresent (key : VariableKey) : Bool := key == secureBootEnable || key == customMode

def deleteAtPresence : EfiStatus × AuthState :=
  if !(updateVariable cfg st call.key [] 0 none).1.isError && isTimeBased call.attributes then
    deleteCertsFromDb (updateVariable cfg st call.key [] 0 none).2 call.key call.attributes
  else updateVariable cfg st call.key [] 0 none

def isDeletedAtPresence : Bool := (match st.find call.key with
    | none => false
    | some var => isDeleteAuthVariable var.attributes call) && call.userPhysicalPresent

def isWriteProtected : Bool := match st.find call.key with
  | none => false
  | some var => isAuthenticated var.attributes

end

def processVariable (call : Call) : EfiStatus × AuthState :=
  if isDeletedAtPresence st call then deleteAtPresence cfg st call
  else if needPhysicallyPresent call.key && !call.userPhysicalPresent then (.securityViolation, st)
  else if hasAttribute call.attributes efiVariableAuthenticatedWriteAccess then (.unsupported, st)
  else if isTimeBased call.attributes then verifyTimeBasedPayloadAndUpdate cfg st call
  else if isWriteProtected st call then (.writeProtected, st)
  else updateVariable cfg st call.key call.raw call.attributes none

def setVariable (call : Call) : EfiStatus × AuthState :=
  match st.stored call.key with
  | none => processVariable cfg st call
  | some var =>
    if st.atRuntime && !isRuntime var.attributes then (.writeProtected, st)
    else if call.attributes ≠ 0 ∧ call.attributes &&& ~~~efiVariableAppendWrite ≠ var.attributes then
      (.invalidParameter, st)
    else processVariable cfg st call

end

end Liano.Auth
