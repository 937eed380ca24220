/-
# Tokens

`services/fido_service.py`: a FIDO2 token enrols a credential, and derives the
same secret again from the same credential and salt. The library that talks to
tokens is a parameter (`Fido2`): in any state a call may give anything or fail
in any way, which is also how a token is plugged in, touched and taken away.

A derived secret is an object of its own, open until it is closed; the calls of
`derive` are written down with how they ended.
-/
import GpgMeister.Security.KeyUnlock
import GpgMeister.Services.SmartcardService

namespace GpgMeister

/-! ### The library -/

namespace Fido2

/-- `CtapError.ERR` -/
inductive CtapCode
  | pinInvalid
  | pinAuthInvalid
  | pinAuthBlocked
  | pinBlocked
  | pinNotSet
  | pinPolicyViolation
  | operationDenied
  | userActionTimeout
  | actionTimeout
  | upRequired
  | noCredentials
  | invalidCredential
  | other (code : UInt8)
  deriving DecidableEq

/-- `ClientError.ERR` -/
inductive ClientCode
  | timeout
  | deviceIneligible
  | configurationUnsupported
  | other (code : ℕ)
  deriving DecidableEq

/-- `CtapError | ClientError`; the cause of the latter, if that is a status. -/
inductive TokenError
  | ctap (code : CtapCode)
  | client (code : ClientCode) (cause : Option CtapCode)
  deriving DecidableEq

/-- How a call of the client ends. -/
inductive Reply (α : Type)
  | ok (a : α)
  | refused (error : TokenError)
  | raised (e : Exc)

structure Device where
  id : ℕ
  productName : Option Str
  deriving DecidableEq

/-- What `Ctap2(device).info` tells. -/
structure Info where
  clientPin : Bool
  rk : Bool
  extensions : List Str

/-- A value in the results of an extension: a `dict` or an object with
attributes, octets, or anything else. -/
inductive Value
  | none
  | bytes (octets : Bytes)
  | members (fields : List (Str × Value))
  | other (isTrue : Bool)

namespace Value

/-- `obj.get(name)` or `getattr(obj, name, None)` -/
def field (obj : Value) (name : Str) : Value :=
  match obj with
  | members fields => (fields.lookup name).getD none
  | _ => none

/-- `bool(obj)` -/
def isTrue : Value → Bool
  | none => false
  | bytes octets => octets ≠ []
  | members fields => ! fields.isEmpty
  | other b => b

end Value

/-- What a client is asked to register. -/
structure CreationOptions where
  rpId : Str
  userId : Bytes
  userName : Str
  challenge : Bytes
  algorithms : List ℤ
  resident : Bool

structure Registration where
  rawId : Bytes
  results : Value

/-- What a client is asked to assert. -/
structure RequestOptions where
  rpId : Str
  challenge : Bytes
  credentialId : Bytes
  salt : Bytes

/-- A client of a token: its origin, and what it reads as the PIN. -/
structure Client where
  device : Device
  origin : Str
  requestPin : Except Exc Str

end Fido2

open Fido2

/-- The library, on states `δ` of the tokens. -/
structure Fido2 (δ : Type) where
  /-- `next(iter(CtapHidDevice.list_devices()), None)` -/
  firstDevice : δ → Except Exc (Option Device) × δ
  /-- `Ctap2(device).info`; `none` is a `CtapError` -/
  info : Device → δ → Except (Option Exc) Info × δ
  /-- `Fido2Client(device, …)` -/
  connect : Client → δ → Except Exc Unit × δ
  makeCredential : Client → CreationOptions → δ → Reply Registration × δ
  /-- `get_assertion`, with the results of the first response -/
  getAssertion : Client → RequestOptions → δ → Reply Value × δ

/-! ### The tokens in the world -/

/-- A `SecureBytes` -/
structure SecureBytes where
  octets : Bytes
  isClosed : Bool := false

/-- A call of `derive`, with how it ended. -/
structure DeriveCall where
  credential : FidoCredential
  raised : Option Exc

structure TokenWorld (δ γ Time : Type) where
  world : World γ Time
  tokens : δ
  secrets : List SecureBytes := []
  derivations : List DeriveCall := []

section Primitives

variable {δ γ Time α : Type}

/-- What has nothing to do with tokens. -/
def onWorld (x : Program (World γ Time) Exc α) : Program (TokenWorld δ γ Time) Exc α :=
  x.onPart TokenWorld.world fun w b => { b with world := w }

/-- A call of the library. -/
def onTokens (f : δ → α × δ) : Program (TokenWorld δ γ Time) Exc α := fun b =>
  .ok (f b.tokens).1 { b with tokens := (f b.tokens).2 }

/-- `SecureBytes.from_bytes` -/
def secureBytes (octets : Bytes) : Program (TokenWorld δ γ Time) Exc ℕ := fun b =>
  .ok b.secrets.length { b with secrets := b.secrets ++ [{ octets }] }

/-- The octets of an open secret. -/
def viewSecret (secret : ℕ) : Program (TokenWorld δ γ Time) Exc Bytes := do
  match (← get).secrets[secret]? with
  | some { octets, isClosed := false } => return octets
  | _ => Program.raise { cls := .runtimeError, message := lit "SecureBytes is closed" }

/-- `SecureBytes.close` -/
def SecureBytes.close (s : SecureBytes) : SecureBytes := { octets := zeros s.octets, isClosed := true }

def closeSecret (secret : ℕ) : Program (TokenWorld δ γ Time) Exc Unit :=
  modify fun b => { b with secrets := b.secrets.modify secret SecureBytes.close }

/-- The call is written down with how it ended. -/
def recordedCall (credential : FidoCredential) (x : Program (TokenWorld δ γ Time) Exc α) :
    Program (TokenWorld δ γ Time) Exc α := fun b =>
  match x.run b with
  | .ok a b => .ok a { b with derivations := b.derivations ++ [{ credential, raised := none }] }
  | .error e b => .error e { b with derivations := b.derivations ++ [{ credential, raised := some e }] }

end Primitives

/-! ### The service -/

/-- The service: whether it has an audit log, and its relying party. -/
structure FidoService where
  audit : Bool
  rpId : Str := lit "gpg-meister.local"

namespace FidoService

def fidoError (cls : ErrorClass) (message : Str) : Exc where
  cls := cls
  message := message

/-! ### Texts -/

/-- `_NO_TOKEN` -/
def noToken : Str := lit "No security key found. Plug your token into a USB port and try again."

/-- `_NO_ACCESS` -/
def noAccess : Str :=
  lit "A security key is present but this user cannot open it. On Linux the FIDO " ++
    lit "udev rules are missing — install the 'libfido2' package (which ships them) " ++
    lit "or add a rule granting access to /dev/hidraw*, then re-plug the token."

/-- `_NO_PRF` -/
def noPrf : Str :=
  lit "This token cannot derive secrets: it does not support the FIDO2 " ++
    lit "'hmac-secret' extension, which unlocking a key with it requires."

def otherToken : Exc := fidoError .fidoCredentialError
  (lit "this token does not hold the credential this key was enrolled with — it may be a different token")

def notTouched : Exc := fidoError .fidoTouchError (lit "the token was not touched in time")

/-- `_translate`, of a status -/
def translateCtap : CtapCode → Exc
  | .pinInvalid | .pinAuthInvalid =>
    fidoError .fidoPinError
      (lit "the token rejected the PIN — this is the token's FIDO2 PIN, which is not the OpenPGP card PIN")
  | .pinAuthBlocked =>
    fidoError .fidoPinError
      (lit "the token locked its PIN after three wrong attempts in a row — " ++
        lit "unplug it, plug it back in, and try again with the correct PIN")
  | .pinBlocked =>
    fidoError .fidoPinError
      (lit "the token has used up every PIN attempt and will not accept the PIN " ++
        lit "again until its FIDO application is reset — which erases the " ++
        lit "credentials on it, including any this application enrolled")
  | .pinNotSet => fidoError .fidoPinError (lit "this token has no FIDO2 PIN set yet")
  | .pinPolicyViolation => fidoError .fidoPinError (lit "the token requires a different PIN before it can be used")
  | .operationDenied | .userActionTimeout | .actionTimeout | .upRequired => notTouched
  | .noCredentials | .invalidCredential => otherToken
  | .other code =>
    fidoError .fidoServiceError
      (lit "the token reported an error (CTAP 0x" ++
        [Json.hexDigit (code.toNat / 16), Json.hexDigit (code.toNat % 16)] ++ lit ")")

/-- `_client_error` -/
def clientError : ClientCode → Exc
  | .timeout => notTouched
  | .deviceIneligible => otherToken
  | .configurationUnsupported =>
    fidoError .fidoServiceError (lit "this token does not support what this operation needs")
  | .other code =>
    fidoError .fidoServiceError
      (lit "the token could not complete the request (client error " ++ Json.decimal code ++ lit ")")

/-- `_translate` -/
def translate : TokenError → Exc
  | .ctap code => translateCtap code
  | .client _ (some cause) => translateCtap cause
  | .client code none => clientError code

variable {δ γ Time : Type} (env : Platform γ Time) (lib : Fido2 δ) (fido : FidoService)

/-- `_emit` -/
def emit (event outcome : Str) (payload : Dict) : Program (TokenWorld δ γ Time) Exc Unit :=
  onWorld (SmartcardService.emitBestEffort env fido.audit event outcome payload)

def emitFailed (event reason : Str) : Program (TokenWorld δ γ Time) Exc Unit :=
  emit env fido event (lit "failed") { items := [(lit "reason", .str reason)], unique := Dict.evaluated }

/-! ### Presence -/

structure TokenInfo where
  productName : Str
  hasPin : Bool
  supportsPrf : Bool
  supportsResidentKeys : Bool

/-- `is_usable` -/
def TokenInfo.isUsable (token : TokenInfo) : Bool := token.supportsPrf

/-- `getattr(device.descriptor, "product_name", "") or "Security key"` -/
def productName (device : Device) : Str := orElse (device.productName.getD []) (lit "Security key")

def tokenInfo (device : Device) (info : Info) : TokenInfo where
  productName := productName device
  hasPin := info.clientPin
  supportsPrf := lit "hmac-secret" ∈ info.extensions
  supportsResidentKeys := info.rk

/-- `probe` -/
def probe : Program (TokenWorld δ γ Time) Exc (Option TokenInfo × Str) := do
  match ← onTokens lib.firstDevice with
  | .error e => if e.isA [.osError] then return (none, noAccess) else Program.raise e
  | .ok none => return (none, noToken)
  | .ok (some device) =>
    match ← onTokens (lib.info device) with
    | .error none => return (none, noPrf)
    | .error (some e) => if e.isA [.osError, .valueError] then return (none, noPrf) else Program.raise e
    | .ok info =>
      let token := tokenInfo device info
      return (some token, if token.isUsable then [] else noPrf)

/-- `require_token` -/
def requireToken : Program (TokenWorld δ γ Time) Exc TokenInfo := do
  let (token, reason) ← probe lib
  match token with
  | some token =>
    if token.isUsable then return token
    else Program.raise (fidoError .fidoUnavailableError (orElse reason noToken))
  | none => Program.raise (fidoError .fidoUnavailableError (orElse reason noToken))

/-- `_pin_reader` -/
def readPin (pin : Bytes) : Except Exc Str :=
  match Utf8.decodeStrict pin with
  | some text => .ok text
  | none => .error { cls := .unicodeDecodeError, message := lit "invalid utf-8" }

/-- `_client` -/
def client (pin : Bytes) : Program (TokenWorld δ γ Time) Exc Client := do
  match ← Program.ofExcept (← onTokens lib.firstDevice) with
  | none => Program.raise (fidoError .fidoUnavailableError noToken)
  | some device => do
    let client : Client := { device, origin := lit "https://" ++ fido.rpId, requestPin := readPin pin }
    Program.ofExcept (← onTokens (lib.connect client))
    return client

/-! ### Derivation -/

/-- `_prf_output` -/
def prfOutput (results : Value) : Option Bytes :=
  match ((results.field (lit "prf")).field (lit "results")).field (lit "first") with
  | .bytes value => some value
  | _ => none

/-- What `derive` makes of the results of an assertion. -/
def derived (results : Value) : Program (TokenWorld δ γ Time) Exc ℕ :=
  match prfOutput results with
  | some raw =>
    if raw.length = KeyUnlock.tokenSecretLen then do
      emit env fido (lit "fido_derived") (lit "ok") { items := [], unique := Dict.evaluated }
      secureBytes raw
    else do
      emitFailed env fido (lit "fido_derived") (lit "no_prf_output")
      Program.raise (fidoError .fidoServiceError (lit "the token returned no usable secret"))
  | none => do
    emitFailed env fido (lit "fido_derived") (lit "no_prf_output")
    Program.raise (fidoError .fidoServiceError (lit "the token returned no usable secret"))

/-- `derive`, with the secret that it gives -/
def derive (credential : FidoCredential) (pin : Bytes) : Program (TokenWorld δ γ Time) Exc ℕ :=
  recordedCall credential do
    let _ ← requireToken lib
    let client ← client lib fido pin
    let challenge ← onWorld (tokenBytes 32)
    match ← onTokens (lib.getAssertion client
      { rpId := credential.rpId, challenge, credentialId := credential.credentialId, salt := credential.salt }) with
    | .raised e => Program.raise e
    | .refused error => do
      emitFailed env fido (lit "fido_derived") (lit "ctap")
      Program.raise (translate error)
    | .ok results => derived env fido results

/-! ### Enrolment -/

/-- `_ALGORITHMS` -/
def algorithms : List ℤ := [-7, -8]

/-- What `enroll` makes of a registration, with the secret it derives. -/
def enrolled (token : TokenInfo) (resident : Bool) (pin : Bytes) (registration : Registration) :
    Program (TokenWorld δ γ Time) Exc (FidoCredential × ℕ) :=
  if ((registration.results.field (lit "prf")).field (lit "enabled")).isTrue then do
    let salt ← onWorld (tokenBytes prfSaltLen)
    let credential ← onWorld (validated (FidoCredential.make (Base64.encode registration.rawId) (Base64.encode salt)
      fido.rpId resident true token.productName))
    let secret ← derive env lib fido credential pin
    emit env fido (lit "fido_enrolled") (lit "ok")
      { items := [(lit "resident", .str (if resident then lit "True" else lit "False"))], unique := rfl }
    return (credential, secret)
  else do
    emitFailed env fido (lit "fido_enrolled") (lit "prf_rejected")
    Program.raise (fidoError .fidoServiceError
      (lit "the token created the credential but refused to enable secret derivation for it"))

/-- `enroll` -/
def enroll (pin : Bytes) (userLabel : Str) (resident : Bool) :
    Program (TokenWorld δ γ Time) Exc (FidoCredential × ℕ) := do
  let token ← requireToken lib
  if ! token.hasPin then
    Program.raise (fidoError .fidoPinError
      (lit "this token has no FIDO2 PIN set yet — set one on the token first, then enrol it here"))
  else if resident && ! token.supportsResidentKeys then
    Program.raise (fidoError .fidoServiceError (lit "this token cannot store credentials on the device"))
  else do
    let client ← client lib fido pin
    let userId ← onWorld (tokenBytes 16)
    let challenge ← onWorld (tokenBytes 32)
    match ← onTokens (lib.makeCredential client
      { rpId := fido.rpId, userId, userName := userLabel, challenge, algorithms, resident }) with
    | .raised e => Program.raise e
    | .refused error => do
      emitFailed env fido (lit "fido_enrolled") (lit "ctap")
      Program.raise (translate error)
    | .ok registration => enrolled env lib fido token resident pin registration

end FidoService
end GpgMeister
