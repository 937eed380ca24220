/-
# The decrypt tab

`ui/messages/decrypt_view.py` and `ui/messages/decrypt_viewmodel.py`: a message,
a passphrase that is typed or that a security key derives, and the plaintext,
which is wiped when the tab is hidden, on a click and after a delay. Operations
may overlap: to clear the passphrase enables the buttons again.

* `shows_of_reachable`: the text and the line on its signature are those of one
  and the same result, the last one since the tab was wiped; and a plaintext is
  in no signal, and in no worker once the queue is empty.
* `bar_iff_of_reachable`: when the bar shows that an operation runs.
-/
import GpgMeister.Services.MessageService
import GpgMeister.Ui.EncryptForm
import GpgMeister.Ui.OperationViewModel

namespace GpgMeister
namespace DecryptTab

open MessageService OperationViewModel

/-! ### What a result shows -/

/-- An octet in `repr` of a `bytes` object. -/
def reprByte (quote : CodePoint) (b : UInt8) : Str :=
  let c : CodePoint := Fin.ofNat _ b.toNat
  if c = quote ∨ c = 0x5C then [0x5C, c]
  else if c = 0x09 then lit "\\t"
  else if c = 0x0A then lit "\\n"
  else if c = 0x0D then lit "\\r"
  else if 0x20 ≤ b.toNat ∧ b.toNat < 0x7F then [c]
  else lit "\\x" ++ [Json.hexDigit (b.toNat / 16), Json.hexDigit (b.toNat % 16)]

/-- `repr` of a `bytes` object -/
def reprBytes (data : Bytes) : Str :=
  let quote : CodePoint := if 0x27 ∈ data ∧ 0x22 ∉ data then 0x22 else 0x27
  lit "b" ++ [quote] ++ data.flatMap (reprByte quote) ++ [quote]

/-- The text of a plaintext. -/
def textOf (result : DecryptResult) : Str := (Utf8.decodeStrict result.plaintext).getD (reprBytes result.plaintext)

def untrusted (trust : TrustLevel) : Bool := trust = .unknown || trust = .never

/-- `signature_valid` -/
def signatureValid (result : DecryptResult) : Bool := result.signatureStatus = .valid

def statusLabel (result : DecryptResult) : Str :=
  if signatureValid result && untrusted result.signerTrust then lit "valid (signer UNTRUSTED)"
  else result.signatureStatus.summary

/-- `metadata_lines` -/
def metadataLines (result : DecryptResult) : List Str :=
  ((result.decryptedWithFingerprint.filter (· ≠ [])).map fun fp => lit "Decrypted with: " ++ fp).toList ++
    ((result.signerFingerprint.filter (· ≠ [])).map fun fp =>
      lit "Signed by: " ++ fp ++ lit "  (signature " ++ statusLabel result ++ lit "  trust: " ++
        result.signerTrust.value ++ lit ")").toList

/-- The colour of the lines. -/
def metadataColour (result : DecryptResult) : Str :=
  match result.signerFingerprint.filter (· ≠ []) with
  | none => lit "#444444"
  | some _ =>
    if ! signatureValid result then lit "#cc0000"
    else if untrusted result.signerTrust then lit "#cc6600"
    else lit "#006600"

/-- The label below the plaintext, if it is shown, and its colour. -/
def metadataOf (result : DecryptResult) : Option (Str × Str) :=
  if metadataLines result = [] then none
  else some ([0x0A].intercalate (metadataLines result), metadataColour result)

/-! ### The tab -/

/-- `DecryptView`, with what of its widgets the code reads or sets. -/
structure DecryptView where
  passphrase : Str := []
  output : Str := []
  metadata : Option (Str × Str) := none
  copyEnabled : Bool := false
  clearTimer : Bool := false
  error : Option Str := none
  busy : Bool := false
  decryptEnabled : Bool := false
  tokenEnabled : Bool := false
  tokenVisible : Bool := false

/-- What an operation decrypts, and with what. -/
structure Request where
  ciphertext : Bytes
  passphrase : Option Bytes

structure Tab where
  view : DecryptView := {}
  /-- That of the view model, which has each text of the field. -/
  ciphertext : Str := []
  session : OperationViewModel.Session DecryptResult := {}
  requests : List Request := []
  /-- The dialog of the security key is open. -/
  dialog : Bool := false
  /-- What the view had been told when it was last wiped. -/
  wiped : ℕ := 0

/-- What the user does, what the window system and the timer tell, and what the
workers do. -/
inductive Event
  | setCiphertext (text : Str)
  | typePassphrase (text : Str)
  | decrypt
  /-- A click on the button of the security key, and whether a key is enrolled. -/
  | decryptWithToken (enrolled : Bool)
  | dialogClosed (secret : Option Bytes)
  | clear
  | timeout
  | hidden
  | shown (enrolled : Bool)
  | ended (i : ℕ) (outcome : Except Str DecryptResult)
  | post (i : ℕ)
  | deliver

/-- `can_submit` -/
def Tab.canSubmit (s : Tab) : Bool := strip s.ciphertext ≠ []

/-- `_update_button` -/
def Tab.updateButton (s : Tab) : Tab :=
  { s with view.decryptEnabled := s.canSubmit, view.tokenEnabled := s.canSubmit }

/-- `_on_loading` -/
def Tab.onLoading (s : Tab) (loading : Bool) : Tab :=
  { s with
    view.busy := loading
    view.decryptEnabled := ! loading && s.canSubmit
    view.tokenEnabled := ! loading && s.canSubmit }

/-- `self._passphrase.clear()`, which tells of a change -/
def Tab.clearPassphrase (s : Tab) : Tab :=
  if s.view.passphrase = [] then s else Tab.updateButton { s with view.passphrase := [] }

/-- `_clear_output` -/
def Tab.clearOutput (s : Tab) : Tab :=
  { s with
    view.clearTimer := false
    view.output := []
    view.metadata := none
    view.copyEnabled := false
    wiped := s.session.told.length }

/-- `_run`, of a `decrypt` of the service -/
def Tab.run (s : Tab) (request : Request) : Tab :=
  { s with session := s.session.start (fun _ => true) true, requests := s.requests ++ [request] }

section Handlers

variable (unicode : PasswordPolicy.Unicode) (clearSeconds : ℤ)

/-- The request of a `submit`: where a text has no octets, this raises. -/
def Tab.request (s : Tab) : Except Exc Request :=
  (encodeUtf8 s.ciphertext).bind fun ciphertext =>
    (EncryptForm.readPassphrase unicode s.view.passphrase).map fun passphrase => { ciphertext, passphrase }

/-- `submit`, and `_submit` around it -/
def Tab.submit (s : Tab) : Tab :=
  if s.canSubmit = false then s.clearPassphrase
  else
    match s.request unicode with
    | .ok request => ((s.onLoading true).run request).clearPassphrase
    | .error _ => s.onLoading true

/-- The request of a `submit_with_secret`. -/
def Tab.secretRequest (s : Tab) (secret : Bytes) : Except Exc Request :=
  (encodeUtf8 s.ciphertext).map fun ciphertext => { ciphertext, passphrase := some secret }

/-- `submit_with_secret` -/
def Tab.submitWithSecret (s : Tab) (secret : Bytes) : Tab :=
  if s.canSubmit = false then s
  else
    match s.secretRequest secret with
    | .ok request => (s.onLoading true).run request
    | .error _ => s.onLoading true

/-- `_on_success` -/
def Tab.onSuccess (s : Tab) (result : DecryptResult) : Tab :=
  { s with
    view.error := none
    view.output := textOf result
    view.copyEnabled := true
    view.clearTimer := s.view.clearTimer || decide (0 < clearSeconds)
    view.metadata := metadataOf result }

/-- What the view does when it is told something. -/
def Tab.tell (s : Tab) : Told DecryptResult → Tab
  | .succeeded result => s.onSuccess clearSeconds result
  | .failed message => { s with view.error := some message }
  | .loading on => s.onLoading on

/-- One event; `none` where the widget for it is disabled, or below the dialog. -/
def step (s : Tab) : Event → Option Tab
  | .setCiphertext text => if s.dialog then none else some (Tab.updateButton { s with ciphertext := text })
  | .typePassphrase text => if s.dialog then none else some (Tab.updateButton { s with view.passphrase := text })
  | .decrypt => if ! s.dialog && s.view.decryptEnabled then some (s.submit unicode) else none
  | .decryptWithToken enrolled =>
    if ! s.dialog && s.view.tokenVisible && s.view.tokenEnabled then
      some (if enrolled then { s with dialog := true } else { s with view.tokenVisible := false })
    else none
  | .dialogClosed none => if s.dialog then some { s with dialog := false } else none
  | .dialogClosed (some secret) =>
    if s.dialog then some (Tab.submitWithSecret { s with dialog := false, view.error := none } secret) else none
  | .clear =>
    if s.dialog then none
    else
      let s := (Tab.updateButton { s with ciphertext := [] }).clearPassphrase.clearOutput
      some { s with view.error := none }
  | .timeout => if s.view.clearTimer then some s.clearOutput else none
  | .hidden => some s.clearOutput
  | .shown enrolled => some { s with view.tokenVisible := enrolled }
  | .ended i outcome => (s.session.ended i outcome).map fun session => { s with session }
  | .post i => (s.session.post i).map fun session => { s with session }
  | .deliver => s.session.deliver.map fun (session, told) => told.foldl (Tab.tell clearSeconds) { s with session }

def tabs : System Tab Event := .ofStep (· = {}) (step unicode clearSeconds)

end Handlers

/-! ### What is on the screen -/

/-- The part of the view that a plaintext changes. -/
structure Screen where
  output : Str
  metadata : Option (Str × Str)
  copyEnabled : Bool
  clearTimer : Bool
  deriving DecidableEq

def DecryptView.screen (view : DecryptView) : Screen where
  output := view.output
  metadata := view.metadata
  copyEnabled := view.copyEnabled
  clearTimer := view.clearTimer

/-- The screen that a result leads to, and the blank one. -/
def screenOf (clearSeconds : ℤ) : Option DecryptResult → Screen
  | none => { output := [], metadata := none, copyEnabled := false, clearTimer := false }
  | some result =>
    { output := textOf result
      metadata := metadataOf result
      copyEnabled := true
      clearTimer := decide (0 < clearSeconds) }

/-- The last result that the view was told of. -/
def lastSuccess : List (ℕ × Told DecryptResult) → Option (ℕ × DecryptResult) → Option (ℕ × DecryptResult)
  | [], last => last
  | (i, .succeeded result) :: told, _ => lastSuccess told (some (i, result))
  | (_, .failed _) :: told, last => lastSuccess told last
  | (_, .loading _) :: told, last => lastSuccess told last

/-- The last result since the tab was wiped. -/
def Tab.last (s : Tab) : Option (ℕ × DecryptResult) := lastSuccess (s.session.told.drop s.wiped) none

theorem lastSuccess_append : ∀ (told told' : List (ℕ × Told DecryptResult)) (last : Option (ℕ × DecryptResult)),
    lastSuccess (told ++ told') last = lastSuccess told' (lastSuccess told last)
  | [], _, _ => rfl
  | (_, .succeeded _) :: told, told', _ => lastSuccess_append told told' _
  | (_, .failed _) :: told, told', _ => lastSuccess_append told told' _
  | (_, .loading _) :: told, told', _ => lastSuccess_append told told' _

theorem mem_of_lastSuccess : ∀ {told : List (ℕ × Told DecryptResult)} {last : Option (ℕ × DecryptResult)} {i : ℕ}
    {result : DecryptResult}, lastSuccess told last = some (i, result) →
      (i, .succeeded result) ∈ told ∨ last = some (i, result)
  | [], _, _, _, h => .inr h
  | (j, .succeeded result') :: told, _, _, _, h => by
    rcases @mem_of_lastSuccess told _ _ _ h with hmem | heq
    · exact .inl (List.mem_cons_of_mem _ hmem)
    · cases heq
      exact .inl List.mem_cons_self
  | (_, .failed _) :: told, _, _, _, h => (@mem_of_lastSuccess told _ _ _ h).imp_left (List.mem_cons_of_mem _)
  | (_, .loading _) :: told, _, _, _, h => (@mem_of_lastSuccess told _ _ _ h).imp_left (List.mem_cons_of_mem _)

/-- How the service may end a request. -/
abbrev Service := Request → Except Str DecryptResult → Prop

/-- An operation ends as the service may end its request. -/
def Honest (svc : Service) (s : Tab) : Event → Prop
  | .ended i outcome => ∃ request, s.requests[i]? = some request ∧ svc request outcome
  | _ => True

/-- The invariant. -/
structure Sound (svc : Service) (clearSeconds : ℤ) (s : Tab) : Prop where
  session : OperationViewModel.Kept s.session
  wiped : s.wiped ≤ s.session.told.length
  screen : s.view.screen = screenOf clearSeconds (s.last.map Prod.snd)
  secure : ∀ {i : ℕ} {op : Operation DecryptResult}, s.session.operations[i]? = some op → op.secureResult = true
  served : ∀ {i : ℕ} {op : Operation DecryptResult} {outcome : Except Str DecryptResult},
    s.session.operations[i]? = some op → op.outcome = some outcome →
      ∃ request, s.requests[i]? = some request ∧ svc request outcome

/-- Only the fields, the buttons, the bar and the dialog may have changed. -/
structure Framed (s s' : Tab) : Prop where
  session : s'.session = s.session
  requests : s'.requests = s.requests
  wiped : s'.wiped = s.wiped
  screen : s'.view.screen = s.view.screen

namespace Framed

variable {s s' s'' : Tab}

theorem refl (s : Tab) : Framed s s := ⟨rfl, rfl, rfl, rfl⟩

theorem trans (h : Framed s s') (h' : Framed s' s'') : Framed s s'' where
  session := h'.session.trans h.session
  requests := h'.requests.trans h.requests
  wiped := h'.wiped.trans h.wiped
  screen := h'.screen.trans h.screen

theorem updateButton (h : Framed s s') : Framed s s'.updateButton := h.trans ⟨rfl, rfl, rfl, rfl⟩

theorem onLoading (h : Framed s s') (loading : Bool) : Framed s (s'.onLoading loading) := h.trans ⟨rfl, rfl, rfl, rfl⟩

theorem clearPassphrase (h : Framed s s') : Framed s s'.clearPassphrase := by
  unfold Tab.clearPassphrase
  split_ifs
  · exact h
  · exact h.trans ⟨rfl, rfl, rfl, rfl⟩

end Framed

theorem Sound.framed {svc : Service} {clearSeconds : ℤ} {s s' : Tab} (hs : Sound svc clearSeconds s)
    (h : Framed s s') : Sound svc clearSeconds s' where
  session := h.session ▸ hs.session
  wiped := by
    rw [h.session, h.wiped]
    exact hs.wiped
  screen := by
    unfold Tab.last
    rw [h.session, h.wiped, h.screen]
    exact hs.screen
  secure := by
    rw [h.session]
    exact hs.secure
  served := by
    rw [h.session, h.requests]
    exact hs.served

section Steps

variable {unicode : PasswordPolicy.Unicode} {clearSeconds : ℤ} {svc : Service} {s s' : Tab}

theorem sound_run (h : Sound svc clearSeconds s) (request : Request) : Sound svc clearSeconds (s.run request) where
  session := OperationViewModel.kept_start h.session _ _
  wiped := by
    refine h.wiped.trans ?_
    show s.session.told.length ≤ (s.session.told ++ [_]).length
    rw [List.length_append]
    omega
  screen := by
    have hlast : (s.run request).last = s.last := by
      show lastSuccess ((s.session.told ++ [(s.session.operations.length, Told.loading true)]).drop s.wiped) none =
        s.last
      rw [List.drop_append_of_le_length h.wiped, lastSuccess_append]
      rfl
    rw [hlast]
    exact h.screen
  secure := by
    intro i op hop
    rcases operation_of_start hop with hop | rfl
    · exact h.secure hop
    · rfl
  served := by
    intro i op outcome hop houtcome
    rcases operation_of_start hop with hop | rfl
    · obtain ⟨request', hrequest, hsvc⟩ := h.served hop houtcome
      refine ⟨request', ?_, hsvc⟩
      have hlt : i < s.requests.length := (List.getElem?_eq_some_iff.mp hrequest).1
      exact (List.getElem?_append_left hlt).trans hrequest
    · cases houtcome

theorem sound_clearOutput (h : Sound svc clearSeconds s) : Sound svc clearSeconds s.clearOutput where
  session := h.session
  wiped := le_rfl
  screen := by
    show screenOf clearSeconds none = _
    unfold Tab.last Tab.clearOutput
    dsimp only
    rw [List.drop_length]
    rfl
  secure := h.secure
  served := h.served

theorem sound_submit (h : Sound svc clearSeconds s) : Sound svc clearSeconds (s.submit unicode) := by
  unfold Tab.submit
  split_ifs
  · exact h.framed (Framed.refl s).clearPassphrase
  · split
    · have hloading := h.framed ((Framed.refl s).onLoading true)
      exact (sound_run hloading _).framed (Framed.refl _).clearPassphrase
    · exact h.framed ((Framed.refl s).onLoading true)

theorem sound_submitWithSecret (h : Sound svc clearSeconds s) (secret : Bytes) :
    Sound svc clearSeconds (s.submitWithSecret secret) := by
  unfold Tab.submitWithSecret
  split_ifs
  · exact h
  · split
    · exact sound_run (h.framed ((Framed.refl s).onLoading true)) _
    · exact h.framed ((Framed.refl s).onLoading true)

/-- What the view is told of changes the view only. -/
theorem foldl_tell : ∀ (told : List (Told DecryptResult)) (s : Tab),
    (told.foldl (Tab.tell clearSeconds) s).session = s.session ∧
      (told.foldl (Tab.tell clearSeconds) s).requests = s.requests ∧
      (told.foldl (Tab.tell clearSeconds) s).wiped = s.wiped
  | [], _ => ⟨rfl, rfl, rfl⟩
  | .succeeded _ :: told, _ => foldl_tell told _
  | .failed _ :: told, _ => foldl_tell told _
  | .loading _ :: told, _ => foldl_tell told _

/-- A result that the view is told of is on the screen. -/
theorem screen_onSuccess {last : Option DecryptResult} (h : s.view.screen = screenOf clearSeconds last)
    (result : DecryptResult) :
    (s.onSuccess clearSeconds result).view.screen = screenOf clearSeconds (some result) := by
  have htimer : s.view.clearTimer = (screenOf clearSeconds last).clearTimer := congrArg Screen.clearTimer h
  have hor : (s.view.clearTimer || decide (0 < clearSeconds)) = decide (0 < clearSeconds) := by
    rw [htimer]
    cases last with
    | none => exact Bool.false_or _
    | some result => exact Bool.or_self _
  show Screen.mk (textOf result) (metadataOf result) true (s.view.clearTimer || decide (0 < clearSeconds)) = _
  rw [hor]
  rfl

theorem screen_foldl_tell (i : ℕ) : ∀ (told : List (Told DecryptResult)) {s : Tab} {last : Option (ℕ × DecryptResult)},
    s.view.screen = screenOf clearSeconds (last.map Prod.snd) →
      (told.foldl (Tab.tell clearSeconds) s).view.screen =
        screenOf clearSeconds ((lastSuccess (told.map (i, ·)) last).map Prod.snd)
  | [], _, _, h => h
  | .succeeded result :: told, _, _, h =>
    @screen_foldl_tell i told _ (some (i, result)) (screen_onSuccess h result)
  | .failed _ :: told, _, _, h => screen_foldl_tell i told h
  | .loading _ :: told, _, _, h => screen_foldl_tell i told h

theorem sound_deliver (h : Sound svc clearSeconds s) {session : Session DecryptResult}
    {told : List (Told DecryptResult)} (hdeliver : s.session.deliver = some (session, told)) :
    Sound svc clearSeconds (told.foldl (Tab.tell clearSeconds) { s with session }) := by
  obtain ⟨hsession, hrequests, hwiped⟩ := @foldl_tell clearSeconds told { s with session }
  obtain ⟨i, htold⟩ : ∃ i, session.told = s.session.told ++ told.map (i, ·) := by
    obtain ⟨i, signal, op, mail, -, -, rfl, rfl⟩ := deliver_eq_some hdeliver
    exact ⟨i, rfl⟩
  refine ⟨?_, ?_, ?_, ?_, ?_⟩
  · rw [hsession]
    exact OperationViewModel.kept_deliver h.session hdeliver
  · rw [hsession, hwiped]
    dsimp only
    rw [htold, List.length_append]
    exact Nat.le_add_right_of_le h.wiped
  · have hscreen := @screen_foldl_tell clearSeconds i told { s with session } _ h.screen
    rw [hscreen]
    unfold Tab.last
    rw [hsession, hwiped]
    dsimp only
    rw [htold, List.drop_append_of_le_length h.wiped, lastSuccess_append]
  · rw [hsession]
    intro j op hop
    obtain ⟨before, hbefore, hsecure, -⟩ := operation_of_deliver hdeliver hop
    rw [hsecure]
    exact h.secure hbefore
  · rw [hsession, hrequests]
    intro j op outcome hop houtcome
    obtain ⟨before, hbefore, -, hsame⟩ := operation_of_deliver hdeliver hop
    exact h.served hbefore (hsame ▸ houtcome)

theorem clearPassphrase_busy (s : Tab) : s.clearPassphrase.view.busy = s.view.busy := by
  unfold Tab.clearPassphrase
  split_ifs <;> rfl

theorem clearPassphrase_session (s : Tab) : s.clearPassphrase.session = s.session :=
  ((Framed.refl s).clearPassphrase).session

/-- What an event does. -/
inductive Does (unicode : PasswordPolicy.Unicode) (clearSeconds : ℤ) (s : Tab) : Event → Tab → Prop
  /-- Nothing of the operations, the screen or the bar changes. -/
  | frames {e : Event} {s' : Tab} : Framed s s' → s'.view.busy = s.view.busy → Does unicode clearSeconds s e s'
  /-- The plaintext is wiped. -/
  | wipes {e : Event} {s' : Tab} : Framed s s' → s'.view.busy = s.view.busy →
      Does unicode clearSeconds s e s'.clearOutput
  | submits : Does unicode clearSeconds s .decrypt (s.submit unicode)
  | submitsSecret (secret : Bytes) : Does unicode clearSeconds s (.dialogClosed (some secret))
      (Tab.submitWithSecret { s with dialog := false, view.error := none } secret)
  | ends {i : ℕ} {outcome : Except Str DecryptResult} {session : Session DecryptResult} :
      s.session.ended i outcome = some session → Does unicode clearSeconds s (.ended i outcome) { s with session }
  | posts {i : ℕ} {session : Session DecryptResult} :
      s.session.post i = some session → Does unicode clearSeconds s (.post i) { s with session }
  | delivers {session : Session DecryptResult} {told : List (Told DecryptResult)} :
      s.session.deliver = some (session, told) →
        Does unicode clearSeconds s .deliver (told.foldl (Tab.tell clearSeconds) { s with session })

theorem step_cases {e : Event} (hstep : step unicode clearSeconds s e = some s') :
    Does unicode clearSeconds s e s' := by
  cases e with
  | setCiphertext text =>
    rw [step] at hstep
    split_ifs at hstep
    obtain rfl := Option.some.inj hstep
    exact .frames ⟨rfl, rfl, rfl, rfl⟩ rfl
  | typePassphrase text =>
    rw [step] at hstep
    split_ifs at hstep
    obtain rfl := Option.some.inj hstep
    exact .frames ⟨rfl, rfl, rfl, rfl⟩ rfl
  | decrypt =>
    rw [step] at hstep
    split_ifs at hstep
    obtain rfl := Option.some.inj hstep
    exact .submits
  | decryptWithToken enrolled =>
    rw [step] at hstep
    split_ifs at hstep <;> obtain rfl := Option.some.inj hstep <;> exact .frames ⟨rfl, rfl, rfl, rfl⟩ rfl
  | dialogClosed secret =>
    cases secret with
    | none =>
      rw [step] at hstep
      split_ifs at hstep
      obtain rfl := Option.some.inj hstep
      exact .frames ⟨rfl, rfl, rfl, rfl⟩ rfl
    | some secret =>
      rw [step] at hstep
      split_ifs at hstep
      obtain rfl := Option.some.inj hstep
      exact .submitsSecret secret
  | clear =>
    rw [step] at hstep
    split_ifs at hstep
    obtain rfl := Option.some.inj hstep
    have hempty : Framed s (Tab.updateButton { s with ciphertext := [] }) := ⟨rfl, rfl, rfl, rfl⟩
    have hframed : Framed s
        { (Tab.updateButton { s with ciphertext := [] }).clearPassphrase with view.error := none } :=
      hempty.clearPassphrase.trans ⟨rfl, rfl, rfl, rfl⟩
    exact .wipes hframed (clearPassphrase_busy _)
  | timeout =>
    rw [step] at hstep
    split_ifs at hstep
    obtain rfl := Option.some.inj hstep
    exact .wipes (.refl s) rfl
  | hidden =>
    obtain rfl := Option.some.inj hstep
    exact .wipes (.refl s) rfl
  | shown enrolled =>
    obtain rfl := Option.some.inj hstep
    exact .frames ⟨rfl, rfl, rfl, rfl⟩ rfl
  | ended i outcome =>
    obtain ⟨session, hended, rfl⟩ := Option.map_eq_some_iff.mp hstep
    exact .ends hended
  | post i =>
    obtain ⟨session, hpost, rfl⟩ := Option.map_eq_some_iff.mp hstep
    exact .posts hpost
  | deliver =>
    obtain ⟨⟨session, told⟩, hdeliver, rfl⟩ := Option.map_eq_some_iff.mp hstep
    exact .delivers hdeliver

theorem sound_ended (h : Sound svc clearSeconds s) {i : ℕ} {outcome : Except Str DecryptResult}
    {session : Session DecryptResult} (hhonest : Honest svc s (.ended i outcome))
    (hended : s.session.ended i outcome = some session) : Sound svc clearSeconds { s with session } := by
  obtain ⟨htold, -⟩ := told_of_ended hended
  refine ⟨OperationViewModel.kept_ended h.session hended, ?_, ?_, ?_, ?_⟩
  · rw [htold]
    exact h.wiped
  · unfold Tab.last
    rw [htold]
    exact h.screen
  · intro j op hop
    obtain ⟨before, hbefore, hsecure, -⟩ := operation_of_ended hended hop
    rw [hsecure]
    exact h.secure hbefore
  · intro j op outcome' hop houtcome
    obtain ⟨before, hbefore, -, hsame | ⟨rfl, hnew⟩⟩ := operation_of_ended hended hop
    · exact h.served hbefore (hsame ▸ houtcome)
    · obtain rfl := Option.some.inj (hnew.symm.trans houtcome)
      exact hhonest

theorem sound_post (h : Sound svc clearSeconds s) {i : ℕ} {session : Session DecryptResult}
    (hpost : s.session.post i = some session) : Sound svc clearSeconds { s with session } := by
  obtain ⟨htold, -⟩ := told_of_post hpost
  have hoperations := operation_of_post hpost
  refine ⟨OperationViewModel.kept_post h.session hpost, ?_, ?_, ?_, ?_⟩
  · rw [htold]
    exact h.wiped
  · unfold Tab.last
    rw [htold]
    exact h.screen
  · rw [hoperations]
    exact h.secure
  · rw [hoperations]
    exact h.served

/-- **The step lemma.** -/
theorem sound_step {e : Event} (h : Sound svc clearSeconds s) (hhonest : Honest svc s e)
    (hstep : step unicode clearSeconds s e = some s') : Sound svc clearSeconds s' := by
  cases step_cases hstep with
  | frames hframed => exact h.framed hframed
  | wipes hframed => exact sound_clearOutput (h.framed hframed)
  | submits => exact sound_submit h
  | submitsSecret secret =>
    have hclosed : Sound svc clearSeconds { s with dialog := false, view.error := none } :=
      h.framed ⟨rfl, rfl, rfl, rfl⟩
    exact sound_submitWithSecret hclosed secret
  | ends hended => exact sound_ended h hhonest hended
  | posts hpost => exact sound_post h hpost
  | delivers hdeliver => exact sound_deliver h hdeliver

theorem sound_of_reachable (h : ((tabs unicode clearSeconds).restrict (Honest svc)).Reachable s) :
    Sound svc clearSeconds s := by
  refine h.inv (P := Sound svc clearSeconds) ?_ ?_
  · intro s hs
    obtain rfl : s = {} := hs
    exact ⟨OperationViewModel.kept_empty, le_rfl, rfl, fun hop => by simp at hop, fun hop => by simp at hop⟩
  · intro s e s' hs hstep
    exact sound_step hs hstep.1 hstep.2

/-- **What is on the screen**, in whatever order the user, the timer and the
workers act. -/
theorem shows_of_reachable (h : ((tabs unicode clearSeconds).restrict (Honest svc)).Reachable s) :
    s.view.screen = screenOf clearSeconds (s.last.map Prod.snd) ∧
      (∀ i result, s.last = some (i, result) → ∃ request, s.requests[i]? = some request ∧ svc request (.ok result)) ∧
      ∀ i op, s.session.operations[i]? = some op →
        (∀ result, .result result ∉ s.session.mail.rest i) ∧ (s.session.mail.Quiet → op.result = none) := by
  have hsound := sound_of_reachable h
  refine ⟨hsound.screen, fun i result hlast => ?_, fun i op hop => ?_⟩
  · have hmem : (i, .succeeded result) ∈ s.session.told := by
      refine List.mem_of_mem_drop ((mem_of_lastSuccess hlast).resolve_right ?_)
      simp
    obtain ⟨op, hop, houtcome, -⟩ := outcome_of_succeeded hsound.session hmem
    exact hsound.served hop houtcome
  · obtain ⟨-, hwhole, hheld⟩ := hsound.session.operations hop
    have hsecure := hsound.secure hop
    refine ⟨op.result_notMem_rest hsecure hwhole, fun hquiet => ?_⟩
    exact op.result_of_taken ((hquiet.of_taken i).trans hwhole) (hheld hsecure)

/-! ### The bar -/

/-- What is submitted has octets. -/
def Encodable (unicode : PasswordPolicy.Unicode) (s : Tab) : Event → Prop
  | .decrypt => s.canSubmit = true → (s.request unicode).isOk = true
  | .dialogClosed (some secret) => s.canSubmit = true → (s.secretRequest secret).isOk = true
  | _ => True

/-- The events that may start an operation. -/
def Submits : Event → Prop
  | .decrypt => True
  | .dialogClosed (some _) => True
  | _ => False

/-- Nothing is submitted while an operation is running. -/
def Careful (unicode : PasswordPolicy.Unicode) (s : Tab) (e : Event) : Prop :=
  Encodable unicode s e ∧ (Submits e → ∀ i, ¬ s.session.Running i)

theorem busy_foldl_tell (i : ℕ) : ∀ (told : List (Told DecryptResult)) (s : Tab),
    (told.foldl (Tab.tell clearSeconds) s).view.busy = OperationViewModel.busy (told.map (i, ·)) s.view.busy
  | [], _ => rfl
  | .succeeded _ :: told, _ => busy_foldl_tell i told _
  | .failed _ :: told, _ => busy_foldl_tell i told _
  | .loading _ :: told, _ => busy_foldl_tell i told _

/-- A submission starts an operation or none. -/
theorem session_submit (s : Tab) : (s.submit unicode).session = s.session ∨
    (s.submit unicode).session = s.session.start (fun _ => true) true := by
  unfold Tab.submit
  split_ifs
  · exact .inl (clearPassphrase_session s)
  · split
    · exact .inr (clearPassphrase_session _)
    · exact .inl rfl

theorem session_submitWithSecret (s : Tab) (secret : Bytes) : (s.submitWithSecret secret).session = s.session ∨
    (s.submitWithSecret secret).session = s.session.start (fun _ => true) true := by
  unfold Tab.submitWithSecret
  split_ifs
  · exact .inl rfl
  · split
    · exact .inr rfl
    · exact .inl rfl

/-- A step of the tab is one of its operations, or none of them changes; and only
a submission starts one. -/
theorem session_of_step {e : Event} (hstep : step unicode clearSeconds s e = some s') :
    s'.session = s.session ∨ ∃ e', OperationViewModel.step s.session e' = some s'.session ∧
      (¬ Submits e → ∀ s, Patient s e') := by
  cases step_cases hstep with
  | frames hframed => exact .inl hframed.session
  | wipes hframed => exact .inl hframed.session
  | submits =>
    refine (session_submit s).imp_right fun hstart => ?_
    exact ⟨.start (fun _ => true) true, congrArg some hstart.symm, fun hnot => absurd trivial hnot⟩
  | submitsSecret secret =>
    refine (session_submitWithSecret _ secret).imp_right fun hstart => ?_
    exact ⟨.start (fun _ => true) true, congrArg some hstart.symm, fun hnot => absurd trivial hnot⟩
  | ends hended => exact .inr ⟨.ended _ _, hended, fun _ _ => trivial⟩
  | posts hpost => exact .inr ⟨.post _, hpost, fun _ _ => trivial⟩
  | delivers hdeliver =>
    refine .inr ⟨.deliver, ?_, fun _ _ => trivial⟩
    rw [(foldl_tell _ _).1]
    exact congrArg (Option.map Prod.fst) hdeliver

/-- The bar shows what `loading_changed` said last, unless a submission raises
after it. -/
theorem bar_of_step {e : Event} (h : s.view.busy = s.session.busy) (hencodable : Encodable unicode s e)
    (hstep : step unicode clearSeconds s e = some s') : s'.view.busy = s'.session.busy := by
  cases step_cases hstep with
  | frames hframed hbusy =>
    rw [hbusy, hframed.session]
    exact h
  | wipes hframed hbusy =>
    rw [← hframed.session] at h
    exact hbusy.trans h
  | submits =>
    unfold Tab.submit
    split_ifs with hcan
    · rw [clearPassphrase_busy, clearPassphrase_session]
      exact h
    · split
      · rw [clearPassphrase_busy, clearPassphrase_session]
        exact (busy_start _ _).symm
      · rename_i hrequest
        have hok := hencodable (Bool.eq_true_of_not_eq_false hcan)
        rw [hrequest] at hok
        cases hok
  | submitsSecret secret =>
    unfold Tab.submitWithSecret
    split_ifs with hcan
    · exact h
    · split
      · exact (busy_start _ _).symm
      · rename_i hrequest
        have hok := hencodable (Bool.eq_true_of_not_eq_false hcan)
        have hrequest : s.secretRequest secret = .error _ := hrequest
        rw [hrequest] at hok
        cases hok
  | ends hended =>
    unfold Session.busy
    rw [(told_of_ended hended).1]
    exact h
  | posts hpost =>
    unfold Session.busy
    rw [(told_of_post hpost).1]
    exact h
  | delivers hdeliver =>
    obtain ⟨i, signal, op, mail, -, -, rfl, rfl⟩ := deliver_eq_some hdeliver
    unfold Session.busy
    rw [(foldl_tell _ _).1, busy_foldl_tell i]
    dsimp only
    rw [busy_append, h]
    rfl

/-- While the bar is shown an operation is running. -/
theorem running_of_bar (h : ((tabs unicode clearSeconds).restrict (Encodable unicode)).Reachable s) :
    s.view.busy = true → ∃ i, s.session.Running i := by
  have hinv : s.view.busy = s.session.busy ∧ OperationViewModel.sessions.Reachable s.session := by
    refine h.inv (P := fun s => s.view.busy = s.session.busy ∧ OperationViewModel.sessions.Reachable s.session) ?_ ?_
    · intro s hs
      obtain rfl : s = {} := hs
      exact ⟨rfl, .init rfl⟩
    · rintro s e s' ⟨hbar, hreachable⟩ ⟨hencodable, hstep⟩
      refine ⟨bar_of_step hbar hencodable hstep, ?_⟩
      rcases session_of_step hstep with hsame | ⟨e', hsession, -⟩
      · rw [hsame]
        exact hreachable
      · exact hreachable.step e' hsession
  intro hbusy
  exact exists_running_of_busy hinv.2 (hinv.1 ▸ hbusy)

/-- **What the bar shows**: where nothing is submitted while an operation is
running, whether one is. -/
theorem bar_iff_of_reachable (h : ((tabs unicode clearSeconds).restrict (Careful unicode)).Reachable s) :
    s.view.busy = true ↔ ∃ i, s.session.Running i := by
  have hinv : s.view.busy = s.session.busy ∧ Serial s.session := by
    refine h.inv (P := fun s => s.view.busy = s.session.busy ∧ Serial s.session) ?_ ?_
    · intro s hs
      obtain rfl : s = {} := hs
      exact ⟨rfl, serial_empty⟩
    · rintro s e s' ⟨hbar, hserial⟩ ⟨⟨hencodable, hcareful⟩, hstep⟩
      refine ⟨bar_of_step hbar hencodable hstep, ?_⟩
      rcases session_of_step hstep with hsame | ⟨e', hsession, hpatient⟩
      · rw [hsame]
        exact hserial
      · refine serial_step hserial ?_ hsession
        by_cases hsubmits : Submits e
        · exact patient_of_idle (hcareful hsubmits) e'
        · exact hpatient hsubmits s.session
  rw [hinv.1]
  exact hinv.2.busy

end Steps

/-! ### Two sessions -/

def sampleResult : DecryptResult where
  plaintext := ascii "hello"
  signerFingerprint := none
  signatureStatus := .none
  signerTrust := .unknown
  decryptedWithFingerprint := none

/-- A message is decrypted, and another time while the first result is on its
way; the result comes after the tab was hidden. -/
def sampleEvents : List Event :=
  [.setCiphertext (lit "message"), .typePassphrase (lit "secret"), .decrypt, .ended 0 (.ok sampleResult), .decrypt,
    .post 0, .hidden, .deliver]

def sampleService : Service := fun request outcome =>
  request.ciphertext = ascii "message" ∧ outcome.toOption.any (·.plaintext = ascii "hello") = true

instance decidableHonest_sampleService (s : Tab) : (e : Event) → Decidable (Honest sampleService s e)
  | .ended i outcome => decidable_of_iff ((s.requests[i]?).any fun request =>
      request.ciphertext = ascii "message" ∧ outcome.toOption.any (·.plaintext = ascii "hello") = true)
    (by simp [Honest, sampleService, Option.any_eq_true])
  | .setCiphertext _ => isTrue trivial
  | .typePassphrase _ => isTrue trivial
  | .decrypt => isTrue trivial
  | .decryptWithToken _ => isTrue trivial
  | .dialogClosed _ => isTrue trivial
  | .clear => isTrue trivial
  | .timeout => isTrue trivial
  | .hidden => isTrue trivial
  | .shown _ => isTrue trivial
  | .post _ => isTrue trivial
  | .deliver => isTrue trivial

theorem shows_of_reachable_sample : ∃ s : Tab, s.view.output = lit "hello" ∧
    s.view.screen = screenOf 30 (s.last.map Prod.snd) ∧
    (∀ i result, s.last = some (i, result) →
      ∃ request, s.requests[i]? = some request ∧ sampleService request (.ok result)) ∧
    ∀ i op, s.session.operations[i]? = some op →
      (∀ result, .result result ∉ s.session.mail.rest i) ∧ (s.session.mail.Quiet → op.result = none) := by
  have hrun : (System.runLabels (System.guarded (Honest sampleService) (step PasswordPolicy.sampleUnicode 30)) {}
      sampleEvents).any (fun s => s.view.output = lit "hello") = true := by
    decide +kernel
  obtain ⟨s, hs, houtput⟩ := (Option.any_eq_true _ _).mp hrun
  have hempty : ((tabs PasswordPolicy.sampleUnicode 30).restrict (Honest sampleService)).Reachable {} := .init rfl
  have hreachable := System.reachable_restrict_of_runLabels sampleEvents hempty hs
  exact ⟨s, of_decide_eq_true houtput, shows_of_reachable hreachable⟩

deriving instance DecidableEq for DecryptResult

instance decidableRunning (session : Session DecryptResult) (i : ℕ) : Decidable (session.Running i) := by
  unfold Session.Running
  infer_instance

instance decidableIdle (session : Session DecryptResult) : Decidable (∀ i, ¬ session.Running i) :=
  decidable_of_iff (∀ i < session.operations.length, ¬ session.Running i)
    ⟨fun h i hi => h i hi.1 hi, fun h i _ => h i⟩

instance decidableCareful (unicode : PasswordPolicy.Unicode) (s : Tab) : (e : Event) → Decidable (Careful unicode s e)
  | .decrypt => inferInstanceAs (Decidable ((s.canSubmit = true → (s.request unicode).isOk = true) ∧
      (True → ∀ i, ¬ s.session.Running i)))
  | .dialogClosed (some secret) => inferInstanceAs (Decidable
      ((s.canSubmit = true → (s.secretRequest secret).isOk = true) ∧ (True → ∀ i, ¬ s.session.Running i)))
  | .dialogClosed none => isTrue ⟨trivial, fun h => h.elim⟩
  | .setCiphertext _ => isTrue ⟨trivial, fun h => h.elim⟩
  | .typePassphrase _ => isTrue ⟨trivial, fun h => h.elim⟩
  | .decryptWithToken _ => isTrue ⟨trivial, fun h => h.elim⟩
  | .clear => isTrue ⟨trivial, fun h => h.elim⟩
  | .timeout => isTrue ⟨trivial, fun h => h.elim⟩
  | .hidden => isTrue ⟨trivial, fun h => h.elim⟩
  | .shown _ => isTrue ⟨trivial, fun h => h.elim⟩
  | .ended _ _ => isTrue ⟨trivial, fun h => h.elim⟩
  | .post _ => isTrue ⟨trivial, fun h => h.elim⟩
  | .deliver => isTrue ⟨trivial, fun h => h.elim⟩

/-- A message is decrypted, and once the view has learned of the result another
is, which a security key opens. -/
def serialEvents : List Event :=
  [.shown true, .setCiphertext (lit "message"), .decrypt, .ended 0 (.ok sampleResult), .post 0, .deliver, .post 0,
    .deliver, .setCiphertext (lit "other"), .decryptWithToken true, .dialogClosed (some [7]),
    .ended 1 (.error (lit "no key")), .post 1]

/-- The bar is shown while the second operation is running, and not between the
two. -/
theorem bar_iff_of_reachable_sample :
    (∃ s : Tab, s.session.operations.length = 1 ∧ s.view.busy = false ∧
      (s.view.busy = true ↔ ∃ i, s.session.Running i)) ∧
    ∃ s : Tab, s.session.operations.length = 2 ∧ s.view.busy = true ∧
      (s.view.busy = true ↔ ∃ i, s.session.Running i) := by
  have hempty : ((tabs PasswordPolicy.sampleUnicode 30).restrict (Careful PasswordPolicy.sampleUnicode)).Reachable {} :=
    .init rfl
  have hrun (n count : ℕ) (on : Bool) (h : (System.runLabels (System.guarded (Careful PasswordPolicy.sampleUnicode)
      (step PasswordPolicy.sampleUnicode 30)) {} (serialEvents.take n)).any (fun s =>
        s.session.operations.length = count && s.view.busy = on) = true) :
      ∃ s : Tab, s.session.operations.length = count ∧ s.view.busy = on ∧
        (s.view.busy = true ↔ ∃ i, s.session.Running i) := by
    obtain ⟨s, hs, hshows⟩ := (Option.any_eq_true _ _).mp h
    obtain ⟨hcount, hbusy⟩ := Bool.and_eq_true_iff.mp hshows
    have hreachable := System.reachable_restrict_of_runLabels (serialEvents.take n) hempty hs
    exact ⟨s, of_decide_eq_true hcount, of_decide_eq_true hbusy, bar_iff_of_reachable hreachable⟩
  exact ⟨hrun 8 1 false (by decide +kernel), hrun 13 2 true (by decide +kernel)⟩

end DecryptTab
end GpgMeister
