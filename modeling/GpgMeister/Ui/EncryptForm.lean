/-
# The encryption form

`ui/messages/encrypt_view.py` and `ui/messages/encrypt_viewmodel.py`: a message,
the keys of its recipients, the box by which the user has "verified the
recipients listed above", a signing key, and what `submit` hands to
`MessageService.encrypt`. The box stays ticked when a recipient is added, and a
signing key counts only if it is chosen while the group of the signature is
checked.

* `provenance_of_reachable`: in every run, what every submitted message is
  encrypted to and signed with, in terms of what the user was shown.
-/
import GpgMeister.Lib.System
import GpgMeister.Security.PasswordPolicy

namespace GpgMeister
namespace EncryptForm

variable {Time : Type}

/-! ### The form -/

/-- `EncryptViewModel` -/
structure EncryptViewModel where
  plaintext : Str := []
  recipientFps : List Str := []
  signWith : Option Str := none
  trustConfirmed : Bool := false

/-- `can_submit` -/
def EncryptViewModel.canSubmit (vm : EncryptViewModel) : Bool :=
  strip vm.plaintext ≠ [] && vm.recipientFps ≠ [] && vm.trustConfirmed

/-- `EncryptView`, with what of its widgets the code reads: the items of the two
combo boxes and the current one of the second, the box and its state, the group
of the signature, and the button. -/
structure EncryptView (Time : Type) where
  recipientKeys : List (KeyInfo Time) := []
  recipItems : List (KeyInfo Time) := []
  signItems : List (Option (KeyInfo Time)) := []
  signIndex : Option ℕ := none
  signChecked : Bool := false
  signPassphrase : Str := []
  verifyEnabled : Bool := false
  verifyChecked : Bool := false
  encryptEnabled : Bool := false

/-- `self._sign_combo.itemData(index)` of the current index -/
def EncryptView.signKey (view : EncryptView Time) : Option (KeyInfo Time) :=
  (view.signIndex.bind (view.signItems[·]?)).join

/-! ### Messages that were submitted -/

/-- What the user has done since a message could last be submitted. -/
structure Seen where
  /-- The recipients that were listed when the box was last ticked. -/
  verified : List Str := []
  /-- Those that were added since. -/
  added : List Str := []
  /-- How often the box was ticked. -/
  ticks : ℕ := 0
  /-- A signing key was chosen since the group was last checked. -/
  chosen : Bool := false

/-- What `MessageService.encrypt` gets, with what the user had seen and which
signing key was shown. -/
structure Job (Time : Type) where
  plaintext : Bytes
  recipientFps : List Str
  signWith : Option Str
  passphrase : Option Bytes
  trust : Bool
  seen : Seen
  shown : Option (KeyInfo Time)

structure Session (Time : Type) where
  view : EncryptView Time := {}
  vm : EncryptViewModel := {}
  jobs : List (Job Time) := []
  running : ℕ := 0
  seen : Seen := {}

/-- What the user does, and what the workers tell. A handler sees the time. -/
inductive Event (Time : Type)
  | keysLoaded (keys : List (KeyInfo Time))
  | setPlaintext (text : Str)
  | addRecipient (index : ℕ)
  | removeRecipient (row : ℕ)
  | toggleVerify
  | toggleSign
  | chooseSign (index : ℕ)
  | typePassphrase (text : Str)
  | submit
  | clear
  | finished

section Handlers

variable (unicode : PasswordPolicy.Unicode)
/- `now >= expires_at` -/
variable (isOver : Time → Time → Bool)

/-- `read_passphrase` -/
def readPassphrase (text : Str) : Except Exc (Option Bytes) :=
  if strip text = [] then .ok none else some <$> encodeUtf8 (unicode.nfkc (strip text))

/-- `_has_blocked_recipient` -/
def hasBlockedRecipient (now : Time) (keys : List (KeyInfo Time)) : Bool :=
  keys.any fun key => key.isRevoked || key.expiresAt.any (isOver now)

/-- `_update_encrypt_button` -/
def Session.updateEncryptButton (s : Session Time) (now : Time) : Session Time :=
  { s with view.encryptEnabled := s.vm.canSubmit && ! hasBlockedRecipient isOver now s.view.recipientKeys }

/-- `_on_verify_toggled` -/
def Session.onVerifyToggled (s : Session Time) (now : Time) (checked : Bool) : Session Time :=
  Session.updateEncryptButton isOver { s with vm.trustConfirmed := checked } now

/-- `self._verify_check.setChecked(False)`, which tells of a change only. -/
def Session.uncheckVerify (s : Session Time) (now : Time) : Session Time :=
  if s.view.verifyChecked then
    Session.onVerifyToggled isOver { s with view.verifyChecked := false } now false
  else s

/-- `_rebuild_confirm_panel` -/
def Session.rebuildConfirmPanel (s : Session Time) (now : Time) : Session Time :=
  if s.view.recipientKeys ≠ [] then
    { s with view.verifyEnabled := ! hasBlockedRecipient isOver now s.view.recipientKeys }
  else Session.uncheckVerify isOver { s with view.verifyEnabled := false } now

/-- `self._vm.set_recipients(…)` -/
def Session.setRecipients (s : Session Time) (keys : List (KeyInfo Time)) : Session Time :=
  { s with view.recipientKeys := keys, vm.recipientFps := keys.map KeyInfo.fingerprint }

/-- `_add_recipient`, of the key that is current in the combo box -/
def Session.addRecipient (s : Session Time) (now : Time) (key : KeyInfo Time) : Session Time :=
  if s.view.recipientKeys.any (·.fingerprint = key.fingerprint) then s
  else
    let s := s.setRecipients (s.view.recipientKeys ++ [key])
    let s := { s with seen.added := s.seen.added ++ [key.fingerprint] }
    Session.updateEncryptButton isOver (s.rebuildConfirmPanel isOver now) now

/-- `_remove_recipient`, of the current row -/
def Session.removeRecipient (s : Session Time) (now : Time) (row : ℕ) : Session Time :=
  let s := s.setRecipients (s.view.recipientKeys.eraseIdx row)
  let s := s.rebuildConfirmPanel isOver now
  Session.updateEncryptButton isOver (s.uncheckVerify isOver now) now

/-- A click on the box. -/
def Session.toggleVerify (s : Session Time) (now : Time) : Session Time :=
  let checked := ! s.view.verifyChecked
  let s := { s with view.verifyChecked := checked }
  let s := if checked then
    { s with seen := { s.seen with verified := s.vm.recipientFps, added := [], ticks := s.seen.ticks + 1 } } else s
  s.onVerifyToggled isOver now checked

/-- `_on_sign_toggled`, on a click on the group -/
def Session.toggleSign (s : Session Time) : Session Time :=
  if s.view.signChecked then
    { s with view.signChecked := false, view.signPassphrase := [], vm.signWith := none, seen.chosen := false }
  else { s with view.signChecked := true, seen.chosen := false }

/-- `_on_sign_key_changed`, once the combo box has another current item -/
def Session.signKeyChanged (s : Session Time) : Session Time :=
  if s.view.signChecked then
    { s with vm.signWith := s.view.signKey.map KeyInfo.fingerprint, seen.chosen := true }
  else s

/-- The combo box gets another current item, and tells of a change only. -/
def Session.setSignIndex (s : Session Time) (index : Option ℕ) : Session Time :=
  if index = s.view.signIndex then s else Session.signKeyChanged { s with view.signIndex := index }

/-- `_on_keys_loaded`; a combo box with a placeholder has no current item when it
is filled. -/
def Session.keysLoaded (s : Session Time) (keys : List (KeyInfo Time)) : Session Time :=
  let s := Session.setSignIndex { s with view.recipItems := keys, view.signItems := [] } none
  { s with view.signItems := none :: (keys.filter (·.hasPrivateKey)).map some }

/-- The call of a `submit`. -/
def Session.job (s : Session Time) (plaintext : Bytes) (passphrase : Option Bytes) : Job Time where
  plaintext := plaintext
  recipientFps := s.vm.recipientFps
  signWith := s.vm.signWith
  passphrase := passphrase
  trust := s.vm.trustConfirmed
  seen := s.seen
  shown := if s.view.signChecked then s.view.signKey else none

/-- `submit`, and `_submit` around it. Where a text has no octets it raises. -/
def Session.submit (s : Session Time) : Session Time :=
  if s.vm.canSubmit = false then { s with view.signPassphrase := [] }
  else
    match encodeUtf8 s.vm.plaintext, readPassphrase unicode s.view.signPassphrase with
    | .ok plaintext, .ok passphrase =>
      { s with
        view.encryptEnabled := false
        view.signPassphrase := []
        vm.trustConfirmed := false
        jobs := s.jobs ++ [s.job plaintext passphrase]
        running := s.running + 1 }
    | _, _ => { s with view.encryptEnabled := false }

/-- `_clear` -/
def Session.clear (s : Session Time) (now : Time) : Session Time :=
  let s := Session.updateEncryptButton isOver { s with vm.plaintext := [] } now
  let s := (s.setRecipients []).rebuildConfirmPanel isOver now
  s.uncheckVerify isOver now

/-- `_on_loading(False)` -/
def Session.finished (s : Session Time) : Session Time :=
  { s with view.encryptEnabled := s.vm.canSubmit, running := s.running - 1 }

/-- One event; `none` where the widget for it is disabled. -/
def step (s : Session Time) (label : Time × Event Time) : Option (Session Time) :=
  match label.2 with
  | .keysLoaded keys => some (s.keysLoaded keys)
  | .setPlaintext text => some (Session.updateEncryptButton isOver { s with vm.plaintext := text } label.1)
  | .addRecipient index => s.view.recipItems[index]?.map (s.addRecipient isOver label.1)
  | .removeRecipient row =>
    if row < s.view.recipientKeys.length then some (s.removeRecipient isOver label.1 row) else none
  | .toggleVerify => if s.view.verifyEnabled then some (s.toggleVerify isOver label.1) else none
  | .toggleSign => some s.toggleSign
  | .chooseSign index =>
    if s.view.signChecked = true ∧ index < s.view.signItems.length then some (s.setSignIndex (some index)) else none
  | .typePassphrase text => if s.view.signChecked then some { s with view.signPassphrase := text } else none
  | .submit => if s.view.encryptEnabled then some (s.submit unicode) else none
  | .clear => some (s.clear isOver label.1)
  | .finished => if 0 < s.running then some s.finished else none

def session : System (Session Time) (Time × Event Time) := System.ofStep (· = {}) (step unicode isOver)

end Handlers

/-! ### What the form keeps -/

/-- Where a message goes, and whose signature it gets. -/
structure Job.Provenance (job : Job Time) : Prop where
  confirmed : job.trust = true
  recipients : job.recipientFps = job.seen.verified ++ job.seen.added
  nodup : job.recipientFps.Nodup
  signer : job.signWith = if job.seen.chosen then job.shown.map KeyInfo.fingerprint else none

/-- What holds also between a change of the recipients and the box. -/
structure Consistent (s : Session Time) : Prop where
  synced : s.vm.recipientFps = s.view.recipientKeys.map KeyInfo.fingerprint
  nodup : s.vm.recipientFps.Nodup
  signer : s.vm.signWith = if s.seen.chosen then s.view.signKey.map KeyInfo.fingerprint else none
  chosen : s.seen.chosen = true → s.view.signChecked = true
  checked : s.vm.trustConfirmed = true → s.view.verifyChecked = true
  jobs : ∀ job ∈ s.jobs, job.Provenance
  increasing : (s.jobs.map (·.seen.ticks)).Pairwise (· < ·)
  spent : ∀ job ∈ s.jobs, job.seen.ticks ≤ s.seen.ticks
  fresh : s.vm.trustConfirmed = true → ∀ job ∈ s.jobs, job.seen.ticks < s.seen.ticks

/-- The invariant: as long as the recipients are confirmed they are those that
were, and those that were added. -/
structure Kept (s : Session Time) : Prop extends Consistent s where
  confirmed : s.vm.trustConfirmed = true → s.vm.recipientFps = s.seen.verified ++ s.seen.added

/-- The box and the buttons may have changed, and no more is confirmed. -/
structure Eased (s s' : Session Time) : Prop where
  rest : s' = { s with
    view.verifyEnabled := s'.view.verifyEnabled
    view.verifyChecked := s'.view.verifyChecked
    view.encryptEnabled := s'.view.encryptEnabled
    vm.trustConfirmed := s'.vm.trustConfirmed }
  confirmed : s'.vm.trustConfirmed = true → s.vm.trustConfirmed = true ∧ s'.view.verifyChecked = s.view.verifyChecked

namespace Eased

variable {s s' s'' : Session Time}

theorem refl (s : Session Time) : Eased s s := ⟨rfl, fun h => ⟨h, rfl⟩⟩

theorem trans (h : Eased s s') (h' : Eased s' s'') : Eased s s'' where
  rest := by
    rw [h'.rest, h.rest]
  confirmed hc := by
    obtain ⟨hc', hv'⟩ := h'.confirmed hc
    obtain ⟨hc'', hv''⟩ := h.confirmed hc'
    exact ⟨hc'', hv'.trans hv''⟩

theorem consistent (h : Eased s s') (hs : Consistent s) : Consistent s' := by
  have hchecked : s'.vm.trustConfirmed = true → s'.view.verifyChecked = true := fun hc =>
    (h.confirmed hc).2.trans (hs.checked (h.confirmed hc).1)
  have hfresh : s'.vm.trustConfirmed = true → ∀ job ∈ s.jobs, job.seen.ticks < s.seen.ticks := fun hc =>
    hs.fresh (h.confirmed hc).1
  rw [h.rest]
  exact
    { synced := hs.synced
      nodup := hs.nodup
      signer := hs.signer
      chosen := hs.chosen
      checked := hchecked
      jobs := hs.jobs
      increasing := hs.increasing
      spent := hs.spent
      fresh := hfresh }

theorem kept (h : Eased s s') (hs : Kept s) : Kept s' := by
  refine ⟨h.consistent hs.toConsistent, fun hc => ?_⟩
  have hconfirmed := hs.confirmed (h.confirmed hc).1
  rw [h.rest]
  exact hconfirmed

end Eased

section Steps

variable {unicode : PasswordPolicy.Unicode} {isOver : Time → Time → Bool} {s s' : Session Time}

theorem eased_updateEncryptButton (s : Session Time) (now : Time) : Eased s (s.updateEncryptButton isOver now) :=
  ⟨rfl, fun h => ⟨h, rfl⟩⟩

theorem eased_uncheckVerify (s : Session Time) (now : Time) : Eased s (s.uncheckVerify isOver now) := by
  unfold Session.uncheckVerify
  split_ifs
  · exact ⟨rfl, fun h => absurd h Bool.false_ne_true⟩
  · exact .refl s

theorem eased_rebuildConfirmPanel (s : Session Time) (now : Time) : Eased s (s.rebuildConfirmPanel isOver now) := by
  unfold Session.rebuildConfirmPanel
  split_ifs
  · exact ⟨rfl, fun h => ⟨h, rfl⟩⟩
  · have hoff : Eased s { s with view.verifyEnabled := false } := ⟨rfl, fun h => ⟨h, rfl⟩⟩
    exact hoff.trans (eased_uncheckVerify _ now)

/-- Once the box is not checked nothing is confirmed. -/
theorem kept_uncheckVerify (hs : Consistent s) (now : Time) : Kept (s.uncheckVerify isOver now) := by
  refine ⟨(eased_uncheckVerify s now).consistent hs, fun hc => ?_⟩
  unfold Session.uncheckVerify at hc
  split_ifs at hc with hchecked
  · exact absurd hc Bool.false_ne_true
  · exact absurd (hs.checked hc) hchecked

theorem consistent_setRecipients (hs : Consistent s) {keys : List (KeyInfo Time)}
    (h : (keys.map KeyInfo.fingerprint).Nodup) : Consistent (s.setRecipients keys) :=
  { hs with
    synced := rfl
    nodup := h }

theorem kept_addRecipient (hs : Kept s) (now : Time) (key : KeyInfo Time) : Kept (s.addRecipient isOver now key) := by
  unfold Session.addRecipient
  by_cases hany : s.view.recipientKeys.any (·.fingerprint = key.fingerprint) = true
  · rw [if_pos hany]
    exact hs
  · rw [if_neg hany]
    have hnew : key.fingerprint ∉ s.vm.recipientFps := by
      intro hmem
      rw [hs.synced, List.mem_map] at hmem
      obtain ⟨k, hk, hfp⟩ := hmem
      exact hany (List.any_eq_true.mpr ⟨k, hk, decide_eq_true hfp⟩)
    have hmap : (s.view.recipientKeys ++ [key]).map KeyInfo.fingerprint = s.vm.recipientFps ++ [key.fingerprint] := by
      rw [List.map_append, ← hs.synced, List.map_singleton]
    have hnodup : ((s.view.recipientKeys ++ [key]).map KeyInfo.fingerprint).Nodup := by
      rw [hmap]
      exact hs.nodup.append (List.nodup_singleton _) (List.disjoint_singleton.mpr hnew)
    have hset := consistent_setRecipients hs.toConsistent hnodup
    have hadd : Kept { s.setRecipients (s.view.recipientKeys ++ [key]) with
        seen.added := s.seen.added ++ [key.fingerprint] } :=
      { synced := hset.synced
        nodup := hset.nodup
        signer := hset.signer
        chosen := hset.chosen
        checked := hset.checked
        jobs := hset.jobs
        increasing := hset.increasing
        spent := hset.spent
        fresh := hset.fresh
        confirmed := fun hc => by
          show (s.view.recipientKeys ++ [key]).map KeyInfo.fingerprint =
            s.seen.verified ++ (s.seen.added ++ [key.fingerprint])
          rw [hmap, hs.confirmed hc, List.append_assoc] }
    exact (eased_updateEncryptButton _ now).kept ((eased_rebuildConfirmPanel _ now).kept hadd)

theorem kept_removeRecipient (hs : Kept s) (now : Time) (row : ℕ) : Kept (s.removeRecipient isOver now row) := by
  have hnodup : ((s.view.recipientKeys.eraseIdx row).map KeyInfo.fingerprint).Nodup := by
    rw [← List.eraseIdx_map, ← hs.synced]
    exact hs.nodup.sublist (List.eraseIdx_sublist _ _)
  have hset := consistent_setRecipients hs.toConsistent hnodup
  have hpanel : Consistent (Session.rebuildConfirmPanel isOver _ now) := (eased_rebuildConfirmPanel _ now).consistent hset
  exact (eased_updateEncryptButton _ now).kept (kept_uncheckVerify hpanel now)

theorem kept_clear (hs : Kept s) (now : Time) : Kept (s.clear isOver now) := by
  have htext : Kept { s with vm.plaintext := [] } := { hs with }
  have hupdate : Kept (Session.updateEncryptButton isOver _ now) := (eased_updateEncryptButton _ now).kept htext
  have hset : Consistent (Session.setRecipients _ []) := consistent_setRecipients hupdate.toConsistent List.nodup_nil
  exact kept_uncheckVerify ((eased_rebuildConfirmPanel _ now).consistent hset) now

theorem kept_toggleVerify (hs : Kept s) (now : Time) : Kept (s.toggleVerify isOver now) := by
  unfold Session.toggleVerify Session.onVerifyToggled
  apply (eased_updateEncryptButton _ now).kept
  cases hchecked : s.view.verifyChecked with
  | true =>
    exact
      { hs with
        checked := fun h => absurd h Bool.false_ne_true
        fresh := fun h => absurd h Bool.false_ne_true
        confirmed := fun h => absurd h Bool.false_ne_true }
  | false =>
    -- this tick is above those of all messages so far
    have hfresh : ∀ job ∈ s.jobs, job.seen.ticks < s.seen.ticks + 1 := fun job hjob => Nat.lt_succ_of_le (hs.spent job hjob)
    exact
      { hs with
        checked := fun _ => rfl
        spent := fun job hjob => (hfresh job hjob).le
        fresh := fun _ => hfresh
        confirmed := fun _ => (List.append_nil _).symm }

theorem kept_toggleSign (hs : Kept s) : Kept s.toggleSign := by
  unfold Session.toggleSign
  split_ifs
  · exact { hs with signer := rfl, chosen := fun h => absurd h Bool.false_ne_true }
  · rename_i hchecked
    have hunchosen : s.seen.chosen ≠ true := fun h => hchecked (hs.chosen h)
    have hnone : s.vm.signWith = none := by
      rw [hs.signer, if_neg hunchosen]
    exact { hs with signer := hnone, chosen := fun h => absurd h Bool.false_ne_true }

/-- The items and the current one change; the handler follows if the group is
checked, and there is nothing to follow otherwise. -/
theorem kept_signKeyChanged (hs : Kept s) (items : List (Option (KeyInfo Time))) (index : Option ℕ) :
    Kept (Session.signKeyChanged { s with view.signItems := items, view.signIndex := index }) := by
  unfold Session.signKeyChanged
  by_cases hchecked : s.view.signChecked = true
  · rw [if_pos hchecked]
    exact { hs with signer := rfl, chosen := fun _ => hchecked }
  · rw [if_neg hchecked]
    have hunchosen : s.seen.chosen ≠ true := fun h => hchecked (hs.chosen h)
    have hnone := hs.signer
    rw [if_neg hunchosen] at hnone
    have hsigner : s.vm.signWith =
        if s.seen.chosen then (EncryptView.signKey { s.view with signItems := items, signIndex := index }).map
          KeyInfo.fingerprint else none := by
      rw [if_neg hunchosen, hnone]
    exact { hs with signer := hsigner, chosen := hs.chosen }

theorem kept_setSignIndex (hs : Kept s) (index : Option ℕ) : Kept (s.setSignIndex index) := by
  unfold Session.setSignIndex
  split_ifs
  · exact hs
  · exact kept_signKeyChanged hs s.view.signItems index

theorem signKey_of_signIndex {view : EncryptView Time} (h : view.signIndex = none) : view.signKey = none := by
  rw [EncryptView.signKey, h]
  rfl

/-- Where no item is current the items are all the same to the handler. -/
theorem kept_signItems (hs : Kept s) (h : s.view.signIndex = none) (items : List (Option (KeyInfo Time))) :
    Kept { s with view.signItems := items } := by
  have hkey : EncryptView.signKey { s.view with signItems := items } = none := signKey_of_signIndex h
  have hsigner : s.vm.signWith = if s.seen.chosen then
      (EncryptView.signKey { s.view with signItems := items }).map KeyInfo.fingerprint else none := by
    rw [hkey, hs.signer, signKey_of_signIndex h]
  exact { hs with signer := hsigner }

theorem kept_keysLoaded (hs : Kept s) (keys : List (KeyInfo Time)) : Kept (s.keysLoaded keys) := by
  have hitems : Kept { s with view.recipItems := keys } := { hs with }
  -- the items go, and with them the current one
  have hcleared : Kept (Session.setSignIndex { s with view.recipItems := keys, view.signItems := [] } none) ∧
      (Session.setSignIndex { s with view.recipItems := keys, view.signItems := [] } none).view.signIndex = none := by
    unfold Session.setSignIndex
    split_ifs with hindex
    · exact ⟨kept_signItems hitems hindex.symm [], hindex.symm⟩
    · refine ⟨kept_signKeyChanged hitems [] none, ?_⟩
      unfold Session.signKeyChanged
      split_ifs <;> rfl
  exact kept_signItems hcleared.1 hcleared.2 _

theorem provenance_job (hs : Kept s) (hc : s.vm.trustConfirmed = true) (plaintext : Bytes) (passphrase : Option Bytes) :
    (s.job plaintext passphrase).Provenance where
  confirmed := hc
  recipients := hs.confirmed hc
  nodup := hs.nodup
  signer := by
    show s.vm.signWith = if s.seen.chosen then
      (if s.view.signChecked then s.view.signKey else none).map KeyInfo.fingerprint else none
    rw [hs.signer]
    by_cases hchosen : s.seen.chosen = true
    · rw [if_pos hchosen, if_pos hchosen, if_pos (hs.chosen hchosen)]
    · rw [if_neg hchosen, if_neg hchosen]

theorem kept_submit (hs : Kept s) : Kept (s.submit unicode) := by
  unfold Session.submit
  by_cases hcan : s.vm.canSubmit = false
  · rw [if_pos hcan]
    exact { hs with }
  · rw [if_neg hcan]
    have hconfirmed : s.vm.trustConfirmed = true := by
      simp only [EncryptViewModel.canSubmit, Bool.not_eq_false, Bool.and_eq_true] at hcan
      exact hcan.2
    cases encodeUtf8 s.vm.plaintext with
    | error e => exact { hs with }
    | ok plaintext =>
      cases readPassphrase unicode s.view.signPassphrase with
      | error e => exact { hs with }
      | ok passphrase =>
        have hjob := provenance_job hs hconfirmed plaintext passphrase
        have hjobs : ∀ job ∈ s.jobs ++ [s.job plaintext passphrase], job.Provenance :=
          List.forall_mem_append.mpr ⟨hs.jobs, List.forall_mem_singleton.mpr hjob⟩
        have hspent : ∀ job ∈ s.jobs ++ [s.job plaintext passphrase], job.seen.ticks ≤ s.seen.ticks :=
          List.forall_mem_append.mpr ⟨hs.spent, List.forall_mem_singleton.mpr le_rfl⟩
        have hincreasing : ((s.jobs ++ [s.job plaintext passphrase]).map (·.seen.ticks)).Pairwise (· < ·) := by
          rw [List.map_append, List.pairwise_append]
          refine ⟨hs.increasing, List.pairwise_singleton _ _, ?_⟩
          intro m hm n hn
          obtain ⟨job, hjob, rfl⟩ := List.mem_map.mp hm
          obtain rfl := List.mem_singleton.mp hn
          exact hs.fresh hconfirmed job hjob
        exact
          { hs with
            checked := fun h => absurd h Bool.false_ne_true
            jobs := hjobs
            increasing := hincreasing
            spent := hspent
            fresh := fun h => absurd h Bool.false_ne_true
            confirmed := fun h => absurd h Bool.false_ne_true }

theorem kept_step (hs : Kept s) {label : Time × Event Time} (h : step unicode isOver s label = some s') : Kept s' := by
  obtain ⟨now, event⟩ := label
  cases event with
  | keysLoaded keys =>
    obtain rfl := Option.some.inj h
    exact kept_keysLoaded hs keys
  | setPlaintext text =>
    obtain rfl := Option.some.inj h
    have htext : Kept { s with vm.plaintext := text } := { hs with }
    exact (eased_updateEncryptButton _ now).kept htext
  | addRecipient index =>
    obtain ⟨key, -, rfl⟩ := Option.map_eq_some_iff.mp h
    exact kept_addRecipient hs now key
  | removeRecipient row =>
    obtain ⟨-, h⟩ := Option.ite_none_right_eq_some.mp h
    obtain rfl := Option.some.inj h
    exact kept_removeRecipient hs now row
  | toggleVerify =>
    obtain ⟨-, h⟩ := Option.ite_none_right_eq_some.mp h
    obtain rfl := Option.some.inj h
    exact kept_toggleVerify hs now
  | toggleSign =>
    obtain rfl := Option.some.inj h
    exact kept_toggleSign hs
  | chooseSign index =>
    obtain ⟨-, h⟩ := Option.ite_none_right_eq_some.mp h
    obtain rfl := Option.some.inj h
    exact kept_setSignIndex hs (some index)
  | typePassphrase text =>
    obtain ⟨-, h⟩ := Option.ite_none_right_eq_some.mp h
    obtain rfl := Option.some.inj h
    exact { hs with }
  | submit =>
    obtain ⟨-, h⟩ := Option.ite_none_right_eq_some.mp h
    obtain rfl := Option.some.inj h
    exact kept_submit hs
  | clear =>
    obtain rfl := Option.some.inj h
    exact kept_clear hs now
  | finished =>
    obtain ⟨-, h⟩ := Option.ite_none_right_eq_some.mp h
    obtain rfl := Option.some.inj h
    exact { hs with }

theorem kept_init : Kept ({} : Session Time) where
  synced := rfl
  nodup := List.nodup_nil
  signer := rfl
  chosen h := absurd h Bool.false_ne_true
  checked h := absurd h Bool.false_ne_true
  jobs := by simp
  increasing := List.Pairwise.nil
  spent := by simp
  fresh h := absurd h Bool.false_ne_true
  confirmed h := absurd h Bool.false_ne_true

theorem kept_of_reachable (h : (session unicode isOver).Reachable s) : Kept s := by
  apply h.inv
  · intro s hinit
    obtain rfl : s = {} := hinit
    exact kept_init
  · intro s label s' hs hstep
    have hstep' : step unicode isOver s label = some s' := hstep
    exact kept_step hs hstep'

/-- The recipients are among those that were verified exactly if none was added
afterwards. -/
theorem Job.Provenance.subset_iff {job : Job Time} (h : job.Provenance) :
    job.recipientFps ⊆ job.seen.verified ↔ job.seen.added = [] := by
  have hnodup := h.nodup
  rw [h.recipients, List.nodup_append'] at hnodup
  rw [h.recipients]
  constructor
  · intro hsub
    rw [List.eq_nil_iff_forall_not_mem]
    intro fp hfp
    exact hnodup.2.2 (hsub (List.mem_append_right _ hfp)) hfp
  · intro hnil
    rw [hnil, List.append_nil]
    exact List.Subset.refl _

/-- **What was confirmed, and by whom it is signed.** Every message that the form
submits goes, with the recipients confirmed, to those that were listed when the
box was last ticked, and to those that were added since; each tick serves one
message; and it is signed with the key that is shown exactly if that was chosen
while the group was checked. -/
theorem provenance_of_reachable (h : (session unicode isOver).Reachable s) :
    (∀ job ∈ s.jobs, job.trust = true ∧ job.recipientFps = job.seen.verified ++ job.seen.added ∧
      (job.recipientFps ⊆ job.seen.verified ↔ job.seen.added = []) ∧
      job.signWith = if job.seen.chosen then job.shown.map KeyInfo.fingerprint else none) ∧
    (s.jobs.map (·.seen.ticks)).Pairwise (· < ·) := by
  have hs := kept_of_reachable h
  refine ⟨fun job hjob => ?_, hs.increasing⟩
  have hp := hs.jobs job hjob
  exact ⟨hp.confirmed, hp.recipients, hp.subset_iff, hp.signer⟩

end Steps

/-! ### A session

A recipient is added after the box was ticked, and the group of the signature is
checked again with a key in it. -/

def sampleKeys : List (KeyInfo Unit) :=
  [{ fingerprint := [1], userIds := [], createdAt := (), hasPrivateKey := true },
    { fingerprint := [2], userIds := [], createdAt := () }]

def sampleEvents : List (Unit × Event Unit) :=
  [((), .keysLoaded sampleKeys), ((), .toggleSign), ((), .chooseSign 1), ((), .toggleSign), ((), .toggleSign),
    ((), .addRecipient 0), ((), .toggleVerify), ((), .addRecipient 1), ((), .setPlaintext (lit "hello")), ((), .submit)]

theorem provenance_of_reachable_sample : ∃ s : Session Unit, (∃ job ∈ s.jobs,
    job.trust = true ∧ job.recipientFps = job.seen.verified ++ job.seen.added ∧
      (job.recipientFps ⊆ job.seen.verified ↔ job.seen.added = []) ∧
      job.signWith = if job.seen.chosen then job.shown.map KeyInfo.fingerprint else none) ∧
    (s.jobs.map (·.seen.ticks)).Pairwise (· < ·) ∧
    (s.jobs.map fun job => (job.seen.verified, job.seen.added)) = [([[1]], [[2]])] ∧
    (s.jobs.map fun job => (job.shown.map KeyInfo.fingerprint, job.signWith)) = [(some [1], none)] := by
  have hrun : (System.runLabels (step PasswordPolicy.sampleUnicode fun _ _ => false) {} sampleEvents).any (fun s =>
      (s.jobs.map fun job => (job.seen.verified, job.seen.added)) = [([[1]], [[2]])] ∧
        (s.jobs.map fun job => (job.shown.map KeyInfo.fingerprint, job.signWith)) = [(some [1], none)]) = true := by
    decide +kernel
  obtain ⟨s, hs, hjobs⟩ := (Option.any_eq_true _ _).mp hrun
  have hjobs := of_decide_eq_true hjobs
  obtain ⟨hall, hticks⟩ := provenance_of_reachable (System.reachable_of_runLabels sampleEvents (.init rfl) hs)
  obtain ⟨job, hjob⟩ : ∃ job, job ∈ s.jobs := by
    apply List.exists_mem_of_ne_nil
    intro hnil
    rw [hnil] at hjobs
    exact absurd hjobs.1.symm (List.cons_ne_nil _ _)
  exact ⟨s, ⟨job, hjob, hall job hjob⟩, hticks, hjobs⟩

end EncryptForm
end GpgMeister
