/-
# Application settings

`models/config.py`. Assignments to a field of an `AppConfig` are not checked,
so that the model is the record alone; what its validators check is
`AppConfig.Accepts`. `modelDump` leaves out what is `None`, and `modelValidate`
reads the tables of a document; `AppConfig.modelValidate_modelDump` is the way
back.
-/
import GpgMeister.Lib.Toml
import GpgMeister.Models.Vault

namespace GpgMeister

/-! ### Fields -/

/-- The member of an enumeration with this value. -/
def ofValueIn {α : Type} (members : List α) (value : α → Str) (s : Str) : Option α :=
  members.find? fun a => value a = s

inductive AppearanceMode
  | system
  | light
  | dark
  deriving DecidableEq

def AppearanceMode.value : AppearanceMode → Str
  | .system => lit "system"
  | .light => lit "light"
  | .dark => lit "dark"

def AppearanceMode.ofValue : Str → Option AppearanceMode := ofValueIn [.system, .light, .dark] value

inductive AppPage
  | keys
  | messages
  | vault
  | settings
  | help
  deriving DecidableEq

def AppPage.value : AppPage → Str
  | .keys => lit "keys"
  | .messages => lit "messages"
  | .vault => lit "vault"
  | .settings => lit "settings"
  | .help => lit "help"

def AppPage.ofValue : Str → Option AppPage := ofValueIn [.keys, .messages, .vault, .settings, .help] value

/-- `KDFProfile` of `models/kdf_params.py` -/
inductive KDFProfile
  | highMemory
  | balanced
  deriving DecidableEq

def KDFProfile.value : KDFProfile → Str
  | .highMemory => lit "high_memory"
  | .balanced => lit "balanced"

def KDFProfile.ofValue : Str → Option KDFProfile := ofValueIn [.highMemory, .balanced] value

structure AuditConfig where
  enabled : Bool := true
  hashChain : Bool := true
  deriving DecidableEq

/-- A GPG binary that the user has approved. -/
structure GPGBinaryTrust where
  path : Str
  sha256 : Str
  device : Option ℤ := none
  inode : Option ℤ := none
  deriving DecidableEq

/-- `Locale.AUTO.value` -/
def localeAuto : Str := lit "auto"

structure AppConfig where
  locale : Str := localeAuto
  appearance : AppearanceMode := .system
  lastOpenPage : AppPage := .keys
  gpgBinaryPath : Option Str := none
  gpgBinaryTrustedHash : Option GPGBinaryTrust := none
  cipher : CipherAlgorithm := .chacha20Poly1305
  kdfProfile : KDFProfile := .highMemory
  clipboardClearSeconds : ℤ := 60
  backupReminderDays : ℤ := 30
  highContrast : Bool := false
  reduceMotion : Bool := false
  requireDeleteTextConfirmation : Bool := true
  audit : AuditConfig := {}
  deriving DecidableEq

/-! ### Validation -/

def isAsciiLower (c : CodePoint) : Bool := 0x61 ≤ c.val && c.val ≤ 0x7A
def isAsciiUpper (c : CodePoint) : Bool := 0x41 ≤ c.val && c.val ≤ 0x5A
def isAsciiAlnum (c : CodePoint) : Bool := isAsciiLower c || isAsciiUpper c || Json.isDigit c

def asciiLower (c : CodePoint) : CodePoint := if isAsciiUpper c then Fin.ofNat _ (c.val + 0x20) else c
def asciiUpper (c : CodePoint) : CodePoint := if isAsciiLower c then Fin.ofNat _ (c.val - 0x20) else c

/-- `str.lower` and `str.upper`, and what the models take for a value of another
type than the field's. -/
structure ConfigTypes where
  lower : Str → Str
  upper : Str → Str
  int : Toml → Option ℤ
  bool : Toml → Option Bool
  lower_ascii : ∀ s, (∀ c ∈ s, c.val < 0x80) → lower s = s.map asciiLower
  upper_ascii : ∀ s, (∀ c ∈ s, c.val < 0x80) → upper s = s.map asciiUpper
  /-- No small ASCII letter is left. -/
  upper_not_lower : ∀ s, ∀ c ∈ upper s, isAsciiLower c = false
  hyphen_lower : ∀ s, ch '-' ∈ lower s → ch '-' ∈ s
  hyphen_upper : ∀ s, ch '-' ∈ upper s → ch '-' ∈ s
  int_int : ∀ i, int (.int i) = some i
  bool_bool : ∀ b, bool (.bool b) = some b

variable (types : ConfigTypes)

/-- `re.fullmatch(r"[a-z]{2,3}(-[A-Za-z0-9]{2,8})*", text)` -/
def localeMatches (text : Str) : Bool :=
  match text.splitOn (ch '-') with
  | [] => false
  | language :: suffixes =>
    (2 ≤ language.length && language.length ≤ 3 && language.all isAsciiLower) &&
      suffixes.all fun part => 2 ≤ part.length && part.length ≤ 8 && part.all isAsciiAlnum

/-- `AppConfig._validate_locale` -/
def validateLocale (value : Str) : Option Str :=
  let normalized := (strip value).map fun c => if c = ch '_' then ch '-' else c
  if types.lower normalized = localeAuto then some localeAuto
  else
    let parts := normalized.splitOn (ch '-')
    let language := types.lower (parts.headD [])
    let suffixes := parts.tail.map fun part => if part.length = 2 then types.upper part else part
    let normalized := [ch '-'].intercalate (language :: suffixes)
    if localeMatches normalized then some normalized else none

/-- What the constructor accepts; the other fields are of any value. -/
structure AppConfig.Accepts (c : AppConfig) : Prop where
  locale : c.locale = localeAuto ∨ ∃ value, validateLocale types value = some c.locale
  clipboard : 0 ≤ c.clipboardClearSeconds ∧ c.clipboardClearSeconds ≤ 3600
  reminder : 1 ≤ c.backupReminderDays ∧ c.backupReminderDays ≤ 365

namespace Toml

/-- A `str` field. -/
def text? : Toml → Option Str
  | .str s => some s
  | _ => none

/-- A field with a default, which is not checked. -/
def field {α : Type} (items : List (Str × Toml)) (key : Str) (read : Toml → Option α) (default : α) : Option α :=
  match items.lookup key with
  | none => some default
  | some v => read v

/-- A field that may be `None`. -/
def orNone {α : Type} (read : Toml → Option α) (v : Toml) : Option (Option α) := (read v).map some

/-- The items of a table with no keys but these. -/
def knownItems (allowed : List Str) : Toml → Option (List (Str × Toml))
  | .table items => if items.all (fun m => m.1 ∈ allowed) = true then some items else none
  | _ => none

end Toml

open Toml (text? orNone knownItems)

def AuditConfig.modelValidate (v : Toml) : Option AuditConfig := do
  let items ← knownItems [lit "enabled", lit "hash_chain"] v
  return {
    enabled := ← Toml.field items (lit "enabled") types.bool true
    hashChain := ← Toml.field items (lit "hash_chain") types.bool true }

def GPGBinaryTrust.modelValidate (v : Toml) : Option GPGBinaryTrust := do
  let items ← knownItems [lit "path", lit "sha256", lit "device", lit "inode"] v
  return {
    path := ← text? (← items.lookup (lit "path"))
    sha256 := ← text? (← items.lookup (lit "sha256"))
    device := ← Toml.field items (lit "device") (orNone types.int) none
    inode := ← Toml.field items (lit "inode") (orNone types.int) none }

/-- An integer field with bounds. -/
def intBetween (lo hi : ℤ) (v : Toml) : Option ℤ := (types.int v).filter fun i => lo ≤ i && i ≤ hi

def AppConfig.fieldNames : List Str :=
  [lit "locale", lit "appearance", lit "last_open_page", lit "gpg_binary_path", lit "gpg_binary_trusted_hash",
    lit "cipher", lit "kdf_profile", lit "clipboard_clear_seconds", lit "backup_reminder_days", lit "high_contrast",
    lit "reduce_motion", lit "require_delete_text_confirmation", lit "audit"]

/-- `AppConfig.model_validate(obj)` -/
def AppConfig.modelValidate (obj : List (Str × Toml)) : Option AppConfig := do
  let items ← knownItems AppConfig.fieldNames (.table obj)
  return {
    locale := ← Toml.field items (lit "locale") (fun v => (text? v).bind (validateLocale types)) localeAuto
    appearance := ← Toml.field items (lit "appearance") (fun v => (text? v).bind AppearanceMode.ofValue) .system
    lastOpenPage := ← Toml.field items (lit "last_open_page") (fun v => (text? v).bind AppPage.ofValue) .keys
    gpgBinaryPath := ← Toml.field items (lit "gpg_binary_path") (orNone text?) none
    gpgBinaryTrustedHash := ←
      Toml.field items (lit "gpg_binary_trusted_hash") (orNone (GPGBinaryTrust.modelValidate types)) none
    cipher := ← Toml.field items (lit "cipher") (fun v => (text? v).bind CipherAlgorithm.ofValue) .chacha20Poly1305
    kdfProfile := ← Toml.field items (lit "kdf_profile") (fun v => (text? v).bind KDFProfile.ofValue) .highMemory
    clipboardClearSeconds := ← Toml.field items (lit "clipboard_clear_seconds") (intBetween types 0 3600) 60
    backupReminderDays := ← Toml.field items (lit "backup_reminder_days") (intBetween types 1 365) 30
    highContrast := ← Toml.field items (lit "high_contrast") types.bool false
    reduceMotion := ← Toml.field items (lit "reduce_motion") types.bool false
    requireDeleteTextConfirmation := ← Toml.field items (lit "require_delete_text_confirmation") types.bool true
    audit := ← Toml.field items (lit "audit") (AuditConfig.modelValidate types) {} }

/-! ### Dumps -/

/-- `exclude_none=True` -/
def present (items : List (Str × Option Toml)) : List (Str × Toml) := items.filterMap fun m => m.2.map (m.1, ·)

def AuditConfig.modelDump (a : AuditConfig) : List (Str × Toml) :=
  [(lit "enabled", .bool a.enabled), (lit "hash_chain", .bool a.hashChain)]

def GPGBinaryTrust.modelDump (t : GPGBinaryTrust) : List (Str × Toml) :=
  present
    [ (lit "path", some (.str t.path)),
      (lit "sha256", some (.str t.sha256)),
      (lit "device", t.device.map .int),
      (lit "inode", t.inode.map .int) ]

/-- `config.model_dump(mode="json", exclude_none=True)` -/
def AppConfig.modelDump (c : AppConfig) : List (Str × Toml) :=
  present
    [ (lit "locale", some (.str c.locale)),
      (lit "appearance", some (.str c.appearance.value)),
      (lit "last_open_page", some (.str c.lastOpenPage.value)),
      (lit "gpg_binary_path", c.gpgBinaryPath.map .str),
      (lit "gpg_binary_trusted_hash", c.gpgBinaryTrustedHash.map fun t => .table t.modelDump),
      (lit "cipher", some (.str c.cipher.value)),
      (lit "kdf_profile", some (.str c.kdfProfile.value)),
      (lit "clipboard_clear_seconds", some (.int c.clipboardClearSeconds)),
      (lit "backup_reminder_days", some (.int c.backupReminderDays)),
      (lit "high_contrast", some (.bool c.highContrast)),
      (lit "reduce_motion", some (.bool c.reduceMotion)),
      (lit "require_delete_text_confirmation", some (.bool c.requireDeleteTextConfirmation)),
      (lit "audit", some (.table c.audit.modelDump)) ]

/-! ### The way back -/

section RoundTrip

variable {types}

theorem GPGBinaryTrust.modelValidate_modelDump (t : GPGBinaryTrust) :
    GPGBinaryTrust.modelValidate types (.table t.modelDump) = some t := by
  obtain ⟨path, sha256, device, inode⟩ := t
  have hint (i : ℤ) : orNone types.int (.int i) = some (some i) := by rw [orNone, types.int_int]; rfl
  cases device <;> cases inode
  · rfl
  · next i =>
    show (do return { path, sha256, inode := ← orNone types.int (.int i) } : Option GPGBinaryTrust) = _
    rw [hint]
    rfl
  · next d =>
    show (do return { path, sha256, device := ← orNone types.int (.int d) } : Option GPGBinaryTrust) = _
    rw [hint]
    rfl
  · next d i =>
    show (do return { path, sha256, device := ← orNone types.int (.int d), inode := ← orNone types.int (.int i) } :
      Option GPGBinaryTrust) = _
    rw [hint, hint]
    rfl

theorem AuditConfig.modelValidate_modelDump (a : AuditConfig) :
    AuditConfig.modelValidate types (.table a.modelDump) = some a := by
  show (do return { enabled := ← types.bool (.bool a.enabled), hashChain := ← types.bool (.bool a.hashChain) } :
    Option AuditConfig) = _
  rw [types.bool_bool, types.bool_bool]
  rfl

theorem intBetween_int {lo hi i : ℤ} (h : lo ≤ i ∧ i ≤ hi) : intBetween types lo hi (.int i) = some i := by
  rw [intBetween, types.int_int, Option.filter_some, if_pos (by simp [h])]

/-! ### Locales -/

theorem ascii_of_isAsciiAlnum {c : CodePoint} (h : isAsciiAlnum c = true) :
    c.val < 0x7F ∧ isSpace c = false ∧ c ≠ ch '_' := by
  have hne : c ≠ ch '_' := by
    rintro rfl
    exact absurd h (by decide)
  simp only [isAsciiAlnum, isAsciiLower, isAsciiUpper, Json.isDigit, Bool.or_eq_true, Bool.and_eq_true,
    decide_eq_true_eq] at h
  refine ⟨by omega, ?_, hne⟩
  rw [← Bool.not_eq_true]
  simp only [isSpace, Bool.or_eq_true, Bool.and_eq_true, decide_eq_true_eq]
  omega

theorem isAsciiAlnum_of_lower {c : CodePoint} (h : isAsciiLower c = true) : isAsciiAlnum c = true := by
  rw [isAsciiAlnum, h]
  rfl

/-- The parts of a locale that has been validated. -/
structure LocaleParts (language : Str) (suffixes : List Str) : Prop where
  first : 2 ≤ language.length ∧ language.length ≤ 3 ∧ ∀ c ∈ language, isAsciiLower c = true
  others : ∀ part ∈ suffixes, ∀ c ∈ part, isAsciiAlnum c = true
  /-- What has two characters has no small letters. -/
  short : ∀ part ∈ suffixes, part.length = 2 → ∀ c ∈ part, isAsciiLower c = false
  matched : localeMatches ([ch '-'].intercalate (language :: suffixes)) = true

namespace LocaleParts

variable {language : Str} {suffixes : List Str} (h : LocaleParts language suffixes)

include h

theorem alnum {part : Str} (hp : part ∈ language :: suffixes) : ∀ c ∈ part, isAsciiAlnum c = true := by
  rcases List.mem_cons.mp hp with rfl | hp
  · exact fun c hc => isAsciiAlnum_of_lower (h.first.2.2 c hc)
  · exact h.others part hp

theorem splitOn : ([ch '-'].intercalate (language :: suffixes)).splitOn (ch '-') = language :: suffixes := by
  refine List.splitOn_intercalate _ (fun part hp hin => ?_) (List.cons_ne_nil _ _)
  exact absurd (h.alnum hp _ hin) (by decide)

theorem chars {c : CodePoint} (hc : c ∈ [ch '-'].intercalate (language :: suffixes)) :
    c.val < 0x7F ∧ isSpace c = false ∧ c ≠ ch '_' := by
  rcases mem_of_mem_intercalate hc with rfl | ⟨part, hp, hin⟩
  · decide
  · exact ascii_of_isAsciiAlnum (h.alnum hp c hin)

/-- It is not the name of the automatic choice. -/
theorem lower_ne_auto : types.lower ([ch '-'].intercalate (language :: suffixes)) ≠ localeAuto := by
  intro ha
  rw [types.lower_ascii _ fun c hc => (h.chars hc).1.trans (by decide)] at ha
  cases suffixes with
  | nil =>
    have hlen := congrArg List.length ha
    rw [List.length_map, List.intercalate_singleton] at hlen
    have h3 := h.first.2.1
    have h4 : localeAuto.length = 4 := rfl
    omega
  | cons s suffixes =>
    have hin : ch '-' ∈ localeAuto := by
      rw [← ha]
      refine List.mem_map.mpr ⟨ch '-', ?_, rfl⟩
      rw [List.intercalate_cons_cons]
      simp
    exact absurd hin (by decide)

theorem lower_language : types.lower language = language := by
  rw [types.lower_ascii language fun c hc =>
    (ascii_of_isAsciiAlnum (h.alnum List.mem_cons_self c hc)).1.trans (by decide)]
  conv_rhs => rw [← List.map_id language]
  refine List.map_congr_left fun c hc => if_neg ?_
  have hl := h.first.2.2 c hc
  simp only [isAsciiLower, isAsciiUpper, Bool.and_eq_true, decide_eq_true_eq] at hl ⊢
  omega

theorem upper_short {part : Str} (hp : part ∈ suffixes) (hlen : part.length = 2) : types.upper part = part := by
  rw [types.upper_ascii part fun c hc => (ascii_of_isAsciiAlnum (h.others part hp c hc)).1.trans (by decide)]
  conv_rhs => rw [← List.map_id part]
  refine List.map_congr_left fun c hc => if_neg ?_
  rw [h.short part hp hlen c hc]
  simp

/-- A validated locale stays as it is. -/
theorem validateLocale_self :
    validateLocale types ([ch '-'].intercalate (language :: suffixes)) =
      some ([ch '-'].intercalate (language :: suffixes)) := by
  obtain ⟨text, htext⟩ : ∃ text, [ch '-'].intercalate (language :: suffixes) = text := ⟨_, rfl⟩
  have hstrip : strip text = text := strip_of_noSpace fun c hc => (h.chars (htext ▸ hc)).2.1
  have hscore : text.map (fun c => if c = ch '_' then ch '-' else c) = text := by
    conv_rhs => rw [← List.map_id text]
    exact List.map_congr_left fun c hc => if_neg (h.chars (htext ▸ hc)).2.2
  have hauto : types.lower text ≠ localeAuto := htext ▸ h.lower_ne_auto
  have hsuffixes : (suffixes.map fun part => if part.length = 2 then types.upper part else part) = suffixes := by
    conv_rhs => rw [← List.map_id suffixes]
    refine List.map_congr_left fun part hp => ?_
    split_ifs with hlen
    · exact h.upper_short hp hlen
    · rfl
  have hsplit : text.splitOn (ch '-') = language :: suffixes := htext ▸ h.splitOn
  rw [htext]
  unfold validateLocale
  rw [hstrip, hscore]
  dsimp only
  rw [if_neg hauto, hsplit, List.headD_cons, List.tail_cons, h.lower_language, hsuffixes, if_pos h.matched, htext]

end LocaleParts

theorem localeParts_of_matches {language : Str} {suffixes : List Str}
    (hn : ∀ part ∈ language :: suffixes, ch '-' ∉ part)
    (hshort : ∀ part ∈ suffixes, part.length = 2 → ∀ c ∈ part, isAsciiLower c = false)
    (h : localeMatches ([ch '-'].intercalate (language :: suffixes)) = true) : LocaleParts language suffixes := by
  have hm := h
  rw [localeMatches, List.splitOn_intercalate _ hn (List.cons_ne_nil _ _)] at hm
  simp only [Bool.and_eq_true, decide_eq_true_eq, List.all_eq_true] at hm
  exact ⟨⟨hm.1.1.1, hm.1.1.2, hm.1.2⟩, fun part hp => (hm.2 part hp).2, hshort, h⟩

theorem validateLocale_auto : validateLocale types localeAuto = some localeAuto := by
  have hstrip : ((strip localeAuto).map fun c => if c = ch '_' then ch '-' else c) = localeAuto := by decide
  have hl : types.lower localeAuto = localeAuto := by
    have hascii : localeAuto.all (fun c => c.val < 0x80) = true := by decide
    rw [types.lower_ascii localeAuto fun c hc => by simpa using List.all_eq_true.mp hascii c hc]
    rfl
  unfold validateLocale
  rw [hstrip]
  exact if_pos hl

/-- What the validator returns. -/
theorem validateLocale_cases {value locale : Str} (h : validateLocale types value = some locale) :
    locale = localeAuto ∨ ∃ language suffixes, LocaleParts language suffixes ∧
      locale = [ch '-'].intercalate (language :: suffixes) := by
  unfold validateLocale at h
  dsimp only at h
  obtain ⟨text, htext⟩ : ∃ text, ((strip value).map fun c => if c = ch '_' then ch '-' else c) = text := ⟨_, rfl⟩
  rw [htext] at h
  obtain ⟨part, parts, hparts⟩ := List.exists_cons_of_ne_nil (List.splitOn_ne_nil (ch '-') text)
  have hno (p : Str) (hp : p ∈ part :: parts) : ch '-' ∉ p := not_mem_of_mem_splitOn (s := text) (hparts ▸ hp)
  rw [hparts, List.headD_cons, List.tail_cons] at h
  split_ifs at h with hauto hm
  · exact .inl (Option.some.inj h).symm
  · refine .inr ⟨_, _, localeParts_of_matches (fun p hp hin => ?_) (fun p hp hlen => ?_) hm, (Option.some.inj h).symm⟩
    · rcases List.mem_cons.mp hp with rfl | hp
      · exact hno part List.mem_cons_self (types.hyphen_lower part hin)
      · obtain ⟨q, hq, rfl⟩ := List.mem_map.mp hp
        split_ifs at hin
        · exact hno q (List.mem_cons_of_mem _ hq) (types.hyphen_upper q hin)
        · exact hno q (List.mem_cons_of_mem _ hq) hin
    · obtain ⟨q, hq, rfl⟩ := List.mem_map.mp hp
      split_ifs at hlen ⊢ with hq2
      · exact types.upper_not_lower q
      · exact absurd hlen hq2

theorem AppConfig.Accepts.locale_cases {c : AppConfig} (h : c.Accepts types) :
    c.locale = localeAuto ∨ ∃ language suffixes, LocaleParts language suffixes ∧
      c.locale = [ch '-'].intercalate (language :: suffixes) := by
  rcases h.locale with hauto | ⟨value, hv⟩
  · exact .inl hauto
  · exact validateLocale_cases hv

/-- The validator accepts what it has returned, and returns it again. -/
theorem AppConfig.Accepts.validateLocale {c : AppConfig} (h : c.Accepts types) :
    GpgMeister.validateLocale types c.locale = some c.locale := by
  rcases h.locale_cases with hauto | ⟨language, suffixes, hparts, he⟩
  · rw [hauto]
    exact validateLocale_auto
  · rw [he]
    exact hparts.validateLocale_self

theorem AppConfig.Accepts.locale_printable {c : AppConfig} (h : c.Accepts types) {x : CodePoint} (hx : x ∈ c.locale) :
    x.val < 0x7F := by
  rcases h.locale_cases with hauto | ⟨language, suffixes, hparts, he⟩
  · have hall : localeAuto.all (fun c => c.val < 0x7F) = true := by decide
    exact of_decide_eq_true (List.all_eq_true.mp hall x (hauto ▸ hx))
  · exact (hparts.chars (he ▸ hx)).1

/-! ### A configuration -/

theorem AppConfig.lookup_modelDump (c : AppConfig) :
    c.modelDump.lookup (lit "locale") = some (.str c.locale) ∧
      c.modelDump.lookup (lit "appearance") = some (.str c.appearance.value) ∧
      c.modelDump.lookup (lit "last_open_page") = some (.str c.lastOpenPage.value) ∧
      c.modelDump.lookup (lit "gpg_binary_path") = c.gpgBinaryPath.map .str ∧
      c.modelDump.lookup (lit "gpg_binary_trusted_hash") = c.gpgBinaryTrustedHash.map (fun t => .table t.modelDump) ∧
      c.modelDump.lookup (lit "cipher") = some (.str c.cipher.value) ∧
      c.modelDump.lookup (lit "kdf_profile") = some (.str c.kdfProfile.value) ∧
      c.modelDump.lookup (lit "clipboard_clear_seconds") = some (.int c.clipboardClearSeconds) ∧
      c.modelDump.lookup (lit "backup_reminder_days") = some (.int c.backupReminderDays) ∧
      c.modelDump.lookup (lit "high_contrast") = some (.bool c.highContrast) ∧
      c.modelDump.lookup (lit "reduce_motion") = some (.bool c.reduceMotion) ∧
      c.modelDump.lookup (lit "require_delete_text_confirmation") = some (.bool c.requireDeleteTextConfirmation) ∧
      c.modelDump.lookup (lit "audit") = some (.table c.audit.modelDump) := by
  unfold modelDump
  cases c.gpgBinaryPath <;> cases c.gpgBinaryTrustedHash <;>
    exact ⟨rfl, rfl, rfl, rfl, rfl, rfl, rfl, rfl, rfl, rfl, rfl, rfl, rfl⟩

theorem AppConfig.keys_modelDump (c : AppConfig) : (c.modelDump.map Prod.fst).Nodup ∧
    c.modelDump.all (fun m => m.1 ∈ AppConfig.fieldNames) = true := by
  unfold modelDump
  cases c.gpgBinaryPath <;> cases c.gpgBinaryTrustedHash <;> exact ⟨of_decide_eq_true rfl, rfl⟩

theorem field_some {α : Type} {items : List (Str × Toml)} {key : Str} {read : Toml → Option α} {default : α}
    {v : Toml} (h : items.lookup key = some v) : Toml.field items key read default = read v := by
  rw [Toml.field, h]

theorem field_orNone {α : Type} {items : List (Str × Toml)} {key : Str} {read : Toml → Option α} {x : Option α}
    {write : α → Toml} (h : items.lookup key = x.map write) (hr : ∀ a, read (write a) = some a) :
    Toml.field items key (orNone read) none = some x := by
  cases x with
  | none => rw [Toml.field, h]; rfl
  | some a =>
    rw [field_some h, orNone, hr]
    rfl

/-- **A configuration is read back from its dump**, in whatever order the items
come. -/
theorem AppConfig.modelValidate_modelDump {c : AppConfig} (hc : c.Accepts types) {obj : List (Str × Toml)}
    (hp : obj.Perm c.modelDump) : AppConfig.modelValidate types obj = some c := by
  obtain ⟨hnodup, hall⟩ := c.keys_modelDump
  have hlookup (key : Str) : obj.lookup key = c.modelDump.lookup key :=
    Json.lookup_perm hp ((hp.map Prod.fst).nodup_iff.mpr hnodup) key
  have hknown : knownItems AppConfig.fieldNames (.table obj) = some obj := by
    refine if_pos ?_
    rw [List.all_eq_true] at hall ⊢
    exact fun m hm => hall m (hp.mem_iff.mp hm)
  obtain ⟨h1, h2, h3, h4, h5, h6, h7, h8, h9, h10, h11, h12, h13⟩ := c.lookup_modelDump
  simp only [← hlookup] at h1 h2 h3 h4 h5 h6 h7 h8 h9 h10 h11 h12 h13
  have happearance : AppearanceMode.ofValue c.appearance.value = some c.appearance := by cases c.appearance <;> rfl
  have hpage : AppPage.ofValue c.lastOpenPage.value = some c.lastOpenPage := by cases c.lastOpenPage <;> rfl
  have hcipher : CipherAlgorithm.ofValue c.cipher.value = some c.cipher := by cases c.cipher <;> rfl
  have hprofile : KDFProfile.ofValue c.kdfProfile.value = some c.kdfProfile := by cases c.kdfProfile <;> rfl
  have hpath : Toml.field obj (lit "gpg_binary_path") (orNone text?) none = some c.gpgBinaryPath :=
    field_orNone h4 fun _ => rfl
  have htrust : Toml.field obj (lit "gpg_binary_trusted_hash") (orNone (GPGBinaryTrust.modelValidate types)) none =
      some c.gpgBinaryTrustedHash := field_orNone h5 GPGBinaryTrust.modelValidate_modelDump
  have hlocale : Toml.field obj (lit "locale") (fun v => (text? v).bind (validateLocale types)) localeAuto =
      some c.locale := (field_some h1).trans hc.validateLocale
  have happ : Toml.field obj (lit "appearance") (fun v => (text? v).bind AppearanceMode.ofValue) .system =
      some c.appearance := (field_some h2).trans happearance
  have hopen : Toml.field obj (lit "last_open_page") (fun v => (text? v).bind AppPage.ofValue) .keys =
      some c.lastOpenPage := (field_some h3).trans hpage
  have hcip : Toml.field obj (lit "cipher") (fun v => (text? v).bind CipherAlgorithm.ofValue) .chacha20Poly1305 =
      some c.cipher := (field_some h6).trans hcipher
  have hprof : Toml.field obj (lit "kdf_profile") (fun v => (text? v).bind KDFProfile.ofValue) .highMemory =
      some c.kdfProfile := (field_some h7).trans hprofile
  unfold AppConfig.modelValidate
  rw [hknown]
  show (do
    let locale ← Toml.field obj (lit "locale") (fun v => (text? v).bind (validateLocale types)) localeAuto
    _) = _
  rw [hlocale, happ, hopen, hpath, htrust, hcip, hprof, field_some h8, field_some h9, field_some h10, field_some h11,
    field_some h12, field_some h13, intBetween_int hc.clipboard, intBetween_int hc.reminder, types.bool_bool,
    types.bool_bool, types.bool_bool, AuditConfig.modelValidate_modelDump]
  rfl

end RoundTrip

end GpgMeister
