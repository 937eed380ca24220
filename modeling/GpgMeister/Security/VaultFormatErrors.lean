/-
# How a frame is refused

Everything that `unpack` checks itself it refuses with a `VaultFormatError`; of
what `json.loads` raises it turns only the syntax errors into one.

* `unpack_onlyRaises_iff`: nothing else is raised if and only if the decoder
  finds no integer of too many digits in the header and no nesting beyond its
  limit.
-/
import GpgMeister.Security.VaultFormat
import GpgMeister.World

namespace GpgMeister

namespace Json

/-- An integer of too many digits. -/
theorem loads_digits {limit : ℕ} {c : CodePoint} {ds : Str} (hc : numStart c = some .digits)
    (hds : ∀ d ∈ ds, isDigit d = true) (hlen : maxStrDigits < (c :: ds).length) :
    loads limit (c :: ds) = .error .digits := by
  have hminus : c ≠ ch '-' := by
    rintro rfl
    exact absurd hc (by decide)
  have hbom : c ≠ bom := by
    rintro rfl
    exact absurd hc (by decide)
  have hrun : run limit ⟨[], .value⟩ (c :: ds) = run limit ⟨[], .number .digits (ds.reverse ++ [c])⟩ [] := by
    rw [run_cons, step_numStart hc]
    have h := @run_number limit [] [] ds [c] .digits .digits (numRun_digits hds)
    rw [List.append_nil] at h
    exact h
  have hint : finishNumber .digits (ds.reverse ++ [c]) = .error .digits := by
    unfold finishNumber ofIntText
    rw [List.reverse_append, List.reverse_reverse, List.reverse_singleton, List.singleton_append]
    dsimp only
    rw [if_neg hminus, if_neg (not_le.mpr hlen)]
  unfold loads
  rw [List.head?_cons, if_neg (by simpa using hbom), hrun, run, finish]
  dsimp only
  rw [hint]
  rfl

end Json

namespace VaultFormat

open Program

variable {γ Time : Type} {env : Platform γ Time}

/-! ### The header of a frame -/

/-- The octets that `unpack` decodes as the header, if it comes to that. -/
def headerWindow (data : Bytes) : Option Bytes :=
  if data.length < headerOffset + lengthField ∨ data.take magicLen ≠ magic ∨
      (data.getD magicLen 0).toNat ∉ supportedVaultVersions then
    none
  else
    let headerLen := ofU32 ((data.drop (magicLen + versionLen)).take lengthField)
    if headerLen = 0 ∨ headerLen > maxHeaderSize ∨ data.length < headerOffset + headerLen + lengthField then none
    else some ((data.drop headerOffset).take headerLen)

/-- A `VaultFormatError`. -/
def IsFormatError (e : Exc) : Prop := e.cls = .vaultFormatError

theorem onlyRaises_formatError {α : Type} (message : Str) :
    OnlyRaises IsFormatError (.error (formatError message) : Except Exc α) := .error rfl

/-- A computation that returns or raises a `VaultFormatError`. -/
theorem onlyRaises_iff {α : Type} {r : Except Exc α} :
    OnlyRaises IsFormatError r ↔ (∃ a, r = .ok a) ∨ ∃ e, r = .error e ∧ e.cls = .vaultFormatError := by
  cases r with
  | ok a => exact iff_of_true (.ok a) (.inl ⟨a, rfl⟩)
  | error e =>
    constructor
    · exact fun h => .inr ⟨e, rfl, h e rfl⟩
    · rintro (⟨a, ha⟩ | ⟨e', he', hcls⟩)
      · cases ha
      · rw [Except.error.inj he']
        exact .error hcls

/-- All the checks but those of the header itself. -/
theorem onlyRaises_unpack (env : Platform γ Time) (data : Bytes) :
    (headerWindow data = none ∧ OnlyRaises IsFormatError (unpack env data)) ∨
      ∃ headerBytes, headerWindow data = some headerBytes ∧
        (OnlyRaises IsFormatError (unpack env data) ↔ OnlyRaises IsFormatError (parseHeader env headerBytes)) := by
  unfold unpack headerWindow
  by_cases h1 : data.length < headerOffset + lengthField
  · rw [if_pos h1, if_pos (.inl h1)]
    exact .inl ⟨rfl, onlyRaises_formatError _⟩
  by_cases h2 : data.take magicLen ≠ magic
  · rw [if_neg h1, if_pos h2, if_pos (.inr (.inl h2))]
    exact .inl ⟨rfl, onlyRaises_formatError _⟩
  rw [if_neg h1, if_neg h2]
  dsimp only
  by_cases h3 : (data.getD magicLen 0).toNat ∉ supportedVaultVersions
  · rw [if_pos h3, if_pos (.inr (.inr h3))]
    exact .inl ⟨rfl, onlyRaises_formatError _⟩
  rw [if_neg h3, if_neg (by simp only [h1, h2, h3, or_self, not_false_eq_true])]
  obtain ⟨headerLen, hlen⟩ : ∃ n, ofU32 ((data.drop (magicLen + versionLen)).take lengthField) = n := ⟨_, rfl⟩
  rw [hlen]
  by_cases h4 : headerLen = 0 ∨ headerLen > maxHeaderSize
  · rw [if_pos h4, if_pos (by rw [← or_assoc]; exact .inl h4)]
    exact .inl ⟨rfl, onlyRaises_formatError _⟩
  by_cases h5 : data.length < headerOffset + headerLen + lengthField
  · rw [if_neg h4, if_pos h5, if_pos (.inr (.inr h5))]
    exact .inl ⟨rfl, onlyRaises_formatError _⟩
  rw [if_neg h4, if_neg h5, if_neg (by rw [← or_assoc]; exact not_or.mpr ⟨h4, h5⟩)]
  refine .inr ⟨_, rfl, ?_⟩
  cases parseHeader env ((data.drop headerOffset).take headerLen) with
  | error e => exact ⟨fun h => .error (h e rfl), fun h => .error (h e rfl)⟩
  | ok header =>
    -- What is checked after the header is refused with the same error.
    refine iff_of_true ?_ (.ok header)
    dsimp only
    split_ifs <;> first | exact onlyRaises_formatError _ | exact .ok _

/-! ### What the decoder raises -/

/-- The decoder finds no integer of too many digits, and no nesting beyond its
limit. -/
def WithinLimits (env : Platform γ Time) (headerBytes : Bytes) : Prop :=
  ∀ text, Utf8.decodeStrict headerBytes = some text →
    Json.loads env.recursionLimit text ≠ .error .digits ∧ Json.loads env.recursionLimit text ≠ .error .recursion

theorem onlyRaises_parseHeader (headerBytes : Bytes) :
    OnlyRaises IsFormatError (parseHeader env headerBytes) ↔ WithinLimits env headerBytes := by
  unfold parseHeader WithinLimits
  cases hd : Utf8.decodeStrict headerBytes with
  | none => exact iff_of_true (onlyRaises_formatError _) fun text ht => by cases ht
  | some text =>
    dsimp only
    cases hl : Json.loads env.recursionLimit text with
    | ok headerObj =>
      refine iff_of_true ?_ ?_
      · dsimp only
        cases VaultHeader.validate env.pydantic headerObj with
        | none => exact onlyRaises_formatError _
        | some header => exact .ok header
      · rintro _ ⟨⟩
        rw [hl]
        simp
    | error e =>
      cases e with
      | decode =>
        refine iff_of_true (onlyRaises_formatError _) ?_
        rintro _ ⟨⟩
        rw [hl]
        simp
      | digits => exact iff_of_false (fun h => by cases h _ rfl) fun h => (h text rfl).1 hl
      | recursion => exact iff_of_false (fun h => by cases h _ rfl) fun h => (h text rfl).2 hl

/-- **`unpack` returns or raises a `VaultFormatError`, and nothing else, exactly
when the octets it takes for the header have no integer of too many digits and
no nesting beyond the limit.** -/
theorem unpack_onlyRaises_iff (env : Platform γ Time) (data : Bytes) :
    ((∃ u, unpack env data = .ok u) ∨ ∃ e, unpack env data = .error e ∧ e.cls = .vaultFormatError) ↔
      ∀ headerBytes, headerWindow data = some headerBytes → WithinLimits env headerBytes := by
  rw [← onlyRaises_iff]
  rcases onlyRaises_unpack env data with ⟨hnone, h⟩ | ⟨headerBytes, hsome, h⟩
  · refine iff_of_true h fun headerBytes hw => ?_
    rw [hnone] at hw
    cases hw
  · rw [h, onlyRaises_parseHeader, hsome]
    exact ⟨fun hl _ hw => Option.some.inj hw ▸ hl, fun hl => hl headerBytes rfl⟩

/-! ### A header of too many digits -/

theorem headerWindow_frameOf {version : ℕ} {headerBytes : Bytes} (ciphertext : Bytes)
    (hversion : (UInt8.ofNat version).toNat ∈ supportedVaultVersions) (hne : headerBytes ≠ [])
    (hmax : headerBytes.length ≤ maxHeaderSize) :
    headerWindow (frameOf version headerBytes ciphertext) = some headerBytes := by
  have hlen := length_frameOf version headerBytes ciphertext
  have hpos := List.length_pos_of_ne_nil hne
  have hoff : headerOffset = 9 := rfl
  have hfield : lengthField = 4 := rfl
  have hm : maxHeaderSize = 65536 := rfl
  unfold headerWindow
  rw [take_frameOf, getD_frameOf, take_drop_frameOf, ofU32_u32 (by omega), if_neg]
  · dsimp only
    rw [if_neg (by omega), header_frameOf]
  · rintro (h | h | h)
    · omega
    · exact h rfl
    · exact h hversion

/-- So many digits. -/
def digitsHeader (n : ℕ) : Bytes := List.replicate n 0x31

theorem decodeStrict_digitsHeader (n : ℕ) :
    Utf8.decodeStrict (digitsHeader n) = some (List.replicate n (ch '1')) := by
  refine Utf8.decodeStrict_encode ?_
  rw [Utf8.encode_of_noSurrogate (List.any_eq_false.mpr fun c hc => by rw [List.eq_of_mem_replicate hc]; decide),
    List.flatMap_replicate]
  congr 1
  exact List.flatten_replicate_singleton

/-- An integer of more digits than the decoder takes is refused with a plain
`ValueError`. -/
theorem not_unpack_digitsHeader (env : Platform γ Time) {n : ℕ} (hn : Json.maxStrDigits < n) (hmax : n ≤ maxHeaderSize) :
    ¬ ((∃ u, unpack env (frameOf vaultFormatVersion (digitsHeader n) []) = .ok u) ∨
      ∃ e, unpack env (frameOf vaultFormatVersion (digitsHeader n) []) = .error e ∧ e.cls = .vaultFormatError) := by
  have hlength : (digitsHeader n).length = n := List.length_replicate
  have hne : digitsHeader n ≠ [] := by
    intro h
    rw [h, List.length_nil] at hlength
    omega
  have hwindow := headerWindow_frameOf []
    (by decide : (UInt8.ofNat vaultFormatVersion).toNat ∈ supportedVaultVersions) hne (hlength.trans_le hmax)
  have hloads : Json.loads env.recursionLimit (List.replicate n (ch '1')) = .error .digits := by
    obtain ⟨m, rfl⟩ : ∃ m, n = m + 1 := ⟨n - 1, by omega⟩
    rw [List.replicate_succ]
    refine Json.loads_digits rfl (fun d hd => ?_) (by simpa using hn)
    rw [List.eq_of_mem_replicate hd]
    rfl
  rw [← onlyRaises_iff]
  rcases onlyRaises_unpack env (frameOf vaultFormatVersion (digitsHeader n) []) with ⟨hnone, -⟩ | ⟨headerBytes, hsome, h⟩
  · rw [hwindow] at hnone
    cases hnone
  · rw [hwindow] at hsome
    obtain rfl := Option.some.inj hsome
    rw [h, onlyRaises_parseHeader]
    exact fun hl => (hl _ (decodeStrict_digitsHeader n)).1 hloads

theorem unpack_manyDigits :
    ¬ ((∃ u, unpack (samplePlatform noGnuPG) (frameOf vaultFormatVersion (digitsHeader 4301) []) = .ok u) ∨
      ∃ e, unpack (samplePlatform noGnuPG) (frameOf vaultFormatVersion (digitsHeader 4301) []) = .error e ∧
        e.cls = .vaultFormatError) :=
  not_unpack_digitsHeader (samplePlatform noGnuPG) (by decide) (by decide)

end VaultFormat
end GpgMeister
