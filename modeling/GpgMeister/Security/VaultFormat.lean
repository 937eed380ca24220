/-
# The frame of a vault file

`security/vault_format.py`: the magic octets, the version, the header as
canonical JSON and the ciphertext, with their lengths. What was packed is
unpacked to the same parts (`unpack_pack`).
-/
import GpgMeister.Models.VaultRoundTrip
import GpgMeister.Security.Encryption

namespace GpgMeister

/-! ### Lengths -/

/-- `struct.pack(">I", n)`, of a number of 32 bits. -/
def u32 (n : ℕ) : Bytes := [.ofNat (n / 16777216), .ofNat (n / 65536), .ofNat (n / 256), .ofNat n]

/-- `struct.unpack(">I", data)` -/
def ofU32 (data : Bytes) : ℕ := data.foldl (fun n b => 256 * n + b.toNat) 0

@[simp] theorem length_u32 (n : ℕ) : (u32 n).length = 4 := rfl

theorem ofU32_u32 {n : ℕ} (h : n < 2 ^ 32) : ofU32 (u32 n) = n := by
  simp only [ofU32, u32, List.foldl_cons, List.foldl_nil, UInt8.toNat_ofNat']
  omega

/-- The octets in the middle. -/
theorem take_drop_append {α : Type} (a b c : List α) {n m : ℕ} (hn : a.length = n) (hm : b.length = m) :
    ((a ++ b ++ c).drop n).take m = b := by
  subst hn hm
  simp

namespace VaultFormat

def magic : Bytes := ascii "GPGV"
def magicLen : ℕ := 4
def versionLen : ℕ := 1
def lengthField : ℕ := 4
def headerOffset : ℕ := magicLen + versionLen + lengthField
def maxHeaderSize : ℕ := 64 * 1024
def maxCiphertextSize : ℕ := 256 * 1024 * 1024
def supportedVaultVersions : List ℕ := [vaultFormatVersion, vaultFormatVersionSlots]

/-- A `VaultFormatError` -/
def formatError (message : Str) : Exc where
  cls := .vaultFormatError
  message := message

structure UnpackedFrame where
  header : VaultHeader
  headerBytes : Bytes
  ciphertext : Bytes

variable {γ Time : Type} (env : Platform γ Time)

/-- `header_to_canonical_json` -/
def headerToCanonicalJson (header : VaultHeader) : Except Exc Bytes :=
  match Json.dumps env.recursionLimit header.dump with
  | .error e => .error (AuditLog.jsonExc e)
  | .ok text => encodeUtf8 text

/-- The frame of a header's octets and a ciphertext. -/
def frameOf (version : ℕ) (headerBytes ciphertext : Bytes) : Bytes :=
  magic ++ [.ofNat version] ++ u32 headerBytes.length ++ headerBytes ++ u32 ciphertext.length ++ ciphertext

/-- `pack`: the frame, and the octets of the header. -/
def pack (header : VaultHeader) (ciphertext : Bytes) : Except Exc (Bytes × Bytes) := do
  let headerBytes ← headerToCanonicalJson env header
  if headerBytes.length > maxHeaderSize then
    .error (formatError (lit "header exceeds " ++ Json.decimal maxHeaderSize ++ lit " bytes"))
  else if ciphertext.length > maxCiphertextSize then
    .error (formatError (lit "ciphertext exceeds " ++ Json.decimal maxCiphertextSize ++ lit " bytes"))
  else .ok (frameOf header.version headerBytes ciphertext, headerBytes)

/-- The header in its octets. The decoder's other errors are no
`JSONDecodeError` and go through. -/
def parseHeader (headerBytes : Bytes) : Except Exc VaultHeader :=
  let notJson := formatError (lit "header is not valid UTF-8 JSON: ")
  match Utf8.decodeStrict headerBytes with
  | none => .error notJson
  | some text =>
    match Json.loads env.recursionLimit text with
    | .error .decode => .error notJson
    | .error e => .error (AuditLog.jsonExc e)
    | .ok headerObj =>
      match VaultHeader.validate env.pydantic headerObj with
      | none => .error (formatError (lit "header fields are invalid: "))
      | some header => .ok header

/-- `unpack` -/
def unpack (data : Bytes) : Except Exc UnpackedFrame :=
  if data.length < headerOffset + lengthField then
    .error (formatError (lit "file truncated: not enough bytes for frame header"))
  else if data.take magicLen ≠ magic then
    .error (formatError (lit "magic bytes do not match — not a GPG Meister vault"))
  else
    let version := (data.getD magicLen 0).toNat
    if version ∉ supportedVaultVersions then
      .error
        (formatError
          (lit "unsupported vault version: " ++ Json.decimal version ++ lit " (expected one of 2, 3)"))
    else
      let headerLen := ofU32 ((data.drop (magicLen + versionLen)).take lengthField)
      if headerLen = 0 ∨ headerLen > maxHeaderSize then
        .error (formatError (lit "invalid header length: " ++ Json.decimal headerLen))
      else
        let headerEnd := headerOffset + headerLen
        if data.length < headerEnd + lengthField then
          .error (formatError (lit "file truncated: header extends past file end"))
        else
          let headerBytes := (data.drop headerOffset).take headerLen
          match parseHeader env headerBytes with
          | .error e => .error e
          | .ok header =>
            if header.version ≠ version then
              .error
                (formatError
                  (lit "frame version " ++ Json.decimal version ++ lit " does not match header version " ++
                    Json.decimal header.version))
            else
              let ctLen := ofU32 ((data.drop headerEnd).take lengthField)
              if ctLen = 0 ∨ ctLen > maxCiphertextSize then
                .error (formatError (lit "invalid ciphertext length: " ++ Json.decimal ctLen))
              else
                let ctStart := headerEnd + lengthField
                let ctEnd := ctStart + ctLen
                if data.length < ctEnd then
                  .error (formatError (lit "file truncated: ciphertext extends past file end"))
                else if data.length > ctEnd then
                  .error
                    (formatError
                      (lit "file has " ++ Json.decimal (data.length - ctEnd) ++
                        lit " trailing bytes after ciphertext"))
                else .ok { header, headerBytes, ciphertext := (data.drop ctStart).take ctLen }

/-! ### The parts of a frame -/

section Parts

variable (version : ℕ) (headerBytes ciphertext : Bytes)

theorem length_frameOf : (frameOf version headerBytes ciphertext).length =
    13 + headerBytes.length + ciphertext.length := by
  have hmagic : magic.length = 4 := rfl
  simp [frameOf, hmagic]
  omega

theorem take_frameOf : (frameOf version headerBytes ciphertext).take magicLen = magic := by
  simp [frameOf, magic, magicLen, ascii]

theorem getD_frameOf : (frameOf version headerBytes ciphertext).getD magicLen 0 = .ofNat version := by
  simp [frameOf, magic, magicLen, ascii]

/-- The length of the header. -/
theorem take_drop_frameOf :
    ((frameOf version headerBytes ciphertext).drop (magicLen + versionLen)).take lengthField = u32 headerBytes.length := by
  have he : frameOf version headerBytes ciphertext = (magic ++ [.ofNat version]) ++
      u32 headerBytes.length ++ (headerBytes ++ u32 ciphertext.length ++ ciphertext) := by simp [frameOf]
  rw [he]
  exact take_drop_append _ _ _ rfl rfl

theorem header_frameOf :
    ((frameOf version headerBytes ciphertext).drop headerOffset).take headerBytes.length = headerBytes := by
  have he : frameOf version headerBytes ciphertext = (magic ++ [.ofNat version] ++
      u32 headerBytes.length) ++ headerBytes ++ (u32 ciphertext.length ++ ciphertext) := by simp [frameOf]
  rw [he]
  exact take_drop_append _ _ _ rfl rfl

end Parts

/-! ### The round trip -/

variable {env}

theorem parseHeader_canonical {header : VaultHeader} {headerBytes : Bytes}
    (h : headerToCanonicalJson env header = .ok headerBytes) : parseHeader env headerBytes = .ok header := by
  unfold headerToCanonicalJson encodeUtf8 at h
  cases ht : Json.dumps env.recursionLimit header.dump with
  | error e => simp [ht] at h
  | ok text =>
    simp only [ht] at h
    cases hd : Utf8.encode text with
    | none => simp [hd] at h
    | some data =>
      simp only [hd, Except.ok.injEq] at h
      subst h
      have hl := Json.loads_dumps header.uniqueKeys_dump ht
      simp [parseHeader, Utf8.decodeStrict_encode hd, hl, VaultHeader.validate_dump]

/-- No octets are no header. -/
theorem parseHeader_nil (header : VaultHeader) : parseHeader env [] ≠ .ok header := by
  have hl : Json.loads env.recursionLimit [] = .error .decode := rfl
  have hd : Utf8.decodeStrict [] = some [] := rfl
  simp [parseHeader, hl, hd]

theorem pack_eq_ok {header : VaultHeader} {ciphertext frame headerBytes : Bytes} :
    pack env header ciphertext = .ok (frame, headerBytes) ↔
      headerToCanonicalJson env header = .ok headerBytes ∧ headerBytes.length ≤ maxHeaderSize ∧
        ciphertext.length ≤ maxCiphertextSize ∧ frame = frameOf header.version headerBytes ciphertext := by
  unfold pack
  cases headerToCanonicalJson env header with
  | error e => simp [bind, Except.bind]
  | ok data =>
    simp only [bind, Except.bind]
    by_cases h1 : data.length > maxHeaderSize
    · rw [if_pos h1]
      simp only [reduceCtorEq, Except.ok.injEq, false_iff, not_and]
      intro he
      subst he
      omega
    · by_cases h2 : ciphertext.length > maxCiphertextSize
      · rw [if_neg h1, if_pos h2]
        simp only [reduceCtorEq, Except.ok.injEq, false_iff, not_and]
        omega
      · rw [if_neg h1, if_neg h2]
        simp only [Except.ok.injEq, Prod.mk.injEq]
        constructor
        · intro h
          obtain ⟨rfl, rfl⟩ := h
          exact ⟨rfl, by omega, by omega, rfl⟩
        · intro h
          obtain ⟨rfl, -, -, rfl⟩ := h
          exact ⟨rfl, rfl⟩

theorem version_supported (header : VaultHeader) : header.version ∈ supportedVaultVersions := by
  rcases header.cases_shape with ⟨hv, -⟩ | ⟨hv, -⟩ <;> simp [supportedVaultVersions, hv]

/-- **What was packed is unpacked.** -/
theorem unpack_pack {header : VaultHeader} {ciphertext frame headerBytes : Bytes}
    (h : pack env header ciphertext = .ok (frame, headerBytes)) (hc : ciphertext ≠ []) :
    unpack env frame = .ok { header, headerBytes, ciphertext } := by
  obtain ⟨hj, hh, hct, rfl⟩ := pack_eq_ok.mp h
  have hparse := parseHeader_canonical hj
  have hne : headerBytes ≠ [] := by
    intro he
    subst he
    exact parseHeader_nil header hparse
  have hm : maxHeaderSize = 65536 := rfl
  have hm' : maxCiphertextSize = 268435456 := rfl
  have hoff : headerOffset = 9 := rfl
  have hhpos := List.length_pos_of_ne_nil hne
  have hcpos := List.length_pos_of_ne_nil hc
  have hsup := version_supported header
  have hver : (UInt8.ofNat header.version).toNat = header.version := by
    rcases header.cases_shape with ⟨hv, -⟩ | ⟨hv, -⟩ <;> rw [hv] <;> rfl
  have hlen := length_frameOf header.version headerBytes ciphertext
  have hctLen : ((frameOf header.version headerBytes ciphertext).drop (headerOffset + headerBytes.length)).take
      lengthField = u32 ciphertext.length := by
    have hl : (magic ++ [UInt8.ofNat header.version] ++ u32 headerBytes.length ++ headerBytes).length =
        headerOffset + headerBytes.length := by simp [magic, ascii, hoff]; omega
    exact take_drop_append _ _ _ hl rfl
  have hciphertext : ((frameOf header.version headerBytes ciphertext).drop (headerOffset + headerBytes.length +
      lengthField)).take ciphertext.length = ciphertext := by
    have hl : (magic ++ [UInt8.ofNat header.version] ++ u32 headerBytes.length ++ headerBytes ++
        u32 ciphertext.length).length = headerOffset + headerBytes.length + lengthField := by
      simp [magic, ascii, hoff, lengthField]
      omega
    have he := take_drop_append _ ciphertext [] hl rfl
    rwa [List.append_nil] at he
  unfold unpack
  rw [if_neg (by rw [hlen, hoff]; simp [lengthField]; omega), if_neg (by rw [take_frameOf]; simp),
    getD_frameOf]
  dsimp only
  rw [hver, if_neg (by simpa using hsup), take_drop_frameOf, ofU32_u32 (by omega), if_neg (by omega),
    if_neg (by rw [hlen, hoff]; simp [lengthField]; omega), header_frameOf, hparse]
  dsimp only
  rw [if_neg (by simp), hctLen, ofU32_u32 (by omega), if_neg (by omega),
    if_neg (by rw [hlen, hoff]; simp [lengthField]; omega), if_neg (by rw [hlen, hoff]; simp [lengthField]; omega),
    hciphertext]

/-! ### Every octet of a frame -/

theorem u32_ofU32 : ∀ {data : Bytes}, data.length = 4 → u32 (ofU32 data) = data
  | [a, b, c, d], _ => by
    have ha := a.toNat_lt
    have hb := b.toNat_lt
    have hc := c.toNat_lt
    have hd := d.toNat_lt
    have hn : ofU32 [a, b, c, d] = 16777216 * a.toNat + 65536 * b.toNat + 256 * c.toNat + d.toNat := by
      simp only [ofU32, List.foldl_cons, List.foldl_nil]
      omega
    have hoctet (x : UInt8) (n : ℕ) (h : n % 256 = x.toNat) : UInt8.ofNat n = x := by
      rw [← UInt8.toNat_inj, UInt8.toNat_ofNat']
      exact h
    rw [u32, hn, hoctet a _ (by omega), hoctet b _ (by omega), hoctet c _ (by omega), hoctet d _ (by omega)]

/-- The octets from one place on are those up to another one and the rest. -/
theorem drop_eq_append {α : Type} (l : List α) {n m k : ℕ} (h : n + m = k) :
    l.drop n = (l.drop n).take m ++ l.drop k := by
  rw [← h, ← List.drop_drop, List.take_append_drop]

/-- A frame that `unpack` accepts is the magic octets, the version of the
header, and the two parts with their lengths. -/
theorem eq_frameOf_of_unpack {data : Bytes} {u : UnpackedFrame} (h : unpack env data = .ok u) :
    data = frameOf u.header.version u.headerBytes u.ciphertext ∧ u.headerBytes.length ≤ maxHeaderSize ∧
      u.ciphertext.length ≤ maxCiphertextSize := by
  have hoff : headerOffset = 9 := rfl
  have hfield : lengthField = 4 := rfl
  have hmagicLen : magicLen = 4 := rfl
  have hversionLen : versionLen = 1 := rfl
  unfold unpack at h
  by_cases h1 : data.length < headerOffset + lengthField
  · rw [if_pos h1] at h
    cases h
  by_cases h2 : data.take magicLen ≠ magic
  · rw [if_neg h1, if_pos h2] at h
    cases h
  rw [if_neg h1, if_neg h2] at h
  dsimp only at h
  by_cases h3 : (data.getD magicLen 0).toNat ∉ supportedVaultVersions
  · rw [if_pos h3] at h
    cases h
  rw [if_neg h3] at h
  obtain ⟨headerLen, hheaderLen⟩ : ∃ n, ofU32 ((data.drop (magicLen + versionLen)).take lengthField) = n := ⟨_, rfl⟩
  rw [hheaderLen] at h
  by_cases h4 : headerLen = 0 ∨ headerLen > maxHeaderSize
  · rw [if_pos h4] at h
    cases h
  by_cases h5 : data.length < headerOffset + headerLen + lengthField
  · rw [if_neg h4, if_pos h5] at h
    cases h
  rw [if_neg h4, if_neg h5] at h
  cases hp : parseHeader env ((data.drop headerOffset).take headerLen) with
  | error e =>
    rw [hp] at h
    cases h
  | ok header =>
    rw [hp] at h
    dsimp only at h
    by_cases h6 : header.version ≠ (data.getD magicLen 0).toNat
    · rw [if_pos h6] at h
      cases h
    rw [if_neg h6] at h
    obtain ⟨ctLen, hctLen⟩ : ∃ n, ofU32 ((data.drop (headerOffset + headerLen)).take lengthField) = n := ⟨_, rfl⟩
    rw [hctLen] at h
    by_cases h7 : ctLen = 0 ∨ ctLen > maxCiphertextSize
    · rw [if_pos h7] at h
      cases h
    by_cases h8 : data.length < headerOffset + headerLen + lengthField + ctLen
    · rw [if_neg h7, if_pos h8] at h
      cases h
    by_cases h9 : data.length > headerOffset + headerLen + lengthField + ctLen
    · rw [if_neg h7, if_neg h8, if_pos h9] at h
      cases h
    rw [if_neg h7, if_neg h8, if_neg h9, Except.ok.injEq] at h
    subst h
    dsimp only
    have hversion : data.drop magicLen = UInt8.ofNat header.version :: data.drop (magicLen + versionLen) := by
      have hlt : magicLen < data.length := by omega
      rw [List.drop_eq_getElem_cons hlt, not_not.mp h6, List.getD_eq_getElem?_getD,
        List.getElem?_eq_getElem hlt, Option.getD_some, UInt8.ofNat_toNat]
      rfl
    have hlen1 : ((data.drop (magicLen + versionLen)).take lengthField).length = 4 := by
      simp
      omega
    have hlen2 : ((data.drop (headerOffset + headerLen)).take lengthField).length = 4 := by
      simp
      omega
    have hheader : ((data.drop headerOffset).take headerLen).length = headerLen := by
      simp
      omega
    have hciphertext : ((data.drop (headerOffset + headerLen + lengthField)).take ctLen).length = ctLen := by
      simp
      omega
    have hd1 : data.drop (magicLen + versionLen) = u32 headerLen ++ data.drop headerOffset := by
      rw [drop_eq_append data (show magicLen + versionLen + lengthField = headerOffset from rfl), ← hheaderLen,
        u32_ofU32 hlen1]
    have hd2 : data.drop headerOffset =
        (data.drop headerOffset).take headerLen ++ data.drop (headerOffset + headerLen) := drop_eq_append data rfl
    have hd3 : data.drop (headerOffset + headerLen) =
        u32 ctLen ++ data.drop (headerOffset + headerLen + lengthField) := by
      rw [drop_eq_append data (show headerOffset + headerLen + lengthField = _ from rfl), ← hctLen, u32_ofU32 hlen2]
    have hd4 : (data.drop (headerOffset + headerLen + lengthField)).take ctLen =
        data.drop (headerOffset + headerLen + lengthField) := List.take_of_length_le (by simp; omega)
    refine ⟨?_, by omega, by omega⟩
    calc data = data.take magicLen ++ data.drop magicLen := (List.take_append_drop _ _).symm
      _ = magic ++ (UInt8.ofNat header.version :: (u32 headerLen ++ data.drop headerOffset)) := by
        rw [not_not.mp h2, hversion, hd1]
      _ = magic ++ (UInt8.ofNat header.version :: (u32 headerLen ++ ((data.drop headerOffset).take headerLen ++
            (u32 ctLen ++ data.drop (headerOffset + headerLen + lengthField))))) := by rw [← hd3, ← hd2]
      _ = frameOf header.version ((data.drop headerOffset).take headerLen)
            ((data.drop (headerOffset + headerLen + lengthField)).take ctLen) := by
        rw [frameOf, hheader, hciphertext, hd4]
        simp

/-- Two splits of the same octets are the same. -/
theorem frameOf_inj {v v' : ℕ} {h h' c c' : Bytes} (hh : h.length < 2 ^ 32) (hh' : h'.length < 2 ^ 32)
    (he : frameOf v h c = frameOf v' h' c') : h = h' ∧ c = c' := by
  simp only [frameOf, List.append_assoc] at he
  have he1 := List.append_cancel_left he
  rw [List.singleton_append, List.singleton_append, List.cons.injEq] at he1
  obtain ⟨hu, he2⟩ := List.append_inj he1.2 (by simp)
  have hlen : h.length = h'.length := by rw [← ofU32_u32 hh, ← ofU32_u32 hh', hu]
  obtain ⟨rfl, he3⟩ := List.append_inj he2 hlen
  obtain ⟨-, rfl⟩ := List.append_inj he3 (by simp)
  exact ⟨rfl, rfl⟩

/-- **A frame is read back as it was written, and nothing else is read**: every
octet of a frame that is accepted belongs to one of its parts, which no other
split has. -/
theorem frame_exact (env : Platform γ Time) :
    (∀ header ciphertext frame headerBytes, ciphertext ≠ [] → pack env header ciphertext = .ok (frame, headerBytes) →
        unpack env frame = .ok { header, headerBytes, ciphertext }) ∧
      ∀ data u, unpack env data = .ok u →
        data = frameOf u.header.version u.headerBytes u.ciphertext ∧
          (data.getD magicLen 0).toNat = u.header.version ∧
          ∀ version headerBytes ciphertext, headerBytes.length < 2 ^ 32 →
            data = frameOf version headerBytes ciphertext → headerBytes = u.headerBytes ∧ ciphertext = u.ciphertext := by
  refine ⟨fun header ciphertext frame headerBytes hc h => unpack_pack h hc, fun data u h => ?_⟩
  obtain ⟨hdata, hheader, -⟩ := eq_frameOf_of_unpack h
  refine ⟨hdata, ?_, fun version headerBytes ciphertext hlen hsplit => ?_⟩
  · have hver : (UInt8.ofNat u.header.version).toNat = u.header.version := by
      rcases u.header.cases_shape with ⟨hv, -⟩ | ⟨hv, -⟩ <;> rw [hv] <;> rfl
    rw [hdata]
    simpa [frameOf, magic, magicLen, ascii] using hver
  · have hmax : maxHeaderSize = 65536 := rfl
    exact frameOf_inj hlen (by omega) (hsplit.symm.trans hdata)

end VaultFormat
end GpgMeister
