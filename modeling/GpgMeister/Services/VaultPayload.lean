/-
# The payload of a vault

`services/vault_service.py`: the plaintext of a vault is its manifest, with
its length in front, and for every key of it the fingerprint, the public and
the private armor, with their lengths. Older vaults are a MessagePack map with
the armor inside; they are rewritten into the same form.

`deserialise_serialise`: what was written is read, and the slices that are
found for a key are its armor.
-/
import GpgMeister.Security.VaultFormat

namespace GpgMeister
namespace VaultPayload

open VaultFormat

/-- `_FINGERPRINT_BYTES` -/
def fingerprintBytes : ℕ := 20

/-- `_CollectedEntry` -/
structure CollectedEntry (Time : Type) where
  entry : VaultKeyEntry Time
  publicKey : Bytes
  privateKey : Option Bytes

/-- `_KeySlice` -/
structure KeySlice where
  publicStart : ℕ
  publicEnd : ℕ
  privateStart : ℕ
  privateEnd : ℕ
  deriving DecidableEq

/-- A slice of a view. -/
def slice (view : Bytes) (start stop : ℕ) : Bytes := (view.drop start).take (stop - start)

variable {γ Time : Type} (env : Platform γ Time)

/-! ### Writing -/

/-- `_serialise_manifest` -/
def serialiseManifest (manifest : VaultManifest Time) : Except Exc Bytes :=
  env.msgpack.packb (manifest.dump env.pydantic)

/-- `_U32.pack(n)` -/
def packU32 (n : ℕ) : Except Exc Bytes :=
  if n < 2 ^ 32 then .ok (u32 n)
  else .error { cls := .structError, message := lit "'I' format requires 0 <= number <= 4294967295" }

/-- One key in the stream. -/
def segment (fingerprint publicKey privateKey : Bytes) : Bytes :=
  fingerprint ++ u32 publicKey.length ++ publicKey ++ u32 privateKey.length ++ privateKey

/-- `_append_key_material`; the lengths are those of armor and fit. -/
def appendKeyMaterial (payload : Bytes) (fingerprint : Str) (publicKey : Bytes) (privateKey : Option Bytes) :
    Except Exc Bytes :=
  if publicKey = [] ∨ publicKey.length > maxVaultArmorLength then
    .error (formatError (lit "public key material length is invalid"))
  else if (privateKey.getD []).length > maxVaultArmorLength then
    .error (formatError (lit "private key material length is invalid"))
  else
    match fromHex fingerprint with
    | none => .error { cls := .valueError, message := lit "non-hexadecimal number found in fromhex() arg" }
    | some fp => .ok (payload ++ segment fp publicKey (privateKey.getD []))

/-- The keys, one after the other. -/
def appendAll (payload : Bytes) (material : List (Str × Bytes × Option Bytes)) : Except Exc Bytes :=
  material.foldlM (fun payload (fp, pub, priv) => appendKeyMaterial payload fp pub priv) payload

/-- `_serialise_segmented_payload` -/
def serialiseSegmentedPayload (collected : List (CollectedEntry Time)) (manifest : VaultManifest Time) :
    Except Exc Bytes := do
  let manifestBytes ← serialiseManifest env manifest
  let length ← packU32 manifestBytes.length
  appendAll (length ++ manifestBytes)
    (collected.map fun item => (item.entry.fingerprint, item.publicKey, item.privateKey))

/-! ### Reading -/

/-- `_deserialise_manifest` -/
def deserialiseManifest (blob : Bytes) : Except Exc (VaultManifest Time) := do
  let obj ← env.msgpack.unpackb manifestStrLimit manifestArrayLimit blob
  match obj with
  | .map _ =>
    match VaultManifest.validate env.pydantic obj with
    | some manifest => .ok manifest
    | none => .error (formatError (lit "manifest validation failed: "))
  | _ => .error (formatError (lit "vault payload is not a manifest object"))

/-- `_read_u32` -/
def readU32 (view : Bytes) (offset : ℕ) : Except Exc (ℕ × ℕ) :=
  if offset + 4 > view.length then .error (formatError (lit "vault payload is truncated"))
  else .ok (ofU32 (slice view offset (offset + 4)), offset + 4)

/-- `_read_key_slice` -/
def readKeySlice (view : Bytes) (offset : ℕ) (entry : VaultKeyEntry Time) : Except Exc (KeySlice × ℕ) := do
  if offset + fingerprintBytes > view.length then
    .error (formatError (lit "vault key stream is truncated"))
  else
    let fingerprint := hexUpper (slice view offset (offset + fingerprintBytes))
    let (publicLen, publicStart) ← readU32 view (offset + fingerprintBytes)
    if publicLen < 1 ∨ publicLen > maxVaultArmorLength then
      .error (formatError (lit "public key segment length is invalid"))
    else
      let publicEnd := publicStart + publicLen
      if publicEnd > view.length then .error (formatError (lit "public key segment is truncated"))
      else
        let (privateLen, privateStart) ← readU32 view publicEnd
        if privateLen > maxVaultArmorLength then
          .error (formatError (lit "private key segment length is invalid"))
        else
          let privateEnd := privateStart + privateLen
          if privateEnd > view.length then .error (formatError (lit "private key segment is truncated"))
          else if fingerprint ≠ entry.fingerprint then
            .error (formatError (lit "key stream fingerprint order mismatch"))
          else if entry.hasPrivateKey = true ∧ privateLen < 1 then
            .error (formatError (lit "private key entry is missing private key material"))
          else .ok ({ publicStart, publicEnd, privateStart, privateEnd }, privateEnd)

/-- The slices by fingerprint, a later one before an earlier one. -/
abbrev KeySlices := List (Str × KeySlice)

/-- The walk over the key stream. -/
def readKeySlices (view : Bytes) : List (VaultKeyEntry Time) → ℕ → KeySlices → Except Exc (KeySlices × ℕ)
  | [], offset, slices => .ok (slices, offset)
  | entry :: entries, offset, slices => do
    let (keySlice, offset) ← readKeySlice view offset entry
    readKeySlices view entries offset ((entry.fingerprint, keySlice) :: slices)

/-! ### Legacy vaults -/

mutual

/-- `_legacy_bytes_to_str`; `none` is `UnicodeDecodeError`. -/
def legacyBytesToStr : Msg → Option Msg
  | .bin data => (Utf8.decodeStrict data).map .str
  | .arr xs => (legacyList xs).map .arr
  | .map items => (legacyItems items).map .map
  | v => some v

def legacyList : List Msg → Option (List Msg)
  | [] => some []
  | x :: xs => do return (← legacyBytesToStr x) :: (← legacyList xs)

def legacyItems : List (Msg × Msg) → Option (List (Msg × Msg))
  | [] => some []
  | (k, x) :: items => do return (← legacyBytesToStr k, ← legacyBytesToStr x) :: (← legacyItems items)

end

/-- A key of a raw map. -/
def isRawKey (key : Bytes) (m : Msg × Msg) : Bool :=
  match m.1 with
  | .bin k => k = key
  | _ => false

/-- `d.get(key)` -/
def rawGet (items : List (Msg × Msg)) (key : Bytes) : Option Msg := (items.find? (isRawKey key)).map Prod.snd

/-- `d.pop(key)` -/
def rawPop (items : List (Msg × Msg)) (key : Bytes) : List (Msg × Msg) := items.filter fun m => ! isRawKey key m

/-- The entries of a raw manifest. -/
def entriesOf (items : List (Msg × Msg)) : List Msg :=
  match rawGet items (ascii "keys") with
  | some (.arr entries) => entries
  | _ => []

/-- The armor of an entry. -/
abbrev Material := Str × Bytes × Option Bytes

/-- What the loop of `_pop_legacy_key_material` takes from an entry, and what
it leaves of it. -/
def popEntry : Msg → Except Exc (Msg × Option Material)
  | .map items =>
    match rawGet items (ascii "public_key_armored") with
    | none => .ok (.map items, none)
    | some (.bin pub) => do
      let left := rawPop (rawPop items (ascii "public_key_armored")) (ascii "private_key_armored")
      let priv ← match rawGet items (ascii "private_key_armored") with
        | none | some .nil => Except.ok none
        | some (.bin priv) => .ok (some priv)
        | some _ => .error (formatError (lit "legacy private key armor is not bytes"))
      match rawGet left (ascii "fingerprint") with
      | some (.bin raw) =>
        match Utf8.decodeStrict raw with
        | some fp => .ok (.map left, some (fp, pub, priv))
        | none => .error { cls := .unicodeDecodeError, message := [] }
      | some (.str fp) => .ok (.map left, some (fp, pub, priv))
      | _ => .error (formatError (lit "legacy manifest key entry missing fingerprint"))
    | some _ => .error (formatError (lit "legacy public key armor is not bytes"))
  | _ => .error (formatError (lit "legacy manifest key entry is not a map"))

/-- `_pop_legacy_key_material` -/
def popLegacyKeyMaterial (items : List (Msg × Msg)) : Except Exc (List (Msg × Msg) × List Material) :=
  match rawGet items (ascii "keys") with
  | none => .ok (items, [])
  | some (.arr rawKeys) => do
    let popped ← rawKeys.mapM popEntry
    let keys := Msg.arr (popped.map Prod.fst)
    .ok (items.map fun m => if isRawKey (ascii "keys") m then (m.1, keys) else m, popped.filterMap Prod.snd)
  | some _ => .error (formatError (lit "legacy manifest 'keys' is not a list"))

/-- `_rebuild_legacy_segmented_payload`: the manifest, where the key stream
starts, and the payload it is rewritten to. -/
def rebuildLegacy (payload : Bytes) : Except Exc (VaultManifest Time × ℕ × Bytes) := do
  let (obj, read) ← env.msgpack.unpackRaw maxVaultArmorLength manifestArrayLimit payload
  match obj with
  | .map items => do
    let (items, material) ← popLegacyKeyMaterial items
    match (legacyBytesToStr (.map items)).bind (VaultManifest.validate env.pydantic) with
    | none => .error { cls := .validationError, message := [] }
    | some manifest =>
      if material = [] then .ok (manifest, read, payload)
      else do
        let manifestBytes ← serialiseManifest env manifest
        let length ← packU32 manifestBytes.length
        let rebuilt ← appendAll (length ++ manifestBytes) material
        .ok (manifest, 4 + manifestBytes.length, rebuilt)
  | _ => .error (formatError (lit "legacy manifest is not a msgpack map"))

/-- Errors of other classes become format errors. -/
def rebuildLegacySegmentedPayload (payload : Bytes) : Except Exc (VaultManifest Time × ℕ × Bytes) :=
  (rebuildLegacy env payload).mapError fun e =>
    if e.isA [.vaultFormatError] then e
    else formatError (lit "legacy manifest decoding failed: " ++ e.message)

/-! ### Either form -/

/-- The manifest, where the key stream starts, and the payload. -/
def splitPayload (payload : Bytes) : Except Exc (VaultManifest Time × ℕ × Bytes) :=
  match payload with
  | [] => .error (formatError (lit "vault payload is empty"))
  | b :: _ =>
    if 0x80 ≤ b ∧ b ≤ 0x8F then rebuildLegacySegmentedPayload env payload
    else do
      let (manifestLen, offset) ← readU32 payload 0
      let manifestEnd := offset + manifestLen
      if manifestEnd > payload.length then
        .error (formatError (lit "vault manifest segment is truncated"))
      else
        let manifest ← deserialiseManifest env (slice payload offset manifestEnd)
        .ok (manifest, manifestEnd, payload)

/-- `_deserialise_segmented_payload`, which changes the payload if it is that
of a legacy vault. -/
def deserialiseSegmentedPayload (payload : Bytes) : Except Exc (VaultManifest Time × KeySlices × Bytes) := do
  let (manifest, offset, payload) ← splitPayload env payload
  let (slices, offset) ← readKeySlices payload manifest.keys offset []
  if offset ≠ payload.length then .error (formatError (lit "vault key stream has trailing data"))
  else .ok (manifest, slices, payload)

/-! ### The round trip -/

theorem slice_append {a b c : Bytes} {n m : ℕ} (hn : a.length = n) (hm : n + b.length = m) :
    slice (a ++ b ++ c) n m = b := by
  have hb : m - n = b.length := by omega
  rw [slice, hb]
  exact take_drop_append a b c hn rfl

theorem readU32_append {a c : Bytes} {n offset : ℕ} (hn : n < 2 ^ 32) (ho : a.length = offset) :
    readU32 (a ++ u32 n ++ c) offset = .ok (n, offset + 4) := by
  have hs : slice (a ++ u32 n ++ c) offset (offset + 4) = u32 n := slice_append ho (by simp)
  have hl : ¬ offset + 4 > (a ++ u32 n ++ c).length := by simp; omega
  rw [readU32, if_neg hl, hs, ofU32_u32 hn]

/-- The slices of the key stream that hold an item's armor. -/
structure Selects (payload : Bytes) (item : CollectedEntry Time) (s : KeySlice) : Prop where
  publicKey : slice payload s.publicStart s.publicEnd = item.publicKey
  privateKey : slice payload s.privateStart s.privateEnd = item.privateKey.getD []

theorem appendKeyMaterial_eq_ok {payload payload' : Bytes} {fp : Str} {pub : Bytes} {priv : Option Bytes}
    (h : appendKeyMaterial payload fp pub priv = .ok payload') :
    ∃ raw, fromHex fp = some raw ∧ pub ≠ [] ∧ pub.length ≤ maxVaultArmorLength ∧
      (priv.getD []).length ≤ maxVaultArmorLength ∧ payload' = payload ++ segment raw pub (priv.getD []) := by
  unfold appendKeyMaterial at h
  by_cases h1 : pub = [] ∨ pub.length > maxVaultArmorLength
  · simp [h1] at h
  · by_cases h2 : (priv.getD []).length > maxVaultArmorLength
    · simp [h1, h2] at h
    · rw [if_neg h1, if_neg h2] at h
      cases hf : fromHex fp with
      | none => simp [hf] at h
      | some raw =>
        simp only [hf, Except.ok.injEq] at h
        exact ⟨raw, rfl, by tauto, by omega, by omega, h.symm⟩

/-- What is made of a segment. -/
theorem readKeySlice_segment (pre rest : Bytes) {raw pub priv : Bytes} (entry : VaultKeyEntry Time)
    (hraw : raw.length = fingerprintBytes) (hpub : pub ≠ []) (hpublen : pub.length ≤ maxVaultArmorLength)
    (hprivlen : priv.length ≤ maxVaultArmorLength) :
    ∃ s : KeySlice, slice (pre ++ segment raw pub priv ++ rest) s.publicStart s.publicEnd = pub ∧
      slice (pre ++ segment raw pub priv ++ rest) s.privateStart s.privateEnd = priv ∧
      readKeySlice (pre ++ segment raw pub priv ++ rest) pre.length entry =
        if hexUpper raw ≠ entry.fingerprint then .error (formatError (lit "key stream fingerprint order mismatch"))
        else if entry.hasPrivateKey = true ∧ priv.length < 1 then
          .error (formatError (lit "private key entry is missing private key material"))
        else .ok (s, (pre ++ segment raw pub priv).length) := by
  have h20 : fingerprintBytes = 20 := rfl
  have hmax : maxVaultArmorLength = 8388608 := rfl
  have hpubpos := List.length_pos_of_ne_nil hpub
  set view := pre ++ segment raw pub priv ++ rest with hview
  have hviewlen : view.length = pre.length + 28 + pub.length + priv.length + rest.length := by
    simp [hview, segment]
    omega
  have h1 : slice view pre.length (pre.length + fingerprintBytes) = raw := by
    have he : view = pre ++ raw ++ (u32 pub.length ++ pub ++ u32 priv.length ++ priv ++ rest) := by
      simp [hview, segment]
    rw [he]
    exact slice_append rfl (by rw [hraw])
  have h2 : readU32 view (pre.length + fingerprintBytes) = .ok (pub.length, pre.length + fingerprintBytes + 4) := by
    have he : view = (pre ++ raw) ++ u32 pub.length ++ (pub ++ u32 priv.length ++ priv ++ rest) := by
      simp [hview, segment]
    rw [he]
    exact readU32_append (by omega) (by simp [hraw])
  have h3 : slice view (pre.length + fingerprintBytes + 4) (pre.length + fingerprintBytes + 4 + pub.length) = pub := by
    have he : view = (pre ++ raw ++ u32 pub.length) ++ pub ++ (u32 priv.length ++ priv ++ rest) := by
      simp [hview, segment]
    rw [he]
    exact slice_append (by simp [hraw]; omega) rfl
  have h4 : readU32 view (pre.length + fingerprintBytes + 4 + pub.length) =
      .ok (priv.length, pre.length + fingerprintBytes + 4 + pub.length + 4) := by
    have he : view = (pre ++ raw ++ u32 pub.length ++ pub) ++ u32 priv.length ++ (priv ++ rest) := by
      simp [hview, segment]
    rw [he]
    exact readU32_append (by omega) (by simp [hraw]; omega)
  have h5 : slice view (pre.length + fingerprintBytes + 4 + pub.length + 4)
      (pre.length + fingerprintBytes + 4 + pub.length + 4 + priv.length) = priv := by
    have he : view = (pre ++ raw ++ u32 pub.length ++ pub ++ u32 priv.length) ++ priv ++ rest := by
      simp [hview, segment]
    rw [he]
    exact slice_append (by simp [hraw]; omega) rfl
  refine ⟨{ publicStart := pre.length + fingerprintBytes + 4
            publicEnd := pre.length + fingerprintBytes + 4 + pub.length
            privateStart := pre.length + fingerprintBytes + 4 + pub.length + 4
            privateEnd := pre.length + fingerprintBytes + 4 + pub.length + 4 + priv.length }, h3, h5, ?_⟩
  have hend : (pre ++ segment raw pub priv).length = pre.length + fingerprintBytes + 4 + pub.length + 4 +
      priv.length := by
    simp [segment, hraw]
    omega
  unfold readKeySlice
  rw [if_neg (by omega), h1, h2]
  dsimp only [bind, Except.bind]
  rw [if_neg (by omega), if_neg (by omega), h4]
  dsimp only
  rw [if_neg (by omega), if_neg (by omega), hend]

/-- The octets of an entry's fingerprint. -/
theorem fromHex_entry (entry : VaultKeyEntry Time) :
    ∃ raw, fromHex entry.fingerprint = some raw ∧ raw.length = fingerprintBytes ∧ hexUpper raw = entry.fingerprint := by
  have hok := entry.ok
  unfold entryOk at hok
  simp only [Bool.and_eq_true, decide_eq_true_eq] at hok
  exact fromHex_of_normalise hok.1.1.1 (normalise_of_isFingerprint hok.1.1)

/-- An item whose armor is what its entry says. -/
def CollectedEntry.Fits (item : CollectedEntry Time) : Prop :=
  item.entry.hasPrivateKey = true → item.privateKey.getD [] ≠ []

/-- The armor of a list of items. -/
def materialOf (collected : List (CollectedEntry Time)) : List Material :=
  collected.map fun item => (item.entry.fingerprint, item.publicKey, item.privateKey)

theorem appendAll_cons {payload payload' : Bytes} {m : Material} {ms : List Material}
    (h : appendAll payload (m :: ms) = .ok payload') :
    ∃ next, appendKeyMaterial payload m.1 m.2.1 m.2.2 = .ok next ∧ appendAll next ms = .ok payload' := by
  unfold appendAll at h
  rw [List.foldlM_cons] at h
  cases hm : appendKeyMaterial payload m.1 m.2.1 m.2.2 with
  | error e => simp [hm, bind, Except.bind] at h
  | ok next =>
    simp only [hm, bind, Except.bind] at h
    exact ⟨next, rfl, h⟩

theorem exists_of_appendAll : ∀ {ms : List Material} {payload payload' : Bytes},
    appendAll payload ms = .ok payload' → ∃ rest, payload' = payload ++ rest
  | [], payload, payload', h => by
    simp only [appendAll, List.foldlM_nil, pure, Except.pure, Except.ok.injEq] at h
    exact ⟨[], by simp [h]⟩
  | m :: ms, payload, payload', h => by
    obtain ⟨next, hm, hms⟩ := appendAll_cons h
    obtain ⟨raw, -, -, -, -, rfl⟩ := appendKeyMaterial_eq_ok hm
    obtain ⟨rest, rfl⟩ := exists_of_appendAll hms
    exact ⟨_, by rw [List.append_assoc]⟩

/-- What is made of the segment of an item. -/
theorem readKeySlice_appendKeyMaterial {item : CollectedEntry Time} {pre next payload : Bytes}
    (h : appendKeyMaterial pre item.entry.fingerprint item.publicKey item.privateKey = .ok next)
    (hrest : ∃ rest, payload = next ++ rest) :
    ∃ s, Selects payload item s ∧ readKeySlice payload pre.length item.entry =
      if item.entry.hasPrivateKey = true ∧ (item.privateKey.getD []).length < 1 then
        .error (formatError (lit "private key entry is missing private key material"))
      else .ok (s, next.length) := by
  obtain ⟨raw, hraw, hpub, hpublen, hprivlen, hnext⟩ := appendKeyMaterial_eq_ok h
  obtain ⟨rest, hrest⟩ := hrest
  obtain ⟨raw', hraw', hlen, hhex⟩ := fromHex_entry item.entry
  obtain rfl : raw' = raw := Option.some.inj (hraw'.symm.trans hraw)
  obtain ⟨s, hspub, hspriv, hs⟩ := readKeySlice_segment pre rest item.entry hlen hpub hpublen hprivlen
  rw [if_neg (not_not.mpr hhex), ← hnext, ← hrest] at hs
  rw [← hnext, ← hrest] at hspub hspriv
  exact ⟨s, ⟨hspub, hspriv⟩, hs⟩

/-- The key stream is read back, key by key. -/
theorem readKeySlices_appendAll : ∀ {collected : List (CollectedEntry Time)} {pre payload : Bytes}
    (slices : KeySlices), (∀ item ∈ collected, item.Fits) → appendAll pre (materialOf collected) = .ok payload →
    ∃ found : List KeySlice, List.Forall₂ (Selects payload) collected found ∧
      readKeySlices payload (collected.map (·.entry)) pre.length slices =
        .ok (((collected.map (·.entry.fingerprint)).zip found).reverse ++ slices, payload.length)
  | [], pre, payload, slices, _, h => by
    simp only [materialOf, List.map_nil, appendAll, List.foldlM_nil, pure, Except.pure, Except.ok.injEq] at h
    subst h
    exact ⟨[], .nil, rfl⟩
  | item :: collected, pre, payload, slices, hfits, h => by
    obtain ⟨next, hm, hms⟩ := appendAll_cons h
    rw [List.forall_mem_cons] at hfits
    obtain ⟨s, hsel, hs⟩ := readKeySlice_appendKeyMaterial hm (exists_of_appendAll hms)
    have hhas : ¬ (item.entry.hasPrivateKey = true ∧ (item.privateKey.getD []).length < 1) := by
      intro hc
      have := List.length_pos_of_ne_nil (hfits.1 hc.1)
      omega
    rw [if_neg hhas] at hs
    obtain ⟨found, hall, hfound⟩ := readKeySlices_appendAll ((item.entry.fingerprint, s) :: slices) hfits.2 hms
    refine ⟨s :: found, .cons hsel hall, ?_⟩
    rw [List.map_cons, readKeySlices, hs]
    simpa [bind, Except.bind] using hfound

/-- What is in front of the key stream. -/
theorem splitPayload_segmented (env : Platform γ Time) {data : Bytes} (hlt : data.length < 2 ^ 31) (rest : Bytes) :
    splitPayload env (u32 data.length ++ data ++ rest) =
      (deserialiseManifest env data).map fun manifest =>
        (manifest, 4 + data.length, u32 data.length ++ data ++ rest) := by
  have hu32 : readU32 (u32 data.length ++ data ++ rest) 0 = .ok (data.length, 0 + 4) := by
    have := readU32_append (a := []) (c := data ++ rest) (show data.length < 2 ^ 32 by omega) rfl
    simpa using this
  have hslice : slice (u32 data.length ++ data ++ rest) 4 (4 + data.length) = data := slice_append rfl rfl
  have hfirst : ¬ (0x80 ≤ UInt8.ofNat (data.length / 16777216) ∧ UInt8.ofNat (data.length / 16777216) ≤ 0x8F) := by
    intro hb
    have hle := UInt8.le_iff_toNat_le.mp hb.1
    rw [UInt8.toNat_ofNat'] at hle
    have : (128 : UInt8).toNat = 128 := rfl
    omega
  have hlen : ¬ 0 + 4 + data.length > (u32 data.length ++ data ++ rest).length := by simp
  obtain ⟨tail, htail⟩ : ∃ tail, u32 data.length ++ data ++ rest = UInt8.ofNat (data.length / 16777216) :: tail :=
    ⟨_, rfl⟩
  unfold splitPayload
  rw [htail]
  dsimp only
  rw [if_neg hfirst, ← htail, hu32]
  dsimp only [bind, Except.bind]
  rw [if_neg hlen, Nat.zero_add, hslice]
  cases deserialiseManifest env data <;> rfl

/-- The manifest is read back, where its texts are within the limit. -/
theorem deserialise_serialiseManifest {env : Platform γ Time} {manifest : VaultManifest Time} {data : Bytes}
    (hrt : env.msgpack.RoundTrips)
    (hversion : (Utf8.encode manifest.appVersion).any (fun data => data.length ≤ manifestStrLimit) = true)
    (h : serialiseManifest env manifest = .ok data) : deserialiseManifest env data = .ok manifest := by
  have hu := hrt manifestStrLimit manifestArrayLimit _ _ h (manifest.within_dump env.pydantic hversion)
    (manifest.depth_dump env.pydantic)
  unfold deserialiseManifest
  rw [hu]
  change (match VaultManifest.validate env.pydantic (manifest.dump env.pydantic) with
    | some manifest => Except.ok manifest
    | none => _) = _
  rw [VaultManifest.validate_dump]

theorem exists_of_forall₂ {α β : Type} {R : α → β → Prop} {as : List α} {bs : List β} (h : List.Forall₂ R as bs)
    {a : α} (ha : a ∈ as) : ∃ b, (a, b) ∈ as.zip bs ∧ R a b := by
  induction h with
  | nil => simp at ha
  | @cons x y as bs hxy _ ih =>
    rcases List.mem_cons.mp ha with rfl | ha
    · exact ⟨y, by simp, hxy⟩
    · obtain ⟨b, hb, hr⟩ := ih ha
      exact ⟨b, by simp [hb], hr⟩

/-- What was written is read. -/
theorem deserialise_serialise {env : Platform γ Time} {collected : List (CollectedEntry Time)}
    {manifest : VaultManifest Time} {data payload : Bytes} (hrt : env.msgpack.RoundTrips)
    (hversion : (Utf8.encode manifest.appVersion).any (fun data => data.length ≤ manifestStrLimit) = true)
    (hkeys : manifest.keys = collected.map (·.entry)) (hfits : ∀ item ∈ collected, item.Fits)
    (hdistinct : (collected.map (·.entry.fingerprint)).Nodup) (hm : serialiseManifest env manifest = .ok data)
    (hlt : data.length < 2 ^ 31) (h : appendAll (u32 data.length ++ data) (materialOf collected) = .ok payload) :
    ∃ slices, deserialiseSegmentedPayload env payload = .ok (manifest, slices, payload) ∧
      ∀ item ∈ collected, ∃ s, slices.lookup item.entry.fingerprint = some s ∧ Selects payload item s := by
  obtain ⟨rest, hrest⟩ := exists_of_appendAll h
  obtain ⟨found, hall, hfound⟩ := readKeySlices_appendAll [] hfits h
  have hsplit := splitPayload_segmented env hlt rest
  rw [← hrest, deserialise_serialiseManifest hrt hversion hm] at hsplit
  refine ⟨((collected.map (·.entry.fingerprint)).zip found).reverse, ?_, ?_⟩
  · unfold deserialiseSegmentedPayload
    rw [hsplit]
    dsimp only [bind, Except.bind, Except.map]
    have hoff : (u32 data.length ++ data).length = 4 + data.length := by simp
    rw [hkeys, ← hoff, hfound]
    simp
  · intro item hi
    obtain ⟨s, hs, hsel⟩ := exists_of_forall₂ hall hi
    have hlen : (collected.map (·.entry.fingerprint)).length ≤ found.length := by
      rw [List.length_map, hall.length_eq]
    have hnodup : (((collected.map (·.entry.fingerprint)).zip found).reverse.map Prod.fst).Nodup := by
      rw [List.map_reverse, List.map_fst_zip hlen, List.nodup_reverse]
      exact hdistinct
    refine ⟨s, (Json.lookup_eq_some_iff_mem hnodup).mpr ?_, hsel⟩
    rw [List.mem_reverse, List.zip_map_left]
    exact List.mem_map.mpr ⟨(item, s), hs, rfl⟩

/-! ### Payloads of any vault -/

/-- An item whose armor has the lengths that the format allows. -/
structure CollectedEntry.Sound (item : CollectedEntry Time) : Prop where
  publicKey : 1 ≤ item.publicKey.length ∧ item.publicKey.length ≤ maxVaultArmorLength
  privateKey : ∀ priv, item.privateKey = some priv → priv.length ≤ maxVaultArmorLength
  fits : item.Fits

/-- The payload begins as that of an older vault does. -/
def isLegacy (payload : Bytes) : Bool := payload.head?.any fun b => 0x80 ≤ b && b ≤ 0x8F

theorem appendKeyMaterial_of_sound {item : CollectedEntry Time} (h : item.Sound) (payload : Bytes) :
    ∃ payload', appendKeyMaterial payload item.entry.fingerprint item.publicKey item.privateKey = .ok payload' := by
  obtain ⟨raw, hraw, -⟩ := fromHex_entry item.entry
  have hpub : ¬ (item.publicKey = [] ∨ item.publicKey.length > maxVaultArmorLength) := by
    intro hp
    rcases hp with hp | hp
    · have := h.publicKey.1
      simp [hp] at this
    · have := h.publicKey.2
      omega
  have hpriv : ¬ (item.privateKey.getD []).length > maxVaultArmorLength := by
    cases hk : item.privateKey with
    | none => simp
    | some priv =>
      have := h.privateKey priv hk
      simpa using this
  exact ⟨_, by rw [appendKeyMaterial, if_neg hpub, if_neg hpriv, hraw]⟩

theorem appendAll_of_sound : ∀ {collected : List (CollectedEntry Time)} (payload : Bytes),
    (∀ item ∈ collected, item.Sound) → ∃ payload', appendAll payload (materialOf collected) = .ok payload'
  | [], payload, _ => ⟨payload, rfl⟩
  | item :: collected, payload, h => by
    rw [List.forall_mem_cons] at h
    obtain ⟨next, hnext⟩ := appendKeyMaterial_of_sound h.1 payload
    obtain ⟨payload', hpayload⟩ := appendAll_of_sound next h.2
    refine ⟨payload', ?_⟩
    unfold appendAll materialOf at *
    rw [List.map_cons, List.foldlM_cons]
    dsimp only
    rw [hnext]
    exact hpayload

theorem isLegacy_segmented {data : Bytes} (hlt : data.length < 2 ^ 31) (rest : Bytes) :
    isLegacy (u32 data.length ++ data ++ rest) = false := by
  rw [Bool.eq_false_iff]
  intro h
  simp only [isLegacy, u32, List.cons_append, List.head?_cons, Option.any_some, Bool.and_eq_true,
    decide_eq_true_eq] at h
  have hle := UInt8.le_iff_toNat_le.mp h.1
  rw [UInt8.toNat_ofNat'] at hle
  have : (128 : UInt8).toNat = 128 := rfl
  omega

/-- **A payload is read back as it was written**, and is not taken for that of
an older vault, where the text of the version is within the reader's limit. -/
theorem payload_roundTrip {env : Platform γ Time} {collected : List (CollectedEntry Time)}
    {manifest : VaultManifest Time} {data : Bytes} (hrt : env.msgpack.RoundTrips)
    (hpack : env.msgpack.packb (manifest.dump env.pydantic) = .ok data) (hlt : data.length < 2 ^ 31)
    (hversion : (Utf8.encode manifest.appVersion).any (fun data => data.length ≤ manifestStrLimit) = true)
    (hkeys : manifest.keys = collected.map (·.entry)) (hsound : ∀ item ∈ collected, item.Sound)
    (hdistinct : (manifest.keys.map (·.fingerprint)).Nodup) :
    ∃ payload slices, serialiseSegmentedPayload env collected manifest = .ok payload ∧ isLegacy payload = false ∧
      deserialiseSegmentedPayload env payload = .ok (manifest, slices, payload) ∧
      ∀ item ∈ collected, ∃ s, slices.lookup item.entry.fingerprint = some s ∧ Selects payload item s := by
  obtain ⟨payload, hpayload⟩ := appendAll_of_sound (u32 data.length ++ data) hsound
  have hdistinct' : (collected.map (·.entry.fingerprint)).Nodup := by
    rw [hkeys, List.map_map] at hdistinct
    exact hdistinct
  obtain ⟨slices, hread, hslices⟩ := deserialise_serialise hrt hversion hkeys (fun item hi => (hsound item hi).fits)
    hdistinct' hpack hlt hpayload
  obtain ⟨rest, hrest⟩ := exists_of_appendAll hpayload
  refine ⟨payload, slices, ?_, ?_, hread, hslices⟩
  · have hlt' : data.length < 2 ^ 32 := by omega
    unfold serialiseSegmentedPayload serialiseManifest
    rw [hpack]
    dsimp only [bind, Except.bind]
    rw [packU32, if_pos hlt']
    exact hpayload
  · rw [hrest]
    exact isLegacy_segmented hlt rest

/-- The payload of a vault without keys. -/
theorem eq_of_serialise_nil {env : Platform γ Time} {manifest : VaultManifest Time} {data payload : Bytes}
    (hpack : env.msgpack.packb (manifest.dump env.pydantic) = .ok data) (hlt : data.length < 2 ^ 32)
    (h : serialiseSegmentedPayload env [] manifest = .ok payload) : payload = u32 data.length ++ data ++ [] := by
  unfold serialiseSegmentedPayload serialiseManifest at h
  rw [hpack] at h
  dsimp only [bind, Except.bind] at h
  rw [packU32, if_pos hlt] at h
  simpa [appendAll, pure, Except.pure] using h.symm

/-! ### Manifests with one key and with two, and one with a long version -/

/-- A short text in MessagePack. -/
def packText (s : String) : Bytes := .ofNat (0xA0 + s.length) :: ascii s

/-- The fields of a manifest around its version. -/
def packManifest (version keys : Bytes) : Bytes :=
  [0x85] ++ packText "created_by" ++ packText "" ++ packText "created_at" ++ packText "2026-01-01T00:00:00Z" ++
    packText "app_version" ++ version ++ packText "description" ++ packText "" ++ packText "keys" ++ keys

def sampleEntry : VaultKeyEntry Unit where
  fingerprint := lit "0123456789ABCDEF0123456789ABCDEF01234567"
  userIds := []
  hasPrivateKey := true
  isStub := false
  createdAt := ()
  expiresAt := none
  ok := by decide +kernel

def sampleManifest : VaultManifest Unit where
  createdBy := []
  createdAt := ()
  appVersion := lit "1.0.5"
  description := []
  keys := [sampleEntry]
  ok := by decide

/-- An entry without user IDs. -/
def packEntry (entry : VaultKeyEntry Unit) : Bytes :=
  [0x86] ++ packText "fingerprint" ++ [0xD9, 0x28] ++ entry.fingerprint.map (fun c => .ofNat c.val) ++
    packText "user_ids" ++ [0x90] ++ packText "has_private_key" ++ [if entry.hasPrivateKey then 0xC3 else 0xC2] ++
    packText "is_stub" ++ [0xC2] ++ packText "created_at" ++ packText "2026-01-01T00:00:00Z" ++
    packText "expires_at" ++ [0xC0]

def sampleManifestBytes : Bytes := packManifest (packText "1.0.5") ([0x91] ++ packEntry sampleEntry)

/-- A key of somebody else, without its private part. -/
def otherEntry : VaultKeyEntry Unit where
  fingerprint := lit "FEDCBA9876543210FEDCBA9876543210FEDCBA98"
  userIds := []
  hasPrivateKey := false
  isStub := false
  createdAt := ()
  expiresAt := none
  ok := by decide +kernel

def pairManifest : VaultManifest Unit where
  createdBy := []
  createdAt := ()
  appVersion := lit "1.0.5"
  description := []
  keys := [sampleEntry, otherEntry]
  ok := by decide

def pairManifestBytes : Bytes :=
  packManifest (packText "1.0.5") ([0x92] ++ packEntry sampleEntry ++ packEntry otherEntry)

/-- The armor of both keys. -/
def pairCollected : List (CollectedEntry Unit) :=
  [{ entry := sampleEntry, publicKey := ascii "public", privateKey := some (ascii "private") },
    { entry := otherEntry, publicKey := ascii "other", privateKey := none }]

def valueError : Exc where
  cls := .valueError
  message := []

/-- The platform whose codec knows one manifest. -/
def codecPlatform (manifest : VaultManifest Unit) (data : Bytes) : Platform Unit Unit :=
  { samplePlatform noGnuPG with msgpack := .single (manifest.dump samplePydantic) data valueError }

theorem packb_codecPlatform (manifest : VaultManifest Unit) (data : Bytes) :
    (codecPlatform manifest data).msgpack.packb (manifest.dump (codecPlatform manifest data).pydantic) = .ok data :=
  if_pos rfl

/-- A manifest beyond the reader's limits is refused. -/
theorem deserialise_codecPlatform {manifest : VaultManifest Unit} {data : Bytes}
    (h : Msg.within manifestStrLimit manifestArrayLimit (manifest.dump samplePydantic) ≠ true) :
    deserialiseManifest (codecPlatform manifest data) data = .error valueError := by
  have hu : (codecPlatform manifest data).msgpack.unpackb manifestStrLimit manifestArrayLimit data =
      .error valueError := if_neg fun hc => h hc.2
  rw [deserialiseManifest, hu]
  rfl

theorem payload_roundTrip_sample : ∃ payload slices,
    serialiseSegmentedPayload (codecPlatform pairManifest pairManifestBytes) pairCollected pairManifest = .ok payload ∧
      isLegacy payload = false ∧
      deserialiseSegmentedPayload (codecPlatform pairManifest pairManifestBytes) payload =
        .ok (pairManifest, slices, payload) ∧
      ∀ item ∈ pairCollected, ∃ s, slices.lookup item.entry.fingerprint = some s ∧ Selects payload item s := by
  refine payload_roundTrip (Msgpack.roundTrips_single _ _ _) (packb_codecPlatform _ _) (by decide +kernel)
    (by decide +kernel) rfl ?_ (by decide)
  intro item hi
  rcases List.mem_pair.mp hi with rfl | rfl
  · refine ⟨by decide +kernel, fun priv hp => ?_, fun _ => by decide⟩
    obtain rfl := Option.some.inj hp
    decide +kernel
  · refine ⟨by decide +kernel, fun priv hp => ?_, fun h => ?_⟩
    · cases hp
    · cases h

/-- A version that takes more octets than the reader allows for a text. -/
@[irreducible] def longVersion : Str := List.replicate 65537 0x61

theorem longVersion_noSurrogate : longVersion.any Utf8.isSurrogate = false := by
  rw [List.any_eq_false]
  intro c hc
  unfold longVersion at hc
  rw [List.eq_of_mem_replicate hc]
  decide

def longManifest : VaultManifest Unit where
  createdBy := []
  createdAt := ()
  appVersion := longVersion
  description := []
  keys := []
  ok := by
    rw [manifestOk, longVersion_noSurrogate]
    decide

@[irreducible] def longManifestBytes : Bytes :=
  packManifest ([0xDB, 0x00, 0x01, 0x00, 0x01] ++ List.replicate 65537 0x61) [0x90]

theorem not_within_longManifest :
    Msg.within manifestStrLimit manifestArrayLimit (longManifest.dump samplePydantic) ≠ true := by
  intro h
  have hversion : Msg.within manifestStrLimit manifestArrayLimit (.str longVersion) = true := by
    simp only [VaultManifest.dump, longManifest, Msg.within, Msg.withinItems, Bool.and_eq_true] at h ⊢
    exact h.2.2.2.1.2
  rw [Msg.within, Utf8.encode_of_noSurrogate longVersion_noSurrogate, Option.any_some, decide_eq_true_eq,
    longVersion, List.flatMap_replicate, List.length_flatten, List.map_replicate, List.sum_replicate] at hversion
  exact absurd hversion (by decide)

/-- A manifest that the model accepts is written and cannot be read. -/
theorem not_payload_roundTrip : ¬ ∀ (γ Time : Type) (env : Platform γ Time) collected
    (manifest : VaultManifest Time) data, env.msgpack.RoundTrips →
      env.msgpack.packb (manifest.dump env.pydantic) = .ok data → data.length < 2 ^ 31 →
      manifest.keys = collected.map (·.entry) → (∀ item ∈ collected, item.Sound) →
      (manifest.keys.map (·.fingerprint)).Nodup →
      ∃ payload slices, serialiseSegmentedPayload env collected manifest = .ok payload ∧
        isLegacy payload = false ∧ deserialiseSegmentedPayload env payload = .ok (manifest, slices, payload) ∧
        ∀ item ∈ collected, ∃ s, slices.lookup item.entry.fingerprint = some s ∧ Selects payload item s := by
  intro h
  have hlen : longManifestBytes.length < 2 ^ 31 := by
    simp only [longManifestBytes, packManifest, List.length_append, List.length_replicate]
    decide
  have hpack := packb_codecPlatform longManifest longManifestBytes
  obtain ⟨payload, slices, hwrite, -, hread, -⟩ := h Unit Unit (codecPlatform longManifest longManifestBytes) []
    longManifest longManifestBytes (Msgpack.roundTrips_single _ _ _) hpack hlen rfl (by simp) (by simp [longManifest])
  have hpayload := eq_of_serialise_nil hpack (by omega) hwrite
  rw [deserialiseSegmentedPayload, hpayload, splitPayload_segmented _ hlen,
    deserialise_codecPlatform not_within_longManifest] at hread
  cases hread

end VaultPayload
end GpgMeister
