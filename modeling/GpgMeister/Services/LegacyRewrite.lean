/-
# A legacy payload is rewritten in its buffer

`services/vault_service.py`: the new payload is built in a buffer of its own,
and only when it is complete is the old one wiped and filled with it. Every
step that takes memory may fail.

* `meets_deserialiseInPlace`: the buffer holds what `deserialiseSegmentedPayload`
  makes of the payload, and if the rewriting fails, what it held or zeros.
* `legacy_migrated`: both, of a legacy payload.
-/
import GpgMeister.Services.LegacyPayload

namespace GpgMeister

variable {γ Time : Type}

/-! ### Buffers -/

/-- `bytearray(data)` -/
def newBuffer (octets : Bytes) : Program (World γ Time) Exc ℕ := do
  syscall
  allocate true octets

/-- `buffer.extend(data)` -/
def extendBuffer (buffer : ℕ) (octets : Bytes) : Program (World γ Time) Exc Unit := do
  syscall
  modifyBuffer buffer (· ++ octets)

/-- `buffer.clear()`, which fails while there are views of the buffer. -/
def clearBuffer (buffer : ℕ) : Program (World γ Time) Exc Unit := do
  syscall
  modifyBuffer buffer fun _ => []

/-- `bytes(buffer)` -/
def readBuffer (buffer : ℕ) : Program (World γ Time) Exc Bytes := do
  return (((← get).buffers[buffer]?).map Buffer.octets).getD []

/-- The buffer holds these octets. -/
def World.Holds (w : World γ Time) (buffer : ℕ) (octets : Bytes) : Prop :=
  (w.buffers[buffer]?).map Buffer.octets = some octets

/-- All buffers but this one hold what they held. -/
def World.SameBut (buffer : ℕ) (w w' : World γ Time) : Prop :=
  ∀ other octets, other ≠ buffer → w.Holds other octets → w'.Holds other octets

/-- The buffer holds these octets still, or zeros. -/
def World.Spared (w : World γ Time) (buffer : ℕ) (octets : Bytes) : Prop :=
  ∃ octets', w.Holds buffer octets' ∧ (octets' = octets ∨ ∀ o ∈ octets', o = 0)

section Buffers

variable {w w' w'' : World γ Time} {buffer : ℕ} {octets : Bytes}

theorem World.Holds.of_buffers (h : w.Holds buffer octets) (he : w'.buffers = w.buffers) : w'.Holds buffer octets := by
  rw [World.Holds, he]
  exact h

theorem World.SameBut.trans (h : World.SameBut buffer w w') (h' : World.SameBut buffer w' w'') :
    World.SameBut buffer w w'' := fun other octets hne hw => h' other octets hne (h other octets hne hw)

theorem World.sameBut_of_buffers (he : w'.buffers = w.buffers) : World.SameBut buffer w w' :=
  fun _ _ _ hw => hw.of_buffers he

theorem meets_syscall : (syscall : Program (World γ Time) Exc Unit).Meets w (fun _ w' => w'.buffers = w.buffers)
    fun _ w' => w'.buffers = w.buffers := by
  unfold Program.Meets syscall
  simp only [EStateM.run]
  cases w.faults 0 <;> rfl

theorem meets_allocate (isMutable : Bool) : (allocate isMutable octets : Program (World γ Time) Exc ℕ).Meets w
    (fun buffer w' => w'.Holds buffer octets ∧
      ∀ other octets, w.Holds other octets → other ≠ buffer ∧ w'.Holds other octets) fun _ _ => False := by
  refine ⟨?_, fun other octets h => ?_⟩
  · simp [World.Holds]
  · obtain ⟨b, hb, rfl⟩ := Option.map_eq_some_iff.mp h
    have hlt := (List.getElem?_eq_some_iff.mp hb).1
    refine ⟨by omega, ?_⟩
    rw [World.Holds, List.getElem?_append_left hlt, hb]
    rfl

theorem meets_newBuffer : (newBuffer octets : Program (World γ Time) Exc ℕ).Meets w
    (fun buffer w' => w'.Holds buffer octets ∧
      ∀ other octets, w.Holds other octets → other ≠ buffer ∧ w'.Holds other octets)
    fun _ w' => w'.buffers = w.buffers := by
  rw [newBuffer, Program.meets_bind]
  refine meets_syscall.mono (fun _ w1 h1 => ?_) fun _ _ h => h
  refine (meets_allocate true).mono (fun new w2 h2 => ⟨h2.1, fun other octets h => h2.2 other octets ?_⟩)
    fun _ _ h => h.elim
  exact h.of_buffers h1

/-- A change of a buffer, which may not be there, leaves the others alone. -/
theorem meets_modifyOther (f : Bytes → Bytes) : (modifyBuffer buffer f : Program (World γ Time) Exc Unit).Meets w
    (fun _ w' => World.SameBut buffer w w') fun _ _ => False := by
  intro other octets hne ho
  have hsame := List.getElem?_modify_ne (fun b : Buffer => { b with octets := f b.octets }) w.buffers hne.symm
  exact (congrArg (Option.map Buffer.octets) hsame).trans ho

theorem meets_modifyBuffer (h : w.Holds buffer octets) (f : Bytes → Bytes) :
    (modifyBuffer buffer f : Program (World γ Time) Exc Unit).Meets w
      (fun _ w' => w'.Holds buffer (f octets) ∧ World.SameBut buffer w w') fun _ _ => False := by
  obtain ⟨b, hb, rfl⟩ := Option.map_eq_some_iff.mp h
  refine ⟨?_, meets_modifyOther f⟩
  rw [World.Holds, List.getElem?_modify_eq, hb]
  rfl

/-- A call that may fail, and then a change of a buffer. -/
theorem meets_changeBuffer (h : w.Holds buffer octets) (f : Bytes → Bytes) :
    (do syscall; modifyBuffer buffer f : Program (World γ Time) Exc Unit).Meets w
      (fun _ w' => w'.Holds buffer (f octets) ∧ World.SameBut buffer w w') fun _ w' => w'.buffers = w.buffers := by
  rw [Program.meets_bind]
  refine meets_syscall.mono (fun _ w1 h1 => ?_) fun _ _ h => h
  refine (meets_modifyBuffer (h.of_buffers h1) f).mono (fun _ w2 h2 => ⟨h2.1, ?_⟩) fun _ _ h => h.elim
  exact (World.sameBut_of_buffers h1).trans h2.2

theorem meets_readBuffer (h : w.Holds buffer octets) :
    (readBuffer buffer : Program (World γ Time) Exc Bytes).Meets w (fun data w' => data = octets ∧ w' = w)
      fun _ _ => False := by
  refine ⟨?_, rfl⟩
  rw [World.Holds] at h
  rw [h]
  rfl

theorem World.Holds.spared (h : w.Holds buffer octets) : w.Spared buffer octets := ⟨octets, h, .inl rfl⟩

theorem World.Spared.of_buffers (h : w.Spared buffer octets) (he : w'.buffers = w.buffers) : w'.Spared buffer octets := by
  obtain ⟨octets', h, ho⟩ := h
  exact ⟨octets', h.of_buffers he, ho⟩

theorem World.Spared.of_sameBut {other : ℕ} (h : w.Spared buffer octets) (hne : buffer ≠ other)
    (hs : World.SameBut other w w') : w'.Spared buffer octets := by
  obtain ⟨octets', h, ho⟩ := h
  exact ⟨octets', hs buffer octets' hne h, ho⟩

end Buffers

namespace VaultPayload

open VaultFormat Program

/-! ### The source -/

/-- `_append_key_material`, on a buffer -/
def extendKeyMaterial (buffer : ℕ) (fingerprint : Str) (publicKey : Bytes) (privateKey : Option Bytes) :
    Program (World γ Time) Exc Unit :=
  if publicKey = [] ∨ publicKey.length > maxVaultArmorLength then
    raise (formatError (lit "public key material length is invalid"))
  else if (privateKey.getD []).length > maxVaultArmorLength then
    raise (formatError (lit "private key material length is invalid"))
  else
    match fromHex fingerprint with
    | none => raise { cls := .valueError, message := lit "non-hexadecimal number found in fromhex() arg" }
    | some fp => do
      extendBuffer buffer fp
      extendBuffer buffer (u32 publicKey.length)
      extendBuffer buffer publicKey
      extendBuffer buffer (u32 (privateKey.getD []).length)
      extendBuffer buffer (privateKey.getD [])

/-- The armor of the keys, one after the other. -/
def extendAll (buffer : ℕ) : List Material → Program (World γ Time) Exc Unit
  | [] => return
  | (fp, pub, priv) :: material => do
    extendKeyMaterial buffer fp pub priv
    extendAll buffer material

variable (env : Platform γ Time)

/-- `_replace_with_segmented_payload` -/
def replaceWithSegmentedPayload (payload : ℕ) (manifest : VaultManifest Time) (material : List Material) :
    Program (World γ Time) Exc ℕ := do
  let manifestBytes ← Program.ofExcept (serialiseManifest env manifest)
  let manifestObject ← allocate false manifestBytes
  Program.ensuring
    (do
      let length ← Program.ofExcept (packU32 manifestBytes.length)
      let newPayload ← newBuffer length
      Program.ensuring
        (do
          extendBuffer newPayload manifestBytes
          extendAll newPayload material
          let octets ← readBuffer newPayload
          zeroMutableBuffer payload
          clearBuffer payload
          extendBuffer payload octets)
        (zeroMutableBuffer newPayload))
    (zeroBytesObject manifestObject)
  return 4 + manifestBytes.length

/-- The objects that the armor of the keys is in. -/
def collectArmor : List Material → Program (World γ Time) Exc (List ℕ)
  | [] => return []
  | (_, pub, priv) :: material => do
    let pubObject ← allocate false pub
    let privObjects ← match priv with
      | none => pure []
      | some priv => do pure [← allocate false priv]
    return pubObject :: privObjects ++ (← collectArmor material)

def wipeObjects : List ℕ → Program (World γ Time) Exc Unit
  | [] => return
  | object :: objects => do
    zeroBytesObject object
    wipeObjects objects

/-- The rest of the rebuild, once the armor is collected. -/
def rebuildCollected (payload : ℕ) (items : List (Msg × Msg)) (read : ℕ) (material : List Material) :
    Program (World γ Time) Exc (VaultManifest Time × ℕ) :=
  match (legacyBytesToStr (.map items)).bind (VaultManifest.validate env.pydantic) with
  | none => raise { cls := .validationError, message := [] }
  | some manifest =>
    if material = [] then return (manifest, read)
    else do
      let offset ← replaceWithSegmentedPayload env payload manifest material
      return (manifest, offset)

/-- `_rebuild_legacy_segmented_payload`, in the buffer -/
def rebuildInPlace (payload : ℕ) : Program (World γ Time) Exc (VaultManifest Time × ℕ) :=
  Program.catching
    (do
      let octets ← readBuffer payload
      let (obj, read) ← Program.ofExcept (env.msgpack.unpackRaw maxVaultArmorLength manifestArrayLimit octets)
      match obj with
      | .map items => do
        let (items, material) ← Program.ofExcept (popLegacyKeyMaterial items)
        let objects ← collectArmor material
        Program.ensuring (rebuildCollected env payload items read material) (wipeObjects objects)
      | _ => raise (formatError (lit "legacy manifest is not a msgpack map")))
    fun e => raise (if e.isA [.vaultFormatError] then e
      else formatError (lit "legacy manifest decoding failed: " ++ e.message))

/-- `_deserialise_segmented_payload`, in the buffer -/
def deserialiseInPlace (payload : ℕ) : Program (World γ Time) Exc (VaultManifest Time × KeySlices) := do
  let octets ← readBuffer payload
  let (manifest, offset) ←
    if isLegacy octets then rebuildInPlace env payload
    else Program.ofExcept ((splitPayload env octets).map fun (manifest, offset, _) => (manifest, offset))
  let view ← readBuffer payload
  let (slices, offset) ← Program.ofExcept (readKeySlices view manifest.keys offset [])
  if offset ≠ view.length then raise (formatError (lit "vault key stream has trailing data"))
  else return (manifest, slices)

/-! ### What the steps do to the buffers -/

section Steps

variable {env} {w w' : World γ Time} {buffer payload : ℕ} {octets : Bytes}

/-- One key more, or an exception. -/
theorem meets_extendKeyMaterial (h : w.Holds buffer octets) (fp : Str) (pub : Bytes) (priv : Option Bytes) :
    (extendKeyMaterial buffer fp pub priv).Meets w
      (fun _ w' => ∃ octets', appendKeyMaterial octets fp pub priv = .ok octets' ∧ w'.Holds buffer octets' ∧
        World.SameBut buffer w w') fun _ w' => World.SameBut buffer w w' := by
  unfold extendKeyMaterial appendKeyMaterial
  by_cases hpub : pub = [] ∨ pub.length > maxVaultArmorLength
  · rw [if_pos hpub]
    exact fun _ _ _ h => h
  · rw [if_neg hpub, if_neg hpub]
    by_cases hpriv : (priv.getD []).length > maxVaultArmorLength
    · rw [if_pos hpriv]
      exact fun _ _ _ h => h
    · rw [if_neg hpriv, if_neg hpriv]
      cases fromHex fp with
      | none => exact fun _ _ _ h => h
      | some raw =>
        dsimp only
        have hext {w1 : World γ Time} (octets' data : Bytes) (h1 : w1.Holds buffer octets')
            (hs1 : World.SameBut buffer w w1) : (extendBuffer buffer data).Meets w1
              (fun _ w' => w'.Holds buffer (octets' ++ data) ∧ World.SameBut buffer w w')
              fun _ w' => World.SameBut buffer w w' :=
          (meets_changeBuffer h1 (· ++ data)).mono (fun _ w2 h2 => ⟨h2.1, hs1.trans h2.2⟩) fun _ w2 h2 =>
            hs1.trans (World.sameBut_of_buffers h2)
        rw [meets_bind]
        refine (hext _ raw h fun _ _ _ h => h).mono (fun _ w1 h1 => ?_) fun _ _ h => h
        rw [meets_bind]
        refine (hext _ _ h1.1 h1.2).mono (fun _ w2 h2 => ?_) fun _ _ h => h
        rw [meets_bind]
        refine (hext _ _ h2.1 h2.2).mono (fun _ w3 h3 => ?_) fun _ _ h => h
        rw [meets_bind]
        refine (hext _ _ h3.1 h3.2).mono (fun _ w4 h4 => ?_) fun _ _ h => h
        refine (hext _ _ h4.1 h4.2).mono (fun _ w5 h5 => ⟨_, rfl, ?_, h5.2⟩) fun _ _ h => h
        have hsegment : octets ++ segment raw pub (priv.getD []) =
            octets ++ raw ++ u32 pub.length ++ pub ++ u32 (priv.getD []).length ++ priv.getD [] := by
          simp [segment]
        rw [hsegment]
        exact h5.1

theorem meets_extendAll : ∀ {material : List Material} {w : World γ Time} {octets : Bytes}, w.Holds buffer octets →
    (extendAll buffer material).Meets w
      (fun _ w' => ∃ octets', appendAll octets material = .ok octets' ∧ w'.Holds buffer octets' ∧
        World.SameBut buffer w w') fun _ w' => World.SameBut buffer w w'
  | [], w, octets, h => ⟨octets, rfl, h, fun _ _ _ h => h⟩
  | (fp, pub, priv) :: material, w, octets, h => by
    rw [extendAll, meets_bind]
    refine (meets_extendKeyMaterial h fp pub priv).mono (fun _ w1 h1 => ?_) fun _ _ h => h
    obtain ⟨next, hnext, hw1, hs1⟩ := h1
    refine (meets_extendAll hw1).mono (fun _ w2 h2 => ?_) fun _ w2 h2 => hs1.trans h2
    obtain ⟨octets', ho, hw2, hs2⟩ := h2
    refine ⟨octets', ?_, hw2, hs1.trans hs2⟩
    unfold appendAll at ho ⊢
    rw [List.foldlM_cons]
    dsimp only
    rw [hnext]
    exact ho

/-- The old payload is wiped, and the new one put in its place. -/
theorem meets_overwrite {rebuilt : Bytes} (h : w.Holds payload octets) :
    (do
      zeroMutableBuffer payload
      clearBuffer payload
      extendBuffer payload rebuilt : Program (World γ Time) Exc Unit).Meets w
      (fun _ w' => w'.Holds payload rebuilt) fun _ w' => w'.Spared payload octets := by
  rw [meets_bind]
  refine (meets_modifyBuffer h zeros).mono (fun _ w1 h1 => ?_) fun _ _ h => h.elim
  rw [meets_bind]
  refine (meets_changeBuffer h1.1 fun _ => []).mono (fun _ w2 h2 => ?_) fun _ w2 h2 => ?_
  · refine (meets_changeBuffer h2.1 (· ++ rebuilt)).mono (fun _ w3 h3 => h3.1) fun _ w3 h3 => ?_
    exact ⟨[], h2.1.of_buffers h3, .inr (by simp)⟩
  · exact ⟨zeros octets, h1.1.of_buffers h2, .inr fun o ho => List.eq_of_mem_replicate ho⟩

/-- However it ends, a buffer of its own is wiped. -/
theorem meets_wipeAfter {α : Type} {x : Program (World γ Time) Exc α} {own : ℕ} {Q : α → World γ Time → Prop}
    (hne : payload ≠ own) (last : Program (World γ Time) Exc Unit)
    (hlast : ∀ w, last.Meets w (fun _ w' => World.SameBut own w w') fun _ _ => False)
    (hQ : ∀ a w w', World.SameBut own w w' → Q a w → Q a w')
    (hx : x.Meets w Q fun _ w' => w'.Spared payload octets) :
    (Program.ensuring x last).Meets w Q fun _ w' => w'.Spared payload octets := by
  rw [meets_ensuring]
  refine hx.mono (fun a w1 h1 => ?_) fun e w1 h1 => ?_
  · exact (hlast w1).mono (fun _ w2 h2 => hQ a w1 w2 h2 h1) fun _ _ h => h.elim
  · exact (hlast w1).mono (fun _ w2 h2 => h1.of_sameBut hne h2) fun _ _ h => h.elim

/-- The payload is replaced by a complete one, or spared. -/
theorem meets_replaceWithSegmentedPayload (h : w.Holds payload octets) (manifest : VaultManifest Time)
    (material : List Material) :
    (replaceWithSegmentedPayload env payload manifest material).Meets w
      (fun offset w' => ∃ data length rebuilt, serialiseManifest env manifest = .ok data ∧
        packU32 data.length = .ok length ∧ appendAll (length ++ data) material = .ok rebuilt ∧
        offset = 4 + data.length ∧ w'.Holds payload rebuilt)
      fun _ w' => w'.Spared payload octets := by
  rw [replaceWithSegmentedPayload, meets_bind]
  cases hdata : serialiseManifest env manifest with
  | error e => exact h.spared
  | ok data =>
    rw [meets_ofExcept_ok, meets_bind]
    refine (meets_allocate false).mono (fun object w1 h1 => ?_) fun _ _ h => h.elim
    obtain ⟨hobject, hw1⟩ := h1.2 payload octets h
    rw [meets_bind]
    have hbody : (do
        let length ← Program.ofExcept (packU32 data.length)
        let newPayload ← newBuffer length
        Program.ensuring
          (do
            extendBuffer newPayload data
            extendAll newPayload material
            let octets ← readBuffer newPayload
            zeroMutableBuffer payload
            clearBuffer payload
            extendBuffer payload octets)
          (zeroMutableBuffer newPayload) : Program (World γ Time) Exc Unit).Meets w1
        (fun _ w' => ∃ length rebuilt, packU32 data.length = .ok length ∧
          appendAll (length ++ data) material = .ok rebuilt ∧ w'.Holds payload rebuilt)
        fun _ w' => w'.Spared payload octets := by
      rw [meets_bind]
      cases hlength : packU32 data.length with
      | error e => exact hw1.spared
      | ok length =>
        rw [meets_ofExcept_ok, meets_bind]
        refine meets_newBuffer.mono (fun newPayload w2 h2 => ?_) fun _ w2 h2 => hw1.spared.of_buffers h2
        obtain ⟨hne, hw2⟩ := h2.2 payload octets hw1
        apply meets_wipeAfter hne _ fun w => meets_modifyOther zeros
        · rintro _ w w' hs ⟨length, rebuilt, hl, hr, hw⟩
          exact ⟨length, rebuilt, hl, hr, hs payload rebuilt hne hw⟩
        · rw [meets_bind]
          refine (meets_changeBuffer h2.1 (· ++ data)).mono (fun _ w3 h3 => ?_) fun _ w3 h3 =>
            hw2.spared.of_buffers h3
          have hw3 := h3.2 payload octets hne hw2
          rw [meets_bind]
          refine (meets_extendAll h3.1).mono (fun _ w4 h4 => ?_) fun _ w4 h4 => (h4 payload octets hne hw3).spared
          obtain ⟨rebuilt, hrebuilt, hnew, hs4⟩ := h4
          rw [meets_bind]
          refine (meets_readBuffer hnew).mono (fun data' w5 h5 => ?_) fun _ _ h => h.elim
          obtain ⟨rfl, rfl⟩ := h5
          exact (meets_overwrite (hs4 payload octets hne hw3)).mono
            (fun _ w6 h6 => ⟨length, data', rfl, hrebuilt, h6⟩) fun _ _ h => h
    refine (meets_wipeAfter hobject _ (fun w => meets_modifyOther _) ?_ hbody).mono (fun _ w' h' => ?_) fun _ _ h => h
    · rintro _ w w' hs ⟨length, rebuilt, hl, hr, hw⟩
      exact ⟨length, rebuilt, hl, hr, hs payload rebuilt hobject hw⟩
    · obtain ⟨length, rebuilt, hl, hr, hw⟩ := h'
      exact ⟨data, length, rebuilt, rfl, hl, hr, rfl, hw⟩

/-- New objects leave the payload alone and are not it. -/
theorem meets_collectArmor : ∀ {material : List Material} {w : World γ Time}, w.Holds payload octets →
    (collectArmor material).Meets w (fun objects w' => (∀ o ∈ objects, payload ≠ o) ∧ w'.Holds payload octets)
      fun _ _ => False
  | [], w, h => ⟨by simp, h⟩
  | (fp, pub, priv) :: material, w, h => by
    rw [collectArmor, meets_bind]
    refine (meets_allocate false).mono (fun pubObject w1 h1 => ?_) fun _ _ h => h
    obtain ⟨hpub, hw1⟩ := h1.2 payload octets h
    cases priv with
    | none =>
      dsimp only
      rw [meets_bind, meets_pure, meets_bind]
      refine (meets_collectArmor hw1).mono (fun objects w2 h2 => ⟨?_, h2.2⟩) fun _ _ h => h
      simpa [hpub] using h2.1
    | some priv =>
      dsimp only
      rw [meets_bind]
      refine (meets_allocate false).mono (fun privObject w2 h2 => ?_) fun _ _ h => h
      obtain ⟨hpriv, hw2⟩ := h2.2 payload octets hw1
      rw [meets_bind, meets_pure, meets_bind]
      refine (meets_collectArmor hw2).mono (fun objects w3 h3 => ⟨?_, h3.2⟩) fun _ _ h => h
      simpa [hpub, hpriv] using h3.1

theorem meets_wipeObjects : ∀ {objects : List ℕ} {w : World γ Time}, (∀ o ∈ objects, payload ≠ o) →
    (wipeObjects objects).Meets w (fun _ w' => ∀ octets, w.Holds payload octets → w'.Holds payload octets)
      fun _ _ => False
  | [], w, _ => fun _ h => h
  | object :: objects, w, h => by
    rw [List.forall_mem_cons] at h
    rw [wipeObjects, meets_bind]
    refine (meets_modifyOther _).mono (fun _ w1 h1 => ?_) fun _ _ h => h
    exact (meets_wipeObjects h.2).mono (fun _ w2 h2 octets ho => h2 octets (h1 payload octets h.1 ho)) fun _ _ h => h

theorem meets_rebuildCollected (h : w.Holds payload octets) (items : List (Msg × Msg)) (read : ℕ)
    (material : List Material) :
    (rebuildCollected env payload items read material).Meets w
      (fun r w' => ∃ rebuilt, (match (legacyBytesToStr (.map items)).bind (VaultManifest.validate env.pydantic) with
        | none => Except.error ({ cls := .validationError, message := [] } : Exc)
        | some manifest =>
          if material = [] then .ok (manifest, read, octets)
          else do
            let manifestBytes ← serialiseManifest env manifest
            let length ← packU32 manifestBytes.length
            let rebuilt ← appendAll (length ++ manifestBytes) material
            .ok (manifest, 4 + manifestBytes.length, rebuilt)) = .ok (r.1, r.2, rebuilt) ∧ w'.Holds payload rebuilt)
      fun _ w' => w'.Spared payload octets := by
  unfold rebuildCollected
  cases (legacyBytesToStr (.map items)).bind (VaultManifest.validate env.pydantic) with
  | none => exact h.spared
  | some manifest =>
    dsimp only
    by_cases hm : material = []
    · rw [if_pos hm, if_pos hm]
      exact ⟨octets, rfl, h⟩
    · rw [if_neg hm, if_neg hm, meets_bind]
      refine (meets_replaceWithSegmentedPayload h manifest material).mono (fun offset w1 h1 => ?_) fun _ _ h => h
      obtain ⟨data, length, rebuilt, hdata, hlength, hrebuilt, rfl, hw1⟩ := h1
      refine ⟨rebuilt, ?_, hw1⟩
      rw [hdata]
      dsimp only [bind, Except.bind]
      rw [hlength]
      dsimp only
      rw [hrebuilt]

/-- The payload is rewritten as `rebuildLegacy` says, or spared. -/
theorem meets_rebuildInPlace (h : w.Holds payload octets) :
    (rebuildInPlace env payload).Meets w
      (fun r w' => ∃ rebuilt, rebuildLegacy env octets = .ok (r.1, r.2, rebuilt) ∧ w'.Holds payload rebuilt)
      fun _ w' => w'.Spared payload octets := by
  rw [rebuildInPlace, meets_catching]
  simp only [meets_raise]
  rw [meets_bind]
  refine (meets_readBuffer h).mono (fun octets' w1 h1 => ?_) fun _ _ h => h.elim
  obtain ⟨rfl, rfl⟩ := h1
  unfold rebuildLegacy
  rw [meets_bind]
  cases hread : env.msgpack.unpackRaw maxVaultArmorLength manifestArrayLimit octets' with
  | error e => exact h.spared
  | ok r =>
    obtain ⟨obj, read⟩ := r
    rw [meets_ofExcept_ok]
    dsimp only
    cases obj with
    | map items =>
      dsimp only
      rw [meets_bind]
      cases hpop : popLegacyKeyMaterial items with
      | error e => exact h.spared
      | ok p =>
        obtain ⟨items', material⟩ := p
        rw [meets_ofExcept_ok]
        dsimp only
        rw [meets_bind]
        refine (meets_collectArmor h).mono (fun objects w2 h2 => ?_) fun _ _ h => h.elim
        rw [meets_ensuring]
        refine (meets_rebuildCollected h2.2 items' read material).mono (fun r w3 h3 => ?_) fun _ w3 h3 => ?_
        · obtain ⟨rebuilt, hr, hw3⟩ := h3
          refine (meets_wipeObjects h2.1).mono (fun _ w4 h4 => ⟨rebuilt, ?_, h4 rebuilt hw3⟩) fun _ _ h => h.elim
          dsimp only [bind, Except.bind] at hr ⊢
          rw [hpop]
          exact hr
        · obtain ⟨octets3, hw3, ho⟩ := h3
          exact (meets_wipeObjects h2.1).mono (fun _ w4 h4 => ⟨octets3, h4 octets3 hw3, ho⟩) fun _ _ h => h.elim
    | _ => exact h.spared

theorem payload_of_splitPayload {manifest : VaultManifest Time} {offset : ℕ} {rebuilt : Bytes}
    (hlegacy : isLegacy octets = false) (h : splitPayload env octets = .ok (manifest, offset, rebuilt)) :
    rebuilt = octets := by
  cases octets with
  | nil => cases h
  | cons b rest =>
    have hfirst : ¬ (0x80 ≤ b ∧ b ≤ 0x8F) := by
      intro hb
      simp [isLegacy, hb.1, hb.2] at hlegacy
    unfold splitPayload at h
    dsimp only at h
    rw [if_neg hfirst] at h
    cases hu : readU32 (b :: rest) 0 with
    | error e => simp [hu, bind, Except.bind] at h
    | ok r =>
      rw [hu] at h
      dsimp only [bind, Except.bind] at h
      split_ifs at h
      split at h
      · cases h
      · cases h
        rfl

/-- The run that returns has done what `deserialiseSegmentedPayload` does. -/
theorem meets_deserialiseInPlace (h : w.Holds payload octets) :
    (deserialiseInPlace env payload).Meets w
      (fun r w' => ∃ rebuilt, deserialiseSegmentedPayload env octets = .ok (r.1, r.2, rebuilt) ∧
        w'.Holds payload rebuilt) fun _ _ => True := by
  have hwalk {w1 : World γ Time} {manifest : VaultManifest Time} {offset : ℕ} {rebuilt : Bytes}
      (h1 : w1.Holds payload rebuilt) (hsplit : splitPayload env octets = .ok (manifest, offset, rebuilt)) :
      (do
        let view ← readBuffer payload
        let (slices, offset) ← Program.ofExcept (readKeySlices view manifest.keys offset [])
        if offset ≠ view.length then raise (formatError (lit "vault key stream has trailing data"))
        else return (manifest, slices) : Program (World γ Time) Exc (VaultManifest Time × KeySlices)).Meets w1
        (fun r w' => ∃ rebuilt, deserialiseSegmentedPayload env octets = .ok (r.1, r.2, rebuilt) ∧
          w'.Holds payload rebuilt) fun _ _ => True := by
    rw [meets_bind]
    refine (meets_readBuffer h1).mono (fun view w2 h2 => ?_) fun _ _ _ => trivial
    obtain ⟨rfl, rfl⟩ := h2
    rw [meets_bind]
    unfold deserialiseSegmentedPayload
    rw [hsplit]
    dsimp only [bind, Except.bind]
    cases readKeySlices view manifest.keys offset [] with
    | error e => trivial
    | ok r =>
      obtain ⟨slices, stop⟩ := r
      rw [meets_ofExcept_ok]
      dsimp only
      by_cases hend : stop ≠ view.length
      · rw [if_pos hend]
        trivial
      · rw [if_neg hend, if_neg hend]
        exact ⟨view, rfl, h1⟩
  rw [deserialiseInPlace, meets_bind]
  refine (meets_readBuffer h).mono (fun octets' w1 h1 => ?_) fun _ _ h => trivial
  obtain ⟨rfl, rfl⟩ := h1
  dsimp only
  cases hlegacy : isLegacy octets' with
  | true =>
    rw [if_pos rfl, meets_bind]
    refine (meets_rebuildInPlace h).mono (fun r w2 h2 => ?_) fun _ _ _ => trivial
    obtain ⟨rebuilt, hr, hw2⟩ := h2
    refine hwalk hw2 ?_
    rw [splitPayload_of_legacy hlegacy, rebuildLegacySegmentedPayload, hr]
    rfl
  | false =>
    rw [if_neg Bool.false_ne_true, meets_bind]
    cases hs : splitPayload env octets' with
    | error e => trivial
    | ok r =>
      obtain ⟨manifest, offset, rebuilt⟩ := r
      obtain rfl := payload_of_splitPayload hlegacy hs
      exact hwalk h hs

end Steps

/-- **A legacy payload is migrated in its buffer**: what is accepted is the
manifest without the armor and, under each fingerprint, the armor of the last
entry with it; if the rewriting fails, the buffer holds what it held or zeros. -/
theorem legacy_migrated {env : Platform γ Time} {w : World γ Time} {payload : ℕ} {octets : Bytes}
    (hraw : env.msgpack.ReadsRaw) (hlegacy : isLegacy octets = true) (h : w.Holds payload octets) :
    (∀ items read manifest slices w',
      env.msgpack.unpackRaw maxVaultArmorLength manifestArrayLimit octets = .ok (.map items, read) →
      (∀ entry ∈ entriesOf items, CarriesArmor entry) →
      (deserialiseInPlace env payload).run w = .ok (manifest, slices) w' →
      ∃ rebuilt, w'.Holds payload rebuilt ∧ Migrated env.pydantic items manifest slices rebuilt) ∧
    ∀ e w', (rebuildInPlace env payload).run w = .error e w' → w'.Spared payload octets := by
  constructor
  · intro items read manifest slices w' hread hcarry hrun
    obtain ⟨rebuilt, hr, hw'⟩ := (meets_deserialiseInPlace h).of_run_eq_ok hrun
    exact ⟨rebuilt, hw', deserialise_legacy hraw hlegacy hread hcarry hr⟩
  · intro e w' hrun
    exact (meets_rebuildInPlace h).of_run_eq_error hrun

/-! ### A legacy vault with two keys, and one with the same key twice -/

/-- A key of a legacy manifest, and the entry that is left of it. -/
structure LegacyKey where
  fingerprint : String
  publicKey : String
  privateKey : Option String
  entry : VaultKeyEntry Unit

def legacyEntry (key : LegacyKey) : Msg :=
  .map ([(.bin (ascii "fingerprint"), .bin (ascii key.fingerprint)), (.bin (ascii "user_ids"), .arr []),
      (.bin (ascii "has_private_key"), .bool key.privateKey.isSome),
      (.bin (ascii "created_at"), .bin (ascii "2026-01-01T00:00:00Z")),
      (.bin (ascii "public_key_armored"), .bin (ascii key.publicKey))] ++
    key.privateKey.toList.map fun privateKey => (.bin (ascii "private_key_armored"), .bin (ascii privateKey)))

def legacyItemsOf (keys : List LegacyKey) : List (Msg × Msg) :=
  [(.bin (ascii "created_at"), .bin (ascii "2026-01-01T00:00:00Z")), (.bin (ascii "app_version"), .bin (ascii "1.0.4")),
    (.bin (ascii "keys"), .arr (keys.map legacyEntry))]

def legacyEntryBytes (key : LegacyKey) : Bytes :=
  [.ofNat (0x85 + key.privateKey.toList.length)] ++ packText "fingerprint" ++ [0xD9, 0x28] ++ ascii key.fingerprint ++
    packText "user_ids" ++ [0x90] ++ packText "has_private_key" ++ [if key.privateKey.isSome then 0xC3 else 0xC2] ++
    packText "created_at" ++ packText "2026-01-01T00:00:00Z" ++ packText "public_key_armored" ++
    packText key.publicKey ++ key.privateKey.toList.flatMap fun privateKey =>
      packText "private_key_armored" ++ packText privateKey

def legacyBytes (keys : List LegacyKey) : Bytes :=
  [0x83] ++ packText "created_at" ++ packText "2026-01-01T00:00:00Z" ++ packText "app_version" ++ packText "1.0.4" ++
    packText "keys" ++ [.ofNat (0x90 + keys.length)] ++ keys.flatMap legacyEntryBytes

/-- The manifest with the entries that are left. -/
def migratedDump (keys : List LegacyKey) : Msg :=
  .map [(.str (lit "created_by"), .str []), (.str (lit "created_at"), .str (lit "2026-01-01T00:00:00Z")),
    (.str (lit "app_version"), .str (lit "1.0.4")), (.str (lit "description"), .str []),
    (.str (lit "keys"), .arr (keys.map fun key => key.entry.dump samplePydantic))]

/-- The platform whose codec knows one legacy manifest and what is left of it. -/
def legacyPlatform (keys : List LegacyKey) : Platform Unit Unit :=
  { samplePlatform noGnuPG with
    msgpack :=
      { packb := fun v =>
          if v = migratedDump keys then
            .ok (packManifest (packText "1.0.4") ([.ofNat (0x90 + keys.length)] ++
              keys.flatMap fun key => packEntry key.entry))
          else .error valueError
        unpackb := fun _ _ _ => .error valueError
        unpackRaw := fun _ _ data =>
          if data = legacyBytes keys then .ok (.map (legacyItemsOf keys), data.length)
          else .error valueError } }

theorem readsRaw_legacyPlatform {keys : List LegacyKey} (h : Msg.noTextItems (legacyItemsOf keys) = true) :
    (legacyPlatform keys).msgpack.ReadsRaw := by
  intro maxLen maxItems data v n hv
  change (if data = legacyBytes keys then Except.ok (Msg.map (legacyItemsOf keys), data.length)
    else .error valueError) = .ok (v, n) at hv
  split_ifs at hv
  obtain ⟨rfl, -⟩ := Prod.mk.inj (Except.ok.inj hv)
  exact h

/-- The payload of the vault in the first buffer. -/
def legacyWorld (keys : List LegacyKey) : World Unit Unit :=
  { sampleWorld () (fun _ => none) with buffers := [{ isMutable := true, octets := legacyBytes keys }] }

theorem unpackRaw_legacyPlatform (keys : List LegacyKey) :
    (legacyPlatform keys).msgpack.unpackRaw maxVaultArmorLength manifestArrayLimit (legacyBytes keys) =
      .ok (.map (legacyItemsOf keys), (legacyBytes keys).length) := if_pos rfl

theorem carriesArmor_legacyEntry {keys : List LegacyKey} : ∀ entry ∈ entriesOf (legacyItemsOf keys),
    CarriesArmor entry := by
  intro entry he
  rw [entriesOf_eq rfl] at he
  obtain ⟨key, -, rfl⟩ := List.mem_map.mp he
  rfl

/-- Two keys, one of them with its private part. -/
def pairKeys : List LegacyKey :=
  [{ fingerprint := "0123456789abcdef0123456789abcdef01234567"
     publicKey := "public"
     privateKey := some "private"
     entry := sampleEntry },
    { fingerprint := "fedcba9876543210fedcba9876543210fedcba98"
      publicKey := "other"
      privateKey := none
      entry := otherEntry }]

theorem legacy_migrated_pair : ∃ manifest slices w' rebuilt,
    (deserialiseInPlace (legacyPlatform pairKeys) 0).run (legacyWorld pairKeys) = .ok (manifest, slices) w' ∧
      w'.Holds 0 rebuilt ∧ Migrated samplePydantic (legacyItemsOf pairKeys) manifest slices rebuilt := by
  have hrun : returns (fun _ _ => true) (deserialiseInPlace (legacyPlatform pairKeys) 0) (legacyWorld pairKeys) =
      true := by
    decide +kernel
  obtain ⟨⟨manifest, slices⟩, w', hr, -⟩ := returns_eq_true.mp hrun
  obtain ⟨rebuilt, hw', hm⟩ := (legacy_migrated (readsRaw_legacyPlatform (by decide)) (by decide)
    (show (legacyWorld pairKeys).Holds 0 (legacyBytes pairKeys) from rfl)).1 _ _ manifest slices w'
    (unpackRaw_legacyPlatform pairKeys) carriesArmor_legacyEntry hr
  exact ⟨manifest, slices, w', rebuilt, hr, hw', hm⟩

/-- The same key with either armor. -/
def sameKeys : List LegacyKey :=
  ["first", "second"].map fun publicKey =>
    { fingerprint := "0123456789abcdef0123456789abcdef01234567"
      publicKey
      privateKey := none
      entry := { sampleEntry with hasPrivateKey := false, ok := sampleEntry.ok } }

theorem publicKey_of_holdsArmor {key : LegacyKey} {item : CollectedEntry Unit}
    (h : HoldsArmor (legacyEntry key) item) : item.publicKey = ascii key.publicKey := by
  have harmor : armorOf (legacyEntry key) = some (ascii key.publicKey, key.privateKey.map ascii) := by
    obtain ⟨fingerprint, publicKey, privateKey, entry⟩ := key
    cases privateKey <;> rfl
  exact (Prod.mk.inj (Option.some.inj (h.symm.trans harmor))).1

/-- Of two entries of one key, the armor of the first is not found any more. -/
theorem not_legacy_migrated : ¬ ∀ (γ Time : Type) (env : Platform γ Time) (w : World γ Time) payload octets,
    env.msgpack.ReadsRaw → isLegacy octets = true → w.Holds payload octets →
    ∀ items read manifest slices w',
      env.msgpack.unpackRaw maxVaultArmorLength manifestArrayLimit octets = .ok (.map items, read) →
      (∀ entry ∈ entriesOf items, CarriesArmor entry) →
      (deserialiseInPlace env payload).run w = .ok (manifest, slices) w' →
      ∃ rebuilt, ∃ collected : List (CollectedEntry Time), w'.Holds payload rebuilt ∧
        collected.map (·.entry) = manifest.keys ∧ List.Forall₂ HoldsArmor (entriesOf items) collected ∧
        ∀ item ∈ collected, ∃ s, slices.lookup item.entry.fingerprint = some s ∧ Selects rebuilt item s := by
  intro h
  have hrun : returns (fun r _ => r.1.keys.map (·.fingerprint) =
      List.replicate 2 (lit "0123456789ABCDEF0123456789ABCDEF01234567"))
      (deserialiseInPlace (legacyPlatform sameKeys) 0) (legacyWorld sameKeys) = true := by
    decide +kernel
  obtain ⟨⟨manifest, slices⟩, w', hr, hkeys⟩ := returns_eq_true.mp hrun
  obtain ⟨rebuilt, collected, -, hentries, hall, hslices⟩ := h _ _ _ _ 0 _ (readsRaw_legacyPlatform (by decide))
    (by decide) (show (legacyWorld sameKeys).Holds 0 (legacyBytes sameKeys) from rfl) _ _
    manifest slices w' (unpackRaw_legacyPlatform sameKeys) carriesArmor_legacyEntry hr
  rw [decide_eq_true_eq, ← hentries, List.map_map] at hkeys
  cases hall with
  | @cons _ a _ _ ha hall =>
    cases hall with
    | @cons _ b _ _ hb hall =>
      obtain ⟨s, hs, hsel⟩ := hslices a (by simp)
      obtain ⟨t, ht, hsel'⟩ := hslices b (by simp)
      obtain ⟨hfa, hkeys⟩ := List.cons.inj hkeys
      obtain ⟨hfb, -⟩ := List.cons.inj hkeys
      dsimp only [Function.comp] at hfa hfb
      rw [hfa] at hs
      rw [hfb] at ht
      obtain rfl := Option.some.inj (hs.symm.trans ht)
      have hsame := hsel.publicKey.symm.trans hsel'.publicKey
      rw [publicKey_of_holdsArmor ha, publicKey_of_holdsArmor hb] at hsame
      exact absurd hsame (by decide)

end VaultPayload
end GpgMeister
