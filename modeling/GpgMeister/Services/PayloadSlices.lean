/-
# The slices of a key stream

What `_deserialise_segmented_payload` makes of any octets: it refuses them, or
finds a slice for every key of the manifest.

* `safe_iff`: it raises nothing but a `VaultFormatError`, and its slices are one
  after the other from the manifest to the end of the payload, if and only if
  `msgpack` reads the manifest segment and no accepted manifest names a
  fingerprint twice.
-/
import GpgMeister.Security.VaultFormatErrors
import GpgMeister.Services.VaultPayload

namespace GpgMeister
namespace VaultPayload

open Program VaultFormat

variable {γ Time : Type} {env : Platform γ Time}

/-! ### The slices of a stream -/

/-- Entries with their slices, one after the other from here to the end: an
octet of a slice is in the view and in no other one, and between the slices
there are only fingerprints and lengths. -/
def Covers (view : Bytes) : ℕ → List (VaultKeyEntry Time × KeySlice) → Prop
  | offset, [] => offset = view.length
  | offset, (entry, s) :: rest =>
    s.publicStart = offset + fingerprintBytes + lengthField ∧ s.publicStart < s.publicEnd ∧
      s.privateStart = s.publicEnd + lengthField ∧ s.privateStart ≤ s.privateEnd ∧
      (entry.hasPrivateKey = true → s.privateStart < s.privateEnd) ∧ s.privateEnd ≤ view.length ∧
      Covers view s.privateEnd rest

/-- Every entry has a slice, and these slices cover the stream in the order of
the entries. -/
def Sliced (view : Bytes) (offset : ℕ) (entries : List (VaultKeyEntry Time)) (slices : KeySlices) : Prop :=
  ∃ parts : List (VaultKeyEntry Time × KeySlice), parts.map Prod.fst = entries ∧ Covers view offset parts ∧
    ∀ p ∈ parts, slices.lookup p.1.fingerprint = some p.2

/-- The octets of some keys in a stream. -/
inductive KeyStream : List (VaultKeyEntry Time) → Bytes → Prop
  | nil : KeyStream [] []
  | cons {entry : VaultKeyEntry Time} {entries : List (VaultKeyEntry Time)} {raw pub priv rest : Bytes}
      (length_raw : raw.length = fingerprintBytes) (fingerprint : hexUpper raw = entry.fingerprint)
      (pub_ne : pub ≠ []) (length_pub : pub.length ≤ maxVaultArmorLength)
      (length_priv : priv.length ≤ maxVaultArmorLength) (priv_ne : entry.hasPrivateKey = true → priv ≠ [])
      (tail : KeyStream entries rest) : KeyStream (entry :: entries) (segment raw pub priv ++ rest)

/-! ### One key -/

theorem length_slice {view : Bytes} {start stop : ℕ} (h : stop ≤ view.length) :
    (slice view start stop).length = stop - start := by
  rw [slice, List.length_take, List.length_drop]
  omega

/-- A part of a view, and what comes after it. -/
theorem drop_eq_slice_append (view : Bytes) {start stop : ℕ} (h : start ≤ stop) :
    view.drop start = slice view start stop ++ view.drop stop :=
  drop_eq_append view (by omega)

theorem readU32_eq_ok {view : Bytes} {offset n next : ℕ} (h : readU32 view offset = .ok (n, next)) :
    next = offset + 4 ∧ next ≤ view.length ∧ slice view offset next = u32 n := by
  unfold readU32 at h
  split_ifs at h with hlen
  obtain ⟨rfl, rfl⟩ := Prod.mk.inj (Except.ok.inj h)
  have hl := @length_slice view offset (offset + 4) (by omega)
  exact ⟨rfl, by omega, (u32_ofU32 (by omega)).symm⟩

theorem onlyRaises_readU32 (view : Bytes) (offset : ℕ) : OnlyRaises IsFormatError (readU32 view offset) := by
  unfold readU32
  split_ifs
  · exact onlyRaises_formatError _
  · exact .ok _

/-- A key that is accepted is a segment of the stream. -/
theorem readKeySlice_eq_ok {view : Bytes} {offset stop : ℕ} {entry : VaultKeyEntry Time} {s : KeySlice}
    (h : readKeySlice view offset entry = .ok (s, stop)) :
    ∃ raw pub priv, view.drop offset = segment raw pub priv ++ view.drop stop ∧ raw.length = fingerprintBytes ∧
      hexUpper raw = entry.fingerprint ∧ pub ≠ [] ∧ pub.length ≤ maxVaultArmorLength ∧
      priv.length ≤ maxVaultArmorLength ∧ (entry.hasPrivateKey = true → priv ≠ []) ∧
      s = { publicStart := offset + 24, publicEnd := offset + 24 + pub.length,
            privateStart := offset + 28 + pub.length, privateEnd := stop } ∧
      stop = offset + 28 + pub.length + priv.length ∧ stop ≤ view.length := by
  have h20 : fingerprintBytes = 20 := rfl
  unfold readKeySlice at h
  split_ifs at h with h1
  cases hpub : readU32 view (offset + fingerprintBytes) with
  | error e =>
    rw [hpub] at h
    cases h
  | ok r =>
    obtain ⟨publicLen, publicStart⟩ := r
    rw [hpub] at h
    dsimp only [bind, Except.bind] at h
    by_cases h2 : publicLen < 1 ∨ publicLen > maxVaultArmorLength
    · rw [if_pos h2] at h
      cases h
    by_cases h3 : publicStart + publicLen > view.length
    · rw [if_neg h2, if_pos h3] at h
      cases h
    rw [if_neg h2, if_neg h3] at h
    cases hpriv : readU32 view (publicStart + publicLen) with
    | error e =>
      rw [hpriv] at h
      cases h
    | ok r =>
      obtain ⟨privateLen, privateStart⟩ := r
      rw [hpriv] at h
      dsimp only at h
      split_ifs at h with h4 h5 h6 h7
      obtain ⟨rfl, rfl⟩ := Prod.mk.inj (Except.ok.inj h)
      obtain ⟨hps, -, hpubBytes⟩ := readU32_eq_ok hpub
      obtain ⟨hqs, -, hprivBytes⟩ := readU32_eq_ok hpriv
      subst hps hqs
      have hpublen := @length_slice view (offset + fingerprintBytes + 4) (offset + fingerprintBytes + 4 + publicLen)
        (by omega)
      have hprivlen := @length_slice view (offset + fingerprintBytes + 4 + publicLen + 4)
        (offset + fingerprintBytes + 4 + publicLen + 4 + privateLen) (by omega)
      have hrawlen := @length_slice view offset (offset + fingerprintBytes) (by omega)
      rw [Nat.add_sub_cancel_left] at hpublen hprivlen hrawlen
      refine ⟨slice view offset (offset + fingerprintBytes),
        slice view (offset + fingerprintBytes + 4) (offset + fingerprintBytes + 4 + publicLen),
        slice view (offset + fingerprintBytes + 4 + publicLen + 4)
          (offset + fingerprintBytes + 4 + publicLen + 4 + privateLen), ?_, hrawlen, not_not.mp h6, ?_, by omega,
        by omega, fun hp => ?_, ?_, by omega, by omega⟩
      · rw [segment, hpublen, hprivlen, ← hpubBytes, ← hprivBytes]
        simp only [List.append_assoc]
        rw [← drop_eq_slice_append view (by omega), ← drop_eq_slice_append view (by omega),
          ← drop_eq_slice_append view (by omega), ← drop_eq_slice_append view (by omega),
          ← drop_eq_slice_append view (by omega)]
      · intro hnil
        rw [hnil, List.length_nil] at hpublen
        omega
      · intro hnil
        rw [hnil, List.length_nil] at hprivlen
        exact h7 ⟨hp, by omega⟩
      · rw [hpublen, KeySlice.mk.injEq]
        exact ⟨by omega, by omega, by omega, rfl⟩

/-- A choice between a format error and what comes next. -/
theorem onlyRaises_ite {α : Type} {c : Prop} [Decidable c] {message : Str} {r : Except Exc α}
    (h : OnlyRaises IsFormatError r) : OnlyRaises IsFormatError (if c then .error (formatError message) else r) := by
  split_ifs
  · exact onlyRaises_formatError _
  · exact h

theorem onlyRaises_readKeySlice (view : Bytes) (offset : ℕ) (entry : VaultKeyEntry Time) :
    OnlyRaises IsFormatError (readKeySlice view offset entry) := by
  refine onlyRaises_ite ((onlyRaises_readU32 _ _).bind fun r => ?_)
  refine onlyRaises_ite (onlyRaises_ite ((onlyRaises_readU32 _ _).bind fun r' => ?_))
  exact onlyRaises_ite (onlyRaises_ite (onlyRaises_ite (onlyRaises_ite (.ok _))))

/-! ### All keys -/

/-- The walk over a stream that it takes to the end. -/
theorem readKeySlices_eq_ok {view : Bytes} : ∀ {entries : List (VaultKeyEntry Time)} {offset : ℕ}
    {slices slices' : KeySlices}, readKeySlices view entries offset slices = .ok (slices', view.length) →
      KeyStream entries (view.drop offset) ∧
        ∃ parts : List (VaultKeyEntry Time × KeySlice), parts.map Prod.fst = entries ∧ Covers view offset parts ∧
          slices' = (parts.map fun p => (p.1.fingerprint, p.2)).reverse ++ slices
  | [], offset, slices, slices', h => by
    obtain ⟨rfl, rfl⟩ := Prod.mk.inj (Except.ok.inj h)
    rw [List.drop_length]
    exact ⟨.nil, [], rfl, rfl, rfl⟩
  | entry :: entries, offset, slices, slices', h => by
    rw [readKeySlices] at h
    cases hs : readKeySlice view offset entry with
    | error e =>
      rw [hs] at h
      cases h
    | ok r =>
      obtain ⟨s, stop⟩ := r
      rw [hs] at h
      obtain ⟨hstream, parts, hparts, hcovers, hslices⟩ := readKeySlices_eq_ok h
      obtain ⟨raw, pub, priv, hdrop, hraw, hfp, hpub, hpublen, hprivlen, hpriv, hfields, hstop, hle⟩ :=
        readKeySlice_eq_ok hs
      have h20 : fingerprintBytes = 20 := rfl
      have h4 : lengthField = 4 := rfl
      have hpubpos := List.length_pos_of_ne_nil hpub
      refine ⟨?_, (entry, s) :: parts, by rw [List.map_cons, hparts], ?_, ?_⟩
      · rw [hdrop]
        exact .cons hraw hfp hpub hpublen hprivlen hpriv hstream
      · obtain rfl := hfields
        rw [Covers]
        dsimp only
        refine ⟨by omega, by omega, by omega, by omega, fun hp => ?_, hle, hcovers⟩
        have hprivpos := List.length_pos_of_ne_nil (hpriv hp)
        omega
      · rw [hslices, List.map_cons, List.reverse_cons, List.append_assoc]
        rfl

/-- A stream of these keys is walked to its end. -/
theorem readKeySlices_of_keyStream {entries : List (VaultKeyEntry Time)} {stream : Bytes}
    (h : KeyStream entries stream) : ∀ (pre : Bytes) (slices : KeySlices),
      ∃ slices', readKeySlices (pre ++ stream) entries pre.length slices = .ok (slices', (pre ++ stream).length) := by
  induction h with
  | nil =>
    intro pre slices
    rw [List.append_nil]
    exact ⟨slices, rfl⟩
  | @cons entry entries raw pub priv rest hraw hfp hpub hpublen hprivlen hpriv _ ih =>
    intro pre slices
    obtain ⟨s, -, -, hread⟩ := readKeySlice_segment pre rest entry hraw hpub hpublen hprivlen
    rw [if_neg (not_not.mpr hfp), if_neg fun hp => ?_] at hread
    · obtain ⟨slices', hrest⟩ := ih (pre ++ segment raw pub priv) ((entry.fingerprint, s) :: slices)
      refine ⟨slices', ?_⟩
      rw [← List.append_assoc, readKeySlices, hread]
      exact hrest
    · have hprivpos := List.length_pos_of_ne_nil (hpriv hp.1)
      omega

theorem readKeySlices_of_drop {entries : List (VaultKeyEntry Time)} {view : Bytes} {offset : ℕ}
    (h : KeyStream entries (view.drop offset)) (hne : entries ≠ []) :
    ∃ slices, readKeySlices view entries offset [] = .ok (slices, view.length) := by
  have hoffset : offset ≤ view.length := by
    by_contra hlt
    rw [List.drop_of_length_le (by omega)] at h
    generalize hs : ([] : Bytes) = stream at h
    cases h with
    | nil => exact hne rfl
    | cons => simp [segment, u32] at hs
  have hwalk := readKeySlices_of_keyStream h (view.take offset) []
  rwa [List.take_append_drop, List.length_take, Nat.min_eq_left hoffset] at hwalk

theorem onlyRaises_readKeySlices (view : Bytes) : ∀ (entries : List (VaultKeyEntry Time)) (offset : ℕ)
    (slices : KeySlices), OnlyRaises IsFormatError (readKeySlices view entries offset slices)
  | [], _, _ => .ok _
  | entry :: entries, _, _ => (onlyRaises_readKeySlice view _ entry).bind fun _ => onlyRaises_readKeySlices view entries _ _

/-! ### Slices by fingerprint -/

/-- Later slices are further on. -/
theorem Covers.pairwise {view : Bytes} : ∀ {parts : List (VaultKeyEntry Time × KeySlice)} {offset : ℕ},
    Covers view offset parts →
      (∀ p ∈ parts, offset < p.2.publicStart) ∧ parts.Pairwise fun p q => p.2.publicStart < q.2.publicStart
  | [], _, _ => by simp
  | (entry, s) :: rest, offset, h => by
    obtain ⟨hstart, hpub, hpriv, hle, -, -, hrest⟩ := h
    obtain ⟨hlater, hpairs⟩ := hrest.pairwise
    have h20 : fingerprintBytes = 20 := rfl
    have hfirst : ∀ q ∈ rest, s.publicStart < q.2.publicStart := by
      intro q hq
      have := hlater q hq
      omega
    refine ⟨fun p hp => ?_, List.pairwise_cons.mpr ⟨hfirst, hpairs⟩⟩
    rcases List.mem_cons.mp hp with rfl | hp
    · show offset < s.publicStart
      omega
    · have := hlater p hp
      omega

/-- The slices of the entries are found by their fingerprints if and only if no
fingerprint is named twice. -/
theorem sliced_iff_nodup {view : Bytes} {offset : ℕ} {parts : List (VaultKeyEntry Time × KeySlice)}
    (h : Covers view offset parts) :
    Sliced view offset (parts.map Prod.fst) (parts.map fun p => (p.1.fingerprint, p.2)).reverse ↔
      ((parts.map Prod.fst).map (·.fingerprint)).Nodup := by
  constructor
  · rintro ⟨parts', hfst, hcovers, hlookup⟩
    rw [← hfst, List.map_map, List.Nodup, List.pairwise_map]
    refine hcovers.pairwise.2.imp_of_mem fun {p q} hp hq hlt heq => ?_
    have hp' := hlookup p hp
    rw [show p.1.fingerprint = q.1.fingerprint from heq, hlookup q hq] at hp'
    rw [Option.some.inj hp'] at hlt
    exact lt_irrefl _ hlt
  · intro hnodup
    refine ⟨parts, rfl, h, fun p hp => ?_⟩
    rw [Json.lookup_eq_some_iff_mem]
    · exact List.mem_reverse.mpr (List.mem_map.mpr ⟨p, hp, rfl⟩)
    · rw [List.map_reverse, List.nodup_reverse, List.map_map]
      rwa [List.map_map] at hnodup

/-! ### Any octets -/

/-- The octets that `msgpack` is given as the manifest, if it comes to that. -/
def manifestWindow (payload : Bytes) : Option Bytes :=
  if payload.length < 4 ∨ isLegacy payload = true then none
  else
    let manifestEnd := 4 + ofU32 (slice payload 0 4)
    if manifestEnd > payload.length then none else some (slice payload 4 manifestEnd)

/-- `msgpack` reads the manifest segment: what it raises otherwise is no
`VaultFormatError`. -/
def ManifestReads (env : Platform γ Time) (payload : Bytes) : Prop :=
  ∀ blob, manifestWindow payload = some blob →
    OnlyRaises IsFormatError (env.msgpack.unpackb manifestStrLimit manifestArrayLimit blob)

/-- No manifest with a key stream that fits it names a fingerprint twice. -/
def FingerprintsDistinct (env : Platform γ Time) (payload : Bytes) : Prop :=
  ∀ manifest offset view, splitPayload env payload = .ok (manifest, offset, view) →
    KeyStream manifest.keys (view.drop offset) → (manifest.keys.map (·.fingerprint)).Nodup

/-- `_deserialise_segmented_payload` raises a `VaultFormatError`, or its slices
cover the stream that follows the manifest. -/
def Safe (env : Platform γ Time) (payload : Bytes) : Prop :=
  (∃ e, deserialiseSegmentedPayload env payload = .error e ∧ e.cls = .vaultFormatError) ∨
    ∃ manifest slices view offset, deserialiseSegmentedPayload env payload = .ok (manifest, slices, view) ∧
      splitPayload env payload = .ok (manifest, offset, view) ∧ Sliced view offset manifest.keys slices

theorem onlyRaises_rebuildLegacySegmentedPayload (payload : Bytes) :
    OnlyRaises IsFormatError (rebuildLegacySegmentedPayload env payload) := by
  unfold rebuildLegacySegmentedPayload
  cases rebuildLegacy env payload with
  | ok r => exact .ok r
  | error e =>
    refine .error ?_
    dsimp only
    split_ifs with h
    · have hcls : e.cls.isSubclass .vaultFormatError = true := by simpa [Exc.isA] using h
      show e.cls = .vaultFormatError
      revert hcls
      cases e.cls <;> decide
    · rfl

theorem onlyRaises_deserialiseManifest (blob : Bytes) :
    OnlyRaises IsFormatError (deserialiseManifest env blob) ↔
      OnlyRaises IsFormatError (env.msgpack.unpackb manifestStrLimit manifestArrayLimit blob) := by
  unfold deserialiseManifest
  cases env.msgpack.unpackb manifestStrLimit manifestArrayLimit blob with
  | error e => exact ⟨fun h => .error (h e rfl), fun h => .error (h e rfl)⟩
  | ok obj =>
    refine iff_of_true ?_ (.ok obj)
    dsimp only [bind, Except.bind]
    split
    · split
      · exact .ok _
      · exact onlyRaises_formatError _
    · exact onlyRaises_formatError _

/-- Where it comes to the manifest, only what `msgpack` raises is left. -/
theorem onlyRaises_splitPayload (payload : Bytes) :
    OnlyRaises IsFormatError (splitPayload env payload) ↔ ManifestReads env payload := by
  unfold ManifestReads manifestWindow
  cases payload with
  | nil => exact iff_of_true (onlyRaises_formatError _) (by simp)
  | cons b rest =>
    have hlegacy : isLegacy (b :: rest) = true ↔ 0x80 ≤ b ∧ b ≤ 0x8F := by simp [isLegacy]
    unfold splitPayload
    dsimp only
    by_cases h1 : 0x80 ≤ b ∧ b ≤ 0x8F
    · rw [if_pos h1, if_pos (.inr (hlegacy.mpr h1))]
      exact iff_of_true (onlyRaises_rebuildLegacySegmentedPayload _) fun blob hb => by cases hb
    rw [if_neg h1]
    unfold readU32
    by_cases h2 : 0 + 4 > (b :: rest).length
    · rw [if_pos h2, if_pos (.inl (by omega))]
      exact iff_of_true (onlyRaises_formatError _) fun blob hb => by cases hb
    rw [if_neg h2, if_neg fun h => h.elim (by omega) fun hl => h1 (hlegacy.mp hl)]
    dsimp only [bind, Except.bind]
    rw [Nat.zero_add]
    by_cases h3 : 4 + ofU32 (slice (b :: rest) 0 4) > (b :: rest).length
    · rw [if_pos h3, if_pos h3]
      exact iff_of_true (onlyRaises_formatError _) fun blob hb => by cases hb
    rw [if_neg h3, if_neg h3]
    have hreads := @onlyRaises_deserialiseManifest γ Time env (slice (b :: rest) 4 (4 + ofU32 (slice (b :: rest) 0 4)))
    constructor
    · intro h blob hb
      obtain rfl := Option.some.inj hb
      refine hreads.mp fun e he => h e ?_
      rw [he]
    · intro h
      exact (hreads.mpr (h _ rfl)).bind fun _ => .ok _

/-- **`_deserialise_segmented_payload` raises nothing but a `VaultFormatError`,
and what it returns covers the key stream, exactly when `msgpack` reads the
manifest and no accepted manifest names a fingerprint twice.** -/
theorem safe_iff (env : Platform γ Time) (payload : Bytes) :
    Safe env payload ↔ ManifestReads env payload ∧ FingerprintsDistinct env payload := by
  rw [← onlyRaises_splitPayload]
  unfold Safe FingerprintsDistinct deserialiseSegmentedPayload
  cases hsplit : splitPayload env payload with
  | error e =>
    constructor
    · rintro (⟨e', he', hcls⟩ | ⟨_, _, _, _, h, -⟩)
      · rw [Except.error.inj he']
        exact ⟨.error hcls, fun _ _ _ h => by cases h⟩
      · cases h
    · exact fun h => .inl ⟨e, rfl, h.1 e rfl⟩
  | ok r =>
    obtain ⟨manifest, offset, view⟩ := r
    dsimp only [bind, Except.bind]
    have hdistinct : (∀ manifest' offset' view', (Except.ok (manifest, offset, view) : Except Exc _) =
          .ok (manifest', offset', view') → KeyStream manifest'.keys (view'.drop offset') →
            (manifest'.keys.map (·.fingerprint)).Nodup) ↔
        (KeyStream manifest.keys (view.drop offset) → (manifest.keys.map (·.fingerprint)).Nodup) := by
      refine ⟨fun h => h manifest offset view rfl, fun h manifest' offset' view' he => ?_⟩
      simp only [Except.ok.injEq, Prod.mk.injEq] at he
      obtain ⟨rfl, rfl, rfl⟩ := he
      exact h
    rw [hdistinct, and_iff_right (OnlyRaises.ok _)]
    cases hwalk : readKeySlices view manifest.keys offset [] with
    | error e =>
      refine iff_of_true (.inl ⟨e, rfl, onlyRaises_readKeySlices _ _ _ _ e hwalk⟩) fun hstream => ?_
      by_cases hne : manifest.keys = []
      · rw [hne]
        exact List.nodup_nil
      · obtain ⟨slices, hok⟩ := readKeySlices_of_drop hstream hne
        rw [hok] at hwalk
        cases hwalk
    | ok r =>
      obtain ⟨slices, stop⟩ := r
      dsimp only
      by_cases hstop : stop = view.length
      · subst hstop
        obtain ⟨hstream, parts, hfst, hcovers, hslices⟩ := readKeySlices_eq_ok hwalk
        rw [if_neg (not_not.mpr rfl)]
        have hnodup := sliced_iff_nodup hcovers
        rw [hfst, ← List.append_nil (List.reverse _), ← hslices] at hnodup
        rw [← hnodup]
        constructor
        · rintro (⟨e, he, -⟩ | ⟨_, _, _, _, he, hsplit', hsliced⟩)
          · cases he
          · simp only [Except.ok.injEq, Prod.mk.injEq] at he hsplit'
            obtain ⟨rfl, rfl, rfl⟩ := he
            obtain ⟨-, rfl, -⟩ := hsplit'
            exact fun _ => hsliced
        · exact fun h => .inr ⟨_, _, _, _, rfl, rfl, h hstream⟩
      · rw [if_pos hstop]
        refine iff_of_true (.inl ⟨_, rfl, rfl⟩) fun hstream => ?_
        by_cases hne : manifest.keys = []
        · rw [hne]
          exact List.nodup_nil
        · obtain ⟨slices', hok⟩ := readKeySlices_of_drop hstream hne
          rw [hok] at hwalk
          exact absurd (Prod.mk.inj (Except.ok.inj hwalk)).2.symm hstop

/-- A manifest of one octet that begins no value. -/
theorem not_safe_reserved : ¬ Safe (samplePlatform noGnuPG) [0x00, 0x00, 0x00, 0x01, 0xC1] := by
  have hrun : deserialiseSegmentedPayload (samplePlatform noGnuPG) [0x00, 0x00, 0x00, 0x01, 0xC1] =
      .error { cls := .valueError, message := [] } := rfl
  rintro (⟨e, he, hcls⟩ | ⟨manifest, slices, view, offset, he, -⟩)
  · rw [hrun] at he
    rw [← Except.error.inj he] at hcls
    cases hcls
  · rw [hrun] at he
    cases he

end VaultPayload
end GpgMeister
