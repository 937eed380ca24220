/-
# The keyring

What the services rely on of GnuPG's keyring (`Lists`, `Imports`, `Deletes`),
and what `find_key`, `import_key` and `delete_key` do to it. The keyring is a
reading of the state of GnuPG: of every fingerprint whether there is a key,
and whether its secret half is there.

A deletion is relied on to touch no other key only: that the key is gone is
what `delete_key` finds out from the listing.
-/
import GpgMeister.Services.VaultFrames

namespace GpgMeister

/-- Of every key, whether its secret half is there, if the key is. -/
abbrev Keyring := Str → Option Bool

namespace Keyring

/-- The keys of both; a secret half that is in either is there. -/
def add (K B : Keyring) : Keyring := fun k =>
  match B k with
  | none => K k
  | some secret => some (secret || K k = some true)

/-- Nothing but one key is gone. -/
def erase (K : Keyring) (fp : Str) : Keyring := Function.update K fp none

end Keyring

variable {γ Time : Type} (gpg : GnuPG γ Time) (keyring : γ → Keyring)

/-- The listing shows the keyring, and changes nothing. It does not fail as a
search for a key does. -/
structure GnuPG.Lists : Prop where
  keeps : ∀ secret g r g', gpg.listKeys secret g = (r, g') → keyring g' = keyring g
  shows : ∀ g keys g', gpg.listKeys false g = (.ok keys, g') →
    ∀ fp, keyring g fp ≠ none ↔ ∃ key ∈ keys, key.fingerprint = fp
  fails : ∀ g e g', gpg.listKeys false g = (.error e, g') → e.isA [.gpgKeyNotFoundError] = false

/-- A deletion touches no other key. -/
structure GnuPG.Deletes : Prop where
  others : ∀ fp passphrase g r g', gpg.popen (GPGService.deleteArgs fp true) none passphrase g = (r, g') →
    ∀ k ≠ fp, keyring g' k = keyring g k

/-- An import adds the keys of the blob, and reports each of them, also those
that were there. -/
structure GnuPG.Imports (bundle : Bytes → Keyring) : Prop where
  adds : ∀ blob g out g', gpg.popen [lit "--import"] (some blob) none g = (.ok out, g') →
    keyring g' = (keyring g).add (bundle blob)
  reports : ∀ blob g out g' results, gpg.popen [lit "--import"] (some blob) none g = (.ok out, g') →
    (GPGService.importedOf (Gpg.parseStatus (Gpg.drainPipe Gpg.statusBufLimit [] out.reads))).mapM
      GPGService.validateFingerprint = .ok results → ∀ fp, fp ∈ results ↔ bundle blob fp ≠ none

namespace GPGService

open Program

variable {α : Type} {env : Platform γ Time} {s : Stores γ}

/-! ### Runs of GnuPG -/

theorem ensures_syscall {Q : Unit → Stores γ → Prop} {E : Exc → Stores γ → Prop} (hQ : Q () s)
    (hE : ∀ e, E e s) : Ensures (syscall : Program (World γ Time) Exc Unit) s Q E :=
  .of_keeps steady_stores.syscall (fun _ => hQ) hE

theorem ensures_onGnupg {f : γ → Except Exc α × γ} {Q : α → Stores γ → Prop} {E : Exc → Stores γ → Prop}
    (hQ : ∀ a g, f s.gnupg = (.ok a, g) → Q a { s with gnupg := g })
    (hE : ∀ e g, f s.gnupg = (.error e, g) → E e { s with gnupg := g }) :
    Ensures (onGnupg f : Program (World γ Time) Exc α) s Q E := by
  intro w hw
  subst hw
  unfold Meets onGnupg
  simp only [EStateM.run]
  rcases hf : f w.gnupg with ⟨_ | _, g⟩
  · exact hE _ g hf
  · exact hQ _ g hf

/-- The executable is run once, or never. -/
theorem ensures_runGpg {args : List Str} {input passphrase : Option Bytes} {statusFd : Bool}
    {Q : Gpg.GPGRun → Stores γ → Prop} {E : Exc → Stores γ → Prop} (hE : ∀ e, E e s)
    (hok : ∀ out g, env.gpg.popen args input passphrase s.gnupg = (.ok out, g) →
      Q (Gpg.statusRun out.returncode out.stdout out.stderr (if statusFd then out.reads else []))
        { s with gnupg := g })
    (herr : ∀ e g, env.gpg.popen args input passphrase s.gnupg = (.error e, g) → E e { s with gnupg := g }) :
    Ensures (runGpg env args input passphrase statusFd) s Q E := by
  have hsys : Ensures (syscall : Program (World γ Time) Exc Unit) s (fun _ s' => s = s') E :=
    ensures_syscall rfl hE
  apply hsys.bind
  rintro _ s' rfl
  apply Ensures.bind (Q := fun _ s' => s = s') (.ofExcept (fun _ _ => rfl) fun e _ => hE e)
  rintro passBytes s' rfl
  apply hsys.bind
  rintro _ s' rfl
  apply Ensures.bind (Q := fun _ s' => s = s') (.of_keeps keeps_get (fun _ => rfl) hE)
  rintro w s' rfl
  apply Ensures.bind (Q := fun _ s' => s = s') (.ofExcept (fun _ _ => rfl) fun e _ => hE e)
  rintro _ s' rfl
  apply Ensures.bind (ensures_onGnupg (Q := fun out s' => Q (Gpg.statusRun out.returncode out.stdout out.stderr
    (if statusFd then out.reads else [])) s') hok herr)
  intro out s' h
  exact .pure h

/-! ### Keys -/

variable {keyring : γ → Keyring} {K : Keyring} {fp : Str}

/-- `find_key` returns the key that was asked for, and says that there is none
only if there is none. -/
theorem ensures_findKey (hl : env.gpg.Lists keyring) (hfp : validateFingerprint fp = .ok fp) :
    Ensures (findKey env fp) s
      (fun key s' => keyring s'.gnupg = keyring s.gnupg ∧ s'.store = s.store ∧ key.fingerprint = fp ∧
        keyring s.gnupg fp ≠ none)
      (fun e s' => keyring s'.gnupg = keyring s.gnupg ∧ s'.store = s.store ∧
        (e.isA [.gpgKeyNotFoundError] = true → keyring s.gnupg fp = none)) := by
  unfold findKey
  rw [hfp]
  apply Ensures.bind (Q := fun fp' s' => fp = fp' ∧ s = s')
  · apply Ensures.ofExcept
    · intro fp' h
      exact ⟨Except.ok.inj h, rfl⟩
    · intro e h
      cases h
  rintro _ _ ⟨rfl, rfl⟩
  apply Ensures.bind (Q := fun keys s' => keyring s'.gnupg = keyring s.gnupg ∧ s'.store = s.store ∧
    ∀ fp, keyring s.gnupg fp ≠ none ↔ ∃ key ∈ keys, key.fingerprint = fp)
  · apply ensures_onGnupg
    · intro keys g h
      exact ⟨hl.keeps _ _ _ _ h, rfl, hl.shows _ _ _ h⟩
    · intro e g h
      refine ⟨hl.keeps _ _ _ _ h, rfl, fun he => ?_⟩
      rw [hl.fails _ _ _ h] at he
      cases he
  · rintro keys s' ⟨hk, hs, hshows⟩
    cases hf : keys.find? (·.fingerprint = fp) with
    | some key =>
      have hkey : key.fingerprint = fp := by simpa using List.find?_some hf
      exact .pure ⟨hk, hs, hkey, (hshows fp).mpr ⟨key, List.mem_of_find?_eq_some hf, hkey⟩⟩
    | none =>
      refine .raise ⟨hk, hs, fun _ => ?_⟩
      by_contra hne
      obtain ⟨key, hmem, hkey⟩ := (hshows fp).mp hne
      exact List.find?_eq_none.mp hf key hmem (by simpa using hkey)

/-- What `validate_fingerprint` returns it accepts as it is. -/
theorem validateFingerprint_idem {value : Str} (h : validateFingerprint value = .ok fp) :
    validateFingerprint fp = .ok fp := by
  unfold validateFingerprint at h ⊢
  cases hn : normaliseFingerprint value with
  | none => simp [hn] at h
  | some fp' =>
    simp only [hn, Except.ok.injEq] at h
    subst h
    rw [normalise_of_isFingerprint (isFingerprint_of_normalise hn)]

theorem validateFingerprint_of_mapM : ∀ {values results : List Str}, values.mapM validateFingerprint = .ok results →
    ∀ fp ∈ results, validateFingerprint fp = .ok fp
  | [], results, h => by
    cases h
    simp
  | value :: values, results, h => by
    rw [List.mapM_cons] at h
    cases hv : validateFingerprint value with
    | error e => simp [hv, bind, Except.bind] at h
    | ok fp =>
      cases hvs : values.mapM validateFingerprint with
      | error e => simp [hv, hvs, bind, Except.bind] at h
      | ok fps =>
        simp only [hv, hvs, bind, Except.bind, pure, Except.pure, Except.ok.injEq] at h
        subst h
        rw [List.forall_mem_cons]
        exact ⟨validateFingerprint_idem hv, validateFingerprint_of_mapM hvs⟩

/-- `import_key` adds the keys of the blob, and returns them. -/
theorem ensures_importKey {bundle : Bytes → Keyring} (hi : env.gpg.Imports keyring bundle) (armored : Bytes) :
    Ensures (importKey env armored) s
      (fun results s' => keyring s'.gnupg = (keyring s.gnupg).add (bundle armored) ∧
        (∀ fp, fp ∈ results ↔ bundle armored fp ≠ none) ∧ ∀ fp ∈ results, validateFingerprint fp = .ok fp)
      (fun _ _ => True) := by
  unfold importKey
  apply Ensures.bind (Q := fun proc s' => keyring s'.gnupg = (keyring s.gnupg).add (bundle armored) ∧
    ∀ results, (importedOf (Gpg.parseStatus proc.status)).mapM validateFingerprint = .ok results →
      ∀ fp, fp ∈ results ↔ bundle armored fp ≠ none)
  · apply ensures_runGpg
    · intro _
      trivial
    · intro out g h
      exact ⟨hi.adds _ _ _ _ h, fun results => hi.reports _ _ _ _ _ h⟩
    · intro _ _ _
      trivial
  · rintro proc s' ⟨hk, hr⟩
    dsimp only
    by_cases hnil : importedOf (Gpg.parseStatus proc.status) = []
    · rw [if_pos hnil]
      exact .raise trivial
    · rw [if_neg hnil]
      exact .ofExcept (fun results h => ⟨hk, hr results h, validateFingerprint_of_mapM h⟩) fun _ _ => trivial

/-- `delete_key` touches no other key; if it returns, the key is gone. -/
theorem ensures_deleteKey (hl : env.gpg.Lists keyring) (hd : env.gpg.Deletes keyring)
    (hfp : validateFingerprint fp = .ok fp) (passphrase : Option Bytes) :
    Ensures (deleteKey env fp true passphrase) s
      (fun _ s' => keyring s'.gnupg = (keyring s.gnupg).erase fp ∧ s'.store = s.store)
      (fun _ s' => (∀ k ≠ fp, keyring s'.gnupg k = keyring s.gnupg k) ∧ s'.store = s.store) := by
  apply Ensures.recorded
  rw [hfp]
  apply Ensures.bind (Q := fun fp' s' => fp = fp' ∧ s = s')
  · apply Ensures.ofExcept
    · intro fp' h
      exact ⟨Except.ok.inj h, rfl⟩
    · intro e h
      cases h
  rintro _ _ ⟨rfl, rfl⟩
  apply Ensures.bind (Q := fun _ s' => (∀ k ≠ fp, keyring s'.gnupg k = keyring s.gnupg k) ∧ s'.store = s.store)
  · apply ensures_runGpg
    · intro _
      exact ⟨fun _ _ => rfl, rfl⟩
    · intro out g h
      exact ⟨hd.others _ _ _ _ _ h, rfl⟩
    · intro e g h
      exact ⟨hd.others _ _ _ _ _ h, rfl⟩
  rintro proc s1 h1
  apply Ensures.bind (Q := fun _ s' => s1 = s') (.ofExcept (fun _ _ => rfl) fun _ _ => h1)
  rintro _ _ rfl
  apply Ensures.bind (Q := fun found s' => keyring s'.gnupg = keyring s1.gnupg ∧ s'.store = s1.store ∧
    (found = false → keyring s1.gnupg fp = none))
  · apply Ensures.catching
    · apply Ensures.bind ((ensures_findKey hl hfp).mono (fun _ _ h => h) fun e s' h => h)
      rintro key s' ⟨hk, hs, -, -⟩
      exact .pure ⟨hk, hs, fun h => by cases h⟩
    · rintro e s' ⟨hk, hs, hnone⟩
      by_cases he : e.isA [.gpgKeyNotFoundError] = true
      · rw [if_pos he]
        exact .pure ⟨hk, hs, fun _ => hnone he⟩
      · rw [if_neg he]
        exact .raise ⟨fun k hne => by rw [hk, h1.1 k hne], hs.trans h1.2⟩
  · rintro found s' ⟨hk, hs, hgone⟩
    cases found with
    | true => exact .raise ⟨fun k hne => by rw [hk, h1.1 k hne], hs.trans h1.2⟩
    | false =>
      refine .pure ⟨?_, hs.trans h1.2⟩
      funext k
      rw [hk, Keyring.erase]
      by_cases hne : k = fp
      · subst hne
        rw [Function.update_self]
        exact hgone rfl
      · rw [Function.update_of_ne hne]
        exact h1.1 k hne

end GPGService

end GpgMeister
