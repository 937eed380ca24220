/-
# Whether the swap is encrypted

`startup/environment_check.py`: `_check_swap_linux` reads the active swaps and
looks for dm-crypt below each of them (`_block_chain_has_dm_crypt`), from a
block device to the devices that it lies on, its slaves. The search finds
dm-crypt exactly if some device below has it
(`blockChainHasDmCrypt_true_iff`). One device is enough: a swap that lies on
several devices counts as encrypted with only some of them encrypted
(`checkSwapLinux_encrypted_iff`).
-/
import GpgMeister.Lib.Search
import GpgMeister.Services.FolderService
import GpgMeister.Storage.SecretKeys

namespace GpgMeister
namespace EnvironmentCheck

open Program (raise)
open FolderService (relativeParts)
open SecretKeys (recursionError)

inductive CheckSeverity
  | warning
  | error
  deriving DecidableEq

structure CheckWarning where
  code : Str
  message : Str
  severity : CheckSeverity := .warning
  deriving DecidableEq

/-! ### Block devices -/

/-- What is asked of a device in `/sys/class/block`. -/
inductive SysRead
  | uuidExists
  | readUuid
  | slavesExists
  | iterSlaves

/-- `/sys/class/block`: what `dm/uuid` of a device holds and what is in its
`slaves`, if these exist, in the order of `iterdir`; and which reads raise an
`OSError`. -/
structure SysBlock where
  uuid : Str → Option Str
  slaves : Str → Option (List Str)
  fails : Str → SysRead → Bool

namespace SysBlock

variable (sys : SysBlock)

/-- A read; `none` is an `OSError`. -/
def read {α : Type} (blockName : Str) (r : SysRead) (a : α) : Option α :=
  if sys.fails blockName r then none else some a

/-- The UUID of the device mapper, stripped, if there is one. -/
def readUuid (blockName : Str) : Option (Option Str) := do
  match ← sys.read blockName .uuidExists (sys.uuid blockName) with
  | none => return none
  | some text => sys.read blockName .readUuid (some (strip text))

/-- `list(slaves_path.iterdir()) if slaves_path.exists() else []` -/
def listSlaves (blockName : Str) : Option (List Str) := do
  match ← sys.read blockName .slavesExists (sys.slaves blockName) with
  | none => return []
  | some slaves => sys.read blockName .iterSlaves slaves

end SysBlock

/-- `uuid.startswith("CRYPT-")` -/
def isCryptUuid (uuid : Str) : Bool := (lit "CRYPT-").isPrefixOf uuid

/-- `_block_chain_has_dm_crypt`, with the names that were seen as the state,
and with so many nested calls left to the interpreter. -/
def blockChainHasDmCrypt (sys : SysBlock) : ℕ → Str → Program (List Str) Exc Bool
  | 0, _ => raise recursionError
  | limit + 1, blockName => do
    if blockName ∈ (← get) then
      return false
    modify (blockName :: ·)
    match sys.readUuid blockName with
    | none => return false
    | some uuid =>
      if uuid.any isCryptUuid then
        return true
      match sys.listSlaves blockName with
      | none => return false
      | some slaves => slaves.anyM (blockChainHasDmCrypt sys limit)

/-! ### The search is right -/

namespace SysBlock

variable (sys : SysBlock)

/-- The device lies on the slave. -/
def Slave (d s : Str) : Prop := s ∈ (sys.slaves d).getD []

instance (d s : Str) : Decidable (sys.Slave d s) := inferInstanceAs (Decidable (s ∈ _))

abbrev Reaches : Str → Str → Prop := Relation.ReflTransGen sys.Slave

/-- The device is a dm-crypt target. -/
def IsDmCrypt (d : Str) : Prop := ((sys.uuid d).map strip).any isCryptUuid = true

instance (d : Str) : Decidable (sys.IsDmCrypt d) := inferInstanceAs (Decidable (_ = true))

def Readable (d : Str) : Prop := ∀ r, sys.fails d r = false

/-- What the search looks at. -/
def look (blockName : Str) : Option (List Str) :=
  match sys.readUuid blockName with
  | none => some []
  | some uuid => if uuid.any isCryptUuid then none else some ((sys.listSlaves blockName).getD [])

variable {sys} {d s : Str}

theorem readUuid_eq_some {uuid : Option Str} (h : sys.readUuid d = some uuid) : uuid = (sys.uuid d).map strip := by
  unfold readUuid SysBlock.read at h
  by_cases hexists : sys.fails d .uuidExists = true
  · simp [hexists] at h
  · cases huuid : sys.uuid d with
    | none =>
      simp only [hexists, huuid] at h
      exact (Option.some.inj h).symm
    | some text =>
      simp only [hexists, huuid] at h
      by_cases hread : sys.fails d .readUuid = true
      · simp [hread] at h
      · simp only [hread] at h
        exact (Option.some.inj h).symm

theorem listSlaves_eq_some {slaves : List Str} (h : sys.listSlaves d = some slaves) :
    slaves = (sys.slaves d).getD [] := by
  unfold listSlaves SysBlock.read at h
  by_cases hexists : sys.fails d .slavesExists = true
  · simp [hexists] at h
  · cases hslaves : sys.slaves d with
    | none =>
      simp only [hexists, hslaves] at h
      exact (Option.some.inj h).symm
    | some l =>
      simp only [hexists, hslaves] at h
      by_cases hread : sys.fails d .iterSlaves = true
      · simp [hread] at h
      · simp only [hread] at h
        exact (Option.some.inj h).symm

theorem readUuid_of_readable (h : sys.Readable d) : sys.readUuid d = some ((sys.uuid d).map strip) := by
  unfold readUuid SysBlock.read
  cases sys.uuid d <;> simp [h .uuidExists, h .readUuid]

theorem listSlaves_of_readable (h : sys.Readable d) : sys.listSlaves d = some ((sys.slaves d).getD []) := by
  unfold listSlaves SysBlock.read
  cases sys.slaves d <;> simp [h .slavesExists, h .iterSlaves]

theorem isDmCrypt_of_look (h : sys.look d = none) : sys.IsDmCrypt d := by
  unfold look at h
  cases huuid : sys.readUuid d with
  | none => simp [huuid] at h
  | some uuid =>
    simp only [huuid, ite_eq_left_iff, reduceCtorEq, imp_false, not_not] at h
    rwa [readUuid_eq_some huuid] at h

theorem slave_of_leads (h : Search.Leads sys.look d s) : sys.Slave d s := by
  obtain ⟨next, hlook, hs⟩ := h
  unfold look at hlook
  cases huuid : sys.readUuid d with
  | none =>
    simp only [huuid, Option.some.injEq] at hlook
    rw [← hlook] at hs
    cases hs
  | some uuid =>
    simp only [huuid] at hlook
    split_ifs at hlook
    obtain rfl := Option.some.inj hlook
    cases hslaves : sys.listSlaves d with
    | none =>
      rw [hslaves] at hs
      cases hs
    | some slaves =>
      rw [hslaves, listSlaves_eq_some hslaves] at hs
      exact hs

theorem look_of_readable (h : sys.Readable d) :
    sys.look d = if sys.IsDmCrypt d then none else some ((sys.slaves d).getD []) := by
  unfold look IsDmCrypt
  rw [readUuid_of_readable h, listSlaves_of_readable h]
  rfl

theorem reaches_of_look {a b : Str} (h : Search.Reaches sys.look a b) : sys.Reaches a b :=
  Relation.ReflTransGen.mono (show Search.Leads sys.look ≤ sys.Slave from fun _ _ => slave_of_leads) _ _ h

/-- A hit of the search is a dm-crypt device that can be reached. -/
theorem isDmCrypt_of_hits {start : Str} (h : Search.Hits sys.look start) :
    ∃ d, sys.Reaches start d ∧ sys.IsDmCrypt d := by
  obtain ⟨d, hreach, hlook⟩ := h
  exact ⟨d, reaches_of_look hreach, isDmCrypt_of_look hlook⟩

/-- On the way to a dm-crypt device the search finds that device, or another
before it. -/
theorem hits_of_isDmCrypt {start : Str} (hreads : ∀ d, sys.Reaches start d → sys.Readable d)
    (hreach : sys.Reaches start d) (hcrypt : sys.IsDmCrypt d) : Search.Hits sys.look start := by
  induction hreach using Relation.ReflTransGen.head_induction_on with
  | refl => exact ⟨d, .refl, by rw [look_of_readable (hreads d .refl), if_pos hcrypt]⟩
  | @head a b hab hbd ih =>
    have hlook := look_of_readable (hreads a .refl)
    by_cases ha : sys.IsDmCrypt a
    · exact ⟨a, .refl, by rw [hlook, if_pos ha]⟩
    · obtain ⟨c, hbc, hc⟩ := ih fun e he => hreads e (.head hab he)
      rw [if_neg ha] at hlook
      exact ⟨c, .head ⟨_, hlook, hab⟩ hbc, hc⟩

end SysBlock

/-- The function is a depth-first search. -/
theorem blockChainHasDmCrypt_eq (sys : SysBlock) : ∀ (limit : ℕ) (blockName : Str),
    blockChainHasDmCrypt sys limit blockName = Search.search sys.look recursionError limit blockName
  | 0, _ => rfl
  | limit + 1, blockName => by
    have ih : blockChainHasDmCrypt sys limit = Search.search sys.look recursionError limit :=
      funext (blockChainHasDmCrypt_eq sys limit)
    rw [blockChainHasDmCrypt, Search.search, ih]
    refine bind_congr fun seen => ?_
    by_cases hseen : blockName ∈ seen
    · simp only [if_pos hseen]
    · simp only [if_neg hseen]
      refine bind_congr fun _ => ?_
      unfold SysBlock.look
      cases sys.readUuid blockName with
      | none => rfl
      | some uuid =>
        by_cases huuid : uuid.any isCryptUuid = true
        · simp only [if_pos huuid]
        · simp only [if_neg huuid]
          cases sys.listSlaves blockName <;> rfl

/-- **The search finds dm-crypt exactly if some device below has it.** It
returns from every limit on that is above the number of devices. -/
theorem blockChainHasDmCrypt_true_iff {sys : SysBlock} {start : Str} (hfinite : {d | sys.Reaches start d}.Finite)
    (hreads : ∀ d, sys.Reaches start d → sys.Readable d) :
    ∃ found, (∀ limit, {d | sys.Reaches start d}.ncard < limit →
        ∃ seen, (blockChainHasDmCrypt sys limit start).run [] = .ok found seen) ∧
      (found = true ↔ ∃ d, sys.Reaches start d ∧ sys.IsDmCrypt d) := by
  classical
  refine ⟨decide (∃ d, sys.Reaches start d ∧ sys.IsDmCrypt d), fun limit hlimit => ?_, decide_eq_true_iff⟩
  rw [Set.ncard_eq_toFinset_card _ hfinite] at hlimit
  have hclosed : ∀ a ∈ hfinite.toFinset, ∀ next, sys.look a = some next → ∀ b ∈ next, b ∈ hfinite.toFinset := by
    intro a ha next hlook b hb
    rw [Set.Finite.mem_toFinset] at ha ⊢
    exact ha.tail (SysBlock.slave_of_leads ⟨next, hlook, hb⟩)
  obtain ⟨found, seen, hrun⟩ :
      ∃ found seen, (Search.search sys.look recursionError limit start).run [] = .ok found seen :=
    Search.search_returns hclosed hlimit (hfinite.mem_toFinset.mpr .refl)
  have hiff : found = true ↔ ∃ d, sys.Reaches start d ∧ sys.IsDmCrypt d := by
    rw [Search.search_true_iff hrun]
    exact ⟨SysBlock.isDmCrypt_of_hits, fun ⟨d, hreach, hcrypt⟩ => SysBlock.hits_of_isDmCrypt hreads hreach hcrypt⟩
  obtain rfl : found = decide (∃ d, sys.Reaches start d ∧ sys.IsDmCrypt d) := by
    rw [Bool.eq_iff_iff, hiff, decide_eq_true_iff]
  exact ⟨seen, by rw [blockChainHasDmCrypt_eq, hrun]⟩

/-- Two devices that lie on each other, and one of them on an encrypted one. -/
def cyclicDevices : SysBlock where
  uuid := fun d => if d = lit "dm-2" then some (lit "CRYPT-PLAIN\n") else none
  slaves := fun d =>
    if d = lit "dm-0" then some [lit "dm-1"] else if d = lit "dm-1" then some [lit "dm-0", lit "dm-2"] else none
  fails := fun _ _ => false

theorem mem_of_slave_cyclicDevices {d s : Str} (h : cyclicDevices.Slave d s) :
    s ∈ [lit "dm-0", lit "dm-1", lit "dm-2"] := by
  unfold SysBlock.Slave cyclicDevices at h
  dsimp only at h
  split_ifs at h
  · exact List.mem_cons_of_mem _ (List.mem_cons.mpr (.inl (List.mem_singleton.mp h)))
  · rcases List.mem_cons.mp h with rfl | h
    · exact List.mem_cons_self
    · exact List.mem_cons_of_mem _ (List.mem_cons_of_mem _ h)
  · cases h

theorem finite_cyclicDevices : {d | cyclicDevices.Reaches (lit "dm-0") d}.Finite := by
  refine (List.finite_toSet [lit "dm-0", lit "dm-1", lit "dm-2"]).subset fun d hd => ?_
  rcases Relation.ReflTransGen.cases_tail hd with rfl | ⟨_, _, hslave⟩
  · exact List.mem_cons_self
  · exact mem_of_slave_cyclicDevices hslave

theorem found_cyclicDevices : (∃ d, cyclicDevices.Reaches (lit "dm-0") d ∧ cyclicDevices.IsDmCrypt d) ∧
    ∃ found, (∀ limit, {d | cyclicDevices.Reaches (lit "dm-0") d}.ncard < limit →
        ∃ seen, (blockChainHasDmCrypt cyclicDevices limit (lit "dm-0")).run [] = .ok found seen) ∧
      (found = true ↔ ∃ d, cyclicDevices.Reaches (lit "dm-0") d ∧ cyclicDevices.IsDmCrypt d) := by
  have h1 : cyclicDevices.Slave (lit "dm-0") (lit "dm-1") := by decide +kernel
  have h2 : cyclicDevices.Slave (lit "dm-1") (lit "dm-2") := by decide +kernel
  exact ⟨⟨lit "dm-2", .head h1 (.single h2), by decide +kernel⟩,
    blockChainHasDmCrypt_true_iff finite_cyclicDevices fun _ _ _ => rfl⟩

/-- A device that is found has dm-crypt below, whatever reads fail. -/
theorem isDmCrypt_of_blockChainHasDmCrypt {sys : SysBlock} {limit : ℕ} {start : Str} {seen : List Str}
    (h : (blockChainHasDmCrypt sys limit start).run [] = .ok true seen) :
    ∃ d, sys.Reaches start d ∧ sys.IsDmCrypt d := by
  rw [blockChainHasDmCrypt_eq] at h
  exact SysBlock.isDmCrypt_of_hits ((Search.search_true_iff h).mp rfl)

/-! ### Swaps -/

/-- What the check of the swaps reads: `/proc/swaps`; of a device,
`is_block_device` and `resolve` of its path; and `/sys/class/block`. -/
structure SwapEnv where
  swaps : Except Exc Str
  isBlockDevice : Str → Except Exc Bool
  resolve : Str → Except Exc Str
  sys : SysBlock
  recursionLimit : ℕ

/-- `path.name` -/
def pathName (path : Str) : Str := (relativeParts path).getLastD []

variable (env : SwapEnv)

/-- The name that the search starts from. -/
def blockName (device : Str) : Except Exc Str :=
  match env.resolve device with
  | .ok path => .ok (pathName path)
  | .error e => if e.isA [.osError] then .ok (pathName device) else .error e

/-- `_is_dm_crypt_device` -/
def isDmCryptDevice (device : Str) : Except Exc Bool := do
  match (blockChainHasDmCrypt env.sys env.recursionLimit (← blockName env device)).run [] with
  | .ok found _ => return found
  | .error e _ => .error e

/-- `[line.split()[0] for line in lines[1:] if line.strip()]` -/
def swapDevices (text : Str) : List Str :=
  ((splitlines text).tail.filter fun line => strip line ≠ []).map fun line => (fields line).headD []

def isZram (device : Str) : Bool := (lit "/dev/zram").isPrefixOf device || contains device (lit "/dev/zram")

/-- The body of the loop, on `unencrypted` and `swap_files`. -/
def checkDevice (found : List Str × List Str) (device : Str) : Except Exc (List Str × List Str) := do
  if !(← env.isBlockDevice device) then
    return (found.1, found.2 ++ [device])
  if ← isDmCryptDevice env device then
    return found
  if isZram device then
    return found
  return (found.1 ++ [device], found.2)

def swapNotEncrypted (unencrypted : List Str) : CheckWarning where
  code := lit "swap_not_encrypted"
  message := lit "Swap partition(s) appear unencrypted: " ++ (lit ", ").intercalate unencrypted ++
    lit ". Private key material may be paged to disk. " ++
    lit "Consider using an encrypted swap or disabling swap."

def swapFileUnverified (swapFiles : List Str) : CheckWarning where
  code := lit "swap_file_unverified"
  message := lit "Swap file(s) detected: " ++ (lit ", ").intercalate swapFiles ++
    lit ". Encryption status cannot be verified. " ++
    lit "Private key material may be paged to an unencrypted swap file."

/-- `_check_swap_linux` -/
def checkSwapLinux : Except Exc (Option Bool × List CheckWarning) :=
  match env.swaps with
  | .error e => if e.isA [.osError] then .ok (none, []) else .error e
  | .ok text =>
    if swapDevices text = [] then .ok (some true, [])
    else do
      let (unencrypted, swapFiles) ← (swapDevices text).foldlM (checkDevice env) ([], [])
      let warnings := (if unencrypted ≠ [] then [swapNotEncrypted unencrypted] else []) ++
        if swapFiles ≠ [] then [swapFileUnverified swapFiles] else []
      if warnings ≠ [] then
        return (some false, warnings)
      return (some true, [])

/-! ### What counts as encrypted -/

namespace SysBlock

variable (sys : SysBlock)

/-- Every path from the device down to a device without slaves passes through
dm-crypt. -/
def EveryPathEncrypted (d : Str) : Prop :=
  ∀ path : List Str, (d :: path).IsChain sys.Slave → (∀ s, ¬ sys.Slave (path.getLastD d) s) →
    ∃ x ∈ d :: path, sys.IsDmCrypt x

/-- There is dm-crypt below the device, and a path down that passes through
none. -/
def PartlyEncrypted (d : Str) : Prop :=
  (∃ x, sys.Reaches d x ∧ sys.IsDmCrypt x) ∧
    ∃ path : List Str, (d :: path).IsChain sys.Slave ∧ (∀ s, ¬ sys.Slave (path.getLastD d) s) ∧
      ∀ x ∈ d :: path, ¬ sys.IsDmCrypt x

variable {sys} {d : Str}

theorem not_partlyEncrypted (h : sys.EveryPathEncrypted d) : ¬ sys.PartlyEncrypted d := by
  rintro ⟨-, path, hpath, hleaf, hnone⟩
  obtain ⟨x, hx, hcrypt⟩ := h path hpath hleaf
  exact hnone x hx hcrypt

theorem everyPathEncrypted {x : Str} (hreach : sys.Reaches d x) (hcrypt : sys.IsDmCrypt x)
    (h : ¬ sys.PartlyEncrypted d) : sys.EveryPathEncrypted d := by
  intro path hpath hleaf
  by_contra hnone
  push Not at hnone
  exact h ⟨⟨x, hreach, hcrypt⟩, path, hpath, hleaf, hnone⟩

end SysBlock

/-- The active swaps, as far as they can be read. -/
def activeSwaps : List Str :=
  match env.swaps with
  | .ok text => swapDevices text
  | .error _ => []

def ReportsEncrypted : Prop := ∃ warnings, checkSwapLinux env = .ok (some true, warnings)

/-- The loop has nothing against the device. -/
def Accepted (device : Str) : Prop :=
  env.isBlockDevice device = .ok true ∧
    (isDmCryptDevice env device = .ok true ∨ isDmCryptDevice env device = .ok false ∧ isZram device = true)

variable {env}

theorem checkDevice_eq_nil {found : List Str × List Str} {device : Str} :
    checkDevice env found device = .ok ([], []) ↔ found = ([], []) ∧ Accepted env device := by
  unfold checkDevice Accepted
  obtain ⟨unencrypted, swapFiles⟩ := found
  rcases env.isBlockDevice device with e | _ | _
  · simp [bind, Except.bind]
  · simp [bind, Except.bind, pure, Except.pure]
  · rcases isDmCryptDevice env device with e | _ | _
    · simp [bind, Except.bind]
    · cases isZram device <;> simp [bind, Except.bind, pure, Except.pure]
    · simp [bind, Except.bind, pure, Except.pure]

/-- The loop finds nothing exactly if it has nothing against any device: what
is found is never dropped. -/
theorem foldlM_checkDevice_eq_nil : ∀ {devices : List Str} {found : List Str × List Str},
    devices.foldlM (checkDevice env) found = .ok ([], []) ↔
      found = ([], []) ∧ ∀ device ∈ devices, Accepted env device
  | [], found => by simp [pure, Except.pure]
  | device :: devices, found => by
    rw [List.foldlM_cons, List.forall_mem_cons]
    constructor
    · intro h
      cases hfound : checkDevice env found device with
      | error e =>
        rw [hfound] at h
        cases h
      | ok found' =>
        rw [hfound] at h
        obtain ⟨rfl, hdevices⟩ := foldlM_checkDevice_eq_nil.mp h
        obtain ⟨hnil, hdevice⟩ := checkDevice_eq_nil.mp hfound
        exact ⟨hnil, hdevice, hdevices⟩
    · rintro ⟨hnil, hdevice, hdevices⟩
      rw [checkDevice_eq_nil.mpr ⟨hnil, hdevice⟩]
      exact foldlM_checkDevice_eq_nil.mpr ⟨rfl, hdevices⟩

theorem reportsEncrypted_iff :
    ReportsEncrypted env ↔ (∃ text, env.swaps = .ok text) ∧ ∀ device ∈ activeSwaps env, Accepted env device := by
  unfold ReportsEncrypted activeSwaps checkSwapLinux
  cases hswaps : env.swaps with
  | error e =>
    refine iff_of_false ?_ fun h => nomatch h.1
    rintro ⟨warnings, h⟩
    dsimp only at h
    split_ifs at h
    cases h
  | ok text =>
    dsimp only
    rw [and_iff_right ⟨text, rfl⟩]
    by_cases hdevices : swapDevices text = []
    · rw [if_pos hdevices]
      exact iff_of_true ⟨[], rfl⟩ fun device h => by simp [hdevices] at h
    · have hnil : (swapDevices text).foldlM (checkDevice env) ([], []) = .ok ([], []) ↔
          ∀ device ∈ swapDevices text, Accepted env device := by
        rw [foldlM_checkDevice_eq_nil, and_iff_right rfl]
      rw [if_neg hdevices, ← hnil]
      rcases (swapDevices text).foldlM (checkDevice env) ([], []) with e | ⟨unencrypted, swapFiles⟩
      · simp [bind, Except.bind]
      · cases unencrypted <;> cases swapFiles <;> simp [bind, Except.bind, pure, Except.pure]

/-- **The swap that is reported as encrypted is** exactly if no device that
counts is only partly encrypted, where all devices are accepted. -/
theorem checkSwapLinux_encrypted_iff :
    (ReportsEncrypted env → ∀ device ∈ activeSwaps env, isZram device = false →
        ∀ name, blockName env device = .ok name → env.sys.EveryPathEncrypted name) ↔
      (∃ device ∈ activeSwaps env, ¬ Accepted env device) ∨ ∀ device ∈ activeSwaps env, isZram device = false →
        ∀ name, blockName env device = .ok name → ¬ env.sys.PartlyEncrypted name := by
  constructor
  · intro h
    by_cases haccepted : ∀ device ∈ activeSwaps env, Accepted env device
    · right
      intro device hdevice hzram name hname
      have hswaps : ∃ text, env.swaps = .ok text := by
        cases hs : env.swaps with
        | error e => simp [activeSwaps, hs] at hdevice
        | ok text => exact ⟨text, rfl⟩
      exact SysBlock.not_partlyEncrypted
        (h (reportsEncrypted_iff.mpr ⟨hswaps, haccepted⟩) device hdevice hzram name hname)
    · left
      push Not at haccepted
      exact haccepted
  · intro h hreports device hdevice hzram name hname
    have haccepted := (reportsEncrypted_iff.mp hreports).2
    have hpartly := h.resolve_left fun ⟨d, hd, hnot⟩ => hnot (haccepted d hd)
    have hcrypt : isDmCryptDevice env device = .ok true :=
      (haccepted device hdevice).2.resolve_right fun hzram' => by simp [hzram] at hzram'
    obtain ⟨x, hreach, hx⟩ : ∃ x, env.sys.Reaches name x ∧ env.sys.IsDmCrypt x := by
      unfold isDmCryptDevice at hcrypt
      rw [hname] at hcrypt
      cases hrun : (blockChainHasDmCrypt env.sys env.recursionLimit name).run [] with
      | error e seen => simp [hrun, bind, Except.bind] at hcrypt
      | ok found seen =>
        obtain rfl : found = true := by simpa [hrun, bind, Except.bind, pure, Except.pure] using hcrypt
        exact isDmCrypt_of_blockChainHasDmCrypt hrun
    exact SysBlock.everyPathEncrypted hreach hx (hpartly device hdevice hzram name hname)

/-- A volume on two devices, one of them encrypted. -/
def mixedVolume : SysBlock where
  uuid := fun d => if d = lit "dm-0" then some (lit "CRYPT-LUKS2\n") else none
  slaves := fun d => if d = lit "dm-1" then some [lit "dm-0", lit "sda3"] else none
  fails := fun _ _ => false

/-- It is the active swap. -/
def mixedSwap : SwapEnv where
  swaps := .ok (lit "Filename\n/dev/dm-1 partition\n")
  isBlockDevice := fun _ => .ok true
  resolve := fun device => .ok device
  sys := mixedVolume
  recursionLimit := 1000

theorem reportsEncrypted_mixedSwap : ReportsEncrypted mixedSwap ∧
    ∃ device ∈ activeSwaps mixedSwap, isZram device = false ∧
      ∃ name, blockName mixedSwap device = .ok name ∧ ¬ mixedSwap.sys.EveryPathEncrypted name := by
  refine ⟨⟨[], by decide +kernel⟩, lit "/dev/dm-1", by decide +kernel, by decide +kernel, lit "dm-1",
    by decide +kernel, ?_⟩
  intro h
  have hleaf : (mixedVolume.slaves (lit "sda3")).getD [] = [] := by decide +kernel
  obtain ⟨x, hx, hcrypt⟩ := h [lit "sda3"] (by decide +kernel) fun s hs => List.not_mem_nil (hleaf ▸ hs)
  rcases List.mem_cons.mp hx with rfl | hx
  · exact absurd hcrypt (by decide +kernel)
  · rw [List.mem_singleton] at hx
    subst hx
    exact absurd hcrypt (by decide +kernel)

end EnvironmentCheck
end GpgMeister
