/-
# Parameters of the key derivation

`models/kdf_params.py`: the bounds that every set of Argon2id parameters is
within, the lower ceilings that a file to be opened has to respect, and the
two built-in profiles.
-/
import Mathlib.Tactic

namespace GpgMeister

/-- An integer field with bounds. -/
abbrev Bounded (lo hi : ℕ) := { n : ℕ // lo ≤ n ∧ n ≤ hi }

/-- What a model makes of an integer. -/
def Bounded.ofInt (lo hi : ℕ) : ℤ → Option (Bounded lo hi)
  | .ofNat n => if h : lo ≤ n ∧ n ≤ hi then some ⟨n, h⟩ else none
  | .negSucc _ => none

theorem Bounded.ofInt_val {lo hi : ℕ} (n : Bounded lo hi) : ofInt lo hi (n.val : ℤ) = some n := dif_pos n.2

def minTimeCost : ℕ := 2
def minMemoryCostKb : ℕ := 19456
def minHashLen : ℕ := 32
def minSaltLen : ℕ := 16

def maxTimeCost : ℕ := 20
def maxMemoryCostKb : ℕ := 2 * 1024 * 1024
def maxHashLen : ℕ := 64
def maxSaltLen : ℕ := 64
def maxParallelism : ℕ := 64

/-- The ceilings for a file to be opened. -/
def maxImportTimeCost : ℕ := 3
def maxImportMemoryCostKb : ℕ := 262144
def maxImportParallelism : ℕ := 4

abbrev TimeCost := Bounded minTimeCost maxTimeCost
abbrev MemoryCost := Bounded minMemoryCostKb maxMemoryCostKb
abbrev Parallelism := Bounded 1 maxParallelism
abbrev HashLen := Bounded minHashLen maxHashLen
abbrev SaltLen := Bounded minSaltLen maxSaltLen

inductive KDFAlgorithm
  | argon2id
  deriving DecidableEq

structure KDFParams where
  algorithm : KDFAlgorithm := .argon2id
  timeCost : TimeCost
  memoryCost : MemoryCost
  parallelism : Parallelism
  hashLen : HashLen
  saltLen : SaltLen
  deriving DecidableEq

/-- `high_memory_params` -/
def highMemoryParams : KDFParams where
  timeCost := ⟨3, by decide⟩
  memoryCost := ⟨262144, by decide⟩
  parallelism := ⟨4, by decide⟩
  hashLen := ⟨32, by decide⟩
  saltLen := ⟨16, by decide⟩

/-- `balanced_params` -/
def balancedParams : KDFParams where
  timeCost := ⟨4, by decide⟩
  memoryCost := ⟨65536, by decide⟩
  parallelism := ⟨4, by decide⟩
  hashLen := ⟨32, by decide⟩
  saltLen := ⟨16, by decide⟩

/-- Within the ceilings for a file to be opened. -/
def KDFParams.Importable (params : KDFParams) : Prop :=
  params.timeCost.val ≤ maxImportTimeCost ∧ params.memoryCost.val ≤ maxImportMemoryCostKb ∧
    params.parallelism.val ≤ maxImportParallelism

instance (params : KDFParams) : Decidable params.Importable := by
  unfold KDFParams.Importable
  infer_instance

end GpgMeister
