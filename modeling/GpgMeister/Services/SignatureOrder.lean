/-
# The order of the records

A message can carry several signatures, each with records of its own.
`_evaluate_signature` keeps the last problem that it meets, so that its status
depends on the order of the records as soon as two of them name different
problems, and an invalid signature is not reported as such if a lesser problem
comes after it.

* `worstWins_iff`: exactly when the order does not matter, and a `BADSIG` wins.
-/
import GpgMeister.Services.SignatureStatus

namespace GpgMeister
namespace Gpg

variable {Time : Type} (fromTimestamp : Str → Option Time)

/-- The problem that a record names. -/
def Record.problem? (r : Record) : Option SignatureStatus := r.head?.bind fun tag => sigDowngrade.lookup tag

/-- A signature that does not match. -/
def Record.isBadsig (r : Record) : Bool := r.head? = some (lit "BADSIG")

/-- The status of the records. -/
def statusOf (records : List Record) : SignatureStatus := (evaluateSignature fromTimestamp records).1

/-- The order of the records does not matter, and a `BADSIG` wins. -/
def WorstWins (records : List Record) : Prop :=
  (∀ records', records'.Perm records → statusOf fromTimestamp records' = statusOf fromTimestamp records) ∧
    (records.any Record.isBadsig = true → statusOf fromTimestamp records = .invalid)

/-- All problems that are named are the same. -/
def OneProblem (records : List Record) : Prop :=
  ∀ r ∈ records, ∀ r' ∈ records, ∀ d ∈ r.problem?, ∀ d' ∈ r'.problem?, d = d'

/-! ### The last problem -/

/-- The problems that are named, in order. -/
def problemsOf (records : List Record) : List SignatureStatus := records.filterMap Record.problem?

theorem mem_problemsOf {records : List Record} {d : SignatureStatus} :
    d ∈ problemsOf records ↔ ∃ r ∈ records, r.problem? = some d := List.mem_filterMap

theorem foldl_downgrade : ∀ (records : List Record) (s : Scan Time),
    (records.foldl (scanRecord fromTimestamp) s).downgrade = (problemsOf records).getLast?.or s.downgrade
  | [], s => rfl
  | r :: records, s => by
    have hstep : (scanRecord fromTimestamp s r).downgrade = r.problem?.or s.downgrade := by
      cases r with
      | nil => rfl
      | cons tag values => exact scanRecord_downgrade fromTimestamp s tag values
    rw [List.foldl_cons, foldl_downgrade records, hstep]
    cases hr : r.problem? with
    | none =>
      have hsame : problemsOf (r :: records) = problemsOf records := by simp [problemsOf, hr]
      rw [hsame, Option.none_or]
    | some d =>
      have hcons : problemsOf (r :: records) = d :: problemsOf records := by simp [problemsOf, hr]
      rw [hcons, List.getLast?_cons, Option.some_or]
      cases (problemsOf records).getLast? <;> rfl

/-- The status, without the loop. -/
theorem statusOf_eq (records : List Record) :
    statusOf fromTimestamp records =
      match (problemsOf records).getLast? with
      | some d => d
      | none =>
        if records.any Record.isGoodsig && records.any Record.isValidsig then .valid
        else if records.any Record.isGoodsig || records.any Record.isValidsig then .error else .none := by
  obtain ⟨hgood, hvalid, -⟩ := foldl_scanRecord fromTimestamp records {}
  have hdown := foldl_downgrade fromTimestamp records {}
  rw [Bool.false_or] at hgood hvalid
  rw [Option.or_none] at hdown
  unfold statusOf evaluateSignature
  dsimp only
  rw [hdown, hgood, hvalid]
  cases (problemsOf records).getLast? with
  | some d => rfl
  | none =>
    dsimp only
    split_ifs <;> rfl

/-- The problem of the last record is the status. -/
theorem statusOf_concat {records : List Record} {r : Record} {d : SignatureStatus} (h : r.problem? = some d) :
    statusOf fromTimestamp (records ++ [r]) = d := by
  have hlast : (problemsOf (records ++ [r])).getLast? = some d := by simp [problemsOf, h]
  rw [statusOf_eq, hlast]

theorem problem_of_isBadsig {r : Record} (h : r.isBadsig = true) : r.problem? = some .invalid := by
  have hhead : r.head? = some (lit "BADSIG") := of_decide_eq_true h
  rw [Record.problem?, hhead]
  decide

/-- The last of equal problems. -/
theorem getLast_problemsOf {records : List Record} (h : OneProblem records) {d : SignatureStatus}
    (hd : d ∈ problemsOf records) : (problemsOf records).getLast? = some d := by
  have hne : problemsOf records ≠ [] := List.ne_nil_of_mem hd
  obtain ⟨r, hr, hrd⟩ := mem_problemsOf.mp hd
  obtain ⟨r', hr', hrd'⟩ := mem_problemsOf.mp (List.getLast_mem hne)
  rw [List.getLast?_eq_some_getLast hne, h r' hr' r hr _ hrd' _ hrd]

/-! ### The order -/

theorem OneProblem.perm {records records' : List Record} (h : OneProblem records) (hp : records'.Perm records) :
    OneProblem records' := fun r hr r' hr' => h r (hp.subset hr) r' (hp.subset hr')

/-- Where all problems are the same, the order does not matter. -/
theorem statusOf_perm {records records' : List Record} (h : OneProblem records) (hp : records'.Perm records) :
    statusOf fromTimestamp records' = statusOf fromTimestamp records := by
  have hproblems : (problemsOf records').Perm (problemsOf records) := hp.filterMap _
  have hgood : records'.any Record.isGoodsig = records.any Record.isGoodsig := hp.any_eq
  have hvalid : records'.any Record.isValidsig = records.any Record.isValidsig := hp.any_eq
  have hlast : (problemsOf records').getLast? = (problemsOf records).getLast? := by
    cases hl : problemsOf records with
    | nil =>
      rw [hl] at hproblems
      rw [hproblems.eq_nil]
    | cons d ds =>
      have hd : d ∈ problemsOf records := by
        rw [hl]
        exact List.mem_cons_self
      rw [← hl, getLast_problemsOf h hd, getLast_problemsOf (h.perm hp) (hproblems.symm.subset hd)]
  rw [statusOf_eq, statusOf_eq, hlast, hgood, hvalid]

/-- **The order of the records does not matter and a `BADSIG` wins if and only if
all records that name a problem name the same one.** -/
theorem worstWins_iff (records : List Record) : WorstWins fromTimestamp records ↔ OneProblem records := by
  constructor
  · intro h r hr r' hr' d hd d' hd'
    -- With its record last, each problem is the status.
    have hlast {r : Record} (hr : r ∈ records) {d : SignatureStatus} (hd : r.problem? = some d) :
        statusOf fromTimestamp records = d := by
      have hperm : (records.erase r ++ [r]).Perm records :=
        (List.perm_append_singleton r _).trans (List.perm_cons_erase hr).symm
      rw [← h.1 _ hperm, statusOf_concat fromTimestamp hd]
    rw [← hlast hr hd, ← hlast hr' hd']
  · intro h
    refine ⟨fun records' hp => statusOf_perm fromTimestamp h hp, fun hbad => ?_⟩
    obtain ⟨r, hr, hrbad⟩ := List.any_eq_true.mp hbad
    have hmem : SignatureStatus.invalid ∈ problemsOf records := mem_problemsOf.mpr ⟨r, hr, problem_of_isBadsig hrbad⟩
    rw [statusOf_eq, getLast_problemsOf h hmem]

/-- A signature that does not match, and then an expired one. -/
theorem not_worstWins :
    ¬ WorstWins (fun _ => (none : Option Unit))
      [[lit "BADSIG", lit "0123456789ABCDEF", lit "Mallory"], [lit "EXPSIG", lit "FEDCBA9876543210", lit "Alice"]] ∧
      statusOf (fun _ => (none : Option Unit))
        [[lit "BADSIG", lit "0123456789ABCDEF", lit "Mallory"], [lit "EXPSIG", lit "FEDCBA9876543210", lit "Alice"]] =
        .expiredSig := by
  have hstatus : statusOf (fun _ => (none : Option Unit))
      [[lit "BADSIG", lit "0123456789ABCDEF", lit "Mallory"], [lit "EXPSIG", lit "FEDCBA9876543210", lit "Alice"]] =
      .expiredSig := by
    decide
  refine ⟨fun h => ?_, hstatus⟩
  have hinvalid := h.2 (by decide)
  rw [hstatus] at hinvalid
  cases hinvalid

end Gpg
end GpgMeister
