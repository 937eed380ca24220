/-
# Polling the card

What `probe` makes of a card listing. Its fields are checked with `str.isdigit`
and read with `int`, which refuses superscript digits, more than one minus sign
and more digits than it may convert; `parse_aid` checks for hexadecimal digits
and reads decimal ones.

* `DigitTable.int_eq_ok_iff`: which of the texts that `str.isdigit` takes `int`
  reads.
* `probe_returns_iff`: exactly when nothing is raised.
-/
import GpgMeister.Lib.MapM
import GpgMeister.Services.SmartcardService

namespace GpgMeister

/-! ### Digits -/

namespace DigitTable

variable {table : DigitTable}

/-- What Unicode says: decimal digits are digits, and no digit is white space, a
sign or an underscore. -/
structure Lawful (table : DigitTable) : Prop where
  isDigit_of_decimal : ∀ c v, table.decimal c = some v → table.isDigit c = true
  plain : ∀ c, table.isDigit c = true →
    isSpace c = false ∧ c ≠ codePoint '-' ∧ c ≠ codePoint '+' ∧ c ≠ codePoint '_'

/-- A text of decimal digits, no more than `int` converts. -/
structure Converts (table : DigitTable) (s : Str) : Prop where
  decimal : ∀ c ∈ s, (table.decimal c).isSome = true
  length : s.length ≤ Json.maxStrDigits

/-- A run of digits is a literal if they are decimal. -/
theorem digitRun_iff : ∀ {s : Str}, s ≠ [] → (∀ c ∈ s, c ≠ codePoint '_') →
    (∀ ds, table.digitRun s = some ds → ds.length = s.length ∧ ∀ c ∈ s, (table.decimal c).isSome = true) ∧
      ((∀ c ∈ s, (table.decimal c).isSome = true) → ∃ ds, table.digitRun s = some ds)
  | [], h, _ => absurd rfl h
  | [c], _, _ => by
    unfold digitRun
    cases hd : table.decimal c with
    | none => simp [hd]
    | some v => simp [hd]
  | c :: c' :: s, _, h => by
    obtain ⟨hlength, hexists⟩ := digitRun_iff (s := c' :: s) (List.cons_ne_nil c' s) fun x hx =>
      h x (List.mem_cons_of_mem c hx)
    have hne : c' ≠ codePoint '_' := h c' (by simp)
    unfold digitRun
    cases hd : table.decimal c with
    | none => simp [hd]
    | some v =>
      dsimp only
      rw [if_neg hne]
      constructor
      · intro ds hds
        obtain ⟨ds', hds', rfl⟩ := Option.map_eq_some_iff.mp hds
        obtain ⟨hlen, hall⟩ := hlength ds' hds'
        refine ⟨by simp [hlen], ?_⟩
        intro x hx
        rcases List.mem_cons.mp hx with rfl | hx
        · simp [hd]
        · exact hall x hx
      · intro hall
        obtain ⟨ds, hds⟩ := hexists fun x hx => hall x (List.mem_cons_of_mem c hx)
        exact ⟨v :: ds, by rw [hds]; rfl⟩

/-- No sign and no literal. -/
theorem digitRun_minus (h : table.Lawful) (s : Str) : table.digitRun (codePoint '-' :: s) = none := by
  have hminus : table.decimal (codePoint '-') = none := by
    rw [Option.eq_none_iff_forall_not_mem]
    intro v hv
    exact (h.plain _ (h.isDigit_of_decimal _ v hv)).2.1 rfl
  unfold digitRun
  rw [hminus]

/-- What `int` makes of a literal whose sign has been read. -/
theorem literal_eq_ok_iff (h : table.Lawful) {s : Str} (hs : table.isdigit s = true) (value : List ℕ → ℤ) {e e' : Exc} :
    (∃ n, (match table.digitRun s with
      | some ds => if ds.length ≤ Json.maxStrDigits then Except.ok (value ds) else .error e
      | none => .error e') = .ok n) ↔ table.Converts s := by
  obtain ⟨hne, hall⟩ : s ≠ [] ∧ ∀ c ∈ s, table.isDigit c = true := by
    simpa [isdigit] using hs
  obtain ⟨hsome, hexists⟩ := @digitRun_iff table _ hne fun x hx => (h.plain x (hall x hx)).2.2.2
  cases hd : table.digitRun s with
  | none =>
    refine iff_of_false (by simp) fun hc => ?_
    obtain ⟨ds, hds⟩ := hexists hc.decimal
    rw [hd] at hds
    cases hds
  | some ds =>
    obtain ⟨hlen, hdec⟩ := hsome ds hd
    dsimp only
    by_cases hl : ds.length ≤ Json.maxStrDigits
    · rw [if_pos hl]
      exact iff_of_true ⟨_, rfl⟩ ⟨hdec, hlen ▸ hl⟩
    · rw [if_neg hl]
      exact iff_of_false (by simp) fun hc => hl (hlen.symm ▸ hc.length)

/-- `int` of minus signs and then digits. -/
theorem int_eq_ok_iff (h : table.Lawful) {k : ℕ} {s : Str} (hs : table.isdigit s = true) :
    (∃ n, table.int (List.replicate k (codePoint '-') ++ s) = .ok n) ↔ k ≤ 1 ∧ table.Converts s := by
  obtain ⟨hne, hall⟩ : s ≠ [] ∧ ∀ c ∈ s, table.isDigit c = true := by
    simpa [isdigit] using hs
  have hstrip : strip (List.replicate k (codePoint '-') ++ s) = List.replicate k (codePoint '-') ++ s := by
    apply strip_of_noSpace
    intro c hc
    rcases List.mem_append.mp hc with hc | hc
    · rw [List.eq_of_mem_replicate hc]
      decide
    · exact (h.plain c (hall c hc)).1
  obtain ⟨c, s', rfl⟩ := List.exists_cons_of_ne_nil hne
  have hplain := h.plain c (hall c List.mem_cons_self)
  unfold int
  rw [hstrip]
  match k with
  | 0 =>
    have hminus : ¬ (c :: s').head? = some (codePoint '-') := fun he => hplain.2.1 (Option.some.inj he)
    have hplus : ¬ (c :: s').head? = some (codePoint '+') := fun he => hplain.2.2.1 (Option.some.inj he)
    rw [List.replicate_zero, List.nil_append]
    dsimp only
    rw [if_neg (by simp only [hminus, hplus, or_self, not_false_eq_true]), and_iff_right (Nat.zero_le 1)]
    exact literal_eq_ok_iff h hs _
  | 1 =>
    rw [and_iff_right (Nat.le_refl 1)]
    exact literal_eq_ok_iff h hs fun ds => - (Nat.ofDigits 10 ds.reverse : ℤ)
  | k + 2 =>
    refine iff_of_false ?_ fun hc => by omega
    simp [List.replicate_succ, digitRun_minus h]

end DigitTable

/-! ### Fields -/

section Fields

variable (table : DigitTable)

/-- A retry counter that is read: at most one minus sign stands in front of what
`str.isdigit` takes for a number. -/
def ReadsCounter (raw : Str) : Prop :=
  let digits := raw.dropWhile (· = codePoint '-')
  table.isdigit digits = true → raw.length ≤ digits.length + 1 ∧ table.Converts digits

/-- A version that is read. -/
def ReadsVersion (raw : Str) : Prop :=
  raw.length = 4 → table.isdigit raw = true → ∀ c ∈ raw, (table.decimal c).isSome = true

/-- The serial number of a card that is read: the version of an AID is decimal. -/
def ReadsAid (upper : Str → Str) (serial : Str) : Prop :=
  let raw := upper (strip serial)
  raw.length = 32 → (lit "D276000124").isPrefixOf raw = true → raw.all (· ∈ fingerprintChars) = true →
    ((raw.drop 12).take 4).all Json.isDigit = true

variable {table} (h : table.Lawful)

include h in
theorem retryCounter_eq_ok_iff (raw : Str) : (∃ n, retryCounter table raw = .ok n) ↔ ReadsCounter table raw := by
  unfold retryCounter ReadsCounter
  by_cases hd : table.isdigit (raw.dropWhile (· = codePoint '-')) = true
  · rw [if_pos hd, forall_prop_of_true hd]
    have hminus : raw.takeWhile (· = codePoint '-') =
        List.replicate (raw.takeWhile (· = codePoint '-')).length (codePoint '-') := by
      apply List.eq_replicate_of_mem
      intro c hc
      simpa using List.mem_takeWhile_imp hc
    have hraw : raw = List.replicate (raw.takeWhile (· = codePoint '-')).length (codePoint '-') ++
        raw.dropWhile (· = codePoint '-') := by
      rw [← hminus, List.takeWhile_append_dropWhile]
    have hlength : raw.length = (raw.takeWhile (· = codePoint '-')).length +
        (raw.dropWhile (· = codePoint '-')).length := by
      rw [← List.length_append, List.takeWhile_append_dropWhile]
    have hle : raw.length ≤ (raw.dropWhile (· = codePoint '-')).length + 1 ↔
        (raw.takeWhile (· = codePoint '-')).length ≤ 1 := by
      omega
    have hint := DigitTable.int_eq_ok_iff h (k := (raw.takeWhile (· = codePoint '-')).length) hd
    rw [← hraw] at hint
    rw [hint, hle]
  · rw [if_neg hd]
    exact iff_of_true ⟨-1, rfl⟩ fun hd' => absurd hd' hd

include h in
theorem retryCounters_eq_ok_iff (values : List Str) :
    (∃ counters, retryCounters table values = .ok counters) ↔ ∀ i < 3, ReadsCounter table (field values i) := by
  have hthree : (∀ i < 3, ReadsCounter table (field values i)) ↔
      ReadsCounter table (field values 0) ∧ ReadsCounter table (field values 1) ∧ ReadsCounter table (field values 2) := by
    constructor
    · intro hall
      exact ⟨hall 0 (by omega), hall 1 (by omega), hall 2 (by omega)⟩
    · rintro ⟨h0, h1, h2⟩ i hi
      interval_cases i
      · exact h0
      · exact h1
      · exact h2
  rw [hthree, ← retryCounter_eq_ok_iff h, ← retryCounter_eq_ok_iff h, ← retryCounter_eq_ok_iff h]
  unfold retryCounters
  cases retryCounter table (field values 0) with
  | error e => exact iff_of_false (by rintro ⟨c, hc⟩; cases hc) (by rintro ⟨⟨n, hn⟩, -⟩; cases hn)
  | ok user =>
    cases retryCounter table (field values 1) with
    | error e => exact iff_of_false (by rintro ⟨c, hc⟩; cases hc) (by rintro ⟨-, ⟨n, hn⟩, -⟩; cases hn)
    | ok reset =>
      cases retryCounter table (field values 2) with
      | error e => exact iff_of_false (by rintro ⟨c, hc⟩; cases hc) (by rintro ⟨-, -, n, hn⟩; cases hn)
      | ok admin => exact iff_of_true ⟨_, rfl⟩ ⟨⟨_, rfl⟩, ⟨_, rfl⟩, ⟨_, rfl⟩⟩

include h in
/-- `int` of two digits. -/
theorem int_pair_eq_ok_iff {s : Str} (hlen : s.length = 2) (hs : ∀ c ∈ s, table.isDigit c = true) :
    (∃ n, table.int s = .ok n) ↔ ∀ c ∈ s, (table.decimal c).isSome = true := by
  have hne : s ≠ [] := by
    rintro rfl
    cases hlen
  have hdigit : table.isdigit s = true := by
    rw [DigitTable.isdigit, Bool.and_eq_true, List.all_eq_true]
    exact ⟨decide_eq_true hne, hs⟩
  have hint := DigitTable.int_eq_ok_iff h (k := 0) hdigit
  rw [List.replicate_zero, List.nil_append] at hint
  rw [hint]
  constructor
  · intro hc
    exact hc.2.decimal
  · intro hall
    have hmax : 2 ≤ Json.maxStrDigits := by decide
    exact ⟨by omega, hall, by omega⟩

include h in
theorem cardVersion_eq_ok_iff (raw : Str) : (∃ v, cardVersion table raw = .ok v) ↔ ReadsVersion table raw := by
  unfold cardVersion ReadsVersion
  by_cases hraw : raw.length = 4 ∧ table.isdigit raw = true
  · rw [if_pos hraw, forall_prop_of_true hraw.1, forall_prop_of_true hraw.2]
    have hall : ∀ c ∈ raw, table.isDigit c = true := by
      have hd := hraw.2
      rw [DigitTable.isdigit, Bool.and_eq_true, List.all_eq_true] at hd
      exact hd.2
    have hparts : raw.take 2 ++ (raw.drop 2).take 2 = raw := by
      rw [List.take_of_length_le (l := raw.drop 2) (by rw [List.length_drop]; omega), List.take_append_drop]
    have hmajor := int_pair_eq_ok_iff h (s := raw.take 2) (by rw [List.length_take]; omega) fun c hc =>
      hall c (List.mem_of_mem_take hc)
    have hminor := int_pair_eq_ok_iff h (s := (raw.drop 2).take 2)
      (by rw [List.length_take, List.length_drop]; omega) fun c hc =>
        hall c (List.mem_of_mem_drop (List.mem_of_mem_take hc))
    have hboth : (∀ c ∈ raw, (table.decimal c).isSome = true) ↔
        (∃ n, table.int (raw.take 2) = .ok n) ∧ ∃ n, table.int ((raw.drop 2).take 2) = .ok n := by
      rw [hmajor, hminor, ← List.forall_mem_append, hparts]
    rw [hboth]
    cases table.int (raw.take 2) with
    | error e => exact iff_of_false (by rintro ⟨c, hc⟩; cases hc) (by rintro ⟨⟨n, hn⟩, -⟩; cases hn)
    | ok major =>
      cases table.int ((raw.drop 2).take 2) with
      | error e => exact iff_of_false (by rintro ⟨c, hc⟩; cases hc) (by rintro ⟨-, n, hn⟩; cases hn)
      | ok minor => exact iff_of_true ⟨_, rfl⟩ ⟨⟨_, rfl⟩, ⟨_, rfl⟩⟩
  · rw [if_neg hraw]
    exact iff_of_true ⟨raw, rfl⟩ fun h4 hd => absurd ⟨h4, hd⟩ hraw

theorem parseAid_eq_ok_iff (upper : Str → Str) (serial : Str) :
    (∃ identity, parseAid upper serial = .ok identity) ↔ ReadsAid upper serial := by
  unfold parseAid ReadsAid
  dsimp only
  generalize upper (strip serial) = raw
  by_cases hnil : raw = []
  · rw [if_pos hnil, hnil]
    exact iff_of_true ⟨{}, rfl⟩ fun h32 => by cases h32
  · rw [if_neg hnil]
    by_cases haid : raw.length = 32 ∧ (lit "D276000124").isPrefixOf raw = true ∧ raw.all (· ∈ fingerprintChars) = true
    · have hparts : (raw.drop 12).take 2 ++ (raw.drop 14).take 2 = (raw.drop 12).take 4 := by
        rw [List.take_add (i := 2) (j := 2), List.drop_drop]
      rw [if_pos haid, forall_prop_of_true haid.1, forall_prop_of_true haid.2.1, forall_prop_of_true haid.2.2, hparts]
      split_ifs with hdigits
      · exact iff_of_true ⟨_, rfl⟩ hdigits
      · exact iff_of_false (by rintro ⟨i, hi⟩; cases hi) hdigits
    · rw [if_neg haid]
      exact iff_of_true ⟨_, rfl⟩ fun h32 hprefix hhex => absurd ⟨h32, hprefix, hhex⟩ haid

theorem cardLabel_eq_ok_iff (upper : Str → Str) (serial : Str) :
    (∃ label, cardLabel upper serial = .ok label) ↔ ReadsAid upper serial := by
  rw [← parseAid_eq_ok_iff]
  unfold cardLabel
  cases parseAid upper serial with
  | error e => exact iff_of_false (by rintro ⟨l, hl⟩; cases hl) (by rintro ⟨i, hi⟩; cases hi)
  | ok identity =>
    refine iff_of_true ?_ ⟨identity, rfl⟩
    by_cases hserial : identity.serialNumber = []
    · exact ⟨lit "Smartcard", if_pos hserial⟩
    · exact ⟨identity.productName ++ lit " " ++ identity.serialNumber, if_neg hserial⟩

end Fields

/-! ### The listing -/

section Listing

variable (table : DigitTable) (lower upper : Str → Str)

/-- A line of the listing that is read. -/
def ReadsLine (line : Str) : Prop :=
  colon ∈ line →
    let (record, values) := splitRecord lower line
    (record = lit "version" → ReadsVersion table (field values 0)) ∧
      (record = lit "pinretry" → ∀ i < 3, ReadsCounter table (field values i))

/-- A listing all of whose lines are read. -/
def Readable (output : Str) : Prop := ∀ line ∈ splitlines output, ReadsLine table lower line

variable {table lower upper} (h : table.Lawful)

theorem exists_ok_ite {α ε : Type} {p : Prop} [Decidable p] {x y : Except ε α} (hx : ∃ a, x = .ok a)
    (hy : ∃ a, y = .ok a) : ∃ a, (if p then x else y) = .ok a := by
  split
  · exact hx
  · exact hy

include h in
theorem scanCardLine_eq_ok_iff (card : CardInfo) (line : Str) :
    (∃ card', scanCardLine table lower upper card line = .ok card') ↔ ReadsLine table lower line := by
  unfold scanCardLine ReadsLine
  by_cases hc : colon ∈ line
  · rw [if_neg (not_not.mpr hc), forall_prop_of_true hc]
    obtain ⟨record, values⟩ := splitRecord lower line
    dsimp only
    by_cases hv : record = lit "version"
    · subst hv
      rw [if_neg (by decide), if_neg (by decide), if_neg (by decide), if_neg (by decide), if_pos rfl,
        forall_prop_of_true rfl, ← cardVersion_eq_ok_iff h, and_iff_left fun he => absurd he (by decide)]
      cases cardVersion table (field values 0) with
      | error e => exact iff_of_false (by rintro ⟨c, hc⟩; cases hc) (by rintro ⟨v, hv⟩; cases hv)
      | ok v => exact iff_of_true ⟨_, rfl⟩ ⟨v, rfl⟩
    · by_cases hp : record = lit "pinretry"
      · subst hp
        rw [if_neg (by decide), if_neg (by decide), if_neg (by decide), if_neg (by decide), if_neg (by decide),
          if_neg (by decide), if_neg (by decide), if_neg (by decide), if_neg (by decide), if_pos rfl,
          forall_prop_of_true rfl, ← retryCounters_eq_ok_iff h, and_iff_right fun he => absurd he (by decide)]
        cases retryCounters table values with
        | error e => exact iff_of_false (by rintro ⟨c, hc⟩; cases hc) (by rintro ⟨v, hv⟩; cases hv)
        | ok v => exact iff_of_true ⟨_, rfl⟩ ⟨v, rfl⟩
      · rw [if_neg hv, if_neg hp]
        refine iff_of_true ?_ ⟨fun he => absurd he hv, fun he => absurd he hp⟩
        -- No other record is converted.
        repeat refine exists_ok_ite ⟨_, rfl⟩ ?_
        exact ⟨card, rfl⟩
  · rw [if_pos hc]
    exact iff_of_true ⟨card, rfl⟩ fun hc' => absurd hc' hc

include h in
theorem parseCardStatus_eq_ok_iff (output : Str) :
    (∃ card, parseCardStatus table lower upper output = .ok card) ↔ Readable table lower output := by
  unfold Readable
  rw [← foldlM_eq_ok_iff (s := {}) (@scanCardLine_eq_ok_iff table lower upper h)]
  unfold parseCardStatus
  cases (splitlines output).foldlM (scanCardLine table lower upper) {} with
  | error e => exact iff_of_false (by rintro ⟨c, hc⟩; cases hc) (by rintro ⟨c, hc⟩; cases hc)
  | ok card => exact iff_of_true ⟨_, rfl⟩ ⟨card, rfl⟩

end Listing

/-! ### The service -/

namespace SmartcardService

variable {γ Time : Type} (env : Platform γ Time)

/-- `gpg --card-status --with-colons` -/
def cardStatusRun : Program (World γ Time) Exc Gpg.GPGRun :=
  GPGService.runGpg env [lit "--card-status", lit "--with-colons"] none none true

variable {env}

/-- A run that fails is a `GPGServiceError`. -/
theorem cardStatusOf_error {proc : Gpg.GPGRun} (h : proc.returncode ≠ 0) :
    ∃ e, GPGService.cardStatusOf env proc = .error e ∧ e.isA [.gpgServiceError] = true := by
  unfold GPGService.cardStatusOf Gpg.raiseForCardFailure
  dsimp only
  rw [if_pos h]
  cases hd : Gpg.cardDiagnosis env.lower (Gpg.parseStatus proc.status)
      (Gpg.decodeOutput proc.status ++ [lineFeed] ++ Gpg.decodeOutput proc.stderr) with
  | none => exact ⟨_, rfl, rfl⟩
  | some d =>
    obtain ⟨errorType, reason⟩ := d
    refine ⟨_, rfl, ?_⟩
    unfold Gpg.cardDiagnosis at hd
    split_ifs at hd
    all_goals
      simp only [Option.some.injEq, Prod.mk.injEq] at hd
      rw [← hd.1]
      rfl

/-- What `probe` makes of a run of GnuPG. -/
theorem probe_returns_iff (h : env.digits.Lawful) {w w' : World γ Time} {proc : Gpg.GPGRun}
    (hrun : (cardStatusRun env).run w = .ok proc w') :
    (∃ r w'', (probe env).run w = .ok r w'') ↔
      (proc.returncode = 0 → Readable env.digits env.lower (Gpg.decodeOutput proc.stdout)) := by
  have hstatus : (GPGService.cardStatus env).run w =
      (Program.ofExcept (GPGService.cardStatusOf env proc) : Program (World γ Time) Exc _).run w' := by
    unfold GPGService.cardStatus
    rw [EStateM.run_bind]
    unfold cardStatusRun at hrun
    rw [hrun]
  unfold probe
  rw [EStateM.run_bind]
  by_cases hcode : proc.returncode = 0
  · rw [forall_prop_of_true hcode, ← @parseCardStatus_eq_ok_iff _ _ env.upper h]
    have hok : GPGService.cardStatusOf env proc =
        .ok { colons := Gpg.decodeOutput proc.stdout, diagnostics := Gpg.decodeOutput proc.stderr } := by
      unfold GPGService.cardStatusOf
      exact if_neg (not_not.mpr hcode)
    rw [hok, Program.run_ofExcept_ok] at hstatus
    rw [run_attempt_of_ok hstatus]
    dsimp only
    rw [EStateM.run_bind]
    cases parseCardStatus env.digits env.lower env.upper (Gpg.decodeOutput proc.stdout) with
    | error e => exact iff_of_false (by rintro ⟨r, w'', hr⟩; cases hr) (by rintro ⟨c, hc⟩; cases hc)
    | ok card =>
      refine iff_of_true ?_ ⟨card, rfl⟩
      cases card with
      | none => exact ⟨_, _, rfl⟩
      | some card => exact ⟨_, _, rfl⟩
  · refine iff_of_true ?_ fun hc => absurd hc hcode
    obtain ⟨e, he, hisA⟩ := @cardStatusOf_error _ _ env _ hcode
    rw [he, Program.run_ofExcept_error] at hstatus
    rw [run_attempt_of_caught hstatus hisA]
    dsimp only
    by_cases hcard : e.isA [.gpgCardError] = true
    · rw [if_pos hcard]
      exact ⟨_, _, rfl⟩
    · rw [if_neg hcard]
      exact ⟨_, _, rfl⟩

/-- **Polling the card raises nothing if and only if each line of the listing is
read; and each of the functions that read it raises nothing if and only if what
it is given is read.** -/
theorem polling_returns_iff (h : env.digits.Lawful) :
    (∀ w proc w', (cardStatusRun env).run w = .ok proc w' → ((∃ r w'', (probe env).run w = .ok r w'') ↔
      (proc.returncode = 0 → Readable env.digits env.lower (Gpg.decodeOutput proc.stdout)))) ∧
    (∀ output, (∃ card, parseCardStatus env.digits env.lower env.upper output = .ok card) ↔
      Readable env.digits env.lower output) ∧
    (∀ values, (∃ counters, retryCounters env.digits values = .ok counters) ↔
      ∀ i < 3, ReadsCounter env.digits (field values i)) ∧
    (∀ raw, (∃ v, cardVersion env.digits raw = .ok v) ↔ ReadsVersion env.digits raw) ∧
    ∀ serial, ((∃ identity, parseAid env.upper serial = .ok identity) ↔ ReadsAid env.upper serial) ∧
      ((∃ label, cardLabel env.upper serial = .ok label) ↔ ReadsAid env.upper serial) :=
  ⟨fun _ _ _ hrun => probe_returns_iff h hrun, parseCardStatus_eq_ok_iff h, retryCounters_eq_ok_iff h,
    cardVersion_eq_ok_iff h, fun serial => ⟨parseAid_eq_ok_iff env.upper serial, cardLabel_eq_ok_iff env.upper serial⟩⟩

/-! ### Two listings -/

/-- GnuPG with a card in its reader whose counters are listed like this. -/
def listingGpg (counters : String) : GnuPG Unit Unit where
  baseCmd := [lit "gpg"]
  pipes _ := (lit "3", lit "4")
  popen _ _ _ g := (.ok { returncode := 0, stdout := ascii "Reader:Yubico\npinretry:" ++ ascii counters ++ [0x0A] }, g)
  listKeys _ g := (.ok [], g)

theorem lawful_sampleDigits : sampleDigits.Lawful where
  isDigit_of_decimal c v hv := by
    unfold sampleDigits at hv ⊢
    dsimp only at hv ⊢
    split_ifs at hv with hd
    exact hd
  plain c hc := by
    have hd : Json.isDigit c = true := hc
    rw [Json.isDigit, Bool.and_eq_true, decide_eq_true_eq, decide_eq_true_eq] at hd
    refine ⟨?_, ?_, ?_, ?_⟩
    · rw [← Bool.not_eq_true]
      simp only [isSpace, Bool.or_eq_true, Bool.and_eq_true, decide_eq_true_eq]
      omega
    all_goals
      rintro rfl
      exact absurd hd (by decide)

/-- A card with a wrong attempt behind it. -/
theorem polling_returns_sample :
    ∃ r w', (probe (samplePlatform (listingGpg "2:0:3:"))).run (sampleWorld () fun _ => none) = .ok r w' := by
  have hrun : Program.returns
      (fun proc _ => (parseCardStatus sampleDigits lowerAscii id (Gpg.decodeOutput proc.stdout)).toOption.isSome)
      (cardStatusRun (samplePlatform (listingGpg "2:0:3:"))) (sampleWorld () fun _ => none) = true := by
    decide +kernel
  obtain ⟨proc, w', hproc, hparse⟩ := Program.returns_eq_true.mp hrun
  refine ((@polling_returns_iff _ _ (samplePlatform (listingGpg "2:0:3:")) lawful_sampleDigits).1 _ _ _ hproc).mpr
    fun _ => (@parseCardStatus_eq_ok_iff sampleDigits lowerAscii id lawful_sampleDigits _).mp ?_
  cases hcard : parseCardStatus sampleDigits lowerAscii id (Gpg.decodeOutput proc.stdout) with
  | error e =>
    rw [hcard] at hparse
    cases hparse
  | ok card => exact ⟨card, rfl⟩

/-- A counter with two minus signs, and an AID whose version is not decimal. -/
theorem not_polling_returns :
    (∃ w', (probe (samplePlatform (listingGpg "2:--1:3:"))).run (sampleWorld () fun _ => none) =
      .error { cls := .valueError, message := lit "invalid literal for int() with base 10" } w') ∧
    parseCardStatus sampleDigits lowerAscii id (lit "Reader:Yubico\npinretry:2:--1:3:\n") =
      .error { cls := .valueError, message := lit "invalid literal for int() with base 10" } ∧
    parseAid id (lit "D27600012401030B0006123456780000") =
      .error { cls := .valueError, message := lit "invalid literal for int() with base 10" } := by
  have hprobe : (match (probe (samplePlatform (listingGpg "2:--1:3:"))).run (sampleWorld () fun _ => none) with
      | .ok _ _ => false
      | .error e _ => e = { cls := .valueError, message := lit "invalid literal for int() with base 10" }) = true := by
    decide +kernel
  have hparse : (match parseCardStatus sampleDigits lowerAscii id (lit "Reader:Yubico\npinretry:2:--1:3:\n") with
      | .ok _ => false
      | .error e => e = { cls := .valueError, message := lit "invalid literal for int() with base 10" }) = true := by
    decide +kernel
  refine ⟨?_, ?_, by rfl⟩
  · split at hprobe
    · cases hprobe
    · next e w' h => exact ⟨w', by rw [h, of_decide_eq_true hprobe]⟩
  · split at hparse
    · cases hparse
    · next e h => rw [h, of_decide_eq_true hparse]

end SmartcardService

end GpgMeister
