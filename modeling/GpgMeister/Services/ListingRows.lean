/-
# The rows of a listing

What `_parse_colons_keys` makes of a listing whose user IDs may be any text:
a line of a user ID may be read as a record, and even begin a row. The rows of
a listing are still those of its blocks (`parseColonsKeys_eq`); in each block
the row of the key comes first (`inBlock_lines`), and it has the same
fingerprints in both listings (`KeyBlock.Twin.view`).
-/
import GpgMeister.Services.KeyListing

namespace GpgMeister
namespace GPGService

/-! ### Lines -/

/-- What the lines of a record are read as. -/
def recordLines (fields : List Str) : List (List Str) :=
  (splitlines (KeyListing.recordLine fields)).map (·.splitOn (ch ':'))

/-- Records end with a line feed, so that each is cut into lines by itself. -/
theorem splitlines_flatMap_recordLine : ∀ records : List (List Str),
    splitlines (records.flatMap KeyListing.recordLine) = records.flatMap fun r => splitlines (KeyListing.recordLine r)
  | [] => rfl
  | r :: records => by
    rw [List.flatMap_cons, KeyListing.recordLine, List.append_assoc, List.singleton_append, splitlines_append_lineFeed,
      splitlines_flatMap_recordLine records, List.flatMap_cons, KeyListing.recordLine]

theorem foldl_splitlines (records : List (List Str)) (s : ColonsState) :
    (splitlines (records.flatMap KeyListing.recordLine)).foldl colonsLine s =
      (records.flatMap recordLines).foldl readRecord s := by
  have hlines : records.flatMap recordLines =
      (splitlines (records.flatMap KeyListing.recordLine)).map (·.splitOn (ch ':')) := by
    rw [splitlines_flatMap_recordLine, List.map_flatMap]
    rfl
  rw [hlines, List.foldl_map]
  exact List.foldl_ext _ _ _ fun s line _ => colonsLine_eq s line

/-- A record without a line boundary is one line. -/
theorem recordLines_of_isField {fields : List Str} (hne : fields ≠ []) (h : ∀ f ∈ fields, IsField f) :
    recordLines fields = [fields] := by
  have hline : ∀ c ∈ [ch ':'].intercalate fields, isLineBoundary c = false := by
    intro c hc
    rcases mem_of_mem_intercalate hc with rfl | ⟨f, hf, hcf⟩
    · decide
    · exact (h f hf c hcf).2
  rw [recordLines, KeyListing.recordLine, splitlines_line hline, List.map_singleton,
    splitOn_recordLine hne fun f hf hc => (h f hf _ hc).1 rfl]

theorem recordLines_fpr {r : ValueRecord} (h : IsField r.value) :
    recordLines (r.fields (lit "fpr")) = [r.fields (lit "fpr")] :=
  recordLines_of_isField (List.cons_ne_nil _ _) (isField_fpr h)

/-- What a line of the record of a user ID may be read as: the record, or what
stands after it, or part of its text. -/
def UidLine (r : ValueRecord) (f : List Str) : Prop :=
  f.getD 0 [] = lit "uid" ∨ f.length ≤ r.rest.length + 1 ∧ (9 < f.length → f.getD 9 [] = r.rest.getD 8 [])

/-- A first field. -/
theorem splitOn_append_cons {x : CodePoint} {a : Str} (h : x ∉ a) (b : Str) :
    (a ++ x :: b).splitOn x = a :: b.splitOn x := by
  have ha : ∀ c ∈ a, (c == x) = false := by
    intro c hc
    rw [beq_eq_false_iff_ne]
    exact fun he => h (he ▸ hc)
  rw [List.splitOn_eq_splitOnP, List.splitOnP_append_cons_of_forall_mem ha x (beq_self_eq_true x),
    ← List.splitOn_eq_splitOnP]

theorem splitOn_of_not_mem {x : CodePoint} {a : Str} (h : x ∉ a) : a.splitOn x = [a] := by
  rw [List.splitOn_eq_splitOnP]
  refine List.splitOnP_eq_singleton fun c hc => ?_
  rw [beq_eq_false_iff_ne]
  exact fun he => h (he ▸ hc)

/-- A part has only what the list has. -/
theorem mem_of_mem_splitOnP {p : CodePoint → Bool} : ∀ {s l : Str}, l ∈ s.splitOnP p → ∀ c ∈ l, c ∈ s
  | [], l, h, c, hc => by
    rw [List.splitOnP_nil, List.mem_singleton] at h
    rwa [h] at hc
  | d :: s, l, h, c, hc => by
    rw [List.splitOnP_cons_eq_if_modifyHead] at h
    split_ifs at h with hd
    · rcases List.mem_cons.mp h with rfl | h
      · exact absurd hc List.not_mem_nil
      · exact List.mem_cons_of_mem d (mem_of_mem_splitOnP h c hc)
    · obtain ⟨x, xs, hx⟩ := List.exists_cons_of_ne_nil (List.splitOnP_ne_nil p s)
      have hmem {l : Str} (hl : l ∈ x :: xs) : ∀ c ∈ l, c ∈ s := mem_of_mem_splitOnP (by rw [hx]; exact hl)
      rw [hx, List.modifyHead_cons] at h
      rcases List.mem_cons.mp h with rfl | h
      · rcases List.mem_cons.mp hc with rfl | hc
        · exact List.mem_cons_self
        · exact List.mem_cons_of_mem d (hmem List.mem_cons_self c hc)
      · exact List.mem_cons_of_mem d (hmem (List.mem_cons_of_mem _ h) c hc)

theorem intercalate_append (x : CodePoint) : ∀ {ls ms : List Str}, ls ≠ [] → ms ≠ [] →
    [x].intercalate (ls ++ ms) = [x].intercalate ls ++ x :: [x].intercalate ms
  | [], _, h, _ => absurd rfl h
  | [l], ms, _, hm => by
    obtain ⟨m, ms, rfl⟩ := List.exists_cons_of_ne_nil hm
    rw [List.singleton_append, List.intercalate_cons_cons, List.intercalate_singleton, List.append_assoc]
    rfl
  | l :: l' :: ls, ms, _, hm => by
    have ih := intercalate_append x (show l' :: ls ≠ [] by simp) hm
    rw [List.cons_append, List.cons_append, List.intercalate_cons_cons, ← List.cons_append, ih,
      List.intercalate_cons_cons, ← List.append_assoc]

theorem not_boundary_of_mem_intercalate {fields : List Str} (h : ∀ f ∈ fields, IsField f) :
    ∀ c ∈ [ch ':'].intercalate fields, isLineBoundary c = false := by
  intro c hc
  rcases mem_of_mem_intercalate hc with rfl | ⟨f, hf, hcf⟩
  · decide
  · exact (h f hf c hcf).2

/-- The lines of a text between two that do not end a line. -/
theorem mem_splitlines_between {pre value post l : Str} (hpre : ∀ c ∈ pre, isLineBoundary c = false)
    (hpost : ∀ c ∈ post, isLineBoundary c = false) (h : l ∈ splitlines (pre ++ (value ++ post) ++ [lineFeed])) :
    (∃ y, l = pre ++ y) ∨ (∀ c ∈ l, c ∈ value) ∨ ∃ t, (∀ c ∈ t, c ∈ value) ∧ l = t ++ post := by
  obtain ⟨ls, t, hparts⟩ :=
    (List.eq_nil_or_concat' (value.splitOnP isLineBoundary)).resolve_left (List.splitOnP_ne_nil _ _)
  have hmem {l : Str} (hl : l ∈ ls ++ [t]) : ∀ c ∈ l, c ∈ value := mem_of_mem_splitOnP (by rw [hparts]; exact hl)
  have ht : ∀ c ∈ t ++ post, isLineBoundary c = false := by
    intro c hc
    rcases List.mem_append.mp hc with hc | hc
    · exact not_of_mem_splitOnP (s := value) (by rw [hparts]; simp) c hc
    · exact hpost c hc
  have hsplit : (pre ++ (value ++ post) ++ [lineFeed]).splitOnP isLineBoundary =
      (ls ++ [t ++ post]).modifyHead (pre ++ ·) ++ [[]] := by
    rw [List.splitOnP_append_cons _ _ (show isLineBoundary lineFeed = true by decide), splitOnP_append hpre,
      splitOnP_append_of_eq post hparts, List.splitOnP_eq_singleton ht, List.splitOnP_nil]
  have hl := (splitlines_sublist _).subset h
  rw [hsplit] at hl
  rcases List.mem_append.mp hl with hl | hl
  · cases ls with
    | nil => exact .inl ⟨_, List.mem_singleton.mp hl⟩
    | cons l0 ls =>
      rw [List.cons_append, List.modifyHead_cons] at hl
      rcases List.mem_cons.mp hl with rfl | hl
      · exact .inl ⟨_, rfl⟩
      · rcases List.mem_append.mp hl with hl | hl
        · exact .inr (.inl (hmem (List.mem_append_left _ (List.mem_cons_of_mem _ hl))))
        · exact .inr (.inr ⟨t, hmem (by simp), List.mem_singleton.mp hl⟩)
  · rw [List.mem_singleton.mp hl]
    exact .inr (.inl (by simp))

/-- The lines of the record of a user ID. -/
theorem uidLine_of_mem_recordLines {r : ValueRecord} (hv : IsUidText r.value) {f : List Str}
    (h : f ∈ recordLines (r.fields (lit "uid"))) : UidLine r f := by
  have htag : IsField (lit "uid") := isField_of_all (by decide)
  have hmiddle : r.middle ≠ [] := by
    intro he
    have := r.middle_length
    simp [he] at this
  have hno {s : Str} (hs : ∀ c ∈ s, c ∈ r.value) : ch ':' ∉ s := fun hc => (hv _ (hs _ hc)).1 rfl
  obtain ⟨l, hl, rfl⟩ := List.mem_map.mp h
  -- The text stands between what comes before and after it.
  obtain ⟨post, hpost, hfields⟩ : ∃ post, (∀ c ∈ post, isLineBoundary c = false) ∧
      [ch ':'].intercalate (r.value :: r.rest) = r.value ++ post ∧
        ∀ t, ch ':' ∉ t → (t ++ post).splitOn (ch ':') = t :: r.rest := by
    by_cases hrest : r.rest = []
    · refine ⟨[], by simp, by rw [hrest, List.intercalate_singleton, List.append_nil], fun t ht => ?_⟩
      rw [List.append_nil, splitOn_of_not_mem ht, hrest]
    · have hfield : ∀ f ∈ r.rest, IsField f := fun f hf => r.isField f (List.mem_append_right _ hf)
      have hcons := intercalate_append (ch ':') (List.cons_ne_nil r.value []) hrest
      rw [List.intercalate_singleton] at hcons
      refine ⟨ch ':' :: [ch ':'].intercalate r.rest, ?_, hcons, ?_⟩
      · exact List.forall_mem_cons.mpr ⟨by decide, not_boundary_of_mem_intercalate hfield⟩
      · intro t ht
        rw [splitOn_append_cons ht, splitOn_recordLine hrest fun f hf hc => (hfield f hf _ hc).1 rfl]
  obtain ⟨hvalue, hsplit⟩ := hfields
  obtain ⟨pre, hpre, hline⟩ : ∃ pre, (∀ c ∈ lit "uid" ++ ch ':' :: pre, isLineBoundary c = false) ∧
      KeyListing.recordLine (r.fields (lit "uid")) = lit "uid" ++ ch ':' :: pre ++ (r.value ++ post) ++ [lineFeed] := by
    have hfield : ∀ f ∈ r.middle, IsField f := fun f hf => r.isField f (List.mem_append_left _ hf)
    have h1 := intercalate_append (ch ':') hmiddle (List.cons_ne_nil r.value r.rest)
    have h2 := intercalate_append (ch ':') (List.cons_ne_nil (lit "uid") [])
      (List.append_ne_nil_of_left_ne_nil hmiddle (r.value :: r.rest))
    rw [List.intercalate_singleton, List.singleton_append, h1, hvalue] at h2
    refine ⟨[ch ':'].intercalate r.middle ++ [ch ':'], ?_, ?_⟩
    · rw [List.forall_mem_append, List.forall_mem_cons, List.forall_mem_append, List.forall_mem_singleton]
      exact ⟨fun c hc => (htag c hc).2, by decide, not_boundary_of_mem_intercalate hfield, by decide⟩
    · rw [KeyListing.recordLine, ValueRecord.fields, h2]
      simp
  rw [hline] at hl
  rcases mem_splitlines_between hpre hpost hl with ⟨y, rfl⟩ | hmem | ⟨t, ht, rfl⟩
  · left
    rw [List.append_assoc, List.cons_append, splitOn_append_cons (by decide)]
    rfl
  · right
    rw [splitOn_of_not_mem (hno hmem)]
    exact ⟨by simp, fun h => absurd h (by simp)⟩
  · right
    rw [hsplit t (hno ht)]
    exact ⟨le_rfl, fun _ => rfl⟩

/-! ### What two listings have in common -/

/-- The fingerprints of a row. -/
def ColonsRow.view (row : ColonsRow) : Option Str × List Str := (row.fingerprint, row.subkeys)

/-- The fingerprints of the rows so far. -/
def ColonsState.view (s : ColonsState) : List (Option Str × List Str) × Option (Option Str × List Str) × Bool :=
  (s.done.map ColonsRow.view, s.current.map ColonsRow.view, s.inSubkey)

/-- The tag of a subkey. -/
def isSubkeyTag (tag : Str) : Bool := tag = lit "ssb" ∨ tag = lit "sub"

/-- Two lines that say the same about fingerprints. -/
def Alike (f f' : List Str) : Prop :=
  (isKeyTag (f.getD 0 []) = true ∧ isKeyTag (f'.getD 0 []) = true) ∨
    (isSubkeyTag (f.getD 0 []) = true ∧ isSubkeyTag (f'.getD 0 []) = true) ∨ f = f'

theorem isKeyTag_of_isSubkeyTag {tag : Str} (h : isSubkeyTag tag = true) : isKeyTag tag = false := by
  rw [isSubkeyTag, decide_eq_true_eq] at h
  rcases h with rfl | rfl <;> decide

/-- A record `sub` or `ssb` says nothing about fingerprints. -/
theorem describe_of_isSubkeyTag {f : List Str} (h : isSubkeyTag (f.getD 0 []) = true) (row : ColonsRow) (b : Bool) :
    ∃ sn, describe row b f = ({ row with cardSn := sn }, true) := by
  rw [isSubkeyTag, decide_eq_true_eq] at h
  rw [describe]
  rw [if_pos h]
  split_ifs
  · exact ⟨_, rfl⟩
  · exact ⟨row.cardSn, rfl⟩

/-- What a line says about fingerprints depends on the fingerprints so far. -/
theorem view_describe {row row' : ColonsRow} (h : row.view = row'.view) (b : Bool) (f : List Str) :
    (describe row b f).1.view = (describe row' b f).1.view ∧ (describe row b f).2 = (describe row' b f).2 := by
  obtain ⟨hfpr, hsub⟩ := Prod.mk.inj h
  unfold describe
  dsimp only
  split_ifs
  all_goals first
    | exact ⟨h, rfl⟩
    | (unfold addFingerprint; split_ifs <;> exact ⟨by simp [ColonsRow.view, hfpr, hsub], rfl⟩)

theorem view_readRecord {s s' : ColonsState} (h : s.view = s'.view) {f f' : List Str} (hf : Alike f f') :
    (readRecord s f).view = (readRecord s' f').view := by
  obtain ⟨done, current, b⟩ := s
  obtain ⟨done', current', b'⟩ := s'
  obtain ⟨hdone, hcurrent, hb⟩ : done.map ColonsRow.view = done'.map ColonsRow.view ∧
      current.map ColonsRow.view = current'.map ColonsRow.view ∧ b = b' := by
    simpa [ColonsState.view] using h
  subst hb
  have hkey (hk : isKeyTag (f.getD 0 []) = true) (hk' : isKeyTag (f'.getD 0 []) = true) :
      (readRecord ⟨done, current, b⟩ f).view = (readRecord ⟨done', current', b⟩ f').view := by
    have hlist : current.toList.map ColonsRow.view = current'.toList.map ColonsRow.view := by
      cases current <;> cases current' <;> simp_all
    rw [readRecord_of_key hk, readRecord_of_key hk']
    simp [ColonsState.view, hdone, hlist, ColonsRow.view, beginRow]
  rcases hf with ⟨hk, hk'⟩ | ⟨hsub, hsub'⟩ | rfl
  · exact hkey hk hk'
  · have hk := isKeyTag_of_isSubkeyTag hsub
    have hk' := isKeyTag_of_isSubkeyTag hsub'
    cases current with
    | none =>
      obtain rfl : current' = none := by simpa using hcurrent.symm
      rw [readRecord, readRecord, hk, hk']
      simp [ColonsState.view, hdone]
    | some row =>
      obtain ⟨row', rfl, hrow⟩ : ∃ row', current' = some row' ∧ row'.view = row.view := by
        simpa using hcurrent.symm
      obtain ⟨sn, hd⟩ := describe_of_isSubkeyTag hsub row b
      obtain ⟨sn', hd'⟩ := describe_of_isSubkeyTag hsub' row' b
      rw [readRecord_of_not_key hk, readRecord_of_not_key hk', hd, hd']
      have : ({ row with cardSn := sn } : ColonsRow).view = ({ row' with cardSn := sn' } : ColonsRow).view := hrow.symm
      simp [ColonsState.view, hdone, this]
  · by_cases hk : isKeyTag (f.getD 0 []) = true
    · exact hkey hk hk
    · have hk := Bool.eq_false_iff.mpr hk
      cases current with
      | none =>
        obtain rfl : current' = none := by simpa using hcurrent.symm
        rw [readRecord, readRecord, hk]
        simp [ColonsState.view, hdone]
      | some row =>
        obtain ⟨row', rfl, hrow⟩ : ∃ row', current' = some row' ∧ row'.view = row.view := by
          simpa using hcurrent.symm
        obtain ⟨hv, hi⟩ := view_describe hrow.symm b f
        rw [readRecord_of_not_key hk, readRecord_of_not_key hk]
        simp [ColonsState.view, hdone, hv, hi]

theorem view_foldl {lines lines' : List (List Str)} (hlines : List.Forall₂ Alike lines lines') :
    ∀ {s s' : ColonsState}, s.view = s'.view → (lines.foldl readRecord s).view = (lines'.foldl readRecord s').view := by
  induction hlines with
  | nil => exact fun h => h
  | cons hf _ ih => exact fun h => ih (view_readRecord h hf)

/-- What both listings have of an item. -/
inductive SharedItem
  | uid (r : ValueRecord)
  | subkey (fpr : ValueRecord)

def SharedItem.lines : SharedItem → List (List Str)
  | uid r => recordLines (r.fields (lit "uid"))
  | subkey fpr => [[lit "sub"], fpr.fields (lit "fpr")]

def KeyItem.shared : KeyItem → Option SharedItem
  | uid r _ => some (.uid r)
  | subkey k => some (.subkey k.fpr)
  | other _ => none

def KeyItem.lines (item : KeyItem) : List (List Str) := item.records.flatMap recordLines

theorem ListedSubkey.isField_key (k : ListedSubkey) : ∀ f ∈ k.tag :: k.fields, IsField f := by
  have htag : IsField k.tag := by
    rcases k.tag_mem with h | h <;> rw [h] <;> exact isField_of_all (by decide)
  exact List.forall_mem_cons.mpr ⟨htag, k.isField⟩

theorem KeyItem.lines_uid (r : ValueRecord) (h : IsUidText r.value) :
    (KeyItem.uid r h).lines = recordLines (r.fields (lit "uid")) := by
  rw [lines, records, List.flatMap_singleton]

theorem KeyItem.lines_subkey (k : ListedSubkey) :
    (KeyItem.subkey k).lines = [k.tag :: k.fields, k.fpr.fields (lit "fpr")] := by
  rw [lines, records, List.flatMap_cons, List.flatMap_singleton,
    recordLines_of_isField (List.cons_ne_nil _ _) k.isField_key,
    recordLines_fpr k.isFingerprint]
  rfl

theorem KeyItem.lines_other (r : OtherRecord) : (KeyItem.other r).lines = [r.tag :: r.fields] := by
  rw [lines, records, List.flatMap_singleton, recordLines_of_isField (List.cons_ne_nil _ _) r.isField]

/-- Another record has no effect. -/
theorem readRecord_other (r : OtherRecord) (s : ColonsState) : readRecord s (r.tag :: r.fields) = s := by
  have h := r.tag_not_mem
  simp only [List.mem_cons, not_or] at h
  have hk : isKeyTag ((r.tag :: r.fields).getD 0 []) = false := by
    rw [List.getD_cons_zero, isKeyTag, decide_eq_false_iff_not, not_or]
    exact ⟨h.1, h.2.1⟩
  obtain ⟨done, current, b⟩ := s
  cases current with
  | none =>
    rw [readRecord, hk]
    rfl
  | some row => rw [readRecord_of_not_key hk, describe_other]

theorem alike_refl (lines : List (List Str)) : List.Forall₂ Alike lines lines :=
  List.forall₂_same.mpr fun _ _ => .inr (.inr rfl)

theorem view_foldl_item (item : KeyItem) {s s' : ColonsState} (h : s.view = s'.view) :
    (item.lines.foldl readRecord s).view = ((item.shared.toList.flatMap SharedItem.lines).foldl readRecord s').view := by
  cases item with
  | uid r hv =>
    rw [KeyItem.lines_uid, KeyItem.shared, Option.toList_some, List.flatMap_singleton]
    exact view_foldl (alike_refl _) h
  | subkey k =>
    rw [KeyItem.lines_subkey, KeyItem.shared, Option.toList_some, List.flatMap_singleton]
    have hkey : Alike (k.tag :: k.fields) [lit "sub"] := by
      refine .inr (.inl ⟨?_, by decide⟩)
      rw [List.getD_cons_zero, isSubkeyTag, decide_eq_true_eq]
      exact k.tag_mem.symm
    exact view_foldl (.cons hkey (alike_refl _)) h
  | other r =>
    rw [KeyItem.lines_other, List.foldl_cons, readRecord_other]
    exact h

/-- Other records aside, only what both listings have matters. -/
theorem view_foldl_items : ∀ (items : List KeyItem) {s s' : ColonsState}, s.view = s'.view →
    ((items.flatMap KeyItem.lines).foldl readRecord s).view =
      (((items.filterMap KeyItem.shared).flatMap SharedItem.lines).foldl readRecord s').view
  | [], _, _, h => h
  | item :: items, s, s', h => by
    have hitem := view_foldl_item item h
    rw [List.flatMap_cons, List.foldl_append, view_foldl_items items hitem]
    cases hs : item.shared with
    | none => rw [List.filterMap_cons_none hs, Option.toList_none, List.flatMap_nil, List.foldl_nil]
    | some x =>
      rw [List.filterMap_cons_some hs, Option.toList_some, List.flatMap_singleton, List.flatMap_cons, List.foldl_append]

/-! ### Blocks by themselves -/

namespace KeyBlock

def lines (b : KeyBlock) : List (List Str) := b.records.flatMap recordLines

theorem isField_key (b : KeyBlock) : ∀ f ∈ b.tag :: b.fields, IsField f := by
  have htag : IsField b.tag := by
    rcases b.tag_mem with h | h <;> rw [h] <;> exact isField_of_all (by decide)
  exact List.forall_mem_cons.mpr ⟨htag, b.isField⟩

theorem lines_eq (b : KeyBlock) :
    b.lines = (b.tag :: b.fields) :: b.fpr.fields (lit "fpr") :: b.items.flatMap KeyItem.lines := by
  rw [lines, records, List.flatMap_cons, List.flatMap_cons, List.flatMap_assoc,
    recordLines_of_isField (List.cons_ne_nil _ _) b.isField_key,
    recordLines_fpr b.isFingerprint]
  rfl

theorem isKeyTag_tag (b : KeyBlock) : isKeyTag ((b.tag :: b.fields).getD 0 []) = true := by
  rw [List.getD_cons_zero, isKeyTag, decide_eq_true_eq]
  exact b.tag_mem

/-- The blocks of one key in two listings. -/
structure Twin (p q : KeyBlock) : Prop where
  fpr : p.fpr = q.fpr
  items : p.items.filterMap KeyItem.shared = q.items.filterMap KeyItem.shared

theorem Twin.view {p q : KeyBlock} (h : Twin p q) :
    (p.lines.foldl readRecord {}).view = (q.lines.foldl readRecord {}).view := by
  have hkey : Alike (p.tag :: p.fields) (q.tag :: q.fields) := .inl ⟨p.isKeyTag_tag, q.isKeyTag_tag⟩
  have hstart := view_readRecord (s := {}) rfl hkey
  rw [p.lines_eq, q.lines_eq, List.foldl_cons, List.foldl_cons, List.foldl_cons, List.foldl_cons, h.fpr]
  have hfpr := view_readRecord hstart (f := q.fpr.fields (lit "fpr")) (.inr (.inr rfl))
  rw [view_foldl_items p.items hfpr, view_foldl_items q.items rfl, h.items]

end KeyBlock

/-- The rows that have been read. -/
def ColonsState.rows (s : ColonsState) : List ColonsRow := s.done ++ s.current.toList

theorem map_view_rows {s s' : ColonsState} (h : s.view = s'.view) :
    s.rows.map ColonsRow.view = s'.rows.map ColonsRow.view := by
  obtain ⟨hdone, hcurrent, -⟩ : s.done.map ColonsRow.view = s'.done.map ColonsRow.view ∧
      s.current.map ColonsRow.view = s'.current.map ColonsRow.view ∧ s.inSubkey = s'.inSubkey := by
    simpa [ColonsState.view] using h
  have hlist : s.current.toList.map ColonsRow.view = s'.current.toList.map ColonsRow.view := by
    rw [← Option.toList_map, ← Option.toList_map, hcurrent]
  rw [ColonsState.rows, ColonsState.rows, List.map_append, List.map_append, hdone, hlist]

/-! ### The row of a key, and rows of nothing -/

/-- The time of a last update, if there is one, is shorter than a fingerprint. -/
def IsUpdate (v : Str) : Prop := v.length < fingerprintLength

/-- A record of a user ID has at most 21 fields; the nineteenth is a time. -/
structure ValueRecord.IsUserId (r : ValueRecord) : Prop where
  length_rest : r.rest.length ≤ 11
  update : IsUpdate (r.rest.getD 8 [])

namespace KeyBlock

/-- The user IDs are written as GnuPG does. -/
def IsListed (b : KeyBlock) : Prop := ∀ r h, KeyItem.uid r h ∈ b.items → r.IsUserId

/-- A block of the public listing says nothing about tokens. -/
structure IsPublic (b : KeyBlock) : Prop where
  tag : b.tag = lit "pub"
  token : b.token = []
  subkeys : ∀ k, KeyItem.subkey k ∈ b.items → (k.tag :: k.fields).getD 14 [] = []

/-- The row of the key. -/
structure First (b : KeyBlock) (row : ColonsRow) : Prop where
  type : row.type = b.tag
  tokenSn : row.tokenSn = b.token
  fingerprint : row.fingerprint = some b.fpr.value
  cardSn : b.IsPublic → row.cardSn = []

end KeyBlock

/-- A row that begins within a user ID has no fingerprint of a key. -/
def ColonsRow.Junk (row : ColonsRow) : Prop := ∀ v, row.fingerprint = some v → IsUpdate v

/-- In a block, the row of the key comes first. -/
structure InBlock (b : KeyBlock) (s : ColonsState) : Prop where
  current : s.current.isSome = true
  rows : ∃ first rest, s.rows = first :: rest ∧ b.First first ∧ ∀ row ∈ rest, row.Junk

/-- A line that does not disturb a block. -/
structure Harmless (b : KeyBlock) (inSubkey : Bool) (f : List Str) : Prop where
  token : isSubkeyTag (f.getD 0 []) = true → b.IsPublic → f.getD 14 [] = []
  update : inSubkey = false → f.getD 0 [] = lit "fpr" → 9 < f.length → IsUpdate (f.getD 9 [])

theorem tokenState_nil : tokenState [] = ([], false) := by decide

theorem first_describe {b : KeyBlock} {row : ColonsRow} (h : b.First row) {inSubkey : Bool} {f : List Str}
    (hf : Harmless b inSubkey f) : b.First (describe row inSubkey f).1 := by
  unfold describe
  dsimp only
  split_ifs with hsub hsn hfpr huid
  · refine ⟨h.type, h.tokenSn, h.fingerprint, fun hpublic => ?_⟩
    show (tokenState (f.getD 14 [])).1 = []
    rw [hf.token (decide_eq_true hsub) hpublic, tokenState_nil]
  · exact h
  · unfold addFingerprint
    split_ifs
    · exact ⟨h.type, h.tokenSn, h.fingerprint, h.cardSn⟩
    · refine ⟨h.type, h.tokenSn, ?_, h.cardSn⟩
      show row.fingerprint.or _ = _
      rw [h.fingerprint, Option.some_or]
  · exact ⟨h.type, h.tokenSn, h.fingerprint, h.cardSn⟩
  · exact h

theorem junk_describe {b : KeyBlock} {row : ColonsRow} (h : row.Junk) {inSubkey : Bool} {f : List Str}
    (hf : Harmless b inSubkey f) : (describe row inSubkey f).1.Junk := by
  unfold describe
  dsimp only
  split_ifs with hsub hsn hfpr huid
  · exact h
  · exact h
  · unfold addFingerprint
    split_ifs with hin
    · exact h
    · intro v hv
      rcases Option.or_eq_some_iff.mp hv with hv | ⟨-, hv⟩
      · exact h v hv
      · obtain rfl := Option.some.inj hv
        exact hf.update (Bool.eq_false_iff.mpr hin) hfpr.1 hfpr.2
  · exact h
  · exact h

theorem InBlock.readRecord {b : KeyBlock} {s : ColonsState} (h : InBlock b s) {f : List Str}
    (hf : Harmless b s.inSubkey f) : InBlock b (readRecord s f) := by
  obtain ⟨done, current, inSubkey⟩ := s
  obtain ⟨hcurrent, first, rest, hrows, hfirst, hjunk⟩ := h
  obtain ⟨row, rfl⟩ := Option.isSome_iff_exists.mp hcurrent
  by_cases hk : isKeyTag (f.getD 0 []) = true
  · rw [readRecord_of_key hk]
    refine ⟨rfl, first, rest ++ [beginRow (f.getD 0 []) f], ?_, hfirst, ?_⟩
    · show (done ++ [row]) ++ [_] = _
      rw [show done ++ [row] = first :: rest from hrows]
      rfl
    · rw [List.forall_mem_append, List.forall_mem_singleton]
      exact ⟨hjunk, fun v hv => absurd hv (by simp [beginRow])⟩
  · rw [readRecord_of_not_key (Bool.eq_false_iff.mpr hk)]
    refine ⟨rfl, ?_⟩
    cases done with
    | nil =>
      obtain ⟨rfl, rfl⟩ := List.cons.inj hrows
      exact ⟨_, [], rfl, first_describe hfirst hf, hjunk⟩
    | cons d done =>
      obtain ⟨rfl, rfl⟩ := List.cons.inj hrows
      have hjunk : ∀ x ∈ done ++ [row], x.Junk := hjunk
      rw [List.forall_mem_append, List.forall_mem_singleton] at hjunk
      refine ⟨d, done ++ [_], rfl, hfirst, ?_⟩
      rw [List.forall_mem_append, List.forall_mem_singleton]
      exact ⟨hjunk.1, junk_describe hjunk.2 hf⟩

theorem InBlock.foldl {b : KeyBlock} : ∀ {lines : List (List Str)} {s : ColonsState}, InBlock b s →
    (∀ f ∈ lines, ∀ inSubkey, Harmless b inSubkey f) → InBlock b (lines.foldl GPGService.readRecord s)
  | [], _, h, _ => h
  | f :: lines, s, h, hlines => by
    obtain ⟨hf, hlines⟩ := List.forall_mem_cons.mp hlines
    rw [List.foldl_cons]
    exact (h.readRecord (hf s.inSubkey)).foldl hlines

/-- What a user ID is read as is harmless. -/
theorem harmless_of_uidLine {b : KeyBlock} {r : ValueRecord} (hr : r.IsUserId) {f : List Str} (h : UidLine r f)
    (inSubkey : Bool) : Harmless b inSubkey f := by
  rcases h with htag | ⟨hlen, hvalue⟩
  · constructor
    · intro hsub
      rw [htag] at hsub
      exact absurd hsub (by decide)
    · intro _ hfpr
      rw [htag] at hfpr
      exact absurd hfpr (by decide)
  · constructor
    · intro _ _
      have := hr.length_rest
      rw [List.getD_eq_getElem?_getD, List.getElem?_eq_none (by omega)]
      rfl
    · intro _ _ h9
      rw [hvalue h9]
      exact hr.update

theorem InBlock.foldl_item {b : KeyBlock} (hb : b.IsListed) {item : KeyItem} (hitem : item ∈ b.items) {s : ColonsState}
    (h : InBlock b s) : InBlock b (item.lines.foldl GPGService.readRecord s) := by
  cases item with
  | uid r hv =>
    rw [KeyItem.lines_uid]
    exact h.foldl fun f hf => harmless_of_uidLine (hb r hv hitem) (uidLine_of_mem_recordLines hv hf)
  | subkey k =>
    rw [KeyItem.lines_subkey, List.foldl_cons, List.foldl_cons, List.foldl_nil]
    have hsub : isSubkeyTag ((k.tag :: k.fields).getD 0 []) = true := by
      rw [List.getD_cons_zero, isSubkeyTag, decide_eq_true_eq]
      exact k.tag_mem.symm
    have hkey : Harmless b s.inSubkey (k.tag :: k.fields) := by
      refine ⟨fun _ hpublic => hpublic.subkeys k hitem, fun _ hfpr => ?_⟩
      rw [hfpr] at hsub
      exact absurd hsub (by decide)
    -- The fingerprint is one of a subkey.
    have hin : (GPGService.readRecord s (k.tag :: k.fields)).inSubkey = true := by
      obtain ⟨done, current, inSubkey⟩ := s
      obtain ⟨row, rfl⟩ := Option.isSome_iff_exists.mp h.current
      obtain ⟨sn, hd⟩ := describe_of_isSubkeyTag hsub row inSubkey
      rw [readRecord_of_not_key (isKeyTag_of_isSubkeyTag hsub), hd]
    refine (h.readRecord hkey).readRecord ⟨fun hsub => ?_, fun hfalse => ?_⟩
    · have htag : isSubkeyTag (lit "fpr") = true := hsub
      exact absurd htag (by decide)
    · rw [hin] at hfalse
      cases hfalse
  | other r =>
    rw [KeyItem.lines_other, List.foldl_cons, readRecord_other]
    exact h

theorem InBlock.foldl_items {b : KeyBlock} (hb : b.IsListed) : ∀ {items : List KeyItem} {s : ColonsState},
    (∀ item ∈ items, item ∈ b.items) → InBlock b s →
      InBlock b ((items.flatMap KeyItem.lines).foldl GPGService.readRecord s)
  | [], _, _, h => h
  | item :: items, s, hitems, h => by
    obtain ⟨hitem, hitems⟩ := List.forall_mem_cons.mp hitems
    rw [List.flatMap_cons, List.foldl_append]
    exact InBlock.foldl_items hb hitems (h.foldl_item hb hitem)

/-- After a block, the row of its key is the first of its rows. -/
theorem inBlock_lines {b : KeyBlock} (hb : b.IsListed) : InBlock b (b.lines.foldl readRecord {}) := by
  have hfpr : isKeyTag ((b.fpr.fields (lit "fpr")).getD 0 []) = false := isKeyTag_fpr
  rw [b.lines_eq, List.foldl_cons, List.foldl_cons, readRecord_of_key b.isKeyTag_tag, readRecord_of_not_key hfpr,
    describe_fpr]
  refine InBlock.foldl_items hb (fun _ h => h) ⟨rfl, _, [], rfl, ⟨rfl, rfl, rfl, fun hpublic => ?_⟩, by simp⟩
  show (tokenState b.token).1 = []
  rw [hpublic.token, tokenState_nil]

/-! ### The rows of a listing -/

/-- The state with rows before it. -/
def ColonsState.after (rows : List ColonsRow) (s : ColonsState) : ColonsState := { s with done := rows ++ s.done }

theorem readRecord_after (rows : List ColonsRow) (s : ColonsState) (f : List Str) :
    readRecord (s.after rows) f = (readRecord s f).after rows := by
  obtain ⟨done, current, inSubkey⟩ := s
  by_cases hk : isKeyTag (f.getD 0 []) = true
  · rw [readRecord_of_key hk, readRecord_of_key hk]
    simp [ColonsState.after, List.append_assoc]
  · cases current with
    | none =>
      rw [readRecord, readRecord, if_neg hk, if_neg hk]
      rfl
    | some row =>
      rw [readRecord_of_not_key (Bool.eq_false_iff.mpr hk), ColonsState.after,
        readRecord_of_not_key (Bool.eq_false_iff.mpr hk)]
      rfl

theorem foldl_after (rows : List ColonsRow) : ∀ (lines : List (List Str)) (s : ColonsState),
    lines.foldl readRecord (s.after rows) = (lines.foldl readRecord s).after rows
  | [], _ => rfl
  | f :: lines, s => by
    rw [List.foldl_cons, readRecord_after, foldl_after rows lines, List.foldl_cons]

theorem rows_after (rows : List ColonsRow) (s : ColonsState) : (s.after rows).rows = rows ++ s.rows :=
  List.append_assoc _ _ _

/-- The rows of a block by itself. -/
def KeyBlock.rows (b : KeyBlock) : List ColonsRow := (b.lines.foldl readRecord {}).rows

/-- A block adds its own rows, whatever was there before. -/
theorem rows_foldl_block (b : KeyBlock) (s : ColonsState) : (b.lines.foldl readRecord s).rows = s.rows ++ b.rows := by
  have hfirst : readRecord s (b.tag :: b.fields) = (readRecord {} (b.tag :: b.fields)).after s.rows := by
    rw [readRecord_of_key b.isKeyTag_tag, readRecord_of_key b.isKeyTag_tag]
    simp [ColonsState.after, ColonsState.rows]
  rw [KeyBlock.rows, b.lines_eq, List.foldl_cons, hfirst, foldl_after, rows_after]
  rfl

theorem rows_foldl_blocks : ∀ (blocks : List KeyBlock) (s : ColonsState),
    ((blocks.flatMap KeyBlock.lines).foldl readRecord s).rows = s.rows ++ blocks.flatMap KeyBlock.rows
  | [], s => by simp
  | b :: blocks, s => by
    rw [List.flatMap_cons, List.foldl_append, rows_foldl_blocks blocks, rows_foldl_block, List.flatMap_cons,
      List.append_assoc]

theorem foldl_preamble_lines : ∀ (rs : List OtherRecord) (s : ColonsState),
    ((rs.map fun r => r.tag :: r.fields).flatMap recordLines).foldl readRecord s = s
  | [], _ => rfl
  | r :: rs, s => by
    rw [List.map_cons, List.flatMap_cons, recordLines_of_isField (List.cons_ne_nil _ _) r.isField,
      List.singleton_append, List.foldl_cons, readRecord_other, foldl_preamble_lines rs]

/-- The rows of a listing are those of its blocks. -/
theorem parseColonsKeys_eq {L : KeyListing} {data : Bytes} (hdata : Gpg.decodeOutput data = L.text) :
    parseColonsKeys data = (L.blocks.flatMap KeyBlock.rows).filter fun row => row.fingerprint.getD [] ≠ [] := by
  have hrows := rows_foldl_blocks L.blocks {}
  rw [show ({} : ColonsState).rows = [] from rfl, List.nil_append] at hrows
  rw [← hrows]
  unfold parseColonsKeys
  dsimp only
  rw [hdata, KeyListing.text, foldl_splitlines, KeyListing.records, List.flatMap_append, List.foldl_append,
    foldl_preamble_lines, List.flatMap_assoc]
  rfl

end GPGService
end GpgMeister
