/-
# Listings of keys

A listing as GnuPG writes it: blocks, each of a key, its fingerprint, and then
its user IDs and its subkeys with theirs. A record is a line of fields between
colons; a user ID is any text without a colon and without a line feed.

* `attributed_iff`: exactly when `_parse_colons_keys` gives each block its row,
  with all that belongs to it and nothing else. GnuPG ends a record with a line
  feed; the parser ends one at every line boundary.
-/
import GpgMeister.Services.ColonListing

namespace GpgMeister
namespace GPGService

/-! ### Records -/

/-- A field has no colon and does not end a line. -/
def IsField (f : Str) : Prop := ∀ c ∈ f, c ≠ ch ':' ∧ isLineBoundary c = false

/-- The text of a user ID has no colon and no line feed. -/
def IsUidText (t : Str) : Prop := ∀ c ∈ t, c ≠ ch ':' ∧ c ≠ lineFeed

/-- A record with a value in its tenth field, but for its tag. -/
structure ValueRecord where
  middle : List Str
  value : Str
  rest : List Str
  middle_length : middle.length = 8
  isField : ∀ f ∈ middle ++ rest, IsField f

def ValueRecord.fields (r : ValueRecord) (tag : Str) : List Str := tag :: (r.middle ++ r.value :: r.rest)

/-- A record `sub` or `ssb` and the fingerprint after it. -/
structure ListedSubkey where
  tag : Str
  fields : List Str
  fpr : ValueRecord
  tag_mem : tag = lit "sub" ∨ tag = lit "ssb"
  isField : ∀ f ∈ fields, IsField f
  isFingerprint : IsField fpr.value

/-- A record of another type. -/
structure OtherRecord where
  tag : Str
  fields : List Str
  tag_not_mem : tag ∉ [lit "pub", lit "sec", lit "sub", lit "ssb", lit "fpr", lit "uid"]
  isField : ∀ f ∈ tag :: fields, IsField f

inductive KeyItem
  | uid (r : ValueRecord) (isText : IsUidText r.value)
  | subkey (k : ListedSubkey)
  | other (r : OtherRecord)

namespace KeyItem

def records : KeyItem → List (List Str)
  | uid r _ => [r.fields (lit "uid")]
  | subkey k => [k.tag :: k.fields, k.fpr.fields (lit "fpr")]
  | other r => [r.tag :: r.fields]

/-- The text of a user ID, if there is any. -/
def uids : KeyItem → List Str
  | uid r _ => if r.value = [] then [] else [r.value]
  | _ => []

def subkeys : KeyItem → List Str
  | subkey k => [k.fpr.value]
  | _ => []

/-- The serial number of the token of a subkey. -/
def serials : KeyItem → List Str
  | subkey k => [(tokenState ((k.tag :: k.fields).getD 14 [])).1]
  | _ => []

end KeyItem

/-- A record `pub` or `sec`, the fingerprint after it, and the items. -/
structure KeyBlock where
  tag : Str
  fields : List Str
  fpr : ValueRecord
  items : List KeyItem
  tag_mem : tag = lit "pub" ∨ tag = lit "sec"
  isField : ∀ f ∈ fields, IsField f
  isFingerprint : IsField fpr.value
  fingerprint_ne : fpr.value ≠ []

/-- The first of these that is not empty. -/
def firstSerial (serials : List Str) : Str := (serials.find? (· ≠ [])).getD []

namespace KeyBlock

def records (b : KeyBlock) : List (List Str) :=
  (b.tag :: b.fields) :: b.fpr.fields (lit "fpr") :: b.items.flatMap KeyItem.records

/-- What the field of a record `sec` for the token says. -/
def token (b : KeyBlock) : Str := (b.tag :: b.fields).getD 14 []

/-- The row of a block: what is in it and nothing else. -/
def row (b : KeyBlock) : ColonsRow :=
  { beginRow b.tag (b.tag :: b.fields) with
    fingerprint := some b.fpr.value
    uids := b.items.flatMap KeyItem.uids
    subkeys := b.items.flatMap KeyItem.subkeys
    cardSn := firstSerial ((tokenState b.token).1 :: b.items.flatMap KeyItem.serials) }

end KeyBlock

/-- A listing; what comes before the first key is about the keyring. -/
structure KeyListing where
  preamble : List OtherRecord
  blocks : List KeyBlock

namespace KeyListing

def records (L : KeyListing) : List (List Str) :=
  L.preamble.map (fun r => r.tag :: r.fields) ++ L.blocks.flatMap KeyBlock.records

/-- A record is a line. -/
def recordLine (fields : List Str) : Str := [ch ':'].intercalate fields ++ [lineFeed]

def text (L : KeyListing) : Str := L.records.flatMap recordLine

/-- The user IDs. -/
def uids (L : KeyListing) : List Str := L.blocks.flatMap fun b => b.items.flatMap KeyItem.uids

end KeyListing

/-! ### One record -/

/-- What a record says about the key, or the subkey, that came last. -/
def describe (row : ColonsRow) (inSubkey : Bool) (fields : List Str) : ColonsRow × Bool :=
  let recType := fields.getD 0 []
  if recType = lit "ssb" ∨ recType = lit "sub" then
    (if row.cardSn = [] then { row with cardSn := (tokenState (fields.getD 14 [])).1 } else row, true)
  else if recType = lit "fpr" ∧ 9 < fields.length then (addFingerprint inSubkey row (fields.getD 9 []), inSubkey)
  else if recType = lit "uid" ∧ 9 < fields.length ∧ fields.getD 9 [] ≠ [] then
    ({ row with uids := row.uids ++ [fields.getD 9 []] }, inSubkey)
  else (row, inSubkey)

/-- The tag of a record that begins a row. -/
def isKeyTag (tag : Str) : Bool := tag = lit "pub" ∨ tag = lit "sec"

theorem isKeyTag_fpr : isKeyTag (lit "fpr") = false := by decide

theorem isKeyTag_uid : isKeyTag (lit "uid") = false := by decide

/-- The body of the loop, after the line has been cut into fields. -/
def readRecord (s : ColonsState) (fields : List Str) : ColonsState :=
  if isKeyTag (fields.getD 0 []) then
    { done := s.done ++ s.current.toList, current := some (beginRow (fields.getD 0 []) fields), inSubkey := false }
  else
    match s.current with
    | none => s
    | some row =>
      { done := s.done, current := some (describe row s.inSubkey fields).1, inSubkey := (describe row s.inSubkey fields).2 }

/-- A record `pub` or `sec` begins a row. -/
theorem readRecord_of_key {fields : List Str} (h : isKeyTag (fields.getD 0 []) = true) (s : ColonsState) :
    readRecord s fields = ⟨s.done ++ s.current.toList, some (beginRow (fields.getD 0 []) fields), false⟩ := by
  rw [readRecord, if_pos h]

/-- Another one describes the row. -/
theorem readRecord_of_not_key {fields : List Str} (h : isKeyTag (fields.getD 0 []) = false) (done : List ColonsRow)
    (row : ColonsRow) (b : Bool) :
    readRecord ⟨done, some row, b⟩ fields = ⟨done, some (describe row b fields).1, (describe row b fields).2⟩ := by
  rw [readRecord, h]
  rfl

theorem colonsLine_eq (s : ColonsState) (line : Str) : colonsLine s line = readRecord s (line.splitOn (ch ':')) := by
  obtain ⟨done, current, b⟩ := s
  unfold colonsLine readRecord isKeyTag
  simp only [decide_eq_true_eq]
  by_cases hkey : (line.splitOn (ch ':')).getD 0 [] = lit "pub" ∨ (line.splitOn (ch ':')).getD 0 [] = lit "sec"
  · rw [if_pos hkey, if_pos hkey]
  · rw [if_neg hkey, if_neg hkey]
    cases current with
    | none => rfl
    | some row =>
      unfold describe
      dsimp only
      split_ifs <;> rfl

namespace ValueRecord

variable (r : ValueRecord) (tag : Str)

theorem getD_fields : (r.fields tag).getD 9 [] = r.value := by
  have h := r.middle_length
  rw [fields, List.getD_cons_succ, List.getD_eq_getElem?_getD, List.getElem?_append_right (by omega), h]
  rfl

theorem lt_length_fields : 9 < (r.fields tag).length := by
  have h := r.middle_length
  rw [fields, List.length_cons, List.length_append, List.length_cons]
  omega

end ValueRecord

variable {row : ColonsRow} {b : Bool}

theorem firstSerial_cons (a : Str) (l : List Str) : firstSerial (a :: l) = if a = [] then firstSerial l else a := by
  unfold firstSerial
  by_cases h : a = []
  · simp [h]
  · simp [h]

@[simp] theorem firstSerial_singleton (a : Str) : firstSerial [a] = a := by
  rw [firstSerial_cons]
  split_ifs with h
  · rw [h]
    rfl
  · rfl

/-- A record `sub` or `ssb` may have the serial number of the token. -/
theorem describe_subkey {tag : Str} (h : tag = lit "sub" ∨ tag = lit "ssb") (fields : List Str) :
    describe row b (tag :: fields) =
      ({ row with cardSn := firstSerial [row.cardSn, (tokenState ((tag :: fields).getD 14 [])).1] }, true) := by
  rw [describe, List.getD_cons_zero]
  rw [if_pos h.symm, firstSerial_cons, firstSerial_singleton]
  split_ifs <;> rfl

theorem describe_fpr (r : ValueRecord) : describe row b (r.fields (lit "fpr")) = (addFingerprint b row r.value, b) := by
  have htag : (r.fields (lit "fpr")).getD 0 [] = lit "fpr" := rfl
  rw [describe]
  rw [htag, if_neg (by decide), if_pos ⟨rfl, r.lt_length_fields _⟩, r.getD_fields]

theorem describe_uid (r : ValueRecord) :
    describe row b (r.fields (lit "uid")) =
      ({ row with uids := row.uids ++ if r.value = [] then [] else [r.value] }, b) := by
  have htag : (r.fields (lit "uid")).getD 0 [] = lit "uid" := rfl
  rw [describe]
  have hfpr : ¬ (lit "uid" = lit "fpr" ∧ 9 < (r.fields (lit "uid")).length) := fun h => absurd h.1 (by decide)
  rw [htag, if_neg (by decide), if_neg hfpr, r.getD_fields]
  by_cases h : r.value = []
  · rw [if_neg fun hc => hc.2.2 h, if_pos h, List.append_nil]
  · rw [if_pos ⟨rfl, r.lt_length_fields _, h⟩, if_neg h]

theorem describe_other (r : OtherRecord) : describe row b (r.tag :: r.fields) = (row, b) := by
  have h := r.tag_not_mem
  simp only [List.mem_cons, List.not_mem_nil, or_false, not_or] at h
  rw [describe, List.getD_cons_zero]
  rw [if_neg (by tauto), if_neg (by tauto), if_neg (by tauto)]

/-! ### Blocks -/

/-- The row with what belongs to an item. -/
def ColonsRow.addItem (row : ColonsRow) (uids subkeys serials : List Str) : ColonsRow :=
  { row with
    uids := row.uids ++ uids
    subkeys := row.subkeys ++ subkeys
    cardSn := firstSerial (row.cardSn :: serials) }

theorem ColonsRow.addItem_nil (row : ColonsRow) : row.addItem [] [] [] = row := by
  simp [addItem]

theorem firstSerial_append (a : Str) (l m : List Str) :
    firstSerial (firstSerial (a :: l) :: m) = firstSerial (a :: (l ++ m)) := by
  induction l generalizing a with
  | nil => rw [firstSerial_singleton, List.nil_append]
  | cons c l ih =>
    rw [firstSerial_cons a (c :: l), List.cons_append, firstSerial_cons a]
    split_ifs with h
    · rw [ih]
    · rw [firstSerial_cons, if_neg h]

theorem ColonsRow.addItem_addItem (row : ColonsRow) (u k s u' k' s' : List Str) :
    (row.addItem u k s).addItem u' k' s' = row.addItem (u ++ u') (k ++ k') (s ++ s') := by
  simp [addItem, firstSerial_append, List.append_assoc]

/-- The records of an item describe the key that is being read. -/
theorem foldl_item (done : List ColonsRow) (row : ColonsRow) (b : Bool) (item : KeyItem) :
    ∃ b', item.records.foldl readRecord ⟨done, some row, b⟩ =
      ⟨done, some (row.addItem item.uids item.subkeys item.serials), b'⟩ := by
  cases item with
  | uid r h =>
    refine ⟨b, ?_⟩
    have htag : isKeyTag ((r.fields (lit "uid")).getD 0 []) = false := isKeyTag_uid
    rw [KeyItem.records, List.foldl_cons, List.foldl_nil, readRecord_of_not_key htag, describe_uid]
    simp [ColonsRow.addItem, KeyItem.uids, KeyItem.subkeys, KeyItem.serials]
  | subkey k =>
    refine ⟨true, ?_⟩
    have htag : isKeyTag ((k.tag :: k.fields).getD 0 []) = false := by
      rcases k.tag_mem with h | h <;> rw [List.getD_cons_zero, h] <;> decide
    have hfpr : isKeyTag ((k.fpr.fields (lit "fpr")).getD 0 []) = false := isKeyTag_fpr
    rw [KeyItem.records, List.foldl_cons, List.foldl_cons, List.foldl_nil, readRecord_of_not_key htag,
      describe_subkey k.tag_mem,
      readRecord_of_not_key hfpr, describe_fpr]
    simp [ColonsRow.addItem, KeyItem.uids, KeyItem.subkeys, KeyItem.serials, addFingerprint]
  | other r =>
    refine ⟨b, ?_⟩
    have htag : isKeyTag ((r.tag :: r.fields).getD 0 []) = false := by
      have h := r.tag_not_mem
      simp only [List.mem_cons, not_or] at h
      rw [List.getD_cons_zero, isKeyTag, decide_eq_false_iff_not, not_or]
      exact ⟨h.1, h.2.1⟩
    rw [KeyItem.records, List.foldl_cons, List.foldl_nil, readRecord_of_not_key htag, describe_other]
    simp [ColonsRow.addItem, KeyItem.uids, KeyItem.subkeys, KeyItem.serials]

theorem foldl_items (done : List ColonsRow) : ∀ (items : List KeyItem) (row : ColonsRow) (b : Bool),
    ∃ b', (items.flatMap KeyItem.records).foldl readRecord ⟨done, some row, b⟩ =
      ⟨done, some (row.addItem (items.flatMap KeyItem.uids) (items.flatMap KeyItem.subkeys)
        (items.flatMap KeyItem.serials)), b'⟩
  | [], row, b => ⟨b, by rw [List.flatMap_nil, List.foldl_nil, List.flatMap_nil, List.flatMap_nil, List.flatMap_nil,
      ColonsRow.addItem_nil]⟩
  | item :: items, row, b => by
    obtain ⟨b1, h1⟩ := foldl_item done row b item
    obtain ⟨b2, h2⟩ := foldl_items done items (row.addItem item.uids item.subkeys item.serials) b1
    refine ⟨b2, ?_⟩
    rw [List.flatMap_cons, List.foldl_append, h1, h2, ColonsRow.addItem_addItem, List.flatMap_cons, List.flatMap_cons,
      List.flatMap_cons]

/-- A block adds its row. -/
theorem foldl_block (k : KeyBlock) (s : ColonsState) :
    ∃ b', k.records.foldl readRecord s = ⟨s.done ++ s.current.toList, some k.row, b'⟩ := by
  have hkey : isKeyTag ((k.tag :: k.fields).getD 0 []) = true := by
    rw [List.getD_cons_zero, isKeyTag, decide_eq_true_eq]
    exact k.tag_mem
  obtain ⟨b', h⟩ := foldl_items (s.done ++ s.current.toList) k.items
    { beginRow k.tag (k.tag :: k.fields) with fingerprint := some k.fpr.value } false
  refine ⟨b', ?_⟩
  have hfpr : isKeyTag ((k.fpr.fields (lit "fpr")).getD 0 []) = false := isKeyTag_fpr
  rw [KeyBlock.records, List.foldl_cons, List.foldl_cons, readRecord_of_key hkey, readRecord_of_not_key hfpr,
    describe_fpr]
  exact h

/-- Blocks add their rows, in order. -/
theorem foldl_blocks : ∀ (blocks : List KeyBlock) (s : ColonsState),
    ((blocks.flatMap KeyBlock.records).foldl readRecord s).done ++
        ((blocks.flatMap KeyBlock.records).foldl readRecord s).current.toList =
      s.done ++ s.current.toList ++ blocks.map KeyBlock.row
  | [], s => by simp
  | k :: blocks, s => by
    obtain ⟨b', h⟩ := foldl_block k s
    rw [List.flatMap_cons, List.foldl_append, foldl_blocks blocks, h, List.map_cons]
    simp

/-- What comes before the first key has no effect. -/
theorem foldl_preamble : ∀ rs : List OtherRecord,
    (rs.map fun r => r.tag :: r.fields).foldl readRecord {} = {}
  | [] => rfl
  | r :: rs => by
    have htag : ¬ isKeyTag ((r.tag :: r.fields).getD 0 []) = true := by
      have h := r.tag_not_mem
      simp only [List.mem_cons, not_or] at h
      rw [List.getD_cons_zero, isKeyTag, decide_eq_true_eq, not_or]
      exact ⟨h.1, h.2.1⟩
    rw [List.map_cons, List.foldl_cons, readRecord, if_neg htag]
    exact foldl_preamble rs

/-! ### Lines -/

theorem mem_intercalate {x c : CodePoint} : ∀ {ls : List Str} {l : Str}, l ∈ ls → c ∈ l → c ∈ [x].intercalate ls
  | [], _, h, _ => absurd h List.not_mem_nil
  | [l'], l, h, hc => by
    rw [List.mem_singleton.mp h] at hc
    rwa [List.intercalate_singleton]
  | l' :: l'' :: ls, l, h, hc => by
    rw [List.intercalate_cons_cons, List.mem_append, List.mem_append]
    rcases List.mem_cons.mp h with rfl | h
    · exact .inl (.inl hc)
    · exact .inr (mem_intercalate h hc)

/-- A record whose fields have no colon is read as what it is. -/
theorem splitOn_recordLine {fields : List Str} (hne : fields ≠ []) (h : ∀ f ∈ fields, ch ':' ∉ f) :
    ([ch ':'].intercalate fields).splitOn (ch ':') = fields := List.splitOn_intercalate _ h hne

/-- Lines without a boundary within are the lines of a text. -/
theorem splitlines_flatMap_line : ∀ {ls : List Str}, (∀ l ∈ ls, ∀ c ∈ l, isLineBoundary c = false) →
    splitlines (ls.flatMap (· ++ [lineFeed])) = ls
  | [], _ => rfl
  | l :: ls, h => by
    obtain ⟨hl, hls⟩ := List.forall_mem_cons.mp h
    rw [List.flatMap_cons, List.append_assoc, List.singleton_append, splitlines_append_lineFeed, splitlines_line hl,
      splitlines_flatMap_line hls]
    rfl

/-- A field of a listing has no colon, and no line boundary unless a user ID
has one. -/
structure Cuttable (fields : List Str) (uids : List Str) : Prop where
  ne_nil : fields ≠ []
  no_colon : ∀ f ∈ fields, ch ':' ∉ f
  no_boundary : ∀ f ∈ fields, (∀ c ∈ f, isLineBoundary c = false) ∨ f ∈ uids

theorem cuttable_of_isField {fields : List Str} (hne : fields ≠ []) (h : ∀ f ∈ fields, IsField f) :
    Cuttable fields [] where
  ne_nil := hne
  no_colon f hf hc := (h f hf _ hc).1 rfl
  no_boundary f hf := .inl fun c hc => (h f hf c hc).2

theorem isField_of_all {s : Str} (h : s.all (fun c => c ≠ ch ':' && ! isLineBoundary c) = true) : IsField s := by
  intro c hc
  have hall := List.all_eq_true.mp h c hc
  simpa using hall

theorem isField_fpr {r : ValueRecord} (h : IsField r.value) : ∀ f ∈ r.fields (lit "fpr"), IsField f := by
  intro f hf
  have htag : IsField (lit "fpr") := isField_of_all (by decide)
  simp only [ValueRecord.fields, List.mem_cons, List.mem_append] at hf
  rcases hf with rfl | hf | rfl | hf
  · exact htag
  · exact r.isField f (List.mem_append_left _ hf)
  · exact h
  · exact r.isField f (List.mem_append_right _ hf)

theorem cuttable_item (item : KeyItem) : ∀ fields ∈ item.records, Cuttable fields item.uids := by
  have hmono {fields : List Str} (h : Cuttable fields []) (uids : List Str) : Cuttable fields uids :=
    ⟨h.ne_nil, h.no_colon, fun f hf => (h.no_boundary f hf).imp_right fun hm => absurd hm List.not_mem_nil⟩
  cases item with
  | uid r h =>
    intro fields hfields
    rw [List.mem_singleton.mp hfields]
    have htag : IsField (lit "uid") := isField_of_all (by decide)
    have hvalue : (∀ c ∈ r.value, isLineBoundary c = false) ∨ r.value ∈ (KeyItem.uid r h).uids := by
      by_cases hnil : r.value = []
      · left
        rw [hnil]
        simp
      · right
        simp [KeyItem.uids, hnil]
    have hcases : ∀ f ∈ r.fields (lit "uid"), IsField f ∨ f = r.value := by
      intro f hf
      simp only [ValueRecord.fields, List.mem_cons, List.mem_append] at hf
      rcases hf with rfl | hf | rfl | hf
      · exact .inl htag
      · exact .inl (r.isField f (List.mem_append_left _ hf))
      · exact .inr rfl
      · exact .inl (r.isField f (List.mem_append_right _ hf))
    refine ⟨List.cons_ne_nil _ _, fun f hf hc => ?_, fun f hf => ?_⟩
    · rcases hcases f hf with hfield | rfl
      · exact (hfield _ hc).1 rfl
      · exact (h _ hc).1 rfl
    · rcases hcases f hf with hfield | rfl
      · exact .inl fun c hc => (hfield c hc).2
      · exact hvalue
  | subkey k =>
    have htag : IsField k.tag := by
      rcases k.tag_mem with h | h <;> rw [h] <;> exact isField_of_all (by decide)
    intro fields hfields
    simp only [KeyItem.records, List.mem_cons, List.not_mem_nil, or_false] at hfields
    rcases hfields with rfl | rfl
    · exact hmono (cuttable_of_isField (List.cons_ne_nil _ _) (List.forall_mem_cons.mpr ⟨htag, k.isField⟩)) _
    · exact hmono (cuttable_of_isField (List.cons_ne_nil _ _) (isField_fpr k.isFingerprint)) _
  | other r =>
    intro fields hfields
    rw [List.mem_singleton.mp hfields]
    exact hmono (cuttable_of_isField (List.cons_ne_nil _ _) r.isField) _

theorem Cuttable.mono {fields uids uids' : List Str} (h : Cuttable fields uids) (hsub : uids ⊆ uids') :
    Cuttable fields uids' :=
  ⟨h.ne_nil, h.no_colon, fun f hf => (h.no_boundary f hf).imp_right fun hm => hsub hm⟩

theorem cuttable_listing (L : KeyListing) : ∀ fields ∈ L.records, Cuttable fields L.uids := by
  intro fields hfields
  rcases List.mem_append.mp hfields with h | h
  · obtain ⟨r, -, rfl⟩ := List.mem_map.mp h
    exact (cuttable_of_isField (List.cons_ne_nil _ _) r.isField).mono (List.nil_subset _)
  · obtain ⟨k, hk, hfields⟩ := List.mem_flatMap.mp h
    have htag : IsField k.tag := by
      rcases k.tag_mem with h | h <;> rw [h] <;> exact isField_of_all (by decide)
    simp only [KeyBlock.records, List.mem_cons] at hfields
    rcases hfields with rfl | rfl | hitem
    · have hkey := cuttable_of_isField (List.cons_ne_nil _ _) (List.forall_mem_cons.mpr ⟨htag, k.isField⟩)
      exact hkey.mono (List.nil_subset _)
    · exact (cuttable_of_isField (List.cons_ne_nil _ _) (isField_fpr k.isFingerprint)).mono (List.nil_subset _)
    · obtain ⟨item, hi, hfields⟩ := List.mem_flatMap.mp hitem
      refine (cuttable_item item fields hfields).mono fun uid huid => ?_
      exact List.mem_flatMap.mpr ⟨k, hk, List.mem_flatMap.mpr ⟨item, hi, huid⟩⟩

/-! ### The rows -/

/-- Without a line boundary in a user ID, the lines are the records. -/
theorem parseColonsKeys_of_noBoundary {L : KeyListing} {data : Bytes} (hdata : Gpg.decodeOutput data = L.text)
    (h : ∀ uid ∈ L.uids, ∀ c ∈ uid, isLineBoundary c = false) : parseColonsKeys data = L.blocks.map KeyBlock.row := by
  have hline : ∀ l ∈ L.records.map [ch ':'].intercalate, ∀ c ∈ l, isLineBoundary c = false := by
    intro l hl c hc
    obtain ⟨fields, hfields, rfl⟩ := List.mem_map.mp hl
    rcases mem_of_mem_intercalate hc with rfl | ⟨f, hf, hcf⟩
    · decide
    · rcases (cuttable_listing L fields hfields).no_boundary f hf with hno | huid
      · exact hno c hcf
      · exact h f huid c hcf
  have htext : L.text = (L.records.map [ch ':'].intercalate).flatMap (· ++ [lineFeed]) := by
    rw [KeyListing.text, List.flatMap_map]
    rfl
  have hfold (s : ColonsState) : (L.records.map [ch ':'].intercalate).foldl colonsLine s =
      L.records.foldl readRecord s := by
    rw [List.foldl_map]
    refine List.foldl_ext _ _ _ fun s fields hfields => ?_
    have hcut := cuttable_listing L fields hfields
    rw [colonsLine_eq, splitOn_recordLine hcut.ne_nil hcut.no_colon]
  have hrows := foldl_blocks L.blocks {}
  unfold parseColonsKeys
  dsimp only
  rw [hdata, htext, splitlines_flatMap_line hline, hfold, KeyListing.records, List.foldl_append, foldl_preamble, hrows]
  refine List.filter_eq_self.mpr fun row hrow => ?_
  obtain ⟨k, -, rfl⟩ := List.mem_map.mp hrow
  exact decide_eq_true k.fingerprint_ne

/-- A row whose user IDs do not end a line. -/
def ColonsRow.Whole (row : ColonsRow) : Prop := ∀ uid ∈ row.uids, ∀ c ∈ uid, isLineBoundary c = false

theorem whole_describe {row : ColonsRow} (h : row.Whole) (b : Bool) {fields : List Str}
    (hfields : ∀ f ∈ fields, ∀ c ∈ f, isLineBoundary c = false) : (describe row b fields).1.Whole := by
  have hvalue : ∀ c ∈ fields.getD 9 [], isLineBoundary c = false := by
    rw [List.getD_eq_getElem?_getD]
    cases hf : fields[9]? with
    | none => simp
    | some f => exact hfields f (List.mem_of_getElem? hf)
  unfold describe
  dsimp only
  split_ifs
  · exact h
  · exact h
  · unfold addFingerprint
    split_ifs <;> exact h
  · intro uid huid
    rcases List.mem_append.mp huid with huid | huid
    · exact h uid huid
    · rw [List.mem_singleton.mp huid]
      exact hvalue
  · exact h

/-- No row has a user ID with a line boundary within. -/
theorem whole_foldl : ∀ (lines : List Str) (s : ColonsState), (∀ l ∈ lines, ∀ c ∈ l, isLineBoundary c = false) →
    (∀ row ∈ s.done ++ s.current.toList, row.Whole) →
      ∀ row ∈ (lines.foldl colonsLine s).done ++ (lines.foldl colonsLine s).current.toList, row.Whole
  | [], _, _, h => h
  | line :: lines, s, hlines, h => by
    obtain ⟨hline, hlines⟩ := List.forall_mem_cons.mp hlines
    have hfields : ∀ f ∈ line.splitOn (ch ':'), ∀ c ∈ f, isLineBoundary c = false := by
      intro f hf c hc
      have hmem : c ∈ [ch ':'].intercalate (line.splitOn (ch ':')) := mem_intercalate hf hc
      rw [List.intercalate_splitOn] at hmem
      exact hline c hmem
    refine whole_foldl lines _ hlines ?_
    rw [colonsLine_eq]
    by_cases hkey : isKeyTag ((line.splitOn (ch ':')).getD 0 []) = true
    · rw [readRecord_of_key hkey]
      intro row hrow
      rcases List.mem_append.mp hrow with hrow | hrow
      · exact h row hrow
      · rw [Option.mem_toList] at hrow
        obtain rfl := Option.some.inj hrow
        exact fun uid huid => absurd huid List.not_mem_nil
    · obtain ⟨done, current, b⟩ := s
      cases current with
      | none =>
        rw [readRecord, if_neg hkey]
        exact h
      | some row =>
        rw [readRecord_of_not_key (Bool.eq_false_iff.mpr hkey)]
        simp only [Option.toList_some, List.forall_mem_append, List.forall_mem_singleton] at h ⊢
        exact ⟨h.1, whole_describe h.2 b hfields⟩

theorem whole_of_mem_parseColonsKeys {data : Bytes} {row : ColonsRow} (h : row ∈ parseColonsKeys data) : row.Whole := by
  refine whole_foldl _ {} (fun l hl => ?_) (by simp) row (List.mem_of_mem_filter h)
  exact not_of_mem_splitOnP ((splitlines_sublist _).subset hl)

/-- **Every block gets its row, with its own records and nothing else, if and
only if no user ID has a line boundary within.** -/
theorem attributed_iff (L : KeyListing) {data : Bytes} (hdata : Gpg.decodeOutput data = L.text) :
    parseColonsKeys data = L.blocks.map KeyBlock.row ↔ ∀ uid ∈ L.uids, ∀ c ∈ uid, isLineBoundary c = false := by
  constructor
  · intro h uid huid
    obtain ⟨k, hk, huid⟩ := List.mem_flatMap.mp huid
    have hrow : k.row ∈ parseColonsKeys data := by
      rw [h]
      exact List.mem_map_of_mem hk
    exact whole_of_mem_parseColonsKeys hrow uid huid
  · exact parseColonsKeys_of_noBoundary hdata

/-- A record with empty fields but for the value. -/
def bareRecord (value : Str) : ValueRecord where
  middle := List.replicate 8 []
  value := value
  rest := []
  middle_length := List.length_replicate
  isField := by simp [IsField]

/-- A key with one user ID and one subkey. -/
def sampleListing (uid : Str) (h : IsUidText uid) : KeyListing where
  preamble := []
  blocks :=
    [{ tag := lit "pub"
       fields := []
       fpr := bareRecord (lit "AA")
       items :=
        [.uid (bareRecord uid) h,
          .subkey
            { tag := lit "sub"
              fields := []
              fpr := bareRecord (lit "BB")
              tag_mem := .inl rfl
              isField := by simp
              isFingerprint := isField_of_all (by decide) }]
       tag_mem := .inl rfl
       isField := by simp
       isFingerprint := isField_of_all (by decide)
       fingerprint_ne := by decide }]

theorem isUidText_of_all {s : Str} (h : s.all (fun c => c ≠ ch ':' && c ≠ lineFeed) = true) : IsUidText s := by
  intro c hc
  have hall := List.all_eq_true.mp h c hc
  simpa using hall

theorem attributed_iff_sample :
    parseColonsKeys (ascii "pub\nfpr:::::::::AA\nuid:::::::::Ann\nsub\nfpr:::::::::BB\n") =
      (sampleListing (lit "Ann") (isUidText_of_all (by decide))).blocks.map KeyBlock.row := by
  have hann : IsField (lit "Ann") := isField_of_all (by decide)
  refine (attributed_iff (sampleListing (lit "Ann") (isUidText_of_all (by decide))) (by decide +kernel)).mpr ?_
  intro uid huid c hc
  rw [show uid = lit "Ann" from List.mem_singleton.mp huid] at hc
  exact (hann c hc).2

/-- A user ID that ends with a line separator and `pub`: the subkey after it is
lost. -/
theorem not_attributed :
    ¬ ∀ (L : KeyListing) (data : Bytes), Gpg.decodeOutput data = L.text →
      parseColonsKeys data = L.blocks.map KeyBlock.row := by
  intro h
  have hrows := h (sampleListing (lit "x\u2028pub") (isUidText_of_all (by decide)))
    (ascii "pub\nfpr:::::::::AA\nuid:::::::::x" ++ [0xE2, 0x80, 0xA8] ++ ascii "pub\nsub\nfpr:::::::::BB\n")
    (by decide +kernel)
  have hsubkeys := congrArg (List.map ColonsRow.subkeys) hrows
  exact absurd hsubkeys (by decide +kernel)

end GPGService
end GpgMeister
