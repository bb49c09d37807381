import EuNEx.FIX.RoundTrip

/-!
# Fields of a message, well formed or not

`parseFIXMessages` looks for the next `=` and then for the separator, `_handle_fix_msg` splits at
the separators first. What has no `=` is therefore part of the next tag for the one and nothing for
the other; and the one reads tags with `atoi`, the other with `int`.
-/

namespace EuNEx

/-- A field with a `=`, and the text between it and the field before that, which has no `=`. -/
structure RawField where
  junk : List Char
  tag : List Char
  val : List Char

/-- The fields among pieces of text, where some text without `=` has come before. -/
def rawFields (junk : List Char) : List (List Char) → List RawField
  | [] => []
  | seg :: segs =>
    if '=' ∈ seg then
      ⟨junk, (PyString.splitEq seg).1, (PyString.splitEq seg).2⟩ :: rawFields [] segs
    else rawFields (junk ++ seg ++ [soh]) segs

/-- The fields of a message. -/
def fieldsOf (rawMsg : List Char) : List RawField := rawFields [] (rawMsg.splitOn soh)

namespace RawField

/-- The tag that `parseFIXMessages` finds, if it is positive. -/
def atoi (field : RawField) : Option ℤ :=
  let tag := CString.atoi (field.junk ++ field.tag)
  if 0 < tag then some tag else none

/-- The tag that `_handle_fix_msg` finds. -/
def int (field : RawField) : Option ℤ := PyString.int (PyString.decode field.tag)

/-- The value of the last field with a tag. -/
def last (key : RawField → Option ℤ) (tag : ℤ) (fields : List RawField) : Option (List Char) :=
  (fields.filter fun field => key field = some tag).getLast?.map RawField.val

/-- No text comes before the field and its tag is a decimal from 1 to `2 ^ 31 - 1`, or there is no
digit in all of that. -/
def Regular (field : RawField) : Prop :=
  (field.junk = [] ∧ (∀ c ∈ field.tag, c.isDigit = true) ∧ 0 < CString.digits field.tag ∧
    CString.digits field.tag < 2 ^ 31) ∨
  ∀ c ∈ field.junk ++ field.tag, c.isDigit = false

instance (field : RawField) : Decidable field.Regular :=
  letI : Decidable (∀ c ∈ field.tag, c.isDigit = true) := List.decidableBAll _ _
  letI : Decidable (∀ c ∈ field.junk ++ field.tag, c.isDigit = false) := List.decidableBAll _ _
  inferInstanceAs (Decidable ((_ ∧ _ ∧ _ ∧ _) ∨ _))

/-- A field between others, with a number that the one finds in it and the other does not: the
number is found again in a later field, or the field repeats the value that the other has found
with the number last. -/
def Covered (before : List RawField) (field : RawField) (after : List RawField)
    (one other : RawField → Option ℤ) : Prop :=
  ∀ tag ∈ one field, other field ≠ some tag →
    (∃ later ∈ after, one later = some tag ∨ other later = some tag) ∨
    (last other tag before).map PyString.decode = some (PyString.decode field.val)

/-- A field that is not regular does not have the last word on a number. -/
def Harmless (fields : List RawField) : Prop :=
  ∀ before field after, fields = before ++ field :: after → ¬field.Regular →
    Covered before field after atoi int ∧ Covered before field after int atoi

end RawField

/-- The entries under positive tags, decoded, are the entries of the other dictionary. -/
def PositivePart (tags fields : TagMap) : Prop :=
  ∀ tag, fields.lookup tag = if 0 < tag then (tags.lookup tag).map PyString.decode else none

open RawField

variable {seg junk rawMsg : List Char} {segs : List (List Char)} {fields : List RawField} {n : ℕ}
  {tags : TagMap} {tag : ℤ}

/-! ### Pieces -/

lemma soh_not_mem_splitOn (rawMsg : List Char) : ∀ seg ∈ rawMsg.splitOn soh, soh ∉ seg := by
  induction rawMsg with
  | nil => simp
  | cons c rawMsg ih =>
    rw [List.splitOn_cons_eq_if_modifyHead]
    split
    · exact List.forall_mem_cons.mpr ⟨List.not_mem_nil, ih⟩
    · rename_i hc
      obtain ⟨seg, segs, hsegs⟩ := List.exists_cons_of_ne_nil (List.splitOn_ne_nil soh rawMsg)
      rw [hsegs, List.forall_mem_cons] at ih
      rw [hsegs, List.modifyHead_cons, List.forall_mem_cons]
      refine ⟨?_, ih.2⟩
      rw [List.mem_cons, not_or]
      exact ⟨fun h => hc (by simp [h]), ih.1⟩

lemma exists_mem_splitOn {c : Char} (h : c ∈ rawMsg) (hc : c ≠ soh) :
    ∃ seg ∈ rawMsg.splitOn soh, c ∈ seg := by
  have hjoin : [soh].intercalate (rawMsg.splitOn soh) = rawMsg := List.intercalate_splitOn soh
  rw [← hjoin] at h
  generalize rawMsg.splitOn soh = segs at h ⊢
  induction segs with
  | nil => simp at h
  | cons seg segs ih =>
    cases segs with
    | nil => exact ⟨seg, by simp, by simpa using h⟩
    | cons seg' segs =>
      rw [List.intercalate_cons_cons, List.mem_append, List.mem_append, List.mem_singleton] at h
      rcases h with (h | h) | h
      · exact ⟨seg, by simp, h⟩
      · exact absurd h hc
      · obtain ⟨seg'', hmem, hin⟩ := ih h
        exact ⟨seg'', List.mem_cons_of_mem _ hmem, hin⟩

lemma decodeByte_eq_iff {c d : Char} (hd : d.toNat < 128) : PyString.decodeByte c = d ↔ c = d := by
  constructor
  · rintro rfl
    rw [PyString.decodeByte] at hd ⊢
    split
    · rfl
    · rw [if_neg ‹_›] at hd
      exact absurd hd (by decide)
  · rintro rfl
    exact PyString.decodeByte_of_lt hd

lemma mem_decode_iff {d : Char} (hd : d.toNat < 128) : d ∈ PyString.decode seg ↔ d ∈ seg := by
  simp [PyString.decode, decodeByte_eq_iff hd]

lemma splitOn_decode (rawMsg : List Char) :
    (PyString.decode rawMsg).splitOn soh = (rawMsg.splitOn soh).map PyString.decode := by
  induction rawMsg with
  | nil => rfl
  | cons c rawMsg ih =>
    have hc : (PyString.decodeByte c == soh) = (c == soh) := by
      rw [Bool.eq_iff_iff, beq_iff_eq, beq_iff_eq, decodeByte_eq_iff (by decide)]
    have hdecode : PyString.decode (c :: rawMsg)
        = PyString.decodeByte c :: PyString.decode rawMsg := rfl
    rw [hdecode, List.splitOn_cons_eq_if_modifyHead, List.splitOn_cons_eq_if_modifyHead, hc, ih]
    split
    · rfl
    · cases rawMsg.splitOn soh <;> rfl

lemma splitEq_decode (seg : List Char) : PyString.splitEq (PyString.decode seg)
    = (PyString.decode (PyString.splitEq seg).1, PyString.decode (PyString.splitEq seg).2) := by
  have hp : ((fun c : Char => decide (c ≠ '=')) ∘ PyString.decodeByte)
      = fun c => decide (c ≠ '=') := by
    funext c
    rw [Function.comp_apply, decide_eq_decide, ne_eq, ne_eq, decodeByte_eq_iff (by decide)]
  rw [PyString.splitEq, PyString.decode, List.takeWhile_map, List.dropWhile_map, hp,
    ← List.map_drop]
  rfl

/-! ### Dictionaries of fields -/

namespace RawField

/-- What a reader makes of the fields: the last one with a tag counts. -/
def stored (key : RawField → Option ℤ) (val : RawField → List Char) (fields : List RawField)
    (tags : TagMap) : TagMap :=
  fields.foldl (fun tags field =>
    match key field with
    | some tag => tags.insert tag (val field)
    | none => tags) tags

lemma lookup_stored (key : RawField → Option ℤ) (val : RawField → List Char)
    (fields : List RawField) (tag : ℤ) : (stored key val fields ∅).lookup tag
      = (fields.filter fun field => key field = some tag).getLast?.map val := by
  induction fields using List.reverseRecOn with
  | nil => rfl
  | append_singleton fields field ih =>
    have hfold : stored key val (fields ++ [field]) ∅ = stored key val [field]
        (stored key val fields ∅) := List.foldl_append
    rw [hfold, List.filter_append]
    generalize stored key val fields ∅ = tags at ih ⊢
    simp only [stored, List.foldl_cons, List.foldl_nil]
    by_cases htag : key field = some tag
    · simp [htag]
    · rw [List.filter_cons_of_neg (by simpa using htag), List.filter_nil, List.append_nil, ← ih]
      cases hkey : key field with
      | none => rfl
      | some tag' =>
        rw [hkey, Option.some.injEq] at htag
        exact Finmap.lookup_insert_of_ne _ (Ne.symm htag)

end RawField

lemma foldl_parsePair (segs : List (List Char)) (junk : List Char) (tags : TagMap) :
    (segs.map PyString.decode).foldl CppEngineBridge.parsePair tags
      = stored int (fun field => PyString.decode field.val) (rawFields junk segs) tags := by
  induction segs generalizing junk tags with
  | nil => rfl
  | cons seg segs ih =>
    rw [List.map_cons, List.foldl_cons, rawFields]
    by_cases heq : '=' ∈ seg
    · rw [if_pos heq, ih [], CppEngineBridge.parsePair,
        if_pos ((mem_decode_iff (by decide)).mpr heq), splitEq_decode]
      rfl
    · rw [if_neg heq, ih (junk ++ seg ++ [soh]), CppEngineBridge.parsePair,
        if_neg fun h => heq ((mem_decode_iff (by decide)).mp h)]

/-- The fields that the bridge finds. -/
lemma parseMsg_decode (rawMsg : List Char) : CppEngineBridge.parseMsg (PyString.decode rawMsg)
    = stored int (fun field => PyString.decode field.val) (fieldsOf rawMsg) ∅ := by
  rw [CppEngineBridge.parseMsg, splitOn_decode]
  exact foldl_parsePair _ [] ∅

lemma parseTags_of_not_mem (h : '=' ∉ rawMsg) :
    FIXAcceptorActor.parseTags n rawMsg tags = tags := by
  cases n with
  | zero => rfl
  | succ n =>
    have hdrop : rawMsg.dropWhile (· ≠ '=') = [] := by
      rw [List.dropWhile_eq_nil_iff]
      intro c hc
      rw [decide_eq_true_eq]
      rintro rfl
      exact h hc
    rw [FIXAcceptorActor.parseTags, hdrop]

lemma parseTags_pieces (hsegs : ∀ seg ∈ segs, soh ∉ seg) (hjunk : '=' ∉ junk)
    (hn : (junk ++ [soh].intercalate segs).length ≤ n) (tags : TagMap) :
    FIXAcceptorActor.parseTags n (junk ++ [soh].intercalate segs) tags
      = stored (fun field => some (CString.atoi (field.junk ++ field.tag))) RawField.val
        (rawFields junk segs) tags := by
  induction segs generalizing junk n tags with
  | nil =>
    rw [List.intercalate_nil, List.append_nil]
    cases n with
    | zero => rfl
    | succ n =>
      rw [parseTags_of_not_mem hjunk]
      rfl
  | cons seg segs ih =>
    rw [List.forall_mem_cons] at hsegs
    by_cases heq : '=' ∈ seg
    · obtain ⟨tag, val, rfl, htag⟩ := List.eq_append_cons_of_mem heq
      have hval : soh ∉ val := fun h => hsegs.1 (by simp [h])
      have hkey : '=' ∉ junk ++ tag := by simp [hjunk, htag]
      rw [rawFields, if_pos heq, PyString.splitEq_append htag]
      cases segs with
      | nil =>
        have htext : junk ++ [soh].intercalate [tag ++ '=' :: val]
            = (junk ++ tag) ++ '=' :: (val ++ []) := by simp
        rw [htext] at hn ⊢
        cases n with
        | zero => simp at hn
        | succ n =>
          rw [FIXFields.parseTags_field hkey hval (by simp), parseTags_of_not_mem (by simp)]
          rfl
      | cons seg segs =>
        have htext : junk ++ [soh].intercalate ((tag ++ '=' :: val) :: seg :: segs)
            = (junk ++ tag) ++ '=' :: (val ++ soh :: [soh].intercalate (seg :: segs)) := by
          simp [List.intercalate_cons_cons]
        rw [htext] at hn ⊢
        cases n with
        | zero => simp at hn
        | succ n =>
          have hlen : ([] ++ [soh].intercalate (seg :: segs)).length ≤ n := by
            simp only [List.length_append, List.length_cons] at hn
            simp only [List.length_append, List.length_nil]
            omega
          rw [FIXFields.parseTags_field hkey hval (by simp), List.drop_one, List.tail_cons]
          exact ih hsegs.2 List.not_mem_nil hlen _
    · rw [rawFields, if_neg heq]
      cases segs with
      | nil =>
        rw [parseTags_of_not_mem (by simp [hjunk, heq])]
        rfl
      | cons seg' segs =>
        have htext : junk ++ [soh].intercalate (seg :: seg' :: segs)
            = (junk ++ seg ++ [soh]) ++ [soh].intercalate (seg' :: segs) := by
          simp [List.intercalate_cons_cons]
        have hsoh : '=' ≠ soh := by decide
        rw [htext] at hn ⊢
        exact ih hsegs.2 (by simp [hjunk, heq, hsoh]) hn tags

/-- The fields that `parseFIXMessages` finds. -/
lemma parseTags_eq (rawMsg : List Char) : FIXAcceptorActor.parseTags rawMsg.length rawMsg ∅
    = stored (fun field => some (CString.atoi (field.junk ++ field.tag))) RawField.val
      (fieldsOf rawMsg) ∅ := by
  have hpieces := parseTags_pieces (soh_not_mem_splitOn rawMsg) (List.not_mem_nil (a := '='))
    (n := rawMsg.length) (by rw [List.nil_append, List.intercalate_splitOn]) ∅
  rwa [List.nil_append, List.intercalate_splitOn] at hpieces

/-! ### A framed message -/

lemma rawFields_ne_nil (h : ∃ seg ∈ segs, '=' ∈ seg) (junk : List Char) :
    rawFields junk segs ≠ [] := by
  induction segs generalizing junk with
  | nil => simp at h
  | cons seg segs ih =>
    rw [rawFields]
    split
    · exact List.cons_ne_nil _ _
    · rename_i hseg
      obtain ⟨seg', hmem, heq⟩ := h
      rcases List.mem_cons.mp hmem with rfl | hmem
      · exact absurd heq hseg
      · exact ih ⟨seg', hmem, heq⟩ _

/-- A frame is a message, whatever its fields are. -/
lemma parseFIXMessages_frame (h : Framing.cut checkSumTag soh rawMsg = some (rawMsg, [])) :
    FIXAcceptorActor.parseFIXMessages rawMsg
      = ([FIXAcceptorActor.parseTags rawMsg.length rawMsg ∅], []) := by
  have hne : FIXAcceptorActor.parseTags rawMsg.length rawMsg ∅ ≠ ∅ := by
    have heq : '=' ∈ rawMsg := (Framing.isInfix_of_cut h).subset (by decide)
    obtain ⟨init, field, hfields⟩ := (List.eq_nil_or_concat' (fieldsOf rawMsg)).resolve_left
      (rawFields_ne_nil (exists_mem_splitOn heq (by decide)) [])
    intro hempty
    have hlookup := lookup_stored (fun field => some (CString.atoi (field.junk ++ field.tag)))
      RawField.val (fieldsOf rawMsg) (CString.atoi (field.junk ++ field.tag))
    rw [← parseTags_eq, hempty, Finmap.lookup_empty, hfields, List.filter_append] at hlookup
    simp at hlookup
  have hnil : Framing.frames checkSumTag soh [] = ([], []) := rfl
  rw [FIXAcceptorActor.parseFIXMessages, Framing.frames_of_some h, hnil]
  simp [hne]

lemma atoi_eq_some_iff {field : RawField} (htag : 0 < tag) :
    field.atoi = some tag ↔ some (CString.atoi (field.junk ++ field.tag)) = some tag := by
  rw [RawField.atoi, Option.some.injEq]
  split_ifs with hpos
  · rw [Option.some.injEq]
  · constructor
    · intro h
      cases h
    · rintro rfl
      exact absurd htag hpos

lemma last_atoi_eq_none (htag : ¬0 < tag) : last RawField.atoi tag fields = none := by
  have hnone : fields.filter (fun field => field.atoi = some tag) = [] := by
    rw [List.filter_eq_nil_iff]
    intro field _ hatoi
    rw [decide_eq_true_eq, RawField.atoi] at hatoi
    split_ifs at hatoi with hpos
    cases hatoi
    exact htag hpos
  rw [last, hnone]
  rfl

lemma positivePart_iff : PositivePart (FIXAcceptorActor.parseTags rawMsg.length rawMsg ∅)
    (CppEngineBridge.parseMsg (PyString.decode rawMsg)) ↔
    ∀ tag, (last RawField.atoi tag (fieldsOf rawMsg)).map PyString.decode
      = (last RawField.int tag (fieldsOf rawMsg)).map PyString.decode := by
  apply forall_congr'
  intro tag
  rw [parseMsg_decode, parseTags_eq, lookup_stored, lookup_stored, eq_comm]
  split_ifs with htag
  · have hfilter : (fieldsOf rawMsg).filter (fun field =>
        some (CString.atoi (field.junk ++ field.tag)) = some tag)
        = (fieldsOf rawMsg).filter fun field => field.atoi = some tag := by
      apply List.filter_congr
      intro field _
      rw [decide_eq_decide, atoi_eq_some_iff htag]
    rw [hfilter, last, last, Option.map_map, Option.map_map]
    rfl
  · rw [last_atoi_eq_none htag, last, Option.map_map]
    rfl

/-! ### The last word -/

/-- Both find the same number in a regular field, or none. -/
lemma atoi_eq_int {field : RawField} (h : field.Regular) : field.atoi = field.int := by
  rcases h with ⟨hjunk, hdigits, hpos, hlt⟩ | hnone
  · have hne : field.tag ≠ [] := by
      intro hnil
      rw [hnil] at hpos
      exact absurd hpos (by decide)
    have hascii : PyString.decode field.tag = field.tag := by
      apply PyString.decode_of_ascii
      intro c hc
      have hdigit := CString.toNat_of_isDigit (hdigits c hc)
      omega
    have hpos' : (0 : ℤ) < CString.digits field.tag := by exact_mod_cast hpos
    rw [RawField.atoi, RawField.int, hjunk, List.nil_append, CString.atoi_of_digits hdigits hlt,
      if_pos hpos', hascii, PyString.int_of_digits hne hdigits]
  · have hdecode : ∀ c ∈ PyString.decode field.tag, c.isDigit = false := by
      intro c hc
      rw [Bool.eq_false_iff]
      intro hdigit
      have hlt := CString.toNat_of_isDigit hdigit
      rw [mem_decode_iff (by omega)] at hc
      simp [hnone c (List.mem_append_right _ hc)] at hdigit
    rw [RawField.atoi, RawField.int, CString.atoi_of_forall_not_isDigit hnone,
      PyString.int_of_forall_not_isDigit hdecode]
    rfl

section last

variable {one other : RawField → Option ℤ} {before after : List RawField} {field : RawField}

lemma last_of_eq (hfield : one field = some tag) (hafter : ∀ later ∈ after, one later ≠ some tag) :
    last one tag (before ++ field :: after) = some field.val := by
  have hnil : after.filter (fun later => one later = some tag) = [] := by
    simpa [List.filter_eq_nil_iff] using hafter
  rw [last, List.filter_append, List.filter_cons_of_pos (by simpa using hfield), hnil]
  simp

lemma last_of_ne (hfield : one field ≠ some tag)
    (hafter : ∀ later ∈ after, one later ≠ some tag) :
    last one tag (before ++ field :: after) = last one tag before := by
  have hnil : after.filter (fun later => one later = some tag) = [] := by
    simpa [List.filter_eq_nil_iff] using hafter
  rw [last, List.filter_append, List.filter_cons_of_neg (by simpa using hfield), hnil,
    List.append_nil, last]

/-- The last field in which either finds a number. -/
lemma exists_last (h : ∃ field ∈ fields, one field = some tag ∨ other field = some tag) :
    ∃ before field after, fields = before ++ field :: after ∧
      (one field = some tag ∨ other field = some tag) ∧
      ∀ later ∈ after, one later ≠ some tag ∧ other later ≠ some tag := by
  induction fields with
  | nil => simp at h
  | cons first fields ih =>
    by_cases hlater : ∃ field ∈ fields, one field = some tag ∨ other field = some tag
    · obtain ⟨before, field, after, rfl, hfield, hafter⟩ := ih hlater
      exact ⟨first :: before, field, after, rfl, hfield, hafter⟩
    · obtain ⟨field, hmem, hfield⟩ := h
      rcases List.mem_cons.mp hmem with rfl | hmem
      · refine ⟨[], field, fields, rfl, hfield, ?_⟩
        simpa [not_or] using hlater
      · exact absurd ⟨field, hmem, hfield⟩ hlater

/-- Where both find the same values, what only the one finds last is covered. -/
lemma covered_of_last_eq (h : ∀ tag, (last one tag fields).map PyString.decode
    = (last other tag fields).map PyString.decode) (hfields : fields = before ++ field :: after) :
    Covered before field after one other := by
  intro tag hone hother
  by_cases hlater : ∃ later ∈ after, one later = some tag ∨ other later = some tag
  · exact Or.inl hlater
  · have hnone : ∀ later ∈ after, one later ≠ some tag ∧ other later ≠ some tag := by
      simpa [not_or] using hlater
    refine Or.inr ?_
    rw [← last_of_ne hother fun later hlater => (hnone later hlater).2, ← hfields, ← h tag,
      hfields, last_of_eq hone fun later hlater => (hnone later hlater).1]
    rfl

/-- A field that is covered, but has the last word, says the same to both. -/
lemma last_eq_of_covered (h : Covered before field after one other) (hone : one field = some tag)
    (hother : other field ≠ some tag)
    (hafter : ∀ later ∈ after, one later ≠ some tag ∧ other later ≠ some tag) :
    (last one tag (before ++ field :: after)).map PyString.decode
      = (last other tag (before ++ field :: after)).map PyString.decode := by
  rw [last_of_eq hone fun later hlater => (hafter later hlater).1,
    last_of_ne hother fun later hlater => (hafter later hlater).2]
  rcases h tag hone hother with ⟨later, hlater, hfound⟩ | hsame
  · rcases hfound with hfound | hfound
    · exact absurd hfound (hafter later hlater).1
    · exact absurd hfound (hafter later hlater).2
  · exact hsame.symm

end last

lemma harmless_iff : Harmless fields ↔
    ∀ tag, (last RawField.atoi tag fields).map PyString.decode
      = (last RawField.int tag fields).map PyString.decode := by
  constructor
  · intro h tag
    by_cases hfound : ∃ field ∈ fields, field.atoi = some tag ∨ field.int = some tag
    · obtain ⟨before, field, after, rfl, hfield, hafter⟩ := exists_last hfound
      by_cases hone : field.atoi = some tag <;> by_cases hother : field.int = some tag
      · rw [last_of_eq hone fun later hlater => (hafter later hlater).1,
          last_of_eq hother fun later hlater => (hafter later hlater).2]
      · have hregular : ¬field.Regular := fun hregular => hother (atoi_eq_int hregular ▸ hone)
        exact last_eq_of_covered (h before field after rfl hregular).1 hone hother hafter
      · have hregular : ¬field.Regular := fun hregular => hone (atoi_eq_int hregular ▸ hother)
        exact (last_eq_of_covered (h before field after rfl hregular).2 hother hone
          fun later hlater => (hafter later hlater).symm).symm
      · exact absurd hfield (not_or.mpr ⟨hone, hother⟩)
    · have hnone : ∀ field ∈ fields, field.atoi ≠ some tag ∧ field.int ≠ some tag := by
        simpa [not_or] using hfound
      rw [last, last, List.filter_eq_nil_iff.mpr, List.filter_eq_nil_iff.mpr]
      · simpa using fun field hfield => (hnone field hfield).2
      · simpa using fun field hfield => (hnone field hfield).1
  · intro h before field after hfields _
    exact ⟨covered_of_last_eq h hfields, covered_of_last_eq (fun tag => (h tag).symm) hfields⟩

/-- On a framed message the two agree exactly if no irregular field has the last word on a
number. -/
theorem parsers_agree_iff (h : Framing.cut checkSumTag soh rawMsg = some (rawMsg, [])) :
    (∃ tags, FIXAcceptorActor.parseFIXMessages rawMsg = ([tags], []) ∧
      PositivePart tags (CppEngineBridge.parseMsg (PyString.decode rawMsg))) ↔
    Harmless (fieldsOf rawMsg) := by
  rw [harmless_iff, ← positivePart_iff, parseFIXMessages_frame h]
  simp

/-- A heartbeat. -/
def heartbeat : List Char := "35=0".toList ++ soh :: "10=000".toList ++ [soh]

theorem parsers_agree_heartbeat : ∃ tags,
    FIXAcceptorActor.parseFIXMessages heartbeat = ([tags], []) ∧
      PositivePart tags (CppEngineBridge.parseMsg (PyString.decode heartbeat)) := by
  refine (parsers_agree_iff (by decide)).mpr ?_
  rintro before field after hfields hirregular
  have hregular : ∀ field ∈ fieldsOf heartbeat, field.Regular := by decide
  exact absurd (hregular field (by simp [hfields])) hirregular

/-- The same after a field without `=`. -/
def malformed : List Char := "x".toList ++ soh :: heartbeat

/-- The field without `=` hides the one that comes after it from one of the two. -/
theorem not_parsers_agree : Framing.cut checkSumTag soh malformed = some (malformed, []) ∧
    (CppEngineBridge.parseMsg (PyString.decode malformed)).lookup 35 = some "0".toList ∧
    (∀ tags, FIXAcceptorActor.parseFIXMessages malformed = ([tags], []) →
      tags.lookup 35 = none) ∧
    ¬∃ tags, FIXAcceptorActor.parseFIXMessages malformed = ([tags], []) ∧
      PositivePart tags (CppEngineBridge.parseMsg (PyString.decode malformed)) := by
  have hcut : Framing.cut checkSumTag soh malformed = some (malformed, []) := by decide
  have hfound : (CppEngineBridge.parseMsg (PyString.decode malformed)).lookup 35
      = some "0".toList := by decide
  have hhidden : ∀ tags, FIXAcceptorActor.parseFIXMessages malformed = ([tags], []) →
      tags.lookup 35 = none := by
    intro tags htags
    rw [parseFIXMessages_frame hcut, Prod.mk.injEq, List.singleton_inj] at htags
    rw [← htags.1]
    decide
  refine ⟨hcut, hfound, hhidden, ?_⟩
  rintro ⟨tags, htags, hpart⟩
  have h35 := hpart 35
  rw [hfound, if_pos (by decide), hhidden tags htags] at h35
  cases h35

end EuNEx
