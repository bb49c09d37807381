import EuNEx.FIX.Text
import Mathlib.Data.List.ReduceOption

/-!
# Do messages survive?

Messages that are written in the common format and sent one after the other come out of each of the
three readers as they went in, exactly if no field of theirs contains the text `10=`, every tag fits
an `int`, and every value is ASCII.
-/

namespace EuNEx

open Framing (cut frames)

variable {m : FIXFields} {fields : List (ℕ × List Char)} {field : ℕ × List Char} {t : List Char}

/-! ### Messages as segments -/

lemma checkSumTag_ne_nil : checkSumTag ≠ [] := by decide

lemma soh_not_mem_checkSumTag : soh ∉ checkSumTag := by decide

lemma not_mem_toString {c : Char} {n : ℕ} (hc : c.isDigit = false) : c ∉ CString.toString n := by
  intro hmem
  rw [CString.isDigit_of_mem_toString hmem] at hc
  cases hc

lemma soh_not_mem_fieldText (h : soh ∉ field.2) : soh ∉ fieldText field := by
  have hsoh : soh ≠ '=' := by decide
  simp [fieldText, not_mem_toString (c := soh) (by decide), hsoh, h]

/-- No reader takes tag 8 or 9 for the end of a message. -/
lemma not_infix_header (length : ℕ) :
    ∀ field ∈ header length, ¬checkSumTag <:+: fieldText field := by
  intro field hfield
  simp only [header, List.mem_cons, List.not_mem_nil, or_false] at hfield
  rcases hfield with rfl | rfl
  · decide
  · intro hin
    have htail : checkSumTag <:+: CString.toString length := by
      simpa [fieldText, checkSumTag, List.infix_cons_iff, CString.toString, Nat.toDigits,
        Nat.toDigitsCore] using hin
    exact not_mem_toString (c := '=') (by decide) (htail.subset (by decide))

lemma isInfix_checkSum (val : List Char) : checkSumTag <:+: fieldText (10, val) := by
  have htext : fieldText (10, val) = checkSumTag ++ val := by
    simp [fieldText, checkSumTag, CString.toString, Nat.toDigits, Nat.toDigitsCore]
  exact htext ▸ (List.prefix_append checkSumTag val).isInfix

/-- The part of a message that no reader takes for its end. -/
lemma cut_fieldsText (hfields : ∀ field ∈ fields, soh ∉ field.2 ∧ ¬checkSumTag <:+: fieldText field)
    (t : List Char) : cut checkSumTag soh (fieldsText fields ++ t)
      = (cut checkSumTag soh t).map (Prod.map (fieldsText fields ++ ·) id) := by
  have hsegs : ∀ seg ∈ fields.map fieldText, soh ∉ seg ∧ ¬checkSumTag <:+: seg := by
    intro seg hseg
    obtain ⟨field, hfield, rfl⟩ := List.mem_map.mp hseg
    exact ⟨soh_not_mem_fieldText (hfields field hfield).1, (hfields field hfield).2⟩
  have hcut := Framing.cut_segments (t := t) checkSumTag_ne_nil soh_not_mem_checkSumTag hsegs
  rwa [List.flatMap_map] at hcut

/-- A reader cuts at the end of a field that contains `10=`. -/
lemma cut_fieldText (hsoh : soh ∉ field.2) (hin : checkSumTag <:+: fieldText field)
    (t : List Char) :
    cut checkSumTag soh (fieldsText [field] ++ t) = some (fieldsText [field], t) := by
  have hcut := Framing.cut_segment (t := t) checkSumTag_ne_nil soh_not_mem_checkSumTag
    (soh_not_mem_fieldText hsoh)
  rw [if_pos hin] at hcut
  simpa [fieldsText] using hcut

/-- The first field that contains `10=` is where a frame ends. -/
lemma cut_first {pre : List (ℕ × List Char)} (field : ℕ × List Char)
    (post : List (ℕ × List Char))
    (hpre : ∀ field ∈ pre, soh ∉ field.2 ∧ ¬checkSumTag <:+: fieldText field)
    (hsoh : soh ∉ field.2) (hin : checkSumTag <:+: fieldText field) (t : List Char) :
    cut checkSumTag soh (fieldsText (pre ++ field :: post) ++ t)
      = some (fieldsText (pre ++ [field]), fieldsText post ++ t) := by
  have hsplit : fieldsText (pre ++ field :: post) ++ t
      = fieldsText pre ++ (fieldsText [field] ++ (fieldsText post ++ t)) := by
    rw [← List.singleton_append, FIXFields.fieldsText_append, FIXFields.fieldsText_append,
      List.append_assoc, List.append_assoc]
  rw [hsplit, cut_fieldsText hpre, cut_fieldText hsoh hin, FIXFields.fieldsText_append]
  rfl

namespace FIXFields

lemma soh_not_mem (hfield : field ∈ m.fields) : soh ∉ field.2 := fun hmem =>
  (m.values field hfield soh hmem).1 rfl

lemma checksum_digits (msg : List Char) : ∀ c ∈ checksum msg, c.isDigit = true :=
  fun _ hc => CString.isDigit_of_mem_padded hc

lemma soh_not_mem_of_digits {s : List Char} (hs : ∀ c ∈ s, c.isDigit = true) : soh ∉ s := by
  intro hmem
  exact absurd (hs soh hmem) (by decide)

lemma header_soh (length : ℕ) : ∀ field ∈ header length, soh ∉ field.2 := by
  intro field hfield
  simp only [header, List.mem_cons, List.not_mem_nil, or_false] at hfield
  rcases hfield with rfl | rfl
  · decide
  · exact soh_not_mem_of_digits fun c hc => CString.isDigit_of_mem_toString hc

lemma soh_not_mem_all : ∀ field ∈ m.all, soh ∉ field.2 := by
  intro field hfield
  rw [all] at hfield
  rcases List.mem_append.mp hfield with hfield | hfield
  · rcases List.mem_append.mp hfield with hfield | hfield
    · exact header_soh _ field hfield
    · exact m.soh_not_mem hfield
  · rw [List.mem_singleton.mp hfield]
    exact soh_not_mem_of_digits (checksum_digits _)

lemma nodup_all (m : FIXFields) : (m.all.map Prod.fst).Nodup := by
  have htags : ∀ tag ∈ m.fields.map Prod.fst, tag ∉ [8, 9, 10] := by
    intro tag htag
    obtain ⟨field, hfield, rfl⟩ := List.mem_map.mp htag
    exact (m.tags field hfield).2
  simp only [all, header, List.map_append, List.map_cons, List.map_nil, List.cons_append,
    List.nil_append, List.nodup_cons, List.mem_cons, List.mem_append, List.nodup_append]
  have h8 : 8 ∉ m.fields.map Prod.fst := fun h => htags 8 h (by decide)
  have h9 : 9 ∉ m.fields.map Prod.fst := fun h => htags 9 h (by decide)
  have h10 : 10 ∉ m.fields.map Prod.fst := fun h => htags 10 h (by decide)
  simp only [h8, h9, m.distinct]
  refine ⟨by decide, by decide, trivial, by simp, ?_⟩
  rintro tag htag tag' htag' rfl
  simp only [List.not_mem_nil, or_false] at htag'
  exact h10 (htag' ▸ htag)

/-- What the readers rely on: a message without a field that looks like its end. -/
def Framed (m : FIXFields) : Prop := ∀ field ∈ m.fields, ¬checkSumTag <:+: fieldText field

/-- A framed message is cut off whole. -/
lemma cut_text (h : m.Framed) (t : List Char) :
    cut checkSumTag soh (m.text ++ t) = some (m.text, t) := by
  have hpre : ∀ field ∈ header (fieldsText m.fields).length ++ m.fields,
      soh ∉ field.2 ∧ ¬checkSumTag <:+: fieldText field := by
    intro field hfield
    rcases List.mem_append.mp hfield with hfield | hfield
    · exact ⟨header_soh _ field hfield, not_infix_header _ field hfield⟩
    · exact ⟨m.soh_not_mem hfield, h field hfield⟩
  have hcut := cut_first (10, checksum (fieldsText (header (fieldsText m.fields).length) ++
    fieldsText m.fields)) [] hpre (soh_not_mem_of_digits (checksum_digits _))
    (isInfix_checkSum _) t
  rw [text_eq]
  exact hcut

/-- Any other message is cut in two, and the first part ends before its checksum. -/
lemma cut_text_of_not_framed (h : ¬m.Framed) (t : List Char) :
    ∃ pre post, m.fields = pre ++ post ∧ cut checkSumTag soh (m.text ++ t)
      = some (fieldsText (header (fieldsText m.fields).length ++ pre),
        fieldsText (post ++ [(10, checksum (fieldsText (header (fieldsText m.fields).length) ++
          fieldsText m.fields))]) ++ t) := by
  simp only [Framed, not_forall, not_not] at h
  obtain ⟨bad, hbad, hin⟩ := h
  obtain ⟨field, hfind⟩ : ∃ field,
      m.fields.find? (fun field => decide (checkSumTag <:+: fieldText field)) = some field := by
    rw [← Option.isSome_iff_exists, List.find?_isSome]
    exact ⟨bad, hbad, decide_eq_true hin⟩
  obtain ⟨hin, pre, post, hsplit, hpre⟩ := List.find?_eq_some_iff_append.mp hfind
  have hfield : field ∈ m.fields := by simp [hsplit]
  have hbefore : ∀ field ∈ header (fieldsText m.fields).length ++ pre,
      soh ∉ field.2 ∧ ¬checkSumTag <:+: fieldText field := by
    intro field hfield
    rcases List.mem_append.mp hfield with hfield | hfield
    · exact ⟨header_soh _ field hfield, not_infix_header _ field hfield⟩
    · exact ⟨m.soh_not_mem (by simp [hsplit, hfield]), by simpa using hpre field hfield⟩
  refine ⟨pre ++ [field], post, by simp [hsplit], ?_⟩
  have hcut := cut_first field (post ++ [(10, checksum (fieldsText
    (header (fieldsText m.fields).length) ++ fieldsText m.fields))]) hbefore
    (m.soh_not_mem hfield) (of_decide_eq_true hin) t
  rw [text_eq, all]
  simpa [hsplit] using hcut

/-! ### Reading a message -/

/-- The dictionary that a reader fills. -/
def collect (fields : List (ℕ × List Char)) : TagMap :=
  fields.foldl (fun tags field => tags.insert (field.1 : ℤ) field.2) ∅

lemma mem_of_lookup_collect {fields : List (ℕ × List Char)} {tag : ℤ} {val : List Char}
    (h : (collect fields).lookup tag = some val) : ∃ field ∈ fields, (field.1 : ℤ) = tag := by
  induction fields using List.reverseRecOn with
  | nil => simp [collect] at h
  | append_singleton fields field ih =>
    by_cases htag : tag = field.1
    · exact ⟨field, by simp, htag.symm⟩
    · have hfold : collect (fields ++ [field]) = (collect fields).insert (field.1 : ℤ) field.2 := by
        simp [collect]
      rw [hfold, Finmap.lookup_insert_of_ne _ htag] at h
      obtain ⟨g, hg, hgtag⟩ := ih h
      exact ⟨g, by simp [hg], hgtag⟩

lemma lookup_collect {fields : List (ℕ × List Char)} (hnodup : (fields.map Prod.fst).Nodup)
    {tag : ℤ} {val : List Char} : (collect fields).lookup tag = some val ↔
      ∃ field ∈ fields, (field.1 : ℤ) = tag ∧ field.2 = val := by
  induction fields using List.reverseRecOn with
  | nil => simp [collect]
  | append_singleton fields field ih =>
    rw [List.map_append, List.nodup_append] at hnodup
    have hfold : collect (fields ++ [field]) = (collect fields).insert (field.1 : ℤ) field.2 := by
      simp [collect]
    rw [hfold]
    by_cases htag : tag = field.1
    · subst htag
      have hfresh : ∀ g ∈ fields, g.1 ≠ field.1 := fun g hg =>
        hnodup.2.2 _ (List.mem_map_of_mem hg) _ (by simp)
      rw [Finmap.lookup_insert]
      constructor
      · intro heq
        exact ⟨field, by simp, rfl, by simpa using heq⟩
      · rintro ⟨g, hg, hgtag, rfl⟩
        rcases List.mem_append.mp hg with hg | hg
        · exact absurd (by exact_mod_cast hgtag) (hfresh g hg)
        · rw [List.mem_singleton.mp hg]
    · rw [Finmap.lookup_insert_of_ne _ htag, ih hnodup.1]
      constructor
      · rintro ⟨g, hg, hrest⟩
        exact ⟨g, by simp [hg], hrest⟩
      · rintro ⟨g, hg, hgtag, hval⟩
        rcases List.mem_append.mp hg with hg | hg
        · exact ⟨g, hg, hgtag, hval⟩
        · rw [List.mem_singleton.mp hg] at hgtag
          exact absurd hgtag.symm htag

lemma lookup_collect_of_mem {fields : List (ℕ × List Char)} (hnodup : (fields.map Prod.fst).Nodup)
    {tag : ℕ} {val : List Char} (h : (tag, val) ∈ fields) :
    (collect fields).lookup (tag : ℤ) = some val :=
  (lookup_collect hnodup).mpr ⟨_, h, rfl, rfl⟩

/-- `parseFIXMessages` reads a field, up to the next separator if there is one. -/
lemma parseTags_field {n : ℕ} {tag val rest : List Char} (htag : '=' ∉ tag) (hval : soh ∉ val)
    (hrest : ∀ c ∈ rest.head?, c = soh) (tags : TagMap) :
    FIXAcceptorActor.parseTags (n + 1) (tag ++ '=' :: (val ++ rest)) tags
      = FIXAcceptorActor.parseTags n (rest.drop 1) (tags.insert (CString.atoi tag) val) := by
  have htag' : ∀ c ∈ tag, decide (c ≠ '=') = true := by
    intro c hc
    rw [decide_eq_true_eq]
    rintro rfl
    exact htag hc
  have hval' : ∀ c ∈ val, decide (c ≠ soh) = true := by
    intro c hc
    rw [decide_eq_true_eq]
    rintro rfl
    exact hval hc
  have hstop : rest.takeWhile (· ≠ soh) = [] ∧ rest.dropWhile (· ≠ soh) = rest := by
    cases rest with
    | nil => exact ⟨rfl, rfl⟩
    | cons c rest =>
      obtain rfl : c = soh := hrest c rfl
      exact ⟨List.takeWhile_cons_of_neg (by simp), List.dropWhile_cons_of_neg (by simp)⟩
  rw [FIXAcceptorActor.parseTags, List.dropWhile_append_of_pos htag',
    List.takeWhile_append_of_pos htag', List.dropWhile_cons_of_neg (by simp),
    List.takeWhile_cons_of_neg (by simp), List.append_nil]
  simp only
  rw [List.dropWhile_append_of_pos hval', List.takeWhile_append_of_pos hval', hstop.1, hstop.2,
    List.append_nil]

/-- `parseFIXMessages` reads the fields of a frame. -/
lemma parseTags_fieldsText {n : ℕ} {fields : List (ℕ × List Char)}
    (hfields : ∀ field ∈ fields, soh ∉ field.2 ∧ field.1 < 2 ^ 31) (hn : fields.length ≤ n)
    (tags : TagMap) : FIXAcceptorActor.parseTags n (fieldsText fields) tags
      = fields.foldl (fun tags field => tags.insert (field.1 : ℤ) field.2) tags := by
  induction fields generalizing n tags with
  | nil => cases n <;> simp [FIXAcceptorActor.parseTags, fieldsText]
  | cons field fields ih =>
    obtain ⟨n, rfl⟩ : ∃ k, n = k + 1 := ⟨n - 1, by simp only [List.length_cons] at hn; omega⟩
    obtain ⟨hsoh, hlt⟩ := hfields field (by simp)
    have hsplit : fieldsText (field :: fields)
        = CString.toString field.1 ++ '=' :: (field.2 ++ soh :: fieldsText fields) := by
      simp [fieldsText, fieldText]
    rw [hsplit, parseTags_field (not_mem_toString (by decide)) hsoh (by simp), List.drop_one,
      List.tail_cons, CString.atoi_toString hlt,
      ih (fun field hfield => hfields field (by simp [hfield])) (by simpa using hn)]
    rfl

/-- `split` gives back the fields of a frame, and nothing after the last one. -/
lemma splitOn_fieldsText {fields : List (ℕ × List Char)}
    (hfields : ∀ field ∈ fields, soh ∉ field.2) :
    (fieldsText fields).splitOn soh = fields.map fieldText ++ [[]] := by
  induction fields with
  | nil => rfl
  | cons field fields ih =>
    have hsplit : fieldsText (field :: fields) = fieldText field ++ soh :: fieldsText fields := by
      simp [fieldsText]
    rw [hsplit, List.splitOn_append_cons_self_of_not_mem
      (soh_not_mem_fieldText (hfields field (by simp))),
      ih fun field hfield => hfields field (by simp [hfield])]
    rfl

lemma splitEq_fieldText (field : ℕ × List Char) :
    PyString.splitEq (fieldText field) = (CString.toString field.1, field.2) :=
  PyString.splitEq_append (not_mem_toString (by decide))

lemma eq_mem_fieldText (field : ℕ × List Char) : '=' ∈ fieldText field := by simp [fieldText]

lemma parseFix_fieldsText {fields : List (ℕ × List Char)}
    (hfields : ∀ field ∈ fields, soh ∉ field.2) :
    FixServer.parseFix (fieldsText fields) = some (collect fields) := by
  have hpair : ∀ tags field, FixServer.parsePair tags (fieldText field)
      = some (tags.insert (field.1 : ℤ) field.2) := by
    intro tags field
    simp [FixServer.parsePair, eq_mem_fieldText, splitEq_fieldText, PyString.int_toString]
  rw [FixServer.parseFix, splitOn_fieldsText hfields, collect]
  generalize (∅ : TagMap) = tags
  induction fields generalizing tags with
  | nil => simp [FixServer.parsePair]
  | cons field fields ih =>
    rw [List.map_cons, List.cons_append, List.foldlM_cons, hpair]
    exact ih (fun field hfield => hfields field (by simp [hfield])) _

lemma parseMsg_fieldsText {fields : List (ℕ × List Char)}
    (hfields : ∀ field ∈ fields, soh ∉ field.2) :
    CppEngineBridge.parseMsg (fieldsText fields) = collect fields := by
  have hpair : ∀ tags field, CppEngineBridge.parsePair tags (fieldText field)
      = tags.insert (field.1 : ℤ) field.2 := by
    intro tags field
    simp [CppEngineBridge.parsePair, eq_mem_fieldText, splitEq_fieldText, PyString.int_toString]
  rw [CppEngineBridge.parseMsg, splitOn_fieldsText hfields, collect, List.foldl_append,
    List.foldl_map]
  simp only [hpair]
  simp [CppEngineBridge.parsePair]

/-- The dictionary holds exactly the fields of the message with its tags 8, 9 and 10. -/
def Holds (m : FIXFields) (tags : TagMap) : Prop :=
  ∀ tag val, tags.lookup tag = some val ↔ ∃ field ∈ m.all, (field.1 : ℤ) = tag ∧ field.2 = val

lemma holds_collect (m : FIXFields) : m.Holds (collect m.all) :=
  fun _ _ => lookup_collect m.nodup_all

/-! ### Streams of messages -/

/-- Messages that are sent one after the other. -/
def stream (msgs : List FIXFields) : List Char := msgs.flatMap text

lemma frames_stream {msgs : List FIXFields} (h : ∀ m ∈ msgs, m.Framed) :
    frames checkSumTag soh (stream msgs) = (msgs.map text, []) := by
  induction msgs with
  | nil => rfl
  | cons m msgs ih =>
    rw [stream, List.flatMap_cons, Framing.frames_of_some (cut_text (h m (by simp)) _)]
    have hrest := ih fun m hm => h m (by simp [hm])
    rw [stream] at hrest
    rw [hrest]
    rfl

end FIXFields

/-! ### The readers in Python -/

lemma CppEngineBridge.run_recvLoop (buf : List Char) (chunks : List (List Char)) :
    Machine.run recvLoop buf chunks
      = ((Machine.run (Framing.feed checkSumTag soh) buf (chunks.map PyString.decode)).1,
        (Machine.run (Framing.feed checkSumTag soh) buf (chunks.map PyString.decode)).2.map
          parseMsg) := by
  induction chunks generalizing buf with
  | nil => rfl
  | cons chunk chunks ih => simp [recvLoop, ih]

/-- As long as no message raises an exception, the FIX server goes on. -/
lemma FixServer.run_handle {buf : List Char} {chunks : List (List Char)}
    (h : ∀ raw ∈ (Machine.run (Framing.feed checkSumTag soh) buf (chunks.map PyString.decode)).2,
      (parseFix raw).isSome = true) :
    Machine.run handle (some buf) chunks
      = (some (Machine.run (Framing.feed checkSumTag soh) buf (chunks.map PyString.decode)).1,
        ((Machine.run (Framing.feed checkSumTag soh) buf (chunks.map PyString.decode)).2.map
          parseFix).reduceOption) := by
  induction chunks generalizing buf with
  | nil => rfl
  | cons chunk chunks ih =>
    simp only [List.map_cons, Machine.run_cons, List.mem_append] at h ⊢
    have hall : ((Framing.feed checkSumTag soh buf (PyString.decode chunk)).2.all fun msgRaw =>
        (parseFix msgRaw).isSome) = true := List.all_eq_true.mpr fun raw hraw => h raw (Or.inl hraw)
    have htake : ((Framing.feed checkSumTag soh buf (PyString.decode chunk)).2.map
        parseFix).takeWhile Option.isSome
        = (Framing.feed checkSumTag soh buf (PyString.decode chunk)).2.map parseFix := by
      refine List.takeWhile_eq_self_iff.mpr fun x hx => ?_
      obtain ⟨raw, hraw, rfl⟩ := List.mem_map.mp hx
      exact h raw (Or.inl hraw)
    simp only [handle, hall, if_true, htake, ih fun raw hraw => h raw (Or.inr hraw),
      List.map_append, List.reduceOption_append]

/-! ### Round trips -/

open FIXFields (Holds stream)

/-- All three readers find the messages that were written, each with its fields and tags 8, 9 and
10, and nothing else; the Python readers in whatever chunks the stream comes. -/
structure RoundTrips (msgs : List FIXFields) : Prop where
  parseFIXMessages : List.Forall₂ Holds msgs (FIXAcceptorActor.parseFIXMessages (stream msgs)).1 ∧
    (FIXAcceptorActor.parseFIXMessages (stream msgs)).2 = []
  handle : ∀ chunks : List (List Char), chunks.flatten = stream msgs →
    List.Forall₂ Holds msgs (Machine.run FixServer.handle (some []) chunks).2 ∧
      (Machine.run FixServer.handle (some []) chunks).1 = some []
  recvLoop : ∀ chunks : List (List Char), chunks.flatten = stream msgs →
    List.Forall₂ Holds msgs (Machine.run CppEngineBridge.recvLoop [] chunks).2 ∧
      (Machine.run CppEngineBridge.recvLoop [] chunks).1 = []

/-- A field that survives: its tag fits an `int`, its text does not contain `10=`, and its value is
ASCII. -/
structure Survives (field : ℕ × List Char) : Prop where
  tag : field.1 < 2 ^ 31
  unmarked : ¬checkSumTag <:+: fieldText field
  ascii : ∀ c ∈ field.2, c.toNat < 128

section

variable {msgs : List FIXFields}

lemma toNat_lt_of_isDigit {c : Char} (hc : c.isDigit = true) : c.toNat < 128 := by
  have := CString.toNat_of_isDigit hc
  omega

lemma forall_all {P : ℕ × List Char → Prop} (hdigits : ∀ tag ∈ [9, 10], ∀ val : List Char,
    (∀ c ∈ val, c.isDigit = true) → P (tag, val)) (hversion : P (8, "FIX.4.4".toList))
    (hfields : ∀ field ∈ m.fields, P field) : ∀ field ∈ m.all, P field := by
  intro field hfield
  simp only [FIXFields.all, header, List.mem_append, List.mem_cons, List.not_mem_nil,
    or_false] at hfield
  rcases hfield with (hfield | hfield) | hfield
  · rcases hfield with rfl | rfl
    · exact hversion
    · exact hdigits 9 (by simp) _ fun c hc => CString.isDigit_of_mem_toString hc
  · exact hfields field hfield
  · rw [hfield]
    exact hdigits 10 (by simp) _ (FIXFields.checksum_digits _)

lemma ascii_text (h : ∀ field ∈ m.fields, Survives field) : ∀ c ∈ m.text, c.toNat < 128 := by
  have hall : ∀ field ∈ m.all, ∀ c ∈ field.2, c.toNat < 128 :=
    forall_all (fun tag _ val hval c hc => toNat_lt_of_isDigit (hval c hc)) (by simp)
      fun field hfield => (h field hfield).ascii
  intro c hc
  rw [FIXFields.text_eq] at hc
  obtain ⟨field, hfield, hc⟩ := List.mem_flatMap.mp hc
  simp only [fieldText, List.append_assoc, List.cons_append, List.mem_append, List.mem_cons,
    List.not_mem_nil, or_false] at hc
  rcases hc with hc | rfl | hc | rfl
  · exact toNat_lt_of_isDigit (CString.isDigit_of_mem_toString hc)
  · decide
  · exact hall field hfield c hc
  · decide

lemma length_fieldsText (fields : List (ℕ × List Char)) :
    fields.length ≤ (fieldsText fields).length := by
  induction fields with
  | nil => simp
  | cons field fields ih =>
    simp only [fieldsText, List.flatMap_cons, List.length_append, List.length_cons] at ih ⊢
    omega

/-- The acceptor reads a framed message as it is. -/
lemma parseTags_text (htags : ∀ field ∈ m.fields, field.1 < 2 ^ 31) :
    FIXAcceptorActor.parseTags m.text.length m.text ∅ = FIXFields.collect m.all := by
  have hlt : ∀ field ∈ m.all, field.1 < 2 ^ 31 :=
    forall_all (fun tag htag val _ => by
      simp only [List.mem_cons, List.not_mem_nil, or_false] at htag
      rcases htag with rfl | rfl <;> simp) (by decide) htags
  rw [FIXFields.text_eq]
  exact FIXFields.parseTags_fieldsText (fun field hfield =>
    ⟨m.soh_not_mem_all field hfield, hlt field hfield⟩) (length_fieldsText _) ∅

lemma collect_ne_empty (hne : fields ≠ []) : FIXFields.collect fields ≠ ∅ := by
  rw [← List.dropLast_append_getLast hne, FIXFields.collect, List.foldl_append]
  intro hempty
  have hlookup := congrArg (Finmap.lookup ((fields.getLast hne).1 : ℤ)) hempty
  simp at hlookup

lemma all_ne_nil (m : FIXFields) : m.all ≠ [] := by simp [FIXFields.all, header]

lemma holds_map_collect (msgs : List FIXFields) :
    List.Forall₂ Holds msgs (msgs.map fun m => FIXFields.collect m.all) := by
  rw [List.forall₂_map_right_iff, List.forall₂_same]
  exact fun m _ => m.holds_collect

/-- Bytes of ASCII are decoded as they are, in chunks as well. -/
lemma flatten_decode {chunks : List (List Char)} {s : List Char} (hchunks : chunks.flatten = s)
    (hs : ∀ c ∈ s, c.toNat < 128) : (chunks.map PyString.decode).flatten = s := by
  have hmap : (chunks.map PyString.decode).flatten = PyString.decode chunks.flatten :=
    List.map_flatten.symm
  rw [hmap, hchunks, PyString.decode_of_ascii hs]

theorem roundTrips_of_survives (h : ∀ m ∈ msgs, ∀ field ∈ m.fields, Survives field) :
    RoundTrips msgs := by
  have hframed : ∀ m ∈ msgs, m.Framed := fun m hm field hfield => (h m hm field hfield).unmarked
  have hascii : ∀ c ∈ stream msgs, c.toNat < 128 := by
    intro c hc
    obtain ⟨m, hm, hc⟩ := List.mem_flatMap.mp hc
    exact ascii_text (h m hm) c hc
  have hfeed : ∀ chunks : List (List Char), chunks.flatten = stream msgs →
      Machine.run (Framing.feed checkSumTag soh) [] (chunks.map PyString.decode)
        = ([], msgs.map FIXFields.text) := by
    intro chunks hchunks
    rw [Framing.run_feed Framing.cut_nil, flatten_decode hchunks hascii,
      List.nil_append, FIXFields.frames_stream hframed]
  constructor
  · have hparsed : (FIXAcceptorActor.parseFIXMessages (stream msgs)).1
        = msgs.map fun m => FIXFields.collect m.all := by
      simp only [FIXAcceptorActor.parseFIXMessages, FIXFields.frames_stream hframed, List.map_map]
      have hmap : msgs.map ((fun rawMsg => FIXAcceptorActor.parseTags rawMsg.length rawMsg ∅) ∘
          FIXFields.text) = msgs.map fun m => FIXFields.collect m.all :=
        List.map_congr_left fun m hm => parseTags_text fun field hfield => (h m hm field hfield).tag
      rw [hmap, List.filter_eq_self]
      intro tags htags
      obtain ⟨m, -, rfl⟩ := List.mem_map.mp htags
      simpa using collect_ne_empty (all_ne_nil m)
    refine ⟨hparsed ▸ holds_map_collect msgs, ?_⟩
    simp only [FIXAcceptorActor.parseFIXMessages, FIXFields.frames_stream hframed]
  · intro chunks hchunks
    have hparse : ∀ m : FIXFields, FixServer.parseFix m.text = some (FIXFields.collect m.all) := by
      intro m
      rw [m.text_eq]
      exact FIXFields.parseFix_fieldsText m.soh_not_mem_all
    have hraw : ∀ raw ∈ (Machine.run (Framing.feed checkSumTag soh) []
        (chunks.map PyString.decode)).2, (FixServer.parseFix raw).isSome = true := by
      rw [hfeed chunks hchunks]
      intro raw hraw
      obtain ⟨m, -, rfl⟩ := List.mem_map.mp hraw
      rw [hparse]
      rfl
    rw [FixServer.run_handle hraw, hfeed chunks hchunks]
    have hmap : ∀ msgs : List FIXFields, ((msgs.map FIXFields.text).map
        FixServer.parseFix).reduceOption = msgs.map fun m => FIXFields.collect m.all := by
      intro msgs
      induction msgs with
      | nil => rfl
      | cons m msgs ih =>
        rw [List.map_cons, List.map_cons, hparse, List.reduceOption_cons_of_some, ih]
        rfl
    exact ⟨hmap msgs ▸ holds_map_collect msgs, rfl⟩
  · intro chunks hchunks
    rw [CppEngineBridge.run_recvLoop, hfeed chunks hchunks]
    have hmap : (msgs.map FIXFields.text).map CppEngineBridge.parseMsg
        = msgs.map fun m => FIXFields.collect m.all := by
      rw [List.map_map]
      refine List.map_congr_left fun m _ => ?_
      rw [Function.comp_apply, m.text_eq]
      exact FIXFields.parseMsg_fieldsText m.soh_not_mem_all
    exact ⟨hmap ▸ holds_map_collect msgs, rfl⟩

/-! ### What goes wrong otherwise -/

lemma exists_holds {dicts : List TagMap} (h : List.Forall₂ Holds msgs dicts) (hm : m ∈ msgs) :
    ∃ tags ∈ dicts, m.Holds tags := by
  induction h with
  | nil => cases hm
  | cons hhold _ ih =>
    rcases List.mem_cons.mp hm with rfl | hm
    · exact ⟨_, List.mem_cons_self, hhold⟩
    · obtain ⟨tags, htags, hhold⟩ := ih hm
      exact ⟨tags, List.mem_cons_of_mem _ htags, hhold⟩

lemma lookup_of_holds {tags : TagMap} (h : m.Holds tags) (hfield : field ∈ m.fields) :
    tags.lookup (field.1 : ℤ) = some field.2 :=
  (h _ _).mpr ⟨field, by simp [FIXFields.all, hfield], rfl, rfl⟩

/-- The tags that the acceptor reads fit an `int`. -/
lemma parseTags_lt {n : ℕ} {rawMsg : List Char} {tags : TagMap}
    (htags : ∀ tag val, tags.lookup tag = some val → tag < 2 ^ 31) :
    ∀ tag val, (FIXAcceptorActor.parseTags n rawMsg tags).lookup tag = some val → tag < 2 ^ 31 := by
  induction n generalizing rawMsg tags with
  | zero => exact htags
  | succ n ih =>
    rw [FIXAcceptorActor.parseTags]
    split
    · exact htags
    · refine ih fun tag val hlookup => ?_
      by_cases htag : tag = CString.atoi (rawMsg.takeWhile (· ≠ '='))
      · rw [htag]
        exact CString.atoi_lt _
      · rw [Finmap.lookup_insert_of_ne _ htag] at hlookup
        exact htags tag val hlookup

lemma tag_of_parsed (h : List.Forall₂ Holds msgs
    (FIXAcceptorActor.parseFIXMessages (stream msgs)).1) (hm : m ∈ msgs)
    (hfield : field ∈ m.fields) : field.1 < 2 ^ 31 := by
  obtain ⟨tags, htags, hhold⟩ := exists_holds h hm
  obtain ⟨rawMsg, -, rfl⟩ := List.mem_map.mp (List.mem_of_mem_filter htags)
  have hlt := parseTags_lt (by simp) _ _ (lookup_of_holds hhold hfield)
  exact_mod_cast hlt

/-- A message that is cut in two comes out without its tag 10. -/
lemma framed_of_parsed (htags : ∀ m ∈ msgs, ∀ field ∈ m.fields, field.1 < 2 ^ 31)
    (h : List.Forall₂ Holds msgs (FIXAcceptorActor.parseFIXMessages (stream msgs)).1) :
    ∀ m ∈ msgs, m.Framed := by
  induction msgs with
  | nil => simp
  | cons m msgs ih =>
    have hstream : stream (m :: msgs) = m.text ++ stream msgs := List.flatMap_cons
    by_cases hm : m.Framed
    · rw [hstream] at h
      simp only [FIXAcceptorActor.parseFIXMessages,
        Framing.frames_of_some (FIXFields.cut_text hm (stream msgs)), List.map_cons,
        parseTags_text (htags m (by simp))] at h
      rw [List.filter_cons_of_pos (by simpa using collect_ne_empty (all_ne_nil m)),
        List.forall₂_cons] at h
      have hrest := ih (fun m hm => htags m (by simp [hm])) h.2
      simpa [hm] using hrest
    · obtain ⟨pre, post, hsplit, hcut⟩ := FIXFields.cut_text_of_not_framed hm (stream msgs)
      exfalso
      have hfields : ∀ field ∈ header (fieldsText m.fields).length ++ pre,
          soh ∉ field.2 ∧ field.1 < 2 ^ 31 := by
        intro field hfield
        rcases List.mem_append.mp hfield with hfield | hfield
        · refine ⟨FIXFields.header_soh _ field hfield, ?_⟩
          simp only [header, List.mem_cons, List.not_mem_nil, or_false] at hfield
          rcases hfield with rfl | rfl <;> simp
        · have hmem : field ∈ m.fields := by simp [hsplit, hfield]
          exact ⟨m.soh_not_mem hmem, htags m (by simp) field hmem⟩
      rw [hstream] at h
      simp only [FIXAcceptorActor.parseFIXMessages, Framing.frames_of_some hcut, List.map_cons,
        FIXFields.parseTags_fieldsText hfields (length_fieldsText _)] at h
      have hne : FIXFields.collect (header (fieldsText m.fields).length ++ pre) ≠ ∅ :=
        collect_ne_empty (by simp [header])
      rw [List.filter_cons_of_pos (by simpa [FIXFields.collect] using hne),
        List.forall₂_cons] at h
      have hlookup := (h.1 10 _).mpr ⟨_, List.mem_append_right _ (List.mem_singleton_self _), rfl,
        rfl⟩
      obtain ⟨field, hfield, htag⟩ := FIXFields.mem_of_lookup_collect hlookup
      have htag : field.1 = 10 := by exact_mod_cast htag
      rcases List.mem_append.mp hfield with hfield | hfield
      · simp only [header, List.mem_cons, List.not_mem_nil, or_false] at hfield
        rcases hfield with rfl | rfl <;> simp at htag
      · exact (m.tags field (by simp [hsplit, hfield])).2 (by simp [htag])

/-! ### What the decoder loses -/

lemma mem_intercalate {parts : List (List Char)} {part : List Char} {a c : Char}
    (hpart : part ∈ parts) (hc : c ∈ part) : c ∈ [a].intercalate parts := by
  induction parts with
  | nil => cases hpart
  | cons part' parts ih =>
    cases parts with
    | nil =>
      obtain rfl := List.mem_singleton.mp hpart
      simpa [List.intercalate] using hc
    | cons part'' parts =>
      simp only [List.intercalate, List.intersperse, List.flatten_cons, List.mem_append] at ih ⊢
      rcases List.mem_cons.mp hpart with rfl | hpart
      · exact Or.inl hc
      · exact Or.inr (Or.inr (by simpa using ih hpart))

/-- Values are made of what was received. -/
lemma mem_of_parseMsg {raw val : List Char} {tag : ℤ}
    (hlookup : (CppEngineBridge.parseMsg raw).lookup tag = some val) {c : Char} (hc : c ∈ val) :
    c ∈ raw := by
  have hpairs : ∀ pair ∈ raw.splitOn soh, ∀ c ∈ pair, c ∈ raw := by
    intro pair hpair c hc
    have hraw : [soh].intercalate (raw.splitOn soh) = raw := List.intercalate_splitOn soh
    exact hraw ▸ mem_intercalate hpair hc
  have hfold : ∀ (pairs : List (List Char)) (tags : TagMap), (∀ pair ∈ pairs, ∀ c ∈ pair, c ∈ raw) →
      (∀ tag val, tags.lookup tag = some val → ∀ c ∈ val, c ∈ raw) →
      ∀ tag val, (pairs.foldl CppEngineBridge.parsePair tags).lookup tag = some val →
        ∀ c ∈ val, c ∈ raw := by
    intro pairs
    induction pairs with
    | nil => exact fun tags _ htags => htags
    | cons pair pairs ih =>
      intro tags hpairs htags
      refine ih _ (fun pair hpair => hpairs pair (by simp [hpair])) fun tag val hlookup => ?_
      rw [CppEngineBridge.parsePair] at hlookup
      split at hlookup
      · split at hlookup
        · rename_i tag' _
          by_cases htag : tag = tag'
          · subst htag
            rw [Finmap.lookup_insert, Option.some.injEq] at hlookup
            intro c hc
            rw [← hlookup, PyString.splitEq] at hc
            exact hpairs pair (by simp) c
              ((List.dropWhile_sublist _).subset ((List.drop_sublist _ _).subset hc))
          · rw [Finmap.lookup_insert_of_ne _ htag] at hlookup
            exact htags tag val hlookup
        · exact htags tag val hlookup
      · exact htags tag val hlookup
  exact hfold _ ∅ hpairs (by simp) tag val hlookup c hc

/-- A byte beyond ASCII does not come back from the bridge. -/
lemma ascii_of_received (h : List.Forall₂ Holds msgs
    (Machine.run CppEngineBridge.recvLoop [] [stream msgs]).2) (hm : m ∈ msgs)
    (hfield : field ∈ m.fields) : ∀ c ∈ field.2, c.toNat < 128 := by
  intro c hc
  obtain ⟨tags, htags, hhold⟩ := exists_holds h hm
  rw [CppEngineBridge.run_recvLoop, Framing.run_feed Framing.cut_nil] at htags
  obtain ⟨raw, hraw, rfl⟩ := List.mem_map.mp htags
  have hcraw := mem_of_parseMsg (lookup_of_holds hhold hfield) hc
  refine PyString.lt_of_mem_decode (s := stream msgs) ?_ (m.values field hfield c hc).2
  have hflatten := Framing.flatten_frames checkSumTag soh
    ([] ++ ([stream msgs].map PyString.decode).flatten)
  have hmem : c ∈ [] ++ ([stream msgs].map PyString.decode).flatten := by
    rw [← hflatten]
    exact List.mem_append_left _ (List.mem_flatten.mpr ⟨raw, hraw, hcraw⟩)
  simpa using hmem

end

/-- Any messages make the round trip through all three readers exactly if all of their fields
survive. -/
theorem roundTrips_iff (msgs : List FIXFields) :
    RoundTrips msgs ↔ ∀ m ∈ msgs, ∀ field ∈ m.fields, Survives field := by
  constructor
  · intro h m hm field hfield
    have htags : ∀ m ∈ msgs, ∀ field ∈ m.fields, field.1 < 2 ^ 31 :=
      fun m hm field hfield => tag_of_parsed h.parseFIXMessages.1 hm hfield
    exact ⟨htags m hm field hfield, framed_of_parsed htags h.parseFIXMessages.1 m hm field hfield,
      ascii_of_received (h.recvLoop [stream msgs] (by simp)).1 hm hfield⟩
  · exact roundTrips_of_survives

/-- The message 35=D, 110=5 (MinQty) is cut after its tag 110. -/
theorem not_roundTrips_minQty : ¬∀ msgs : List FIXFields, RoundTrips msgs := by
  intro h
  have hlength := (h [⟨[(35, "D".toList), (110, "5".toList)], by simp, by simp,
    by simp [soh]⟩]).parseFIXMessages.1.length_eq
  exact absurd hlength (by decide +kernel)

end EuNEx
