import EuNEx.FIX.Chunks
import EuNEx.FIX.RoundTrip

/-!
# What the bridge sends

The bytes of `_send_fix` at the acceptor. A message whose values are clean arrives as one message
with these values, in UTF-8. With other values it may be cut, or have fields of its own.
-/

namespace EuNEx

/-- A value in which no reader finds the end of a field or of a message. -/
def Clean (val : List Char) : Prop := soh ∉ val ∧ ¬checkSumTag <:+: val

instance (val : List Char) : Decidable (Clean val) := inferInstanceAs (Decidable (_ ∧ _))

section

variable {s t val : List Char} {fields : List (ℕ × List Char)} {tag : ℕ}

/-- Without separators there is no end. -/
lemma clean_of_forall (hs : ∀ c ∈ s, c ≠ soh ∧ c ≠ '=') : Clean s :=
  ⟨fun hmem => (hs soh hmem).1 rfl, fun hin => (hs '=' (hin.subset (by decide))).2 rfl⟩

lemma clean_toString (n : ℕ) : Clean (CString.toString n) := by
  refine clean_of_forall fun c hc => ?_
  constructor <;> rintro rfl <;> exact absurd (CString.isDigit_of_mem_toString hc) (by decide)

lemma clean_str (n : ℤ) : Clean (PyString.str n) := by
  refine clean_of_forall fun c hc => ?_
  have hcases : c = '-' ∨ c.isDigit = true := PyString.mem_str hc
  constructor <;> rintro rfl <;> exact absurd hcases (by decide)

lemma Clean.encode (h : Clean s) : Clean (PyString.encode s) :=
  ⟨fun hmem => h.1 (PyString.mem_of_mem_encode (by decide) hmem),
    fun hin => h.2 (PyString.infix_of_infix_encode (by decide) checkSumTag_ne_nil hin)⟩

/-- In front of a text without `=` and digits, nothing is added to it that looks like an end. -/
lemma Clean.append (hs : Clean s) (ht : Clean t) (hlast : ∀ c ∈ s, c.isDigit = false ∧ c ≠ '=') :
    Clean (s ++ t) := by
  refine ⟨by simp [hs.1, ht.1], fun hin => ?_⟩
  induction s with
  | nil => exact ht.2 hin
  | cons c s ih =>
    have hc := (hlast c (by simp)).1
    rw [List.cons_append, List.infix_cons_iff] at hin
    rcases hin with hprefix | hin
    · have hone : '1' = c := (List.cons_prefix_cons.mp hprefix).1
      rw [← hone] at hc
      cases hc
    · refine ih ⟨fun hmem => hs.1 (by simp [hmem]), fun h => hs.2 (List.infix_cons h)⟩ ?_ hin
      exact fun c hc => hlast c (by simp [hc])

/-- The tags of the bridge's messages. -/
def sentTags : List ℕ := [11, 34, 35, 38, 40, 41, 44, 49, 52, 54, 55, 56, 59]

/-- None of these tags makes an end of what follows it. -/
lemma Clean.not_infix_fieldText (h : Clean val) (htag : tag ∈ sentTags) :
    ¬checkSumTag <:+: fieldText (tag, val) := by
  intro hin
  refine h.2 ?_
  simp only [sentTags, List.mem_cons, List.not_mem_nil, or_false] at htag
  rcases htag with rfl | rfl | rfl | rfl | rfl | rfl | rfl | rfl | rfl | rfl | rfl | rfl | rfl <;>
    simpa [fieldText, checkSumTag, List.infix_cons_iff, CString.toString, Nat.toDigits,
      Nat.toDigitsCore] using hin

/-! ### In UTF-8 -/

/-- The fields with their values in UTF-8. -/
def encoded (fields : List (ℕ × List Char)) : List (ℕ × List Char) :=
  fields.map fun field => (field.1, PyString.encode field.2)

lemma encode_of_digits (hs : ∀ c ∈ s, c.isDigit = true) : PyString.encode s = s := by
  refine PyString.encode_of_ascii fun c hc => ?_
  have hnat := CString.toNat_of_isDigit (hs c hc)
  omega

lemma encode_fieldsText (fields : List (ℕ × List Char)) :
    PyString.encode (fieldsText fields) = fieldsText (encoded fields) := by
  induction fields with
  | nil => rfl
  | cons field fields ih =>
    have htag := encode_of_digits fun c hc => CString.isDigit_of_mem_toString (n := field.1) hc
    have heq : PyString.encodeChar '=' = ['='] := PyString.encodeChar_of_lt (by decide)
    have hsoh : PyString.encodeChar soh = [soh] := PyString.encodeChar_of_lt (by decide)
    rw [fieldsText, List.flatMap_cons, ← fieldsText, PyString.encode_append, ih,
      PyString.encode_append, fieldText, PyString.encode_append, htag, PyString.encode_cons, heq,
      PyString.encode_cons, hsoh]
    rfl

lemma encoded_header (length : ℕ) : encoded (header length) = header length := by
  have hversion : PyString.encode "FIX.4.4".toList = "FIX.4.4".toList :=
    PyString.encode_of_ascii (by decide)
  rw [encoded, header, List.map_cons, List.map_singleton, hversion,
    encode_of_digits fun c hc => CString.isDigit_of_mem_toString hc]

/-! ### Arrival -/

/-- A message of the bridge that is sent. -/
structure Sendable (fields : List (ℕ × List Char)) : Prop where
  tags : ∀ field ∈ fields, field.1 ∈ sentTags
  clean : ∀ field ∈ fields, Clean field.2
  distinct : (fields.map Prod.fst).Nodup

/-- The fields of a request, to which `_send_fix` adds two. -/
structure Requested (fields : List (ℕ × List Char)) : Prop extends Sendable fields where
  seqless : 34 ∉ fields.map Prod.fst
  timeless : 52 ∉ fields.map Prod.fst
  type : ∃ msgType, (35, msgType) ∈ fields ∧ PyString.encode msgType ≠ "5".toList

/-- What the acceptor reads of its fields. -/
structure Received (fields : List (ℕ × List Char)) (msg : TagMap) : Prop where
  value : ∀ field ∈ fields, msg.lookup (field.1 : ℤ) = some (PyString.encode field.2)
  none : ∀ tag : ℕ, tag ∉ [8, 9, 10] → tag ∉ fields.map Prod.fst → msg.lookup (tag : ℤ) = none

/-- The fields as they arrive, up to the checksum. -/
def arriving (fields : List (ℕ × List Char)) : List (ℕ × List Char) :=
  header (fieldsText fields).length ++ encoded fields

lemma encode_rawMessage (fields : List (ℕ × List Char)) : ∃ val, (∀ c ∈ val, c.isDigit = true) ∧
    PyString.encode (rawMessage fields)
      = fieldsText (arriving fields ++ [(10, val)]) := by
  set raw := fieldsText (header (fieldsText fields).length) ++ fieldsText fields
  have hdigits : ∀ c ∈ checksum raw, c.isDigit = true := FIXFields.checksum_digits raw
  have hlast : encoded [(10, checksum raw)] = [(10, checksum raw)] := by
    rw [encoded, List.map_singleton, encode_of_digits hdigits]
  refine ⟨checksum raw, hdigits, ?_⟩
  rw [rawMessage, PyString.encode_append, PyString.encode_append,
    encode_fieldsText, encode_fieldsText, encode_fieldsText, encoded_header, hlast, arriving,
    FIXFields.fieldsText_append, FIXFields.fieldsText_append]

namespace Sendable

lemma mem_sentTags (h : Sendable fields) (htag : tag ∈ fields.map Prod.fst) : tag ∈ sentTags := by
  obtain ⟨field, hfield, rfl⟩ := List.mem_map.mp htag
  exact h.tags field hfield

/-- Nothing before the checksum looks like an end. -/
lemma arriving_clean (h : Sendable fields) : ∀ field ∈ arriving fields,
    soh ∉ field.2 ∧ ¬checkSumTag <:+: fieldText field ∧ field.1 < 2 ^ 31 := by
  intro field hfield
  rcases List.mem_append.mp hfield with hfield | hfield
  · refine ⟨FIXFields.header_soh _ field hfield, not_infix_header _ field hfield, ?_⟩
    simp only [header, List.mem_cons, List.not_mem_nil, or_false] at hfield
    rcases hfield with rfl | rfl <;> simp
  · obtain ⟨sent, hsent, rfl⟩ := List.mem_map.mp hfield
    have hclean := (h.clean sent hsent).encode
    have htag := h.tags sent hsent
    refine ⟨hclean.1, hclean.not_infix_fieldText htag, ?_⟩
    simp only [sentTags, List.mem_cons, List.not_mem_nil, or_false] at htag
    omega

lemma nodup_arriving (h : Sendable fields) (val : List Char) :
    ((arriving fields ++ [(10, val)]).map Prod.fst).Nodup := by
  have htags : (encoded fields).map Prod.fst = fields.map Prod.fst := by
    rw [encoded, List.map_map]
    rfl
  have hapart : ∀ tag ∈ [8, 9, 10], tag ∉ sentTags := by decide
  have hnot : ∀ tag ∈ [8, 9, 10], tag ∉ fields.map Prod.fst := fun tag htag hmem =>
    hapart tag htag (h.mem_sentTags hmem)
  simp only [arriving, header, List.map_append, htags, List.map_cons, List.map_nil,
    List.cons_append, List.nil_append, List.nodup_cons, List.mem_cons, List.mem_append,
    List.not_mem_nil, or_false, List.nodup_append]
  refine ⟨?_, ?_, h.distinct, by simp, ?_⟩
  · simpa using hnot 8 (by simp)
  · simpa using hnot 9 (by simp)
  · rintro tag htag tag' rfl rfl
    exact hnot 10 (by simp) htag

/-- A clean message is received whole, with its values. -/
lemma parseFIXMessages (h : Sendable fields) : ∃ msg,
    FIXAcceptorActor.parseFIXMessages (PyString.encode (rawMessage fields))
      = ([msg], []) ∧ Received fields msg := by
  obtain ⟨val, hval, hencode⟩ := encode_rawMessage fields
  have hsoh : soh ∉ val := FIXFields.soh_not_mem_of_digits hval
  have hnodup := h.nodup_arriving val
  have hcut := cut_first (10, val) []
    (fun field hfield => ⟨(h.arriving_clean field hfield).1, (h.arriving_clean field hfield).2.1⟩)
    hsoh (isInfix_checkSum val) []
  have hread : ∀ field ∈ arriving fields ++ [(10, val)], soh ∉ field.2 ∧ field.1 < 2 ^ 31 := by
    intro field hfield
    rcases List.mem_append.mp hfield with hfield | hfield
    · exact ⟨(h.arriving_clean field hfield).1, (h.arriving_clean field hfield).2.2⟩
    · rw [List.mem_singleton.mp hfield]
      exact ⟨hsoh, by simp⟩
  refine ⟨FIXFields.collect (arriving fields ++ [(10, val)]), ?_, fun field hfield => ?_,
    fun tag htag hnot => ?_⟩
  · rw [List.append_nil, List.append_nil] at hcut
    have hnil : Framing.frames checkSumTag soh (fieldsText []) = ([], []) := rfl
    rw [hencode, FIXAcceptorActor.parseFIXMessages, Framing.frames_of_some hcut, hnil]
    simp only [List.map_cons, List.map_nil,
      FIXFields.parseTags_fieldsText hread (length_fieldsText _)]
    have hne : FIXFields.collect (arriving fields ++ [(10, val)]) ≠ ∅ :=
      collect_ne_empty (by simp)
    rw [List.filter_cons_of_pos (by simpa [FIXFields.collect] using hne)]
    rfl
  · refine FIXFields.lookup_collect_of_mem hnodup (List.mem_append_left _ ?_)
    exact List.mem_append_right _ (List.mem_map_of_mem hfield)
  · refine Option.eq_none_iff_forall_ne_some.mpr fun val' hval' => ?_
    obtain ⟨field, hfield, heq⟩ := FIXFields.mem_of_lookup_collect hval'
    have heq : field.1 = tag := by exact_mod_cast heq
    simp only [arriving, header, encoded, List.mem_append, List.mem_cons, List.not_mem_nil,
      or_false, List.mem_map] at hfield
    rcases hfield with ((rfl | rfl) | ⟨sent, hsent, rfl⟩) | rfl
    · simp [← heq] at htag
    · simp [← heq] at htag
    · have hmem : sent.1 ∈ fields.map Prod.fst := List.mem_map_of_mem hsent
      exact hnot (heq ▸ hmem)
    · simp [← heq] at htag

/-- The receive loop hands on one message, and goes on unless it is a logout. -/
lemma clientRecvLoop (h : Sendable fields) {msgType : List Char} (htype : (35, msgType) ∈ fields)
    (hlogout : PyString.encode msgType ≠ "5".toList) : ∃ msg,
      FIXAcceptorActor.clientRecvLoop (some [])
          (PyString.encode (rawMessage fields)) = (some [], [msg]) ∧
        Received fields msg := by
  obtain ⟨msg, hparse, hreceived⟩ := h.parseFIXMessages
  have hnot : FIXAcceptorActor.isLogout msg = false := by
    have hlookup : msg.lookup 35 = some (PyString.encode msgType) := hreceived.value _ htype
    rw [FIXAcceptorActor.isLogout, getTag, hlookup]
    exact decide_eq_false hlogout
  refine ⟨msg, ?_, hreceived⟩
  have hne : PyString.encode (rawMessage fields) ≠ [] := by
    intro hnil
    rw [hnil] at hparse
    cases hparse
  rw [FIXAcceptorActor.clientRecvLoop, if_neg hne, List.nil_append, hparse]
  simp [hnot, FIXAcceptorActor.handled]

end Sendable

namespace Requested

/-- `_send_fix` adds its two fields at the end. -/
lemma setField_eq (h : Requested fields) (seq : ℕ) :
    setField (setField fields 34 (CString.toString seq)) 52 t
      = fields ++ [(34, CString.toString seq), (52, t)] := by
  rw [setField, setField, if_neg h.seqless, if_neg, List.append_assoc]
  · rfl
  · simpa using h.timeless

lemma sendable (h : Requested fields) (seq : ℕ) (ht : Clean t) :
    Sendable (fields ++ [(34, CString.toString seq), (52, t)]) where
  tags := by
    refine List.forall_mem_append.mpr ⟨h.tags, ?_⟩
    simp [sentTags]
  clean := by
    refine List.forall_mem_append.mpr ⟨h.clean, ?_⟩
    simpa using ⟨clean_toString seq, ht⟩
  distinct := by
    rw [List.map_append, List.nodup_append]
    refine ⟨h.distinct, by simp, fun tag htag tag' htag' => ?_⟩
    simp only [List.map_cons, List.map_nil, List.mem_cons, List.not_mem_nil, or_false] at htag'
    rcases htag' with rfl | rfl <;> rintro rfl
    · exact h.seqless htag
    · exact h.timeless htag

/-- A request is received as one message, with the values that were sent and no OrderID. -/
lemma clientRecvLoop_sendFix (h : Requested fields) (seq : ℕ) (ht : Clean t) : ∃ msg,
    FIXAcceptorActor.clientRecvLoop (some [])
        (PyString.encode (CppEngineBridge.sendFix fields seq t)) = (some [], [msg]) ∧
      (∀ field ∈ fields, msg.lookup (field.1 : ℤ) = some (PyString.encode field.2)) ∧
      msg.lookup 37 = none := by
  have hapart : ∀ tag ∈ sentTags, tag ∉ [8, 9, 10] := by decide
  have hsendable := h.sendable seq ht
  have heq := CppEngineBridge.sendFix_eq
    (fun field hfield => hapart field.1 (h.tags field hfield)) seq t
  obtain ⟨msgType, htype, hlogout⟩ := h.type
  obtain ⟨msg, hmsg, hreceived⟩ :=
    hsendable.clientRecvLoop (List.mem_append_left _ htype) hlogout
  have horderId : 37 ∉ (fields ++ [(34, CString.toString seq), (52, t)]).map Prod.fst :=
    fun hmem => absurd (hsendable.mem_sentTags hmem) (by decide)
  rw [heq, h.setField_eq seq]
  exact ⟨msg, hmsg, fun field hfield => hreceived.value field (List.mem_append_left _ hfield),
    hreceived.none 37 (by decide) horderId⟩

end Requested

end

end EuNEx
