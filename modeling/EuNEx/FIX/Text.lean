import EuNEx.Actors.FIXAcceptor
import EuNEx.Lib.Framing
import EuNEx.Lib.PyString

/-!
# FIX messages as text

Three programs write FIX messages and three read them: the acceptor (`FIXAcceptorActor::sendFIX`,
`parseFIXMessages`), the FIX server (`build_fix`, `FIXSession.handle` of `fix_server.py`) and the
bridge of the dashboard (`CppEngineBridge._send_fix`, `_recv_loop`). A character stands for a byte.
A `TagMap` is a dictionary of either language.
-/

namespace EuNEx

/-- The separator of fields. -/
def soh : Char := Char.ofNat 1

/-- What all readers look for, wherever it stands. -/
def checkSumTag : List Char := "10=".toList

/-! ### Writing -/

/-- `tag=val`. -/
def fieldText (field : ℕ × List Char) : List Char := CString.toString field.1 ++ '=' :: field.2

def fieldsText (fields : List (ℕ × List Char)) : List Char :=
  fields.flatMap fun field => fieldText field ++ [soh]

/-- `tag=val`, for a tag of either sign. -/
def intFieldText (field : ℤ × List Char) : List Char := PyString.str field.1 ++ '=' :: field.2

/-- `%03d`. -/
def threeDigits (n : ℕ) : List Char :=
  List.replicate (3 - (CString.toString n).length) '0' ++ CString.toString n

/-- The sum of the bytes modulo 256, in three digits. -/
def checksum (msg : List Char) : List Char := threeDigits ((msg.map Char.toNat).sum % 256)

/-- Tags 8 and 9, with the length of the body. -/
def header (length : ℕ) : List (ℕ × List Char) :=
  [(8, "FIX.4.4".toList), (9, CString.toString length)]

/-- A message with these fields: header, body and checksum. -/
def rawMessage (fields : List (ℕ × List Char)) : List Char :=
  let bodyStr := fieldsText fields
  let raw := fieldsText (header bodyStr.length) ++ bodyStr
  raw ++ fieldsText [(10, checksum raw)]

/-- `build_fix`, of a dictionary in the order of its keys, which may be any integers. -/
def buildFix (fields : List (ℤ × List Char)) : List Char :=
  let bodyParts := (fields.filter fun field => field.1 ∉ [8, 9, 10]).map intFieldText
  let body := [soh].intercalate bodyParts
  let msg := fieldsText (header (body.length + 1)) ++ body ++ [soh]
  msg ++ fieldsText [(10, checksum msg)]

/-- Fields with tags that are not negative. -/
def withInts (fields : List (ℕ × List Char)) : List (ℤ × List Char) :=
  fields.map (Prod.map (↑) id)

/-- `fields[tag] = val` of a dictionary. -/
def setField (fields : List (ℕ × List Char)) (tag : ℕ) (val : List Char) : List (ℕ × List Char) :=
  if tag ∈ fields.map Prod.fst then
    fields.map fun field => if field.1 = tag then (tag, val) else field
  else fields ++ [(tag, val)]

/-- What `_send_fix` sends: it sets tags 34 and 52, and has the text of `build_fix`. -/
def CppEngineBridge.sendFix (fields : List (ℕ × List Char)) (seq : ℕ) (sendingTime : List Char) :
    List Char :=
  buildFix (withInts (setField (setField fields 34 (CString.toString seq)) 52 sendingTime))

/-! ### Reading -/

namespace FIXAcceptorActor

/-- The loop of `parseFIXMessages` over the fields of a message, with fuel. -/
def parseTags : ℕ → List Char → TagMap → TagMap
  | 0, _, tags => tags
  | n + 1, rawMsg, tags =>
    match rawMsg.dropWhile (· ≠ '=') with
    | [] => tags
    | _ :: rest =>
      let tag := CString.atoi (rawMsg.takeWhile (· ≠ '='))
      let val := rest.takeWhile (· ≠ soh)
      parseTags n ((rest.dropWhile (· ≠ soh)).drop 1) (tags.insert tag val)

/-- The messages in the data, and what remains. -/
def parseFIXMessages (data : List Char) : List TagMap × List Char :=
  let (raw, remaining) := Framing.frames checkSumTag soh data
  ((raw.map fun rawMsg => parseTags rawMsg.length rawMsg ∅).filter fun tags => tags ≠ ∅, remaining)

end FIXAcceptorActor

namespace FixServer

/-- One pair of `parse_fix`. A tag that is no number raises `ValueError`. -/
def parsePair (fields : TagMap) (pair : List Char) : Option TagMap :=
  if '=' ∈ pair then
    (PyString.int (PyString.splitEq pair).1).map fun tag =>
      fields.insert tag (PyString.splitEq pair).2
  else some fields

def parseFix (raw : List Char) : Option TagMap := (raw.splitOn soh).foldlM parsePair ∅

/-- `FIXSession.handle` receives data while the session is running: it hands on the messages that
are complete, and ends with the first one that raises an exception. -/
def handle : Option (List Char) → List Char → Option (List Char) × List TagMap
  | none, _ => (none, [])
  | some buf, data =>
    let (rest, raw) := Framing.feed checkSumTag soh buf (PyString.decode data)
    (if raw.all fun msgRaw => (parseFix msgRaw).isSome then some rest else none,
      ((raw.map parseFix).takeWhile Option.isSome).reduceOption)

end FixServer

namespace CppEngineBridge

/-- One pair of `_handle_fix_msg`. A tag that is no number is passed over. -/
def parsePair (fields : TagMap) (pair : List Char) : TagMap :=
  if '=' ∈ pair then
    match PyString.int (PyString.splitEq pair).1 with
    | some tag => fields.insert tag (PyString.splitEq pair).2
    | none => fields
  else fields

/-- The fields that `_handle_fix_msg` finds. -/
def parseMsg (raw : List Char) : TagMap := (raw.splitOn soh).foldl parsePair ∅

/-- `_recv_loop` receives data. -/
def recvLoop (buf data : List Char) : List Char × List TagMap :=
  let (rest, raw) := Framing.feed checkSumTag soh buf (PyString.decode data)
  (rest, raw.map parseMsg)

end CppEngineBridge

/-! ### The common format -/

/-- The fields of a message: positive and distinct tags other than 8, 9 and 10, and values without
separators. -/
structure FIXFields where
  fields : List (ℕ × List Char)
  tags : ∀ field ∈ fields, 0 < field.1 ∧ field.1 ∉ [8, 9, 10]
  distinct : (fields.map Prod.fst).Nodup
  values : ∀ field ∈ fields, ∀ c ∈ field.2, c ≠ soh ∧ c.toNat < 256

namespace FIXFields

variable (m : FIXFields)

/-- The message as text. -/
def text : List Char := rawMessage m.fields

/-- All fields, with tags 8, 9 and 10. -/
def all : List (ℕ × List Char) :=
  let body := fieldsText m.fields
  header body.length ++ m.fields ++
    [(10, checksum (fieldsText (header body.length) ++ body))]

lemma fieldsText_append (fields fields' : List (ℕ × List Char)) :
    fieldsText (fields ++ fields') = fieldsText fields ++ fieldsText fields' :=
  List.flatMap_append

lemma text_eq : m.text = fieldsText m.all := by
  simp only [text, rawMessage, all, fieldsText_append, List.append_assoc]

end FIXFields

lemma intercalate_append_singleton {α : Type*} (a : α) {parts : List (List α)} (hne : parts ≠ []) :
    [a].intercalate parts ++ [a] = parts.flatMap (· ++ [a]) := by
  induction parts with
  | nil => exact absurd rfl hne
  | cons part parts ih =>
    cases parts with
    | nil => simp [List.intercalate]
    | cons part' parts =>
      have hrest := ih (by simp)
      simp only [List.intercalate, List.intersperse, List.flatten_cons, List.flatMap_cons,
        List.append_assoc] at hrest ⊢
      rw [hrest]

lemma intFieldText_natCast (field : ℕ × List Char) :
    intFieldText (Prod.map (↑) id field) = fieldText field := by
  rw [intFieldText, Prod.map_fst, PyString.str_natCast]
  rfl

/-- The writers in Python produce the same text. -/
theorem buildFix_eq {fields : List (ℕ × List Char)} (hne : fields ≠ [])
    (htags : ∀ field ∈ fields, field.1 ∉ [8, 9, 10]) :
    buildFix (withInts fields) = rawMessage fields := by
  have hbody : [soh].intercalate (fields.map fieldText) ++ [soh] = fieldsText fields := by
    rw [intercalate_append_singleton soh (by simpa using hne), List.flatMap_map]
    rfl
  have hfilter : ((withInts fields).filter fun field => field.1 ∉ [8, 9, 10])
      = withInts fields := by
    refine List.filter_eq_self.mpr fun field hfield => ?_
    obtain ⟨field, hmem, rfl⟩ := List.mem_map.mp hfield
    have htag := htags field hmem
    simp only [List.mem_cons, List.not_mem_nil, or_false] at htag
    simp only [Prod.map_fst, List.mem_cons, List.not_mem_nil, or_false, decide_eq_true_eq]
    omega
  have hparts : (withInts fields).map intFieldText = fields.map fieldText := by
    rw [withInts, List.map_map]
    exact List.map_congr_left fun field _ => intFieldText_natCast field
  have hlength : ([soh].intercalate (fields.map fieldText)).length + 1
      = (fieldsText fields).length := by
    rw [← hbody]
    simp
  simp only [buildFix, rawMessage, hfilter, hparts, hlength, List.append_assoc, ← hbody]

lemma mem_setField {fields : List (ℕ × List Char)} {tag : ℕ} {val : List Char}
    {field : ℕ × List Char} (h : field ∈ setField fields tag val) :
    field ∈ fields ∨ field = (tag, val) := by
  rw [setField] at h
  split at h
  · obtain ⟨g, hg, rfl⟩ := List.mem_map.mp h
    split
    · exact Or.inr rfl
    · exact Or.inl hg
  · simpa using h

lemma setField_ne_nil (fields : List (ℕ × List Char)) (tag : ℕ) (val : List Char) :
    setField fields tag val ≠ [] := by
  rw [setField]
  split
  · rename_i htag
    rintro hnil
    simp [List.map_eq_nil_iff.mp hnil] at htag
  · simp

/-- What the bridge sends has the text that the acceptor would send. -/
theorem CppEngineBridge.sendFix_eq {fields : List (ℕ × List Char)}
    (htags : ∀ field ∈ fields, field.1 ∉ [8, 9, 10]) (seq : ℕ) (sendingTime : List Char) :
    sendFix fields seq sendingTime = rawMessage
      (setField (setField fields 34 (CString.toString seq)) 52 sendingTime) := by
  refine buildFix_eq (setField_ne_nil _ _ _) fun field hfield => ?_
  rcases mem_setField hfield with hfield | rfl
  · rcases mem_setField hfield with hfield | rfl
    · exact htags field hfield
    · simp
  · simp

end EuNEx
