import EuNEx.Actors.Logon
import EuNEx.FIX.Text

/-!
# Headers

The two writers of FIX messages: `FIXAcceptorActor::sendFIX`, which sums the bytes in an `int`, and
`build_fix`, both with any tags, that is, with tags of either sign. What they write has a right
length and a right checksum, and the messages of a session are numbered from one.
-/

namespace EuNEx

/-- What stands before tag 10. -/
def raw (bodyStr : List Char) : List Char := fieldsText (header bodyStr.length) ++ bodyStr

namespace FIXAcceptorActor

/-- The body of `sendFIX`. -/
def body (msgType senderCompId : List Char) (msgSeqNum : ℤ) (sendingTime : List Char)
    (fields : List (ℤ × List Char)) : List Char :=
  ([(35, msgType), (49, "EUNEX".toList), (56, senderCompId), (34, PyString.str msgSeqNum),
    (52, sendingTime)] ++ fields).flatMap fun field => intFieldText field ++ [soh]

/-- The loop over the bytes of `raw`. There is nothing to be said if the `int` overflows. -/
def sumBytes (s : List Char) : Option ℕ :=
  s.foldlM (fun sum c => if sum + c.toNat < 2 ^ 31 then some (sum + c.toNat) else none) 0

/-- What `sendFIX` sends. -/
def sendFIXBytes (msgType senderCompId : List Char) (msgSeqNum : ℤ) (sendingTime : List Char)
    (fields : List (ℤ × List Char)) : Option (List Char) := do
  let raw := raw (body msgType senderCompId msgSeqNum sendingTime fields)
  let checksum ← sumBytes raw
  return raw ++ checkSumTag ++ threeDigits (checksum % 256) ++ [soh]

end FIXAcceptorActor

/-- A message with a right BodyLength and a right CheckSum: the length is that of all from after
tag 9 to the separator before tag 10, and the sum is that of all bytes before tag 10. -/
structure Framed (text body cs : List Char) : Prop where
  text_eq : text = "8=FIX.4.4".toList ++ [soh] ++ "9=".toList ++ CString.toString body.length ++
    [soh] ++ body ++ "10=".toList ++ cs ++ [soh]
  body_end : [soh] <:+ body
  length_cs : cs.length = 3
  isDigit_cs : ∀ c ∈ cs, c.isDigit = true
  digits_cs : CString.digits cs = ((text.take (text.length - 7)).map Char.toNat).sum % 256

/-! ### Lengths and checksums -/

variable {n : ℕ} {s t : List Char}

lemma raw_eq (body : List Char) : raw body = "8=FIX.4.4".toList ++ [soh] ++ "9=".toList ++
    CString.toString body.length ++ [soh] ++ body := by
  simp [raw, fieldsText, header, fieldText, CString.toString, Nat.toDigits, Nat.toDigitsCore]

lemma fieldsText_checkSum (cs : List Char) :
    fieldsText [(10, cs)] = checkSumTag ++ cs ++ [soh] := by
  simp [fieldsText, fieldText, checkSumTag, CString.toString, Nat.toDigits, Nat.toDigitsCore]

lemma length_threeDigits (hn : n < 1000) : (threeDigits n).length = 3 := by
  have hle : (CString.toString n).length ≤ 3 :=
    (Nat.length_toDigits_le_iff (by decide) (by decide)).mpr hn
  rw [threeDigits, List.length_append, List.length_replicate, Nat.sub_add_cancel hle]

lemma isDigit_threeDigits : ∀ c ∈ threeDigits n, c.isDigit = true :=
  fun _ hc => CString.isDigit_of_mem_padded hc

lemma digits_threeDigits : CString.digits (threeDigits n) = n := by
  rw [CString.digits, List.takeWhile_eq_self_iff.mpr isDigit_threeDigits,
    ← Nat.ofDigitChars_eq_foldl, threeDigits, Nat.ofDigitChars_append,
    Nat.ofDigitChars_replicate_zero, Nat.mul_zero]
  exact Nat.ofDigitChars_ten_toDigits

/-- Whatever the body is, as long as it ends with a separator. -/
lemma framed_raw (hbody : [soh] <:+ s) : Framed
    (raw s ++ checkSumTag ++ threeDigits (((raw s).map Char.toNat).sum % 256) ++ [soh]) s
    (threeDigits (((raw s).map Char.toNat).sum % 256)) := by
  set n := ((raw s).map Char.toNat).sum % 256 with hn
  have hlt : n < 1000 := (Nat.mod_lt _ (by decide)).trans (by decide)
  have hlen : (checkSumTag ++ threeDigits n ++ [soh]).length = 7 := by
    rw [List.length_append, List.length_append, length_threeDigits hlt]
    rfl
  have htake : (raw s ++ checkSumTag ++ threeDigits n ++ [soh]).take
      ((raw s ++ checkSumTag ++ threeDigits n ++ [soh]).length - 7) = raw s := by
    have hassoc : raw s ++ checkSumTag ++ threeDigits n ++ [soh]
        = raw s ++ (checkSumTag ++ threeDigits n ++ [soh]) := by
      simp only [List.append_assoc]
    rw [hassoc, List.length_append, hlen, Nat.add_sub_cancel, List.take_left]
  refine ⟨?_, hbody, length_threeDigits hlt, isDigit_threeDigits, ?_⟩
  · rw [raw_eq]
    rfl
  · rw [htake, digits_threeDigits]

/-! ### The loop over the bytes -/

namespace FIXAcceptorActor

/-- The `int` does not overflow over fewer than `2 ^ 23` bytes. -/
lemma foldlM_sumBytes (hs : ∀ c ∈ s, c.toNat < 256) (hn : n + 255 * s.length < 2 ^ 31) :
    s.foldlM (fun sum c => if sum + c.toNat < 2 ^ 31 then some (sum + c.toNat) else none) n
      = some (n + (s.map Char.toNat).sum) := by
  induction s generalizing n with
  | nil => rfl
  | cons c s ih =>
    rw [List.forall_mem_cons] at hs
    rw [List.length_cons] at hn
    have hc : n + c.toNat < 2 ^ 31 := by omega
    rw [List.foldlM_cons, if_pos hc]
    show List.foldlM _ (n + c.toNat) s = _
    rw [ih hs.2 (by omega), List.map_cons, List.sum_cons, Nat.add_assoc]

lemma sumBytes_eq (hs : ∀ c ∈ s, c.toNat < 256) (hn : s.length < 2 ^ 23) :
    sumBytes s = some (s.map Char.toNat).sum := by
  rw [sumBytes, foldlM_sumBytes hs (by omega), Nat.zero_add]

end FIXAcceptorActor

/-! ### Bytes -/

/-- All characters stand for bytes. -/
def IsBytes (s : List Char) : Prop := ∀ c ∈ s, c.toNat < 256

instance : Decidable (IsBytes s) := List.decidableBAll (Char.toNat · < 256) s

lemma IsBytes.append (hs : IsBytes s) (ht : IsBytes t) : IsBytes (s ++ t) :=
  List.forall_mem_append.mpr ⟨hs, ht⟩

lemma isBytes_toString : IsBytes (CString.toString n) := by
  intro c hc
  have h := CString.toNat_of_isDigit (CString.isDigit_of_mem_toString hc)
  omega

lemma isBytes_str (n : ℤ) : IsBytes (PyString.str n) := by
  rw [PyString.str]
  split
  · exact List.forall_mem_cons.mpr ⟨by decide, isBytes_toString⟩
  · exact isBytes_toString

lemma isBytes_fields {fields : List (ℤ × List Char)} (h : ∀ field ∈ fields, IsBytes field.2) :
    IsBytes (fields.flatMap fun field => intFieldText field ++ [soh]) := by
  intro c hc
  obtain ⟨field, hfield, hc⟩ := List.mem_flatMap.mp hc
  have hval : IsBytes ('=' :: field.2) := List.forall_mem_cons.mpr ⟨by decide, h field hfield⟩
  have hsoh : IsBytes [soh] := by decide
  exact ((isBytes_str _).append hval).append hsoh c hc

lemma isBytes_raw (hs : IsBytes s) : IsBytes (raw s) := by
  have hbegin : IsBytes ("8=FIX.4.4".toList ++ [soh] ++ "9=".toList) := by decide
  have hsoh : IsBytes [soh] := by decide
  rw [raw_eq]
  exact ((hbegin.append isBytes_toString).append hsoh).append hs

lemma fieldsText_eq_ints (fields : List (ℕ × List Char)) :
    fieldsText fields = (withInts fields).flatMap fun field => intFieldText field ++ [soh] := by
  rw [fieldsText, withInts, List.flatMap_map]
  simp only [intFieldText_natCast]

lemma rawMessage_eq (fields : List (ℕ × List Char)) : rawMessage fields
    = raw (fieldsText fields) ++ checkSumTag ++
      threeDigits (((raw (fieldsText fields)).map Char.toNat).sum % 256) ++ [soh] := by
  rw [rawMessage]
  show raw (fieldsText fields) ++ fieldsText [(10, checksum (raw (fieldsText fields)))] = _
  rw [fieldsText_checkSum, checksum]
  simp only [List.append_assoc]

lemma suffix_flatMap {α : Type*} (f : α → List Char) {l : List α} (hl : l ≠ []) :
    [soh] <:+ l.flatMap fun a => f a ++ [soh] := by
  obtain ⟨init, last, rfl⟩ := (List.eq_nil_or_concat' l).resolve_left hl
  rw [List.flatMap_append, List.flatMap_singleton, ← List.append_assoc]
  exact List.suffix_append _ _

namespace FIXAcceptorActor

variable {msgType senderCompId sendingTime : List Char} {msgSeqNum : ℤ}
  {fields : List (ℤ × List Char)}

/-- What is to be written in a message is bytes. -/
structure AreBytes (msgType senderCompId sendingTime : List Char)
    (fields : List (ℤ × List Char)) : Prop where
  msgType : IsBytes msgType
  senderCompId : IsBytes senderCompId
  sendingTime : IsBytes sendingTime
  fields : ∀ field ∈ fields, IsBytes field.2

lemma AreBytes.body (h : AreBytes msgType senderCompId sendingTime fields) (msgSeqNum : ℤ) :
    IsBytes (body msgType senderCompId msgSeqNum sendingTime fields) := by
  apply isBytes_fields
  rw [List.forall_mem_append]
  refine ⟨?_, h.fields⟩
  simp only [List.forall_mem_cons]
  exact ⟨h.msgType, by decide, h.senderCompId, isBytes_str _, h.sendingTime, by simp⟩

/-- What `sendFIX` sends, if it is not too long. -/
lemma AreBytes.sendFIXBytes_eq (h : AreBytes msgType senderCompId sendingTime fields)
    (hlen : (raw (FIXAcceptorActor.body msgType senderCompId msgSeqNum sendingTime fields)).length
      < 2 ^ 23) :
    let raw := raw (FIXAcceptorActor.body msgType senderCompId msgSeqNum sendingTime fields)
    sendFIXBytes msgType senderCompId msgSeqNum sendingTime fields
      = some (raw ++ checkSumTag ++ threeDigits ((raw.map Char.toNat).sum % 256) ++ [soh]) := by
  rw [sendFIXBytes, sumBytes_eq (isBytes_raw (h.body msgSeqNum)) hlen]
  rfl

lemma body_end : [soh] <:+ body msgType senderCompId msgSeqNum sendingTime fields :=
  suffix_flatMap _ (by simp)

/-- The tags of all callers are positive. -/
theorem sendFIXBytes_eq_rawMessage (msg : FIXMessage)
    (h : AreBytes msg.msgType msg.targetCompId sendingTime (withInts msg.fields))
    (hlen : (raw (body msg.msgType msg.targetCompId msg.msgSeqNum sendingTime
      (withInts msg.fields))).length < 2 ^ 23) :
    sendFIXBytes msg.msgType msg.targetCompId msg.msgSeqNum sendingTime (withInts msg.fields)
      = some (rawMessage ([(35, msg.msgType), (49, "EUNEX".toList), (56, msg.targetCompId),
        (34, CString.toString msg.msgSeqNum), (52, sendingTime)] ++ msg.fields)) := by
  have hbody : fieldsText ([(35, msg.msgType), (49, "EUNEX".toList), (56, msg.targetCompId),
      (34, CString.toString msg.msgSeqNum), (52, sendingTime)] ++ msg.fields)
      = body msg.msgType msg.targetCompId msg.msgSeqNum sendingTime (withInts msg.fields) := by
    rw [fieldsText_eq_ints, body, withInts, List.map_append]
    rfl
  rw [h.sendFIXBytes_eq hlen, rawMessage_eq, hbody]

end FIXAcceptorActor

/-! ### The writer in Python -/

lemma buildFix_framed (fields : List (ℤ × List Char)) :
    ∃ body cs, Framed (buildFix fields) body cs := by
  set parts := (fields.filter fun field => field.1 ∉ [8, 9, 10]).map intFieldText with hparts
  have hraw : fieldsText (header (([soh].intercalate parts).length + 1)) ++
      [soh].intercalate parts ++ [soh] = raw ([soh].intercalate parts ++ [soh]) := by
    rw [raw, List.length_append, List.append_assoc]
    rfl
  have htext : buildFix fields = raw ([soh].intercalate parts ++ [soh]) ++ checkSumTag ++
      threeDigits (((raw ([soh].intercalate parts ++ [soh])).map Char.toNat).sum % 256) ++
      [soh] := by
    rw [buildFix, ← hparts]
    simp only [hraw, fieldsText_checkSum, checksum, List.append_assoc]
  exact ⟨_, _, htext ▸ framed_raw (List.suffix_append _ _)⟩

/-! ### The numbers of the messages of a session -/

namespace FIXAcceptorActor

/-- What is seen of the sessions: that one is connected, and what it is sent. -/
inductive Seen where
  | connected (sessionId : ℕ)
  | sent (sessionId : ℕ) (msg : FIXMessage)

/-- The messages of a session since it was connected. -/
def Seen.after (sessionId : ℕ) (msgs : List FIXMessage) : Seen → List FIXMessage
  | .connected id => if id = sessionId then [] else msgs
  | .sent id msg => if id = sessionId then msgs ++ [msg] else msgs

def sentOn (h : List Seen) (sessionId : ℕ) : List FIXMessage := h.foldl (Seen.after sessionId) []

/-- What an event shows of the sessions. -/
def connection : Event → Option Seen
  | .connected sessionId => some (.connected sessionId)
  | _ => none

/-- What has been sent since then. -/
def newlySent (f f' : FIXAcceptorActor) : List Seen :=
  (f'.sent.drop f.sent.length).map fun (sessionId, msg) => .sent sessionId msg

/-- A step of the acceptor, with what is seen of it. -/
def seeing (px : PriceText) (f : FIXAcceptorActor) (input : Input) : FIXAcceptorActor × List Seen :=
  let (f', events) := step px f input
  (f', events.filterMap connection ++ newlySent f f')

variable {px : PriceText} {f : FIXAcceptorActor} {h es : List Seen} {sess sess' : FIXSession}

@[simp] lemma sentOn_nil (sessionId : ℕ) : sentOn [] sessionId = [] := rfl

@[simp] lemma sentOn_append (sessionId : ℕ) : sentOn (h ++ es) sessionId
    = es.foldl (Seen.after sessionId) (sentOn h sessionId) := List.foldl_append

lemma seeing_eq {f' : FIXAcceptorActor} {input : Input} {events : List Event}
    (hstep : step px f input = (f', events)) (hsent : newlySent f f' = es) :
    seeing px f input = (f', events.filterMap connection ++ es) := by
  rw [seeing, hstep]
  show (f', events.filterMap connection ++ newlySent f f') = _
  rw [hsent]

lemma newlySent_of_eq {f' : FIXAcceptorActor} (h : f'.sent = f.sent) : newlySent f f' = [] := by
  rw [newlySent, h, List.drop_length, List.map_nil]

lemma newlySent_sendFIX (msgType : List Char) (fields : List (ℕ × List Char)) :
    newlySent f (f.sendFIX sess msgType fields)
      = [.sent sess.sessionId ⟨msgType, sess.senderCompId, sess.msgSeqNum, fields⟩] := by
  rw [newlySent, sendFIX, List.drop_left]
  rfl

/-- The messages of each session are numbered from one, and it has the next number. -/
structure Numbered (f : FIXAcceptorActor) (h : List Seen) : Prop where
  sessionMutex : f.sessionMutex = false
  key : ∀ id sess, f.sessions.lookup id = some sess → sess.sessionId = id
  next : ∀ id sess, f.sessions.lookup id = some sess →
    sess.msgSeqNum = (sentOn h id).length + 1
  numbers : ∀ id, (sentOn h id).map FIXMessage.msgSeqNum = List.range' 1 (sentOn h id).length

lemma numbered_start : Numbered {} [] := ⟨rfl, by simp, by simp, by simp⟩

/-- One session is replaced, and what is seen is about it only. -/
lemma Numbered.insert (hf : Numbered f h) (sess : FIXSession)
    (hes : ∀ id, id ≠ sess.sessionId → sentOn (h ++ es) id = sentOn h id)
    (hnext : sess.msgSeqNum = (sentOn (h ++ es) sess.sessionId).length + 1)
    (hnumbers : (sentOn (h ++ es) sess.sessionId).map FIXMessage.msgSeqNum
      = List.range' 1 (sentOn (h ++ es) sess.sessionId).length)
    (next : ℕ) (sent : List (ℕ × FIXMessage)) :
    Numbered ⟨f.sessions.insert sess.sessionId sess, next, false, sent⟩ (h ++ es) := by
  refine ⟨rfl, fun id sess' hlookup => ?_, fun id sess' hlookup => ?_, fun id => ?_⟩
  · by_cases hid : id = sess.sessionId
    · subst hid
      simp only [Finmap.lookup_insert, Option.some.injEq] at hlookup
      rw [← hlookup]
    · rw [Finmap.lookup_insert_of_ne _ hid] at hlookup
      exact hf.key id sess' hlookup
  · by_cases hid : id = sess.sessionId
    · subst hid
      simp only [Finmap.lookup_insert, Option.some.injEq] at hlookup
      rw [← hlookup]
      exact hnext
    · rw [Finmap.lookup_insert_of_ne _ hid] at hlookup
      rw [hes id hid]
      exact hf.next id sess' hlookup
  · by_cases hid : id = sess.sessionId
    · subst hid
      exact hnumbers
    · rw [hes id hid]
      exact hf.numbers id

/-- What `sendFIX` does: the message has the number of its session. -/
lemma Numbered.sendFIX (hf : Numbered f h) (hsess : f.sessions.lookup sess.sessionId = some sess)
    (hid : sess'.sessionId = sess.sessionId) (hseq : sess'.msgSeqNum = sess.msgSeqNum)
    (msgType : List Char) (fields : List (ℕ × List Char)) :
    Numbered (FIXAcceptorActor.sendFIX { f with sessionMutex := true } sess' msgType fields).unlock
      (h ++ [.sent sess'.sessionId
        ⟨msgType, sess'.senderCompId, sess'.msgSeqNum, fields⟩]) := by
  have hnext := hf.next _ _ hsess
  have hnumbers := hf.numbers sess.sessionId
  rw [← hseq] at hnext
  rw [← hid] at hnext hnumbers
  have hsent (msg : FIXMessage) : sentOn (h ++ [.sent sess'.sessionId msg]) sess'.sessionId
      = sentOn h sess'.sessionId ++ [msg] := by
    simp [Seen.after]
  apply hf.insert { sess' with msgSeqNum := sess'.msgSeqNum + 1 }
  · intro id hne
    simp [Seen.after, Ne.symm hne]
  · rw [hsent, List.length_append, List.length_singleton, ← hnext]
  · rw [hsent, List.map_append, hnumbers, List.length_append, List.length_singleton,
      List.range'_concat, Nat.one_mul, Nat.add_comm 1, ← hnext]
    rfl

/-- What the acceptor does with a message: nothing but pushing a request, or one call of
`sendFIX`. -/
lemma recv_sends (px : PriceText) (f : FIXAcceptorActor) (sess : FIXSession) (msg : TagMap) :
    (f.recv px sess msg).1 = f ∨
      ∃ sess' msgType fields, sess'.sessionId = sess.sessionId ∧
        sess'.msgSeqNum = sess.msgSeqNum ∧
        (f.recv px sess msg).1 = f.sendFIX sess' msgType fields := by
  unfold recv
  generalize getTag msg 35 [] = msgType
  simp only
  split_ifs
  · exact Or.inr ⟨{ sess with senderCompId := _, loggedOn := true }, _, _, rfl, rfl, rfl⟩
  · exact Or.inr ⟨{ sess with receiving := false }, _, _, rfl, rfl, rfl⟩
  · exact Or.inr ⟨sess, _, _, rfl, rfl, rfl⟩
  · exact Or.inl rfl
  · exact Or.inl rfl
  · exact Or.inl rfl
  · exact Or.inl rfl

lemma filterMap_received (sessionId : ℕ) (msg : TagMap) (pushed : Option MECoreEvent) :
    (received sessionId msg pushed).filterMap connection = [] := by
  unfold received
  split_ifs
  · rfl
  · rfl
  · cases pushed <;> rfl

lemma Numbered.quiet (hf : Numbered f h) : Numbered f.unlock (h ++ []) := by
  rw [List.append_nil]
  exact ⟨rfl, hf.key, hf.next, hf.numbers⟩

lemma Numbered.lock_eq (hf : Numbered f h) : f.lock = some { f with sessionMutex := true } := by
  simp [lock, hf.sessionMutex]

lemma Numbered.step_message (px : PriceText) (hf : Numbered f h) (sessionId : ℕ) (msg : TagMap) :
    step px f (.message sessionId msg) = (f, []) ∨
      ∃ sess, f.sessions.lookup sess.sessionId = some sess ∧
        step px f (.message sessionId msg)
          = ((recv px { f with sessionMutex := true } sess msg).1.unlock,
            received sessionId msg (recv px { f with sessionMutex := true } sess msg).2) := by
  simp only [step, hf.lock_eq]
  cases hsess : f.sessions.lookup sessionId with
  | none => exact Or.inl rfl
  | some sess =>
    have hkey := hf.key _ _ hsess
    cases hreceiving : sess.receiving with
    | false => exact Or.inl (by simp [hreceiving])
    | true => exact Or.inr ⟨sess, hkey ▸ hsess, by simp [hreceiving]⟩

/-- A step that sends nothing and changes no session. -/
lemma Numbered.unseen (hf : Numbered f h) {input : Input} {events : List Event}
    (hstep : step px f input = (f.unlock, events)) (hevents : events.filterMap connection = []) :
    Numbered (seeing px f input).1 (h ++ (seeing px f input).2) := by
  rw [seeing_eq hstep (newlySent_of_eq rfl), hevents]
  exact hf.quiet

/-- A step that calls `sendFIX`. -/
lemma Numbered.seen (hf : Numbered f h) {input : Input} {events : List Event}
    {msgType : List Char} {fields : List (ℕ × List Char)}
    (hsess : f.sessions.lookup sess.sessionId = some sess)
    (hid : sess'.sessionId = sess.sessionId) (hseq : sess'.msgSeqNum = sess.msgSeqNum)
    (hstep : step px f input = ((FIXAcceptorActor.sendFIX { f with sessionMutex := true } sess'
      msgType fields).unlock, events)) (hevents : events.filterMap connection = []) :
    Numbered (seeing px f input).1 (h ++ (seeing px f input).2) := by
  have hsent : newlySent f (FIXAcceptorActor.sendFIX { f with sessionMutex := true } sess'
      msgType fields).unlock
      = [.sent sess'.sessionId ⟨msgType, sess'.senderCompId, sess'.msgSeqNum, fields⟩] :=
    newlySent_sendFIX msgType fields
  rw [seeing_eq hstep hsent, hevents]
  exact hf.sendFIX hsess hid hseq msgType fields

lemma Numbered.after_step (px : PriceText) (hf : Numbered f h) (input : Input) :
    Numbered (seeing px f input).1 (h ++ (seeing px f input).2) := by
  cases input with
  | accept =>
    have hstep : step px f .accept
        = (⟨f.sessions.insert f.nextSessionId { sessionId := f.nextSessionId },
          (f.nextSessionId + 1) % 2 ^ 16, false, f.sent⟩, [.connected f.nextSessionId]) := by
      simp only [step, accept, hf.lock_eq, Option.map_some]
      rfl
    rw [seeing_eq hstep (newlySent_of_eq rfl)]
    apply hf.insert { sessionId := f.nextSessionId }
    · intro id hne
      simp [connection, Seen.after, Ne.symm hne]
    · simp [connection, Seen.after]
    · simp [connection, Seen.after]
  | message sessionId msg =>
    rcases hf.step_message px sessionId msg with hstep | ⟨sess, hsess, hstep⟩
    · have hunlock : f.unlock = f := by rw [unlock, ← hf.sessionMutex]
      have hquiet : step px f (.message sessionId msg) = (f.unlock, []) := by rw [hunlock, hstep]
      exact hf.unseen hquiet rfl
    · rcases recv_sends px { f with sessionMutex := true } sess msg with
        hrecv | ⟨sess', msgType, fields, hid, hseq, hrecv⟩
      · rw [hrecv] at hstep
        exact hf.unseen hstep (filterMap_received _ _ _)
      · rw [hrecv] at hstep
        exact hf.seen hsess hid hseq hstep (filterMap_received _ _ _)
  | close sessionId =>
    cases hsess : f.sessions.lookup sessionId with
    | none =>
      have hstep : step px f (.close sessionId) = (f.unlock, []) := by
        simp only [step, close, hf.lock_eq, Option.map_some, hsess]
        rfl
      exact hf.unseen hstep rfl
    | some sess =>
      have hkey := hf.key _ _ hsess
      have hstep : step px f (.close sessionId)
          = (⟨f.sessions.insert sess.sessionId { sess with receiving := false },
            f.nextSessionId, false, f.sent⟩, []) := by
        simp only [step, close, hf.lock_eq, Option.map_some, hsess, hkey]
        rfl
      rw [seeing_eq hstep (newlySent_of_eq rfl)]
      apply hf.insert { sess with receiving := false }
      · intro id _
        simp
      · simpa [hkey] using hf.next _ _ hsess
      · simpa using hf.numbers _
  | execReport event =>
    cases hsess : f.sessions.lookup event.sessionId with
    | none =>
      have hstep : step px f (.execReport event) = (f.unlock, [.untold event.sessionId]) := by
        simp [step, sendExecReport, hf.lock_eq, hsess, unlock]
      exact hf.unseen hstep rfl
    | some sess =>
      have hkey := hf.key _ _ hsess
      cases hon : sess.loggedOn with
      | false =>
        have hstep : step px f (.execReport event) = (f.unlock, [.untold event.sessionId]) := by
          simp [step, sendExecReport, hf.lock_eq, hsess, unlock, hon]
        exact hf.unseen hstep rfl
      | true =>
        have hstep : step px f (.execReport event)
            = ((FIXAcceptorActor.sendFIX { f with sessionMutex := true } sess "8".toList
              (execReportFields px event)).unlock, [.reported event.sessionId]) := by
          simp [step, sendExecReport, hf.lock_eq, hsess, hon, FIXAcceptorActor.sendFIX, unlock]
        exact hf.seen (hkey ▸ hsess) rfl rfl hstep rfl

/-- In every run, the messages of a session are numbered from one, in the order of sending. -/
theorem run_numbered (px : PriceText) (inputs : List Input) (sessionId : ℕ) :
    let msgs := sentOn (Machine.run (seeing px) {} inputs).2 sessionId
    msgs.map FIXMessage.msgSeqNum = List.range' 1 msgs.length := by
  have halong : Machine.Along (seeing px) (fun _ _ => True) {} inputs :=
    Machine.along_of_forall fun _ _ => trivial
  have hnumbered := Machine.run_induction (fun _ _ input _ hf => hf.after_step px input) halong
    numbered_start
  exact hnumbered.numbers sessionId

end FIXAcceptorActor

/-- What either writer writes has a right header: in the program in C++ for any bytes as long as
the message is shorter than `2 ^ 23`, and the messages of a session are numbered from one. -/
theorem headers :
    (∀ (msgType senderCompId sendingTime : List Char) (msgSeqNum : ℤ)
      (fields : List (ℤ × List Char)),
      FIXAcceptorActor.AreBytes msgType senderCompId sendingTime fields →
      (raw (FIXAcceptorActor.body msgType senderCompId msgSeqNum sendingTime fields)).length
        < 2 ^ 23 →
      ∃ text cs, FIXAcceptorActor.sendFIXBytes msgType senderCompId msgSeqNum sendingTime fields
        = some text ∧
        Framed text (FIXAcceptorActor.body msgType senderCompId msgSeqNum sendingTime fields) cs) ∧
    (∀ fields, ∃ body cs, Framed (buildFix fields) body cs) ∧
    ∀ (px : PriceText) (inputs : List FIXAcceptorActor.Input) (sessionId : ℕ),
      let msgs := FIXAcceptorActor.sentOn
        (Machine.run (FIXAcceptorActor.seeing px) {} inputs).2 sessionId
      msgs.map FIXMessage.msgSeqNum = List.range' 1 msgs.length := by
  refine ⟨?_, buildFix_framed, FIXAcceptorActor.run_numbered⟩
  intro msgType senderCompId sendingTime msgSeqNum fields hbytes hlen
  exact ⟨_, _, hbytes.sendFIXBytes_eq hlen, framed_raw FIXAcceptorActor.body_end⟩

/-- A message without fields of its own, to a client whose name is an empty string; a field with a
byte beyond ASCII. -/
theorem headers_empty_and_high : ∃ text text' cs cs',
    FIXAcceptorActor.sendFIXBytes "0".toList [] 1 [] [] = some text ∧
    FIXAcceptorActor.sendFIXBytes "8".toList [] 2 [] [(58, [Char.ofNat 255])] = some text' ∧
    Framed text (FIXAcceptorActor.body "0".toList [] 1 [] []) cs ∧
    Framed text' (FIXAcceptorActor.body "8".toList [] 2 [] [(58, [Char.ofNat 255])]) cs' := by
  obtain ⟨text, cs, htext, hframed⟩ := headers.1 "0".toList [] [] 1 []
    ⟨by decide, by decide, by decide, by decide⟩ (by decide)
  obtain ⟨text', cs', htext', hframed'⟩ := headers.1 "8".toList [] [] 2 [(58, [Char.ofNat 255])]
    ⟨by decide, by decide, by decide, by decide⟩ (by decide)
  exact ⟨text, text', cs, cs', htext, htext', hframed, hframed'⟩

end EuNEx
