import EuNEx.FIX.Text

/-!
# FIX messages in chunks

`clientRecvLoop` of the acceptor receives the bytes of a client in chunks, wherever the connection
cuts them. What it makes of them is what `parseFIXMessages` makes of the whole stream.
-/

namespace EuNEx

namespace FIXAcceptorActor

/-- A message that ends the receive loop. -/
def isLogout (msg : TagMap) : Bool := getTag msg 35 [] = "5".toList

/-- The messages that the receive loop handles of those in a chunk: it returns after a logout. -/
def handled : List TagMap → List TagMap
  | [] => []
  | msg :: messages => if isLogout msg then [msg] else msg :: handled messages

/-- One turn of `clientRecvLoop`, with its buffer while it is receiving: `recv` returns no bytes at
the end of the stream, otherwise the messages that are complete are handled. -/
def clientRecvLoop : Option (List Char) → List Char → Option (List Char) × List TagMap
  | none, _ => (none, [])
  | some buffer, chunk =>
    if chunk = [] then (none, [])
    else
      let (messages, remaining) := parseFIXMessages (buffer ++ chunk)
      (if messages.any isLogout then none else some remaining, handled messages)

/-! ### Parsing -/

/-- The parser on a stream that goes on: what remained is looked at again. -/
lemma parseFIXMessages_append (a b : List Char) : parseFIXMessages (a ++ b)
    = ((parseFIXMessages a).1 ++ (parseFIXMessages ((parseFIXMessages a).2 ++ b)).1,
      (parseFIXMessages ((parseFIXMessages a).2 ++ b)).2) := by
  simp only [parseFIXMessages]
  rw [Framing.frames_append a b, List.map_append, List.filter_append]

/-- No message is complete in what remains. -/
lemma parseFIXMessages_remaining (a : List Char) :
    parseFIXMessages (parseFIXMessages a).2 = ([], (parseFIXMessages a).2) := by
  simp only [parseFIXMessages]
  rw [Framing.frames_of_none (Framing.cut_left a)]
  rfl

/-! ### The receive loop -/

lemma handled_append_of_not {messages : List TagMap} (h : messages.any isLogout = false)
    (more : List TagMap) : handled (messages ++ more) = messages ++ handled more := by
  induction messages with
  | nil => rfl
  | cons msg messages ih =>
    rw [List.any_cons, Bool.or_eq_false_iff] at h
    simp [handled, h.1, ih h.2]

lemma handled_append_of_any {messages : List TagMap} (h : messages.any isLogout = true)
    (more : List TagMap) : handled (messages ++ more) = handled messages := by
  induction messages with
  | nil => cases h
  | cons msg messages ih =>
    rw [List.cons_append, handled, handled]
    split
    · rfl
    · rename_i hmsg
      have hrest : messages.any isLogout = true := by simpa [hmsg] using h
      rw [ih hrest]

lemma run_clientRecvLoop_none (chunks : List (List Char)) :
    Machine.run clientRecvLoop none chunks = (none, []) := by
  induction chunks with
  | nil => rfl
  | cons chunk chunks ih => simp [clientRecvLoop, ih]

/-- What the loop has handled in all chunks, from a buffer with no complete message in it. -/
lemma run_clientRecvLoop {buffer : List Char} (hbuffer : parseFIXMessages buffer = ([], buffer))
    (chunks : List (List Char)) : (Machine.run clientRecvLoop (some buffer) chunks).2
      = handled (parseFIXMessages (buffer ++ (chunks.takeWhile (· ≠ [])).flatten)).1 := by
  induction chunks generalizing buffer with
  | nil => simp [hbuffer, handled]
  | cons chunk chunks ih =>
    rw [Machine.run_cons, clientRecvLoop]
    by_cases hend : chunk = []
    · simp [hend, run_clientRecvLoop_none, hbuffer, handled]
    · rw [if_neg hend, List.takeWhile_cons_of_pos (by simpa using hend), List.flatten_cons,
        ← List.append_assoc, parseFIXMessages_append (buffer ++ chunk)]
      by_cases hlogout : (parseFIXMessages (buffer ++ chunk)).1.any isLogout = true
      · simp only [hlogout, if_true]
        rw [run_clientRecvLoop_none, handled_append_of_any hlogout, List.append_nil]
      · simp only [hlogout, Bool.false_eq_true, if_false]
        rw [Bool.not_eq_true] at hlogout
        rw [ih (parseFIXMessages_remaining _), handled_append_of_not hlogout]
        have hall := handled_append_of_not hlogout []
        rw [handled, List.append_nil] at hall
        rw [hall]

/-- Parsing does not depend on chunking: the parser can stop and go on at any byte, and the receive
loop handles the messages of the whole stream, up to a logout. -/
theorem chunking_invisible :
    (∀ a b : List Char,
      let (M₁, r) := parseFIXMessages a
      let (M₂, r') := parseFIXMessages (r ++ b)
      parseFIXMessages (a ++ b) = (M₁ ++ M₂, r')) ∧
    ∀ chunks : List (List Char), (Machine.run clientRecvLoop (some []) chunks).2
      = handled (parseFIXMessages (chunks.takeWhile (· ≠ [])).flatten).1 :=
  ⟨fun a b => parseFIXMessages_append a b, fun chunks => run_clientRecvLoop rfl chunks⟩

end FIXAcceptorActor

end EuNEx
