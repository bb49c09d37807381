import EuNEx.Recovery.RecoveryProxy

/-!
# Fragments as messages

`persistence/KafkaStore.hpp`: how a fragment is written into a message and read from one, in either
byte order, with the sizes of LP64. An access outside of a buffer or of the payload is `none`.
-/

namespace EuNEx.KafkaStore

open Bytes

variable (order : ByteOrder)

/-- The size of the fields before the payload. -/
def headerSize : ℕ :=
  sizeof UInt64 * 2 + sizeof UInt16 + sizeof UInt32 + sizeof UInt8 + sizeof Int32 + sizeof UInt64

/-- The fields before the payload. -/
def putHeader {n : ℕ} (frag : Fragment) : StateT (Buffer n × ℕ) Option Unit := do
  order.put frag.sequenceNumber
  order.put frag.chainId
  order.put frag.originId
  order.put frag.originKey
  order.put frag.persistenceId
  order.put frag.nextCount
  order.put frag.payloadSize

/-- What is copied into the buffer of a message. -/
def fill {n : ℕ} (buf : Buffer n) (frag : Fragment) : Option (Buffer n) := do
  let ((), buf, p) ← (putHeader order frag).run (buf, 0)
  let payload ← Buffer.read frag.payload.toList 0 frag.payloadSize.toNat
  buf.write p payload

/-- `serialize`. -/
def serialize (frag : Fragment) : Option (List UInt8) := do
  let buf ← fill order (.zero ((headerSize + frag.payloadSize.toNat) % 2 ^ 64)) frag
  return buf.toList

/-- The fields before the payload. -/
def getHeader (data : List UInt8) : StateT ℕ Option Fragment := do
  let sequenceNumber ← order.get UInt64 data
  let chainId ← order.get UInt64 data
  let originId ← order.get UInt16 data
  let originKey ← order.get UInt32 data
  let persistenceId ← order.get UInt8 data
  let nextCount ← order.get Int32 data
  let payloadSize ← order.get UInt64 data
  return { sequenceNumber, chainId, originId, originKey, persistenceId, nextCount, payloadSize }

/-- `deserialize`. -/
def deserialize (data : List UInt8) : Option Fragment := do
  let (frag, p) ← (getHeader order data).run 0
  let remaining := data.length - p
  let copySize := min frag.payloadSize.toNat remaining
  let copySize := min copySize 4096
  let bytes ← Buffer.read data p copySize
  let payload ← frag.payload.write 0 bytes
  return { frag with payload }

/-! ### What is written is read -/

/-- The fields before the payload, as they lie in a message. -/
def header (frag : Fragment) : List UInt8 :=
  order.bytes frag.sequenceNumber ++ (order.bytes frag.chainId ++ (order.bytes frag.originId ++
    (order.bytes frag.originKey ++ (order.bytes frag.persistenceId ++ (order.bytes frag.nextCount ++
      order.bytes frag.payloadSize)))))

/-- The bytes of the payload that are in use. -/
def used (frag : Fragment) : List UInt8 := frag.payload.toList.take frag.payloadSize.toNat

variable {order} {frag : Fragment}

lemma length_header : (header order frag).length = headerSize := by
  simp only [header, List.length_append, ByteOrder.length_bytes]
  rfl

lemma length_used (h : frag.payloadSize.toNat ≤ 4096) :
    (used frag).length = frag.payloadSize.toNat := by
  rw [used, List.length_take, List.Vector.toList_length, min_eq_left h]

lemma writes_putHeader {n : ℕ} : ByteOrder.Writes (n := n) (putHeader order frag)
    (header order frag) := by
  apply (ByteOrder.writes_put _).seq
  apply (ByteOrder.writes_put _).seq
  apply (ByteOrder.writes_put _).seq
  apply (ByteOrder.writes_put _).seq
  apply (ByteOrder.writes_put _).seq
  apply (ByteOrder.writes_put _).seq
  apply ByteOrder.writes_put

lemma read_payload (h : frag.payloadSize.toNat ≤ 4096) :
    Buffer.read frag.payload.toList 0 frag.payloadSize.toNat = some (used frag) := by
  rw [Buffer.read, if_pos, List.drop_zero, used]
  rw [Nat.zero_add, List.Vector.toList_length]
  exact h

lemma fill_eq (order : ByteOrder) {n : ℕ} (buf : Buffer n) (h : frag.payloadSize.toNat ≤ 4096)
    (hn : headerSize + frag.payloadSize.toNat = n) :
    ∃ buf', fill order buf frag = some buf' ∧ buf'.toList = header order frag ++ used frag := by
  have hlen : (header order frag ++ used frag).length = n := by
    rw [List.length_append, length_header, length_used h, hn]
  obtain ⟨buf', hput, hheader⟩ : ∃ buf', (putHeader order frag).run (buf, 0)
      = some ((), buf', (header order frag).length) ∧ header order frag <+: buf'.toList := by
    apply writes_putHeader buf [] List.nil_prefix
    rw [List.length_nil, Nat.zero_add, length_header]
    omega
  obtain ⟨buf'', hwrite, hall⟩ := Buffer.exists_write hheader (used frag)
    (by rw [← List.length_append, hlen])
  refine ⟨buf'', ?_, Buffer.toList_eq hall hlen⟩
  rw [fill, hput, read_payload h]
  exact hwrite

/-- A message consists of the fields and the bytes of the payload that are in use. -/
lemma serialize_eq (h : frag.payloadSize.toNat ≤ 4096) :
    serialize order frag = some (header order frag ++ used frag) := by
  have hsize : headerSize + frag.payloadSize.toNat
      = (headerSize + frag.payloadSize.toNat) % 2 ^ 64 := by
    have hheader : headerSize = 35 := rfl
    omega
  obtain ⟨buf, hfill, hbuf⟩ := fill_eq order
    (.zero ((headerSize + frag.payloadSize.toNat) % 2 ^ 64)) h hsize
  rw [serialize, hfill, ← hbuf]
  rfl

lemma reads_getHeader : ByteOrder.Reads (getHeader order) (header order frag)
    { frag with payload := .zero 4096 } := by
  apply (ByteOrder.reads_get _).bind
  apply (ByteOrder.reads_get _).bind
  apply (ByteOrder.reads_get _).bind
  apply (ByteOrder.reads_get _).bind
  apply (ByteOrder.reads_get _).bind
  apply (ByteOrder.reads_get _).bind
  rw [← List.append_nil (order.bytes frag.payloadSize)]
  exact (ByteOrder.reads_get _).bind (ByteOrder.reads_pure _)

/-- A fragment without what is in its payload beyond its size. -/
def trimmed (frag : Fragment) (h : frag.payloadSize.toNat ≤ 4096) : Fragment :=
  { frag with payload := .padded (used frag) ((length_used h).trans_le h) }

/-- The number of bytes that are copied into the payload. -/
def copySize (payloadSize : UInt64) (remaining : ℕ) : ℕ :=
  min (min payloadSize.toNat remaining) 4096

/-- The bytes that are copied into the payload, where these come after the other fields. -/
def copied (payloadSize : UInt64) (rest : List UInt8) : List UInt8 :=
  rest.take (copySize payloadSize rest.length)

lemma copySize_le (payloadSize : UInt64) (remaining : ℕ) :
    copySize payloadSize remaining ≤ remaining :=
  (min_le_left _ _).trans (min_le_right _ _)

lemma length_copied (payloadSize : UInt64) (rest : List UInt8) :
    (copied payloadSize rest).length = copySize payloadSize rest.length :=
  List.length_take_of_le (copySize_le _ _)

lemma length_copied_le (payloadSize : UInt64) (rest : List UInt8) :
    (copied payloadSize rest).length ≤ 4096 :=
  (length_copied payloadSize rest).trans_le (min_le_right _ _)

/-- A fragment with the payload that is copied from these bytes. -/
def received (frag : Fragment) (rest : List UInt8) : Fragment :=
  { frag with payload := .padded (copied frag.payloadSize rest) (length_copied_le _ _) }

/-- What is read from a message that begins with the fields before the payload. -/
theorem deserialize_header (order : ByteOrder) (frag : Fragment) (rest : List UInt8) :
    deserialize order (header order frag ++ rest) = some (received frag rest) := by
  have hrun : (getHeader order (header order frag ++ rest)).run 0
      = some ({ frag with payload := .zero 4096 }, (header order frag).length) :=
    reads_getHeader [] rest
  have hremaining : (header order frag ++ rest).length - (header order frag).length
      = rest.length := by
    rw [List.length_append, Nat.add_sub_cancel_left]
  have hread : Buffer.read (header order frag ++ rest) (header order frag).length
      (copySize frag.payloadSize rest.length) = some (copied frag.payloadSize rest) := by
    have hfits : (header order frag).length + copySize frag.payloadSize rest.length
        ≤ (header order frag ++ rest).length := by
      rw [List.length_append]
      exact Nat.add_le_add_left (copySize_le _ _) _
    rw [Buffer.read, if_pos hfits, List.drop_left, copied]
  rw [deserialize, hrun]
  show (Buffer.read _ _ (copySize frag.payloadSize _) >>= fun bytes =>
    (Buffer.zero 4096).write 0 bytes >>= fun payload => some { frag with payload }) = _
  rw [hremaining, hread]
  show ((Buffer.zero 4096).write 0 (copied frag.payloadSize rest) >>= fun payload =>
    some { frag with payload }) = _
  rw [Buffer.write_zero (length_copied_le _ _)]
  rfl

/-- What is read from a message that was written. -/
lemma deserialize_append (h : frag.payloadSize.toNat ≤ 4096) :
    deserialize order (header order frag ++ used frag) = some (trimmed frag h) := by
  have hcopied : copied frag.payloadSize (used frag) = used frag := by
    rw [copied, copySize, length_used h, min_self, min_eq_left h,
      List.take_of_length_le (length_used h).le]
  rw [deserialize_header]
  simp only [received, hcopied]
  rfl

/-- Two fragments are the same up to what is in their payloads beyond their sizes. -/
structure SameUsed (frag frag' : Fragment) : Prop where
  sequenceNumber : frag.sequenceNumber = frag'.sequenceNumber
  chainId : frag.chainId = frag'.chainId
  originId : frag.originId = frag'.originId
  originKey : frag.originKey = frag'.originKey
  persistenceId : frag.persistenceId = frag'.persistenceId
  nextCount : frag.nextCount = frag'.nextCount
  payloadSize : frag.payloadSize = frag'.payloadSize
  payload : used frag = used frag'

lemma toList_trimmed (h : frag.payloadSize.toNat ≤ 4096) : (trimmed frag h).payload.toList
    = used frag ++ List.replicate (4096 - frag.payloadSize.toNat) 0 := by
  rw [trimmed, Buffer.toList_padded, length_used h]

lemma sameUsed_trimmed (h : frag.payloadSize.toNat ≤ 4096) : SameUsed (trimmed frag h) frag where
  sequenceNumber := rfl
  chainId := rfl
  originId := rfl
  originKey := rfl
  persistenceId := rfl
  nextCount := rfl
  payloadSize := rfl
  payload := by
    rw [used, toList_trimmed]
    exact List.take_left' (length_used h)

lemma SameUsed.of_common {frag frag' frag'' : Fragment} (h : SameUsed frag frag')
    (h' : SameUsed frag frag'') : SameUsed frag' frag'' where
  sequenceNumber := h.sequenceNumber.symm.trans h'.sequenceNumber
  chainId := h.chainId.symm.trans h'.chainId
  originId := h.originId.symm.trans h'.originId
  originKey := h.originKey.symm.trans h'.originKey
  persistenceId := h.persistenceId.symm.trans h'.persistenceId
  nextCount := h.nextCount.symm.trans h'.nextCount
  payloadSize := h.payloadSize.symm.trans h'.payloadSize
  payload := h.payload.symm.trans h'.payload

/-- What is read from the message of a fragment is the fragment, with zeros after the payload; and
two fragments with the same message are the same. -/
theorem deserialize_serialize (order : ByteOrder) (frag : Fragment)
    (h : frag.payloadSize.toNat ≤ 4096) :
    (∃ data frag', serialize order frag = some data ∧ deserialize order data = some frag' ∧
      SameUsed frag' frag ∧ frag'.payload.toList.drop frag.payloadSize.toNat
        = List.replicate (4096 - frag.payloadSize.toNat) 0) ∧
    ∀ frag', frag'.payloadSize.toNat ≤ 4096 → serialize order frag' = serialize order frag →
      SameUsed frag' frag := by
  constructor
  · refine ⟨_, _, serialize_eq h, deserialize_append h, sameUsed_trimmed h, ?_⟩
    rw [toList_trimmed, List.drop_left' (length_used h)]
  · intro frag' h' heq
    rw [serialize_eq h', serialize_eq h] at heq
    have hread : deserialize order (header order frag' ++ used frag') = some (trimmed frag' h') :=
      deserialize_append h'
    rw [Option.some.inj heq, deserialize_append h] at hread
    have hsame : SameUsed (trimmed frag h) frag' := Option.some.inj hread ▸ sameUsed_trimmed h'
    exact hsame.of_common (sameUsed_trimmed h)

/-- A fragment whose payload has a byte beyond its size. -/
def twoBytes : Fragment where
  sequenceNumber := 7
  originId := 1
  originKey := 1
  chainId := 7
  persistenceId := 1
  nextCount := -1
  payload := .padded [0xAB, 0xCD, 0xEF] (by decide)
  payloadSize := 2

theorem deserialize_serialize_twoBytes : ∃ data frag', serialize .little twoBytes = some data ∧
    deserialize .little data = some frag' ∧ SameUsed frag' twoBytes ∧
    frag'.payload.toList.drop 2 = List.replicate 4094 0 :=
  (deserialize_serialize .little twoBytes (by decide)).1

end EuNEx.KafkaStore
