import EuNEx.Recovery.KafkaStore

/-!
# Messages of any origin

What `deserialize` makes of bytes that `serialize` need not have written. It expects the fields
before the payload in a message of any length, and leaves the size of the payload as the message
declares it, however much it has copied.
-/

namespace EuNEx.KafkaStore

open Bytes

variable {order : ByteOrder} {data : List UInt8}

/-- The size that a message declares for its payload. -/
def declaredSize (order : ByteOrder) (data : List UInt8) : ℕ :=
  (order.word UInt64 ((data.drop 27).take (sizeof UInt64))).toNat

/-- What it is to read a message safely: no access beyond its end, the size of the payload is that
of the bytes that were copied and fits the payload, and what is written again is a prefix. -/
structure SafelyRead (order : ByteOrder) (data : List UInt8) (frag : Fragment) : Prop where
  read : deserialize order data = some frag
  payloadSize : frag.payloadSize.toNat
    = copySize frag.payloadSize (data.length - headerSize)
  fits : frag.payloadSize.toNat ≤ frag.payload.toList.length
  again : ∃ message, serialize order frag = some message ∧ message <+: data

/-! ### Short messages -/

lemma takes_getHeader : ByteOrder.Takes (getHeader order) headerSize := by
  have hsize : headerSize = sizeof UInt64 + (sizeof UInt64 + (sizeof UInt16 + (sizeof UInt32 +
      (sizeof UInt8 + (sizeof Int32 + (sizeof UInt64 + 0)))))) := rfl
  rw [hsize]
  apply ByteOrder.takes_get.bind
  intro sequenceNumber
  apply ByteOrder.takes_get.bind
  intro chainId
  apply ByteOrder.takes_get.bind
  intro originId
  apply ByteOrder.takes_get.bind
  intro originKey
  apply ByteOrder.takes_get.bind
  intro persistenceId
  apply ByteOrder.takes_get.bind
  intro nextCount
  apply ByteOrder.takes_get.bind
  intro payloadSize
  exact ByteOrder.takes_pure _

/-- A message that is read has the fields before the payload. -/
lemma headerSize_le {frag : Fragment} (h : deserialize order data = some frag) :
    headerSize ≤ data.length := by
  obtain ⟨⟨frag', p⟩, hrun, -⟩ := Option.bind_eq_some_iff.mp h
  obtain ⟨rfl, hle⟩ := takes_getHeader data 0 frag' p (Nat.zero_le _) hrun
  rwa [Nat.zero_add] at hle

/-! ### Messages that begin with the fields -/

/-- Any bytes of the right number are the fields before the payload of a fragment. -/
lemma exists_header (order : ByteOrder) (h : headerSize ≤ data.length) :
    ∃ frag rest, data = header order frag ++ rest := by
  replace h : sizeof UInt64 + (sizeof UInt64 + (sizeof UInt16 + (sizeof UInt32 + (sizeof UInt8 +
    (sizeof Int32 + (sizeof UInt64 + 0)))))) ≤ data.length := h
  obtain ⟨sequenceNumber, rest₁, rfl, h₁⟩ := order.exists_word UInt64 h
  obtain ⟨chainId, rest₂, rfl, h₂⟩ := order.exists_word UInt64 h₁
  obtain ⟨originId, rest₃, rfl, h₃⟩ := order.exists_word UInt16 h₂
  obtain ⟨originKey, rest₄, rfl, h₄⟩ := order.exists_word UInt32 h₃
  obtain ⟨persistenceId, rest₅, rfl, h₅⟩ := order.exists_word UInt8 h₄
  obtain ⟨nextCount, rest₆, rfl, h₆⟩ := order.exists_word Int32 h₅
  obtain ⟨payloadSize, rest, rfl, -⟩ := order.exists_word UInt64 h₆
  refine ⟨{ sequenceNumber := sequenceNumber
            chainId := chainId
            originId := originId
            originKey := originKey
            persistenceId := persistenceId
            nextCount := nextCount
            payloadSize := payloadSize }, rest, ?_⟩
  simp only [header, List.append_assoc]

lemma declaredSize_header (order : ByteOrder) (frag : Fragment) (rest : List UInt8) :
    declaredSize order (header order frag ++ rest) = frag.payloadSize.toNat := by
  have hdrop : (header order frag ++ rest).drop 27 = order.bytes frag.payloadSize ++ rest := by
    set before := order.bytes frag.sequenceNumber ++ order.bytes frag.chainId ++
      order.bytes frag.originId ++ order.bytes frag.originKey ++ order.bytes frag.persistenceId ++
      order.bytes frag.nextCount with hbefore
    have hlen : before.length = 27 := by
      simp only [hbefore, List.length_append, ByteOrder.length_bytes]
      rfl
    have hall : header order frag ++ rest = before ++ (order.bytes frag.payloadSize ++ rest) := by
      simp only [header, hbefore, List.append_assoc]
    rw [hall, List.drop_left' hlen]
  rw [declaredSize, hdrop, List.take_left' (order.length_bytes _), ByteOrder.word_bytes]

lemma length_payload (frag : Fragment) : frag.payload.toList.length = 4096 :=
  List.Vector.toList_length _

/-- A message is read safely exactly if it has all fields, and the size that it declares for its
payload is neither more than it has nor more than the payload holds. -/
theorem safelyRead_iff (order : ByteOrder) (data : List UInt8) :
    (∃ frag, SafelyRead order data frag) ↔ headerSize ≤ data.length ∧
      declaredSize order data ≤ data.length - headerSize ∧ declaredSize order data ≤ 4096 := by
  constructor
  · rintro ⟨frag, hread, hsize, hfits, -⟩
    have hlen := headerSize_le hread
    obtain ⟨frag', rest, rfl⟩ := exists_header order hlen
    rw [deserialize_header] at hread
    cases hread
    rw [declaredSize_header]
    rw [length_payload] at hfits
    exact ⟨hlen, hsize.le.trans (copySize_le _ _), hfits⟩
  · rintro ⟨hlen, hrest, hfits⟩
    obtain ⟨frag, rest, rfl⟩ := exists_header order hlen
    rw [declaredSize_header] at hrest hfits
    have hremaining : (header order frag ++ rest).length - headerSize = rest.length := by
      rw [List.length_append, length_header, Nat.add_sub_cancel_left]
    rw [hremaining] at hrest
    have hsize : frag.payloadSize.toNat = copySize frag.payloadSize rest.length := by
      rw [copySize, min_eq_left hrest, min_eq_left hfits]
    refine ⟨received frag rest, deserialize_header order frag rest, ?_, ?_, ?_⟩
    · rw [hremaining]
      exact hsize
    · rw [length_payload]
      exact hfits
    · refine ⟨_, serialize_eq hfits, ?_⟩
      have hused : used (received frag rest) = copied frag.payloadSize rest := by
        rw [used, received, Buffer.toList_padded]
        exact List.take_left' ((length_copied _ _).trans hsize.symm)
      rw [hused]
      exact (List.prefix_append_right_inj _).mpr (List.take_prefix _ _)

/-- A message that is shorter than the fields before the payload. -/
def truncated : List UInt8 := List.replicate 34 0

/-- A message without a payload that declares one of a byte. -/
def noPayload : List UInt8 := List.replicate 27 0 ++ 1 :: List.replicate 7 0

/-- A short message is read beyond its end, and a declared size is left as it is. -/
theorem not_safelyRead : deserialize .little truncated = none ∧
    (∃ frag, deserialize .little noPayload = some frag ∧ frag.payloadSize = 1 ∧
      copySize frag.payloadSize (noPayload.length - headerSize) = 0) ∧
    (¬∃ frag, SafelyRead .little truncated frag) ∧ ¬∃ frag, SafelyRead .little noPayload frag := by
  have hread : ∃ frag, deserialize .little noPayload = some frag ∧ frag.payloadSize = 1 ∧
      copySize frag.payloadSize (noPayload.length - headerSize) = 0 := by
    refine ⟨received { payloadSize := 1 } [], ?_, rfl, rfl⟩
    have hdata : noPayload = header .little { payloadSize := 1 } ++ [] := by decide
    rw [hdata]
    exact deserialize_header .little _ []
  refine ⟨?_, hread, ?_, ?_⟩
  · decide
  · rintro ⟨frag, h⟩
    exact absurd (headerSize_le h.read) (by decide)
  · obtain ⟨frag, hfrag, hone, hnone⟩ := hread
    rintro ⟨frag', h⟩
    have heq : frag' = frag := Option.some.inj (h.read.symm.trans hfrag)
    have hsize := h.payloadSize
    rw [heq, hnone, hone] at hsize
    exact absurd hsize (by decide)

end EuNEx.KafkaStore
