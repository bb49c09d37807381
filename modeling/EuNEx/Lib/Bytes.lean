import Mathlib.Data.Vector.Basic
import Mathlib.Data.Nat.Digits.Defs
import Mathlib.Data.Int.Init

/-!
# Words as bytes

A buffer of fixed length that is read and written at offsets, and numbers of fixed width in it, in
either byte order. An access that does not lie within the buffer fails.
-/

namespace Bytes

/-- The order of the bytes of a word in memory. -/
inductive ByteOrder where
  | little
  | big
deriving DecidableEq, Repr

/-- A type of words of fixed width. -/
class Word (W : Type*) where
  sizeof : ℕ
  toNat : W → ℕ
  ofNat : ℕ → W
  toNat_lt (w : W) : toNat w < 256 ^ sizeof
  ofNat_toNat (w : W) : ofNat (toNat w) = w

/-- The size of a word type, in bytes. -/
abbrev sizeof (W : Type*) [Word W] : ℕ := Word.sizeof W

instance : Word UInt8 := ⟨1, UInt8.toNat, UInt8.ofNat, UInt8.toNat_lt, fun _ => UInt8.ofNat_toNat⟩

instance : Word UInt16 :=
  ⟨2, UInt16.toNat, UInt16.ofNat, UInt16.toNat_lt, fun _ => UInt16.ofNat_toNat⟩

instance : Word UInt32 :=
  ⟨4, UInt32.toNat, UInt32.ofNat, UInt32.toNat_lt, fun _ => UInt32.ofNat_toNat⟩

instance : Word UInt64 :=
  ⟨8, UInt64.toNat, UInt64.ofNat, UInt64.toNat_lt, fun _ => UInt64.ofNat_toNat⟩

/-- In two's complement. -/
instance : Word Int32 where
  sizeof := 4
  toNat w := w.toUInt32.toNat
  ofNat n := (UInt32.ofNat n).toInt32
  toNat_lt w := w.toUInt32.toNat_lt
  ofNat_toNat w := by
    rw [UInt32.ofNat_toNat]
    rfl

/-- A type of words of which every number of their width is one. -/
class FullWord (W : Type*) extends Word W where
  toNat_ofNat (n : ℕ) (h : n < 256 ^ sizeof) : toNat (ofNat n) = n

instance : FullWord UInt8 := ⟨fun _ h => Nat.mod_eq_of_lt h⟩

instance : FullWord UInt16 := ⟨fun _ h => Nat.mod_eq_of_lt h⟩

instance : FullWord UInt32 := ⟨fun _ h => Nat.mod_eq_of_lt h⟩

instance : FullWord UInt64 := ⟨fun _ h => Nat.mod_eq_of_lt h⟩

instance : FullWord Int32 := ⟨fun _ h => Nat.mod_eq_of_lt h⟩

/-! ### The bytes of a number -/

/-- The `width` low bytes of a number, least significant first. -/
def lowBytes : (width n : ℕ) → List UInt8
  | 0, _ => []
  | width + 1, n => UInt8.ofNat n :: lowBytes width (n / 256)

/-- The number that has these bytes, least significant first. -/
def ofLowBytes (bytes : List UInt8) : ℕ := Nat.ofDigits 256 (bytes.map UInt8.toNat)

@[simp]
lemma length_lowBytes (width n : ℕ) : (lowBytes width n).length = width := by
  induction width generalizing n with
  | zero => rfl
  | succ width ih => rw [lowBytes, List.length_cons, ih]

lemma ofLowBytes_cons (b : UInt8) (bytes : List UInt8) :
    ofLowBytes (b :: bytes) = b.toNat + 256 * ofLowBytes bytes :=
  Nat.ofDigits_cons ..

lemma ofLowBytes_lowBytes (width n : ℕ) : ofLowBytes (lowBytes width n) = n % 256 ^ width := by
  induction width generalizing n with
  | zero => rw [pow_zero, Nat.mod_one]; rfl
  | succ width ih =>
    have hsplit : n % 256 ^ (width + 1) = n % 256 + 256 * (n / 256 % 256 ^ width) := by
      rw [pow_succ', Nat.mod_mul]
    rw [lowBytes, ofLowBytes_cons, ih, hsplit, UInt8.toNat_ofNat']

lemma ofLowBytes_lt (bytes : List UInt8) : ofLowBytes bytes < 256 ^ bytes.length := by
  induction bytes with
  | nil => exact Nat.one_pos
  | cons b bytes ih =>
    rw [ofLowBytes_cons, List.length_cons, pow_succ']
    have hb := b.toNat_lt
    omega

lemma lowBytes_ofLowBytes (bytes : List UInt8) :
    lowBytes bytes.length (ofLowBytes bytes) = bytes := by
  induction bytes with
  | nil => rfl
  | cons b bytes ih =>
    have hb := b.toNat_lt
    have hlow : UInt8.ofNat (b.toNat + 256 * ofLowBytes bytes) = b := by
      rw [← UInt8.toNat_inj, UInt8.toNat_ofNat']
      omega
    have hrest : (b.toNat + 256 * ofLowBytes bytes) / 256 = ofLowBytes bytes := by omega
    rw [List.length_cons, ofLowBytes_cons, lowBytes, hlow, hrest, ih]

namespace ByteOrder

/-- Between least significant first and the order of the memory. -/
def arrange : ByteOrder → List UInt8 → List UInt8
  | little, bytes => bytes
  | big, bytes => bytes.reverse

variable (order : ByteOrder) {W : Type*} [Word W]

@[simp]
lemma length_arrange (bytes : List UInt8) : (order.arrange bytes).length = bytes.length := by
  cases order with
  | little => rfl
  | big => exact List.length_reverse

@[simp]
lemma arrange_arrange (bytes : List UInt8) : order.arrange (order.arrange bytes) = bytes := by
  cases order with
  | little => rfl
  | big => exact List.reverse_reverse bytes

/-- A word as it lies in memory. -/
def bytes (w : W) : List UInt8 := order.arrange (lowBytes (sizeof W) (Word.toNat w))

/-- The word that lies in memory as these bytes. -/
def word (W : Type*) [Word W] (bytes : List UInt8) : W :=
  Word.ofNat (ofLowBytes (order.arrange bytes))

@[simp]
lemma length_bytes (w : W) : (order.bytes w).length = sizeof W := by simp [bytes]

@[simp]
lemma word_bytes (w : W) : order.word W (order.bytes w) = w := by
  rw [word, bytes, arrange_arrange, ofLowBytes_lowBytes, Nat.mod_eq_of_lt (Word.toNat_lt w),
    Word.ofNat_toNat]

/-- Any bytes of the right number are a word. -/
lemma bytes_word {W : Type*} [FullWord W] {bytes : List UInt8} (h : bytes.length = sizeof W) :
    order.bytes (order.word W bytes) = bytes := by
  have hlen : (order.arrange bytes).length = sizeof W := by rw [length_arrange, h]
  have hlt : ofLowBytes (order.arrange bytes) < 256 ^ sizeof W := hlen ▸ ofLowBytes_lt _
  rw [ByteOrder.bytes, word, FullWord.toNat_ofNat _ hlt, ← hlen, lowBytes_ofLowBytes,
    arrange_arrange]

/-- Enough bytes begin with a word. -/
lemma exists_word (W : Type*) [FullWord W] {bytes : List UInt8} {n : ℕ}
    (h : sizeof W + n ≤ bytes.length) :
    ∃ w : W, ∃ rest, bytes = order.bytes w ++ rest ∧ n ≤ rest.length := by
  refine ⟨order.word W (bytes.take (sizeof W)), bytes.drop (sizeof W), ?_, ?_⟩
  · rw [order.bytes_word (List.length_take_of_le ((Nat.le_add_right _ _).trans h)),
      List.take_append_drop]
  · rw [List.length_drop]
    exact Nat.le_sub_of_add_le' h

end ByteOrder

/-! ### Buffers -/

/-- A buffer of `n` bytes. -/
abbrev Buffer (n : ℕ) := List.Vector UInt8 n

namespace Buffer

variable {n len : ℕ} {pre bytes post : List UInt8}

/-- A buffer of zeros. -/
def zero (n : ℕ) : Buffer n := .replicate n 0

/-- Bytes, and zeros after them. -/
def padded (bytes : List UInt8) (h : bytes.length ≤ n) : Buffer n :=
  ⟨bytes ++ List.replicate (n - bytes.length) 0, by simp [h]⟩

/-- Copies out `len` bytes from `p` on. -/
def read (data : List UInt8) (p len : ℕ) : Option (List UInt8) :=
  if p + len ≤ data.length then some ((data.drop p).take len) else none

/-- Copies bytes in, from `p` on. -/
def write (b : Buffer n) (p : ℕ) (bytes : List UInt8) : Option (Buffer n) :=
  if h : p + bytes.length ≤ n then
    some ⟨b.toList.take p ++ bytes ++ b.toList.drop (p + bytes.length), by
      simp only [List.length_append, List.length_take, List.length_drop, List.Vector.toList_length]
      omega⟩
  else none

@[simp]
lemma toList_zero (n : ℕ) : (zero n).toList = List.replicate n 0 := rfl

lemma toList_padded (h : bytes.length ≤ n) :
    (padded bytes h).toList = bytes ++ List.replicate (n - bytes.length) 0 := rfl

lemma read_append (hlen : bytes.length = len) :
    read (pre ++ (bytes ++ post)) pre.length len = some bytes := by
  subst hlen
  rw [read, if_pos (by simp), List.drop_left, List.take_left]

/-- What has been written goes on with what is written next. -/
lemma exists_write {b : Buffer n} (hpre : pre <+: b.toList) (bytes : List UInt8)
    (hfits : pre.length + bytes.length ≤ n) :
    ∃ b', b.write pre.length bytes = some b' ∧ pre ++ bytes <+: b'.toList := by
  refine ⟨_, dif_pos hfits, ?_⟩
  have htake : b.toList.take pre.length = pre := List.prefix_iff_eq_take.mp hpre |>.symm
  exact ⟨_, by rw [List.Vector.toList_mk, htake]⟩

/-- A buffer that has been written to its end. -/
lemma toList_eq {b : Buffer n} (hpre : pre <+: b.toList) (hlen : pre.length = n) :
    b.toList = pre :=
  (hpre.eq_of_length (by rw [hlen, List.Vector.toList_length])).symm

lemma write_zero (h : bytes.length ≤ n) : (zero n).write 0 bytes = some (padded bytes h) := by
  rw [write, dif_pos (by rwa [Nat.zero_add])]
  refine congrArg some (Subtype.ext ?_)
  simp [padded, List.drop_replicate]

end Buffer

/-! ### Words one after another -/

namespace ByteOrder

variable (order : ByteOrder) {W α β : Type} [Word W] {n : ℕ}

/-- Writes a word, and goes on behind it. -/
def put (word : W) : StateT (Buffer n × ℕ) Option Unit := fun (buf, p) => do
  let buf ← buf.write p (order.bytes word)
  return ((), buf, p + sizeof W)

/-- Reads a word, and goes on behind it. -/
def get (W : Type) [Word W] (data : List UInt8) : StateT ℕ Option W := fun p => do
  let bytes ← Buffer.read data p (sizeof W)
  return (order.word W bytes, p + sizeof W)

/-- An action that writes these bytes behind what has been written. -/
def Writes (action : StateT (Buffer n × ℕ) Option Unit) (bytes : List UInt8) : Prop :=
  ∀ (b : Buffer n) (pre : List UInt8), pre <+: b.toList → pre.length + bytes.length ≤ n →
    ∃ b', action (b, pre.length) = some ((), b', (pre ++ bytes).length) ∧
      pre ++ bytes <+: b'.toList

/-- An action that reads a value from these bytes, wherever they are. -/
def Reads (action : List UInt8 → StateT ℕ Option α) (bytes : List UInt8) (a : α) : Prop :=
  ∀ pre post, action (pre ++ (bytes ++ post)) pre.length = some (a, (pre ++ bytes).length)

/-- An action that reads this many bytes, or fails. -/
def Takes (action : List UInt8 → StateT ℕ Option α) (len : ℕ) : Prop :=
  ∀ data p a p', p ≤ data.length → action data p = some (a, p') →
    p' = p + len ∧ p' ≤ data.length

variable {order}

lemma writes_put (word : W) : Writes (n := n) (order.put word) (order.bytes word) := by
  intro b pre hpre hfits
  obtain ⟨b', hwrite, hpre'⟩ := Buffer.exists_write hpre (order.bytes word) hfits
  refine ⟨b', ?_, hpre'⟩
  rw [put, hwrite, List.length_append, length_bytes]
  rfl

lemma Writes.seq {action action' : StateT (Buffer n × ℕ) Option Unit} {bytes bytes' : List UInt8}
    (h : Writes action bytes) (h' : Writes action' bytes') :
    Writes (action >>= fun _ => action') (bytes ++ bytes') := by
  intro b pre hpre hfits
  rw [List.length_append, ← Nat.add_assoc] at hfits
  obtain ⟨b', hrun, hpre'⟩ := h b pre hpre (by omega)
  obtain ⟨b'', hrun', hpre''⟩ := h' b' (pre ++ bytes) hpre' (by rwa [List.length_append])
  rw [List.append_assoc] at hrun' hpre''
  refine ⟨b'', ?_, hpre''⟩
  show (action (b, pre.length) >>= fun r => action' r.2) = _
  rw [hrun]
  exact hrun'

lemma reads_get (word : W) : Reads (order.get W) (order.bytes word) word := by
  intro pre post
  rw [get, Buffer.read_append (order.length_bytes word), List.length_append, length_bytes]
  exact congrArg (fun w => some (w, _)) (order.word_bytes word)

lemma Reads.bind {action : List UInt8 → StateT ℕ Option α} {k : List UInt8 → α → StateT ℕ Option β}
    {bytes bytes' : List UInt8} {a : α} {b : β} (h : Reads action bytes a)
    (h' : Reads (fun data => k data a) bytes' b) :
    Reads (fun data => action data >>= k data) (bytes ++ bytes') b := by
  intro pre post
  show (action _ pre.length >>= fun r => k _ r.1 r.2) = _
  rw [List.append_assoc, h pre (bytes' ++ post), ← List.append_assoc pre, ← List.append_assoc pre]
  exact h' (pre ++ bytes) post

lemma reads_pure (a : α) : Reads (fun _ => pure a) [] a := by
  intro pre post
  rw [List.append_nil]
  rfl

lemma takes_get : Takes (order.get W) (sizeof W) := by
  intro data p w p' _ h
  rw [get, Buffer.read] at h
  split at h
  · rename_i hfits
    cases h
    exact ⟨rfl, hfits⟩
  · cases h

lemma Takes.bind {action : List UInt8 → StateT ℕ Option α} {k : List UInt8 → α → StateT ℕ Option β}
    {len len' : ℕ} (h : Takes action len) (h' : ∀ a, Takes (fun data => k data a) len') :
    Takes (fun data => action data >>= k data) (len + len') := by
  intro data p b p' hp hrun
  obtain ⟨⟨a, q⟩, hfirst, hrest⟩ := Option.bind_eq_some_iff.mp hrun
  obtain ⟨hq, hle⟩ := h data p a q hp hfirst
  obtain ⟨hp', hle'⟩ := h' a data q b p' hle hrest
  exact ⟨by rw [hp', hq, Nat.add_assoc], hle'⟩

lemma takes_pure (a : α) : Takes (fun _ => pure a) 0 := by
  intro data p b p' hp h
  cases h
  exact ⟨rfl, hp⟩

end ByteOrder

end Bytes
