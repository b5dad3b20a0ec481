import DxRt.Lib.Reads

/-! Values of a fixed size in byte arrays.

    A codec writes a value in a fixed number of bytes and reads it back; integers are little-endian.
    Structures without padding are products of codecs. Arrays of values are written and read through
    a cursor that moves on by the size of a value. -/

namespace Bytes
variable {α β : Type}

/-! ### Integers -/

/-- The lowest `k` bytes of a number, lowest first. -/
def toLE : ℕ → ℕ → List UInt8
  | 0, _ => []
  | k + 1, n => UInt8.ofNat n :: toLE k (n / 256)

def ofLE : List UInt8 → ℕ
  | [] => 0
  | b :: l => b.toNat + 256 * ofLE l

theorem length_toLE (k n : ℕ) : (toLE k n).length = k := by
  induction k generalizing n with
  | zero => rfl
  | succ k ih => rw [toLE, List.length_cons, ih]

theorem ofLE_toLE {k n : ℕ} (h : n < 256 ^ k) : ofLE (toLE k n) = n := by
  induction k generalizing n with
  | zero =>
    rw [pow_zero] at h
    rw [toLE, ofLE]
    omega
  | succ k ih =>
    have hrest : n / 256 < 256 ^ k := by
      rw [pow_succ] at h
      omega
    rw [toLE, ofLE, ih hrest, UInt8.toNat_ofNat']
    exact Nat.mod_add_div n 256

/-! ### Codecs -/

/-- How a value is written, always in the same number of bytes, and read back. -/
structure Codec (α : Type) where
  size : ℕ
  encode : α → List UInt8
  decode : List UInt8 → α
  length_encode : ∀ a, (encode a).length = size
  decode_encode : ∀ a, decode (encode a) = a

namespace Codec

/-- An integer type of `k` bytes. -/
def integer (k : ℕ) (toNat : α → ℕ) (ofNat : ℕ → α) (hlt : ∀ a, toNat a < 256 ^ k)
    (hinv : ∀ a, ofNat (toNat a) = a) : Codec α where
  size := k
  encode a := toLE k (toNat a)
  decode l := ofNat (ofLE l)
  length_encode _ := length_toLE ..
  decode_encode a := by rw [ofLE_toLE (hlt a), hinv]

def uint16 : Codec UInt16 :=
  integer 2 UInt16.toNat UInt16.ofNat UInt16.toNat_lt fun _ => UInt16.ofNat_toNat

def uint32 : Codec UInt32 :=
  integer 4 UInt32.toNat UInt32.ofNat UInt32.toNat_lt fun _ => UInt32.ofNat_toNat

def uint64 : Codec UInt64 :=
  integer 8 UInt64.toNat UInt64.ofNat UInt64.toNat_lt fun _ => UInt64.ofNat_toNat

/-- Two's complement. -/
def int32 : Codec Int32 :=
  integer 4 (fun a => a.toUInt32.toNat) (fun n => (UInt32.ofNat n).toInt32)
    (fun a => a.toUInt32.toNat_lt) fun a => by rw [UInt32.ofNat_toNat, Int32.toInt32_toUInt32]

/-- One after the other. -/
def prod (c : Codec α) (c' : Codec β) : Codec (α × β) where
  size := c.size + c'.size
  encode p := c.encode p.1 ++ c'.encode p.2
  decode l := (c.decode (l.take c.size), c'.decode (l.drop c.size))
  length_encode p := by rw [List.length_append, c.length_encode, c'.length_encode]
  decode_encode p := by
    rw [List.take_left' (c.length_encode _), List.drop_left' (c.length_encode _),
      c.decode_encode, c'.decode_encode]

/-- A structure by its fields. -/
def map (c : Codec α) (f : β → α) (g : α → β) (h : ∀ b, g (f b) = b) : Codec β where
  size := c.size
  encode b := c.encode (f b)
  decode l := g (c.decode l)
  length_encode b := c.length_encode (f b)
  decode_encode b := by rw [c.decode_encode, h]

end Codec

/-! ### Writing -/

/-- `memcpy` into a buffer. -/
def write (buffer : List UInt8) (cursor : ℕ) (bytes : List UInt8) : List UInt8 :=
  buffer.take cursor ++ bytes ++ buffer.drop (cursor + bytes.length)

/-- Values written one after the other; the buffer and the cursor afterwards. -/
def writeAll (c : Codec α) (buffer : List UInt8) (cursor : ℕ) : List α → List UInt8 × ℕ
  | [] => (buffer, cursor)
  | a :: l => writeAll c (write buffer cursor (c.encode a)) (cursor + c.size) l

theorem write_append (before after : List UInt8) {bytes old : List UInt8}
    (h : old.length = bytes.length) :
    write (before ++ old ++ after) before.length bytes = before ++ bytes ++ after := by
  have htake : (before ++ old ++ after).take before.length = before := by
    rw [List.append_assoc, List.take_left]
  have hdrop : (before ++ old ++ after).drop (before.length + bytes.length) = after := by
    rw [← h, ← List.length_append, List.drop_left]
  rw [write, htake, hdrop]

/-- The values fill the place that the buffer has for them. -/
theorem writeAll_append (c : Codec α) (l : List α) {before old after : List UInt8}
    (h : old.length = c.size * l.length) :
    writeAll c (before ++ old ++ after) before.length l =
      (before ++ l.flatMap c.encode ++ after, before.length + c.size * l.length) := by
  induction l generalizing before old with
  | nil =>
    have hold : old = [] := List.eq_nil_of_length_eq_zero (by simpa using h)
    simp [writeAll, hold]
  | cons a l ih =>
    rw [List.length_cons, Nat.mul_succ] at h
    have hhead : (old.take c.size).length = (c.encode a).length := by
      rw [List.length_take, c.length_encode]
      omega
    have hrest : (old.drop c.size).length = c.size * l.length := by
      rw [List.length_drop]
      omega
    have hsplit : before ++ old ++ after =
        before ++ old.take c.size ++ (old.drop c.size ++ after) := by
      rw [← List.append_assoc (before ++ _), List.append_assoc before _ (old.drop c.size),
        List.take_append_drop]
    have hlen : before.length + c.size = (before ++ c.encode a).length := by
      rw [List.length_append, c.length_encode]
    rw [writeAll, hsplit, write_append _ _ hhead, ← List.append_assoc, hlen, ih hrest]
    simp only [List.flatMap_cons, List.length_append, List.length_cons, c.length_encode,
      List.append_assoc, Nat.mul_succ]
    rw [Nat.add_assoc, Nat.add_comm c.size]

/-! ### Reading -/

/-- `memcpy` out of a message. -/
def fetch (c : Codec α) (message : List UInt8) (cursor : ℕ) : Reads α :=
  .range cursor c.size (c.decode ((message.drop cursor).take c.size))

/-- `count` values read one after the other, and the cursor afterwards. -/
def fetchAll (c : Codec α) (message : List UInt8) (cursor : ℕ) : ℕ → Reads (List α × ℕ)
  | 0 => pure ([], cursor)
  | count + 1 => do
    let a ← fetch c message cursor
    let (l, cursor) ← fetchAll c message (cursor + c.size) count
    pure (a :: l, cursor)

theorem result_fetch (c : Codec α) (before after : List UInt8) (a : α) :
    (fetch c (before ++ c.encode a ++ after) before.length).result = some a := by
  rw [fetch, Reads.result_range, List.append_assoc, List.drop_left,
    List.take_left' (c.length_encode a), c.decode_encode]

/-- What has been written is read back. -/
theorem result_fetchAll (c : Codec α) (l : List α) (before after : List UInt8) :
    (fetchAll c (before ++ l.flatMap c.encode ++ after) before.length l.length).result =
      some (l, before.length + c.size * l.length) := by
  induction l generalizing before with
  | nil => rfl
  | cons a l ih =>
    have hsplit : before ++ (a :: l).flatMap c.encode ++ after =
        before ++ c.encode a ++ (l.flatMap c.encode ++ after) := by
      simp [List.append_assoc]
    have hlen : before.length + c.size = (before ++ c.encode a).length := by
      rw [List.length_append, c.length_encode]
    rw [List.length_cons, fetchAll, Reads.result_bind, hsplit, result_fetch, Option.bind_some,
      Reads.result_bind, ← List.append_assoc, hlen, ih, Option.bind_some, Reads.result_pure,
      Nat.mul_succ, ← hlen, Nat.add_assoc, Nat.add_comm c.size]

theorem isSome_fetchAll (c : Codec α) (message : List UInt8) (cursor count : ℕ) :
    ∃ l, (fetchAll c message cursor count).result = some (l, cursor + c.size * count) := by
  induction count generalizing cursor with
  | zero => exact ⟨[], rfl⟩
  | succ count ih =>
    obtain ⟨l, hl⟩ := ih (cursor + c.size)
    refine ⟨c.decode ((message.drop cursor).take c.size) :: l, ?_⟩
    rw [fetchAll, Reads.result_bind, fetch, Reads.result_range, Option.bind_some,
      Reads.result_bind, hl, Option.bind_some, Reads.result_pure, Nat.mul_succ, Nat.add_assoc,
      Nat.add_comm c.size]

theorem inside_fetch {c : Codec α} {message : List UInt8} {cursor size : ℕ}
    (h : cursor + c.size ≤ size) : (fetch c message cursor).Inside size := by
  rw [fetch, Reads.inside_range]
  omega

theorem inside_fetchAll {c : Codec α} {message : List UInt8} {cursor count size : ℕ}
    (h : cursor + c.size * count ≤ size) : (fetchAll c message cursor count).Inside size := by
  induction count generalizing cursor with
  | zero => exact Reads.inside_pure _
  | succ count ih =>
    rw [Nat.mul_succ] at h
    rw [fetchAll, Reads.inside_bind]
    refine ⟨inside_fetch (by omega), fun a _ => ?_⟩
    rw [Reads.inside_bind]
    exact ⟨ih (by omega), fun _ _ => Reads.inside_pure _⟩

end Bytes
