import DxRt.Lib.Machine
import DxRt.Lib.Ring

/-! lib/circular_buffer.cpp: `CircularBuffer`, a queue that forgets its oldest item when full. -/

namespace DxRt

structure CircularBuffer (α : Type*) where
  buf : ℕ → α
  size : ℕ
  head : ℕ
  tail : ℕ
  count : ℕ

namespace CircularBuffer
variable {α : Type*} {b : CircularBuffer α} {q : List α} {n : ℕ} {x : α}

/-- `CircularBuffer(size)`, with default items. -/
def make [Inhabited α] (size : ℕ) : CircularBuffer α := ⟨fun _ => default, size, 0, 0, 0⟩

def push (b : CircularBuffer α) (item : α) : CircularBuffer α where
  buf := Function.update b.buf b.head item
  size := b.size
  head := (b.head + 1) % b.size
  tail := if b.count = b.size then (b.tail + 1) % b.size else b.tail
  count := if b.count = b.size then b.count else b.count + 1

/-- The exception of an empty buffer is `none`. -/
def pop (b : CircularBuffer α) : CircularBuffer α × Option α :=
  if b.count = 0 then (b, none)
  else ({ b with tail := (b.tail + 1) % b.size, count := b.count - 1 }, some (b.buf b.tail))

/-- The latest item, which stays. The index is computed in `int`. -/
def get (b : CircularBuffer α) : Option α :=
  if b.count = 0 then none
  else
    let sum := Int.bmod (b.head - 1 + b.size) (2 ^ 32)
    some (b.buf (sum.tmod b.size).toNat)

def isEmpty (b : CircularBuffer α) : Bool := b.count == 0

def isFull (b : CircularBuffer α) : Bool := b.count == b.size

/-- The loop of `ToVector`. -/
def readFrom (size : ℕ) (buf : ℕ → α) : ℕ → ℕ → List α
  | _, 0 => []
  | cur, i + 1 => buf cur :: readFrom size buf ((cur + 1) % size) i

def toVector (b : CircularBuffer α) : List α := readFrom b.size b.buf b.tail b.count

inductive Call (α : Type*) where
  | push (item : α)
  | pop
  | get
  | isEmpty
  | isFull
  | size
  | count
  | toVector

inductive Answer (α : Type*) where
  | done
  | item (item : Option α)
  | flag (b : Bool)
  | number (n : ℕ)
  | items (items : List α)
  deriving DecidableEq

def call (b : CircularBuffer α) : Call α → CircularBuffer α × Answer α
  | .push item => (b.push item, .done)
  | .pop => (b.pop.1, .item b.pop.2)
  | .get => (b, .item b.get)
  | .isEmpty => (b, .flag b.isEmpty)
  | .isFull => (b, .flag b.isFull)
  | .size => (b, .number b.size)
  | .count => (b, .number b.count)
  | .toVector => (b, .items b.toVector)

/-! ### The queue -/

/-- What the buffer is for: a queue of at most `n` items, the oldest first. -/
def queue (n : ℕ) (q : List α) : Call α → List α × Answer α
  | .push item => (if q.length = n then q.tail ++ [item] else q ++ [item], .done)
  | .pop => (q.tail, .item q.head?)
  | .get => (q, .item q.getLast?)
  | .isEmpty => (q, .flag q.isEmpty)
  | .isFull => (q, .flag (q.length == n))
  | .size => (q, .number n)
  | .count => (q, .number q.length)
  | .toVector => (q, .items q)

/-- The buffer represents the queue. -/
structure Represents (n : ℕ) (b : CircularBuffer α) (q : List α) : Prop where
  size : b.size = n
  head : b.head < n
  count : b.count = q.length
  length : q.length ≤ n
  tail : b.tail = (b.head + n - q.length) % n
  holds : Ring.Holds n b.head b.buf q.reverse

theorem represents_make [Inhabited α] (hn : 1 ≤ n) :
    Represents n (make n : CircularBuffer α) [] where
  size := rfl
  head := hn
  count := rfl
  length := Nat.zero_le n
  tail := by simp [make]
  holds := .nil

/-- The loop reads the slots one after the other. -/
theorem readFrom_eq (buf : ℕ → α) {cur : ℕ} (hcur : cur < n) (k : ℕ) :
    readFrom n buf cur k = (List.range k).map fun i => buf ((cur + i) % n) := by
  induction k generalizing cur with
  | zero => rfl
  | succ k ih =>
    rw [readFrom, ih (Ring.succ_mod_lt hcur), List.range_succ_eq_map, List.map_cons, List.map_map,
      show (cur + 0) % n = cur from Nat.mod_eq_of_lt hcur]
    congr 1
    refine List.map_congr_left fun i _ => ?_
    rw [Function.comp_apply, Nat.mod_add_mod, Nat.add_right_comm, Nat.add_assoc]

theorem Represents.toVector (h : Represents n b q) : b.toVector = q := by
  have htail : b.tail < n := by
    rw [h.tail]
    exact Nat.mod_lt _ (Nat.zero_lt_of_lt h.head)
  have hread := h.holds.read h.length (by rw [List.length_reverse])
  have hall : q.reverse.take q.length = q.reverse :=
    List.take_of_length_le (by rw [List.length_reverse])
  rw [hall, List.reverse_reverse] at hread
  rw [CircularBuffer.toVector, h.size, h.count, readFrom_eq _ htail, h.tail]
  simp only [Nat.mod_add_mod]
  exact hread

/-- Up to `2 ^ 30` slots the sum does not overflow. -/
theorem index_get {head : ℕ} (hhead : head < n) (hn : n ≤ 2 ^ 30) :
    ((Int.bmod (head - 1 + n) (2 ^ 32)).tmod n).toNat = (head + n - 1) % n := by
  have hsum : (head - 1 + n : ℤ) = (head + n - 1 : ℕ) := by omega
  have hbmod : Int.bmod ((head + n - 1 : ℕ) : ℤ) (2 ^ 32) = (head + n - 1 : ℕ) := by
    refine Int.bmod_eq_of_le ?_ ?_ <;> omega
  rw [hsum, hbmod, Int.tmod_eq_emod_of_nonneg (Int.natCast_nonneg _), ← Int.natCast_emod,
    Int.toNat_natCast]

/-- The latest item. -/
theorem Represents.get (h : Represents n b q) (hn : n ≤ 2 ^ 30) : b.get = q.getLast? := by
  simp only [CircularBuffer.get, h.count, h.size, index_get h.head hn]
  split_ifs with hempty
  · rw [List.length_eq_zero_iff.mp hempty]
    rfl
  · have hne : q ≠ [] := fun hnil => hempty (by rw [hnil]; rfl)
    have hlast : q.reverse[0]? = some (q.getLast hne) := by
      rw [← List.head?_eq_getElem?, List.head?_reverse, List.getLast?_eq_getLast_of_ne_nil hne]
    have hslot := h.holds 0 _ (Nat.zero_lt_of_lt h.head) hlast
    rw [Ring.slot, Nat.sub_zero] at hslot
    rw [hslot, List.getLast?_eq_getLast_of_ne_nil hne]

/-- The oldest item. -/
theorem Represents.oldest (h : Represents n b (x :: q)) : b.buf b.tail = x := by
  have hlast : (x :: q).reverse[q.length]? = some x := by
    rw [List.getElem?_reverse (by simp)]
    simp
  have hlength := h.length
  rw [List.length_cons] at hlength
  have hslot := h.holds q.length _ (by omega) hlast
  rw [h.tail, List.length_cons]
  rwa [Ring.slot, Nat.sub_sub, Nat.add_comm 1] at hslot

theorem Represents.push (h : Represents n b q) (x : α) :
    Represents n (b.push x) (if q.length = n then q.tail ++ [x] else q ++ [x]) := by
  have hhead := h.head
  have hwrite := h.holds.write hhead x
  have hnext : (b.head + 1) % b.size = (b.head + 1) % n := by rw [h.size]
  by_cases hfull : q.length = n
  · rw [if_pos hfull]
    have hlen : (q.tail ++ [x]).length = n := by
      rw [List.length_append, List.length_tail, List.length_singleton]
      omega
    refine ⟨h.size, ?_, ?_, by omega, ?_, ?_⟩
    · rw [CircularBuffer.push, hnext]
      exact Ring.succ_mod_lt hhead
    · simp only [CircularBuffer.push]
      rw [if_pos (by rw [h.count, h.size, hfull]), hlen, h.count, hfull]
    · rw [hlen]
      simp only [CircularBuffer.push]
      rw [if_pos (by rw [h.count, h.size, hfull]), h.tail, h.size, hfull, Nat.add_sub_cancel,
        Nat.add_sub_cancel, Nat.mod_mod, Nat.mod_add_mod]
    · -- the log forgets the oldest item
      have hsub : (q.tail ++ [x]).reverse = (x :: q.reverse).take n := by
        rw [List.reverse_append, ← List.dropLast_reverse, List.reverse_singleton,
          List.singleton_append,
          List.dropLast_eq_take, List.length_reverse, hfull]
        obtain ⟨m, rfl⟩ := Nat.exists_eq_add_of_le' (Nat.zero_lt_of_lt hhead)
        rfl
      rw [hsub]
      simp only [CircularBuffer.push, hnext]
      exact hwrite.take n
  · rw [if_neg hfull]
    have hlength := h.length
    have hlen : (q ++ [x]).length = q.length + 1 := by simp
    refine ⟨h.size, ?_, ?_, by omega, ?_, ?_⟩
    · rw [CircularBuffer.push, hnext]
      exact Ring.succ_mod_lt hhead
    · simp only [CircularBuffer.push]
      rw [if_neg (by rw [h.count, h.size]; exact hfull), hlen, h.count]
    · rw [hlen]
      simp only [CircularBuffer.push]
      rw [if_neg (by rw [h.count, h.size]; exact hfull), h.tail, hnext,
        Nat.add_sub_assoc (by omega : q.length + 1 ≤ n), Nat.mod_add_mod]
      congr 1
      omega
    · rw [List.reverse_append, List.reverse_singleton, List.singleton_append]
      simp only [CircularBuffer.push, hnext]
      exact hwrite

theorem Represents.pop (h : Represents n b q) :
    Represents n b.pop.1 q.tail ∧ b.pop.2 = q.head? := by
  cases q with
  | nil =>
    have hcount : b.count = 0 := h.count
    rw [CircularBuffer.pop, if_pos hcount]
    exact ⟨h, rfl⟩
  | cons x q =>
    have hcount : b.count = q.length + 1 := h.count
    have hlength := h.length
    have hhead := h.head
    rw [List.length_cons] at hlength
    rw [CircularBuffer.pop, if_neg (by omega), h.oldest]
    refine ⟨⟨h.size, hhead, ?_, by rw [List.tail_cons]; omega, ?_, ?_⟩, rfl⟩
    · rw [hcount, Nat.add_sub_cancel, List.tail_cons]
    · rw [List.tail_cons]
      simp only
      rw [h.tail, h.size, List.length_cons, Nat.mod_add_mod]
      congr 1
      omega
    · have htake : (x :: q).tail.reverse = (x :: q).reverse.take q.length := by
        rw [List.tail_cons, List.reverse_cons, List.take_append_of_le_length (by simp),
          List.take_of_length_le (by simp)]
      rw [htake]
      exact h.holds.take _

/-- Every call keeps the representation and gives the answer of the queue. -/
theorem refines (hn : n ≤ 2 ^ 30) :
    Machine.Refines (call (α := α)) (queue n) (Represents n) := by
  intro b q c h
  cases c with
  | push item => exact ⟨h.push item, rfl⟩
  | pop => exact ⟨h.pop.1, congrArg Answer.item h.pop.2⟩
  | get => exact ⟨h, congrArg Answer.item (h.get hn)⟩
  | isEmpty =>
    refine ⟨h, congrArg Answer.flag ?_⟩
    rw [CircularBuffer.isEmpty, h.count]
    cases q <;> rfl
  | isFull =>
    refine ⟨h, congrArg Answer.flag ?_⟩
    rw [CircularBuffer.isFull, h.count, h.size]
  | size => exact ⟨h, congrArg Answer.number h.size⟩
  | count => exact ⟨h, congrArg Answer.number h.count⟩
  | toVector => exact ⟨h, congrArg Answer.items h.toVector⟩

/-- A buffer with at least one slot, and at most `2 ^ 30`, answers every sequence of calls like the
    queue. -/
theorem answers_eq_queue [Inhabited α] (hpos : 1 ≤ n) (hn : n ≤ 2 ^ 30) (calls : List (Call α)) :
    Machine.answers call (make n) calls = Machine.answers (queue n) [] calls :=
  (refines hn).answers (represents_make hpos) calls

/-- Three items in a buffer of two. -/
theorem answers_eq_queue_two :
    Machine.answers call (make 2 : CircularBuffer ℕ)
        [.push 5, .push 6, .push 7, .toVector, .pop, .get] =
      Machine.answers (queue 2) [] [.push 5, .push 6, .push 7, .toVector, .pop, .get] :=
  answers_eq_queue (by decide) (by decide) _

end CircularBuffer
end DxRt
