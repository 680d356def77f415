import Geopm.App.Record

/-!
# Circular buffer

* `CircularBuffer` : the template, its members within their bounds;
* `CircularBuffer.insert`, `value`, `makeVector` : the methods, with the exceptions they raise;
* `CircularBuffer.clear`, `setCapacity`, `makeVectorAll` : the methods that raise none;
* `insert_spec`, `value_ok`, `makeVector_ok` : when they raise none;
* `Holds` : the buffer holds the last values that were inserted; `Holds.push`, `Holds.value`,
  `Holds.makeVector`, `Holds.makeVectorAll`, `holds_clear`, `holds_setCapacity`.
-/

namespace Geopm

open Prog
open List hiding get set
open Nat

/-- A signed value passed for an `unsigned int`. -/
def toUnsigned (i : ℤ) : ℕ := (i % 2 ^ 32).toNat

/-- The members of `CircularBuffer`. -/
structure CircularBuffer (α : Type) where
  buffer : List α
  head : ℕ
  count : ℕ
  maxSize : ℕ
  length_eq : buffer.length = maxSize
  count_le : count ≤ maxSize
  head_lt : 0 < maxSize → head < maxSize
deriving Repr

namespace CircularBuffer

variable {α : Type}

/-- The constructor: an empty buffer of the capacity `size`. -/
def make [Inhabited α] (size : ℕ) : CircularBuffer α where
  buffer := List.replicate size default
  head := 0
  count := 0
  maxSize := size
  length_eq := length_replicate
  count_le := Nat.zero_le _
  head_lt := fun h => h

/-- `size`. -/
def size (b : CircularBuffer α) : ℕ := b.count

/-- `capacity`. -/
def capacity (b : CircularBuffer α) : ℕ := b.maxSize

/-- The two branches of `insert` on a buffer that has room for a value. -/
def push (b : CircularBuffer α) (h : 0 < b.maxSize) (value : α) : CircularBuffer α :=
  if hcount : b.count < b.maxSize then
    { b with
      buffer := b.buffer.set b.count value
      count := b.count + 1
      length_eq := by rw [length_set, b.length_eq]
      count_le := hcount }
  else
    { b with
      buffer := b.buffer.set b.head value
      head := (b.head + 1) % b.maxSize
      length_eq := by rw [length_set, b.length_eq]
      head_lt := fun _ => mod_lt _ h }

/-- `insert`: once the buffer is full, the value replaces the oldest one. -/
def insert (value : α) : EStateM Exception (CircularBuffer α) Unit := do
  let b ← get
  if h : b.maxSize < 1 then
    throw ⟨"CircularBuffer::insert(): Cannot insert into a buffer of 0 size", [], .runtime⟩
  else
    set (b.push (Nat.not_lt.mp h) value)

theorem slot_lt (b : CircularBuffer α) (h : 0 < b.maxSize) (i : ℕ) :
    (b.head + i) % b.maxSize < b.buffer.length := by
  rw [b.length_eq]
  exact mod_lt _ h

theorem maxSize_pos_of_index {b : CircularBuffer α} {index : ℤ}
    (h : ¬ ((b.count : ℤ) ≤ index ∨ index < -b.count)) : 0 < b.maxSize := by
  have hcount := b.count_le
  omega

/-- `value`: an index from the oldest value on, or, when negative, from the newest one back. -/
def value (b : CircularBuffer α) (index : ℤ) : Except Exception α :=
  if h : (b.count : ℤ) ≤ index ∨ index < -b.count then
    .error ⟨"CircularBuffer::value(): index [%] is out of bounds", [index], .invalid⟩
  else
    let newIndex := if index < 0 then b.count + index else index
    .ok (b.buffer.get ⟨(b.head + newIndex.toNat) % b.maxSize,
      b.slot_lt (maxSize_pos_of_index h) _⟩)

/-- `make_vector` of the slice from `start` up to, and without, `stop`. -/
def makeVector (b : CircularBuffer α) (start stop : ℕ) : Except Exception (List α) :=
  if b.size ≤ start then
    .error ⟨"CircularBuffer::make_vector(): start is out of bounds", [], .invalid⟩
  else if b.size < stop then
    .error ⟨"CircularBuffer::make_vector(): end is out of bounds", [], .invalid⟩
  else if stop ≤ start then
    .error ⟨"CircularBuffer::make_vector(): end index is smaller than start index", [], .invalid⟩
  else
    let first := (b.head + start) % b.capacity
    let last := (b.head + stop - 1) % b.capacity + 1
    if first < last then .ok ((b.buffer.take last).drop first)
    else .ok (b.buffer.drop first ++ b.buffer.take last)

/-- `clear`. -/
def clear (b : CircularBuffer α) : CircularBuffer α :=
  { b with head := 0, count := 0, count_le := Nat.zero_le _, head_lt := fun h => h }

/-- `vector::resize`. -/
def resize [Inhabited α] (xs : List α) (size : ℕ) : List α :=
  xs.take size ++ List.replicate (size - xs.length) default

@[simp] theorem length_resize [Inhabited α] (xs : List α) (size : ℕ) :
    (resize xs size).length = size := by
  unfold resize
  rw [length_append, length_take, length_replicate]
  omega

/-- `set_capacity`: a buffer that holds more keeps the newest values. -/
def setCapacity [Inhabited α] (size : ℕ) (b : CircularBuffer α) : CircularBuffer α :=
  if h : size < b.count ∧ 0 < b.maxSize then
    { buffer := (List.range size).map fun i =>
        -- the index is within the bounds of the buffer
        b.buffer.getD ((b.head + (b.count - size + i)) % b.maxSize) default
      head := 0
      count := size
      maxSize := size
      length_eq := by rw [length_map, length_range]
      count_le := Nat.le_refl _
      head_lt := fun h => h }
  else
    { buffer := resize b.buffer size
      head := 0
      count := b.count
      maxSize := size
      length_eq := length_resize _ _
      count_le := by have := b.count_le; omega
      head_lt := fun h => h }

/-- `make_vector` of the whole buffer. -/
def makeVectorAll (b : CircularBuffer α) : List α :=
  if b.head = 0 then b.buffer.take b.count
  else b.buffer.drop b.head ++ b.buffer.take b.head

section Spec

variable {b : CircularBuffer α} {x : α}

variable (h : 0 < b.maxSize)

theorem push_maxSize : (b.push h x).maxSize = b.maxSize := by
  unfold push
  split_ifs <;> rfl

theorem push_count : (b.push h x).count = min (b.count + 1) b.maxSize := by
  have hcount := b.count_le
  unfold push
  split_ifs with hroom
  · exact (Nat.min_eq_left hroom).symm
  · change b.count = _
    omega

theorem insert_eq_ok : insert x b = .ok () (b.push h x) := by
  change (dite (b.maxSize < 1) _ _ : EStateM Exception (CircularBuffer α) Unit) b = _
  rw [dif_neg (by omega)]
  rfl

theorem insert_eq_error (h : b.maxSize = 0) :
    insert x b = .error
      ⟨"CircularBuffer::insert(): Cannot insert into a buffer of 0 size", [], .runtime⟩ b := by
  change (dite (b.maxSize < 1) _ _ : EStateM Exception (CircularBuffer α) Unit) b = _
  rw [dif_pos (by omega)]
  rfl

theorem insert_spec (b : CircularBuffer α) (x : α) :
    wp (insert x)
      (fun _ b' => 0 < b.maxSize ∧ b'.maxSize = b.maxSize ∧
        b'.count = min (b.count + 1) b.maxSize)
      (fun _ b' => b.maxSize = 0 ∧ b' = b) b := by
  unfold insert
  rw [wp_bind, wp_get]
  split_ifs with h
  · exact ⟨lt_one_iff.mp h, rfl⟩
  · exact ⟨Nat.not_lt.mp h, push_maxSize _, push_count _⟩

theorem value_ok (index : ℤ) (hlow : -(b.count : ℤ) ≤ index) (hhigh : index < b.count) :
    ∃ y, b.value index = .ok y := by
  unfold value
  rw [dif_neg (by omega)]
  exact ⟨_, rfl⟩

theorem makeVector_ok {start stop : ℕ} (h : start < stop) (hstop : stop ≤ b.size) :
    ∃ ys, b.makeVector start stop = .ok ys := by
  unfold makeVector
  rw [if_neg (by omega), if_neg (by omega), if_neg (by omega)]
  dsimp only
  split_ifs
  · exact ⟨_, rfl⟩
  · exact ⟨_, rfl⟩

end Spec

/-! ### The values of a buffer -/

/-- The buffer holds the last values of `xs`, as many as fit. -/
structure Holds (b : CircularBuffer α) (xs : List α) : Prop where
  count_eq : b.count = min xs.length b.maxSize
  head_eq : b.count < b.maxSize → b.head = 0
  slot_eq : ∀ i < b.count,
    b.buffer[(b.head + i) % b.maxSize]? = xs[xs.length - b.count + i]?

section Holds

variable {b : CircularBuffer α} {xs : List α} {x : α}

/-- The remainder of a number that is less than twice the divisor. -/
theorem mod_eq_ite {i m : ℕ} (h : i < 2 * m) : i % m = if i < m then i else i - m := by
  split_ifs with hi
  · exact mod_eq_of_lt hi
  · rw [mod_eq_sub_mod (Nat.not_lt.mp hi), mod_eq_of_lt (by omega)]

theorem holds_make [Inhabited α] (size : ℕ) : (make size : CircularBuffer α).Holds [] :=
  ⟨(Nat.zero_min _).symm, fun _ => rfl, fun _ h => absurd h (Nat.not_lt_zero _)⟩

section

variable (hb : b.Holds xs)
include hb

theorem Holds.push (h : 0 < b.maxSize) : (b.push h x).Holds (xs ++ [x]) := by
  have hcount := hb.count_eq
  have hle := b.count_le
  have hhead := b.head_lt h
  have hlength := b.length_eq
  refine ⟨?_, ?_, ?_⟩
  · rw [push_count, push_maxSize, length_append, length_singleton, hcount]
    omega
  · unfold CircularBuffer.push
    split_ifs with hroom
    · exact fun _ => hb.head_eq hroom
    · exact fun hlt => absurd hlt hroom
  · unfold CircularBuffer.push
    split_ifs with hroom
    · have hzero := hb.head_eq hroom
      intro i hi
      dsimp only at hi ⊢
      rw [hzero, Nat.zero_add, mod_eq_of_lt (by omega), length_append,
        length_singleton]
      by_cases hlast : i = b.count
      · subst hlast
        rw [getElem?_set_self (by omega), getElem?_append_right (by omega)]
        have hindex : xs.length + 1 - (b.count + 1) + b.count - xs.length = 0 := by omega
        rw [hindex]
        rfl
      · have hold := hb.slot_eq i (by omega)
        rw [hzero, Nat.zero_add, mod_eq_of_lt (by omega)] at hold
        rw [getElem?_set_ne (by omega), hold, getElem?_append_left (by omega)]
        exact congrArg (xs[·]?) (by omega)
    · have hfull : b.count = b.maxSize := by omega
      intro i hi
      dsimp only at hi ⊢
      have hslot : ((b.head + 1) % b.maxSize + i) % b.maxSize = (b.head + (i + 1)) % b.maxSize := by
        rw [mod_add_mod, Nat.add_assoc, Nat.add_comm 1]
      rw [hslot, length_append, length_singleton]
      by_cases hlast : i + 1 = b.maxSize
      · rw [hlast, add_mod_right, mod_eq_of_lt hhead, getElem?_set_self (by omega),
          getElem?_append_right (by omega)]
        have hindex : xs.length + 1 - b.count + i - xs.length = 0 := by omega
        rw [hindex]
        rfl
      · have hold := hb.slot_eq (i + 1) (by omega)
        have hne : b.head ≠ (b.head + (i + 1)) % b.maxSize := by
          rw [mod_eq_ite (by omega)]
          split_ifs <;> omega
        rw [getElem?_set_ne hne, hold, getElem?_append_left (by omega)]
        exact congrArg (xs[·]?) (by omega)

/-- `value`, at an index from the oldest value on or, when negative, from the newest one back. -/
theorem Holds.value_index (index : ℤ) (hlow : -(b.count : ℤ) ≤ index)
    (hhigh : index < b.count) :
    ∃ y, b.value index = .ok y ∧
      xs[xs.length - b.count + (if index < 0 then b.count + index else index).toNat]? = some y := by
  have hslot := hb.slot_eq (if index < 0 then b.count + index else index).toNat
    (by split_ifs <;> omega)
  unfold CircularBuffer.value
  rw [dif_neg (by omega)]
  refine ⟨_, rfl, ?_⟩
  rw [← hslot, List.getElem?_eq_some_iff]
  exact ⟨b.slot_lt (by have := b.count_le; omega) _, rfl⟩

/-- `value`, at an index from the oldest value on. -/
theorem Holds.value (index : ℤ) (hlow : 0 ≤ index) (hhigh : index < b.count) :
    ∃ y, b.value index = .ok y ∧ xs[xs.length - b.count + index.toNat]? = some y := by
  obtain ⟨y, hy, hget⟩ := hb.value_index index (by omega) hhigh
  rw [if_neg (Int.not_lt.mpr hlow)] at hget
  exact ⟨y, hy, hget⟩

/-- `make_vector` of a slice. -/
theorem Holds.makeVector_slice {start stop : ℕ} (h : start < stop)
    (hstop : stop ≤ b.size) :
    b.makeVector start stop = .ok (((xs.drop (xs.length - b.count)).take stop).drop start) := by
  have hle := b.count_le
  have hcount := hb.count_eq
  have hlength := b.length_eq
  unfold size at hstop
  have hhead := b.head_lt (by omega)
  have hslice : ∀ ys : List α, ys.length = stop - start →
      (∀ i, i + start < stop → ys[i]? = b.buffer[(b.head + (start + i)) % b.maxSize]?) →
      ys = ((xs.drop (xs.length - b.count)).take stop).drop start := by
    intro ys hys hget
    refine ext_getElem? fun i => ?_
    rw [getElem?_drop]
    by_cases hi : i + start < stop
    · rw [hget i hi, hb.slot_eq _ (by omega), getElem?_take_of_lt (by omega),
        getElem?_drop]
    · rw [getElem?_eq_none (by omega), getElem?_take, if_neg (by omega)]
  have hroom := hb.head_eq
  unfold CircularBuffer.makeVector capacity size
  rw [if_neg (by omega), if_neg (by omega), if_neg (by omega)]
  dsimp only
  rw [mod_eq_ite (i := b.head + start) (by omega),
    mod_eq_ite (i := b.head + stop - 1) (by omega)]
  split_ifs with hfirst hlast horder horder hlast horder
  -- the slice does not wrap around
  · refine congrArg _ (hslice _ ?_ ?_)
    · simp only [length_drop, length_take]
      omega
    intro i hi
    rw [getElem?_drop, getElem?_take_of_lt (by omega), mod_eq_of_lt (by omega),
      Nat.add_assoc]
  · omega
  · omega
  -- it wraps around
  · refine congrArg _ (hslice _ ?_ ?_)
    · simp only [length_append, length_drop, length_take]
      omega
    intro i hi
    rw [mod_eq_ite (by omega)]
    split_ifs with hi'
    · rw [getElem?_append_left (by rw [length_drop]; omega), getElem?_drop,
        Nat.add_assoc]
    · rw [getElem?_append_right (by rw [length_drop]; omega), length_drop,
        getElem?_take_of_lt (by omega)]
      exact congrArg (b.buffer[·]?) (by omega)
  · omega
  · omega
  -- it starts behind the point where the buffer wraps around
  · refine congrArg _ (hslice _ ?_ ?_)
    · simp only [length_drop, length_take]
      omega
    intro i hi
    rw [getElem?_drop, getElem?_take_of_lt (by omega), mod_eq_ite (by omega),
      if_neg (by omega)]
    exact congrArg (b.buffer[·]?) (by omega)
  · omega

/-- `make_vector`, up to the newest value. -/
theorem Holds.makeVector {start : ℕ} (h : start < b.size) :
    b.makeVector start b.size = .ok (xs.drop (xs.length - b.count + start)) := by
  have hcount := hb.count_eq
  rw [hb.makeVector_slice h (Nat.le_refl _), take_of_length_le, drop_drop]
  rw [length_drop]
  unfold size
  omega

/-- `make_vector` of the whole buffer. -/
theorem Holds.makeVectorAll :
    b.makeVectorAll = xs.drop (xs.length - b.count) := by
  have hle := b.count_le
  have hcount := hb.count_eq
  have hlength := b.length_eq
  have hslice : ∀ ys : List α, ys.length = b.count →
      (∀ i < b.count, ys[i]? = b.buffer[(b.head + i) % b.maxSize]?) →
      ys = xs.drop (xs.length - b.count) := by
    intro ys hys hget
    refine ext_getElem? fun i => ?_
    rw [getElem?_drop]
    by_cases hi : i < b.count
    · rw [hget i hi, hb.slot_eq i hi]
    · rw [getElem?_eq_none (by omega), getElem?_eq_none (by omega)]
  unfold CircularBuffer.makeVectorAll
  split_ifs with hhead
  · refine hslice _ (by rw [length_take]; omega) fun i hi => ?_
    rw [getElem?_take_of_lt hi, hhead, Nat.zero_add, mod_eq_of_lt (by omega)]
  · -- a buffer whose head has moved is full
    have hfull : b.count = b.maxSize := by
      by_contra hroom
      exact hhead (hb.head_eq (by omega))
    have hlt : b.maxSize = 0 ∨ b.head < b.maxSize := by
      rcases Nat.eq_zero_or_pos b.maxSize with hzero | hpos
      · exact .inl hzero
      · exact .inr (b.head_lt hpos)
    refine hslice _ (by rw [length_append, length_drop, length_take]; omega)
      fun i hi => ?_
    rw [mod_eq_ite (by omega)]
    split_ifs with hi'
    · rw [getElem?_append_left (by rw [length_drop]; omega), getElem?_drop]
    · rw [getElem?_append_right (by rw [length_drop]; omega), length_drop,
        getElem?_take_of_lt (by omega)]
      exact congrArg (b.buffer[·]?) (by omega)

end

theorem holds_clear (b : CircularBuffer α) : b.clear.Holds [] :=
  ⟨(Nat.zero_min _).symm, fun _ => rfl, fun _ h => absurd h (Nat.not_lt_zero _)⟩

theorem holds_setCapacity [Inhabited α] {size : ℕ} (h : b.count = 0) :
    (b.setCapacity size).Holds [] ∧ (b.setCapacity size).maxSize = size := by
  unfold setCapacity
  rw [dif_neg (by omega)]
  refine ⟨⟨?_, fun _ => rfl, fun i hi => ?_⟩, rfl⟩
  · dsimp only
    rw [h, length_nil, Nat.zero_min]
  · dsimp only at hi
    omega

end Holds

end CircularBuffer

end Geopm
