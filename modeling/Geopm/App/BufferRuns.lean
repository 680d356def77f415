import Geopm.App.CircularBuffer
import Geopm.Lib.BoundedList

/-!
# Runs of a circular buffer

A sequence of calls on a `CircularBuffer` is compared with the same calls on a bounded list. Sizes
are natural numbers here; the source returns them as an `int`.

* `BufferCall`, `BufferReply` : a call and what it returns; `CircularBuffer.call`, `listCall` : its
  effect on a buffer and on a bounded list;
* `Holds.setCapacity` : a buffer that drops values, or whose oldest value is in the first slot,
  keeps the newest values through `set_capacity`;
* `Unwrapped` : the calls for which this is so; `step_refines`, `run_refines`, `buffer_refines` : in
  a run of such calls the buffer answers as the bounded list does;
* `not_buffer_refines` : a buffer that has wrapped around, and then grows.
-/

namespace Geopm

open List

/-- A call of a method of a circular buffer. -/
inductive BufferCall (α : Type) where
  | insert (value : α)
  | setCapacity (size : ℕ)
  | clear
  | value (index : ℤ)
  | makeVector (start stop : ℕ)
  | makeVectorAll

/-- What a call returns. -/
inductive BufferReply (α : Type) where
  | done
  | raised
  | value (x : α)
  | vector (xs : List α)
deriving DecidableEq

namespace CircularBuffer

variable {α : Type} [Inhabited α]

/-- A call on a buffer. -/
def call (b : CircularBuffer α) : BufferCall α → BufferReply α × CircularBuffer α
  | .insert x =>
    match insert x b with
    | .ok _ b' => (.done, b')
    | .error _ b' => (.raised, b')
  | .setCapacity size => (.done, b.setCapacity size)
  | .clear => (.done, b.clear)
  | .value index =>
    match b.value index with
    | .ok x => (.value x, b)
    | .error _ => (.raised, b)
  | .makeVector start stop =>
    match b.makeVector start stop with
    | .ok xs => (.vector xs, b)
    | .error _ => (.raised, b)
  | .makeVectorAll => (.vector b.makeVectorAll, b)

/-- What the calls of a run return. -/
def replies (b : CircularBuffer α) : List (BufferCall α) → List (BufferReply α)
  | [] => []
  | c :: calls => (b.call c).1 :: replies (b.call c).2 calls

end CircularBuffer

section List

variable {α : Type}

/-- A call on a bounded list. -/
def listCall (l : BoundedList α) : BufferCall α → BufferReply α × BoundedList α
  | .insert x => (l.insert x).elim (.raised, l) fun l' => (.done, l')
  | .setCapacity size => (.done, l.resize size)
  | .clear => (.done, l.clear)
  | .value index => ((l.get? index).elim .raised .value, l)
  | .makeVector start stop => ((l.slice start stop).elim .raised .vector, l)
  | .makeVectorAll => (.vector l.items, l)

/-- What the calls of a run on a bounded list return. -/
def listReplies (l : BoundedList α) : List (BufferCall α) → List (BufferReply α)
  | [] => []
  | c :: calls => (listCall l c).1 :: listReplies (listCall l c).2 calls

end List

namespace CircularBuffer

variable {α : Type} {b : CircularBuffer α} {xs : List α}

/-! ### What a buffer holds -/

/-- The values that were dropped do not matter. -/
theorem Holds.keepNewest (hb : b.Holds xs) : b.Holds (newest b.maxSize xs) := by
  have hcount := hb.count_eq
  refine ⟨by rw [hcount, length_newest, Nat.min_assoc, Nat.min_self], hb.head_eq, fun i hi => ?_⟩
  rw [hb.slot_eq i hi, getElem?_newest, length_newest]
  exact congrArg (xs[·]?) (by omega)

/-- `vector::resize` keeps the values that have a slot. -/
theorem getElem?_resize [Inhabited α] {ys : List α} {size i : ℕ} (hi : i < size)
    (hlength : i < ys.length) : (resize ys size)[i]? = ys[i]? := by
  unfold resize
  rw [getElem?_append_left (by rw [length_take]; omega), getElem?_take_of_lt hi]

/-- `set_capacity` of a buffer that drops values, or whose oldest value is in the first slot. -/
theorem Holds.setCapacity [Inhabited α] (hb : b.Holds xs) (hxs : xs.length = b.count) {size : ℕ}
    (h : size < b.count ∨ b.head = 0) :
    (b.setCapacity size).Holds (newest size xs) ∧ (b.setCapacity size).maxSize = size := by
  have hle := b.count_le
  have hlength := b.length_eq
  unfold CircularBuffer.setCapacity
  split_ifs with hdrop
  -- the newest values are copied into the first slots
  · refine ⟨⟨?_, fun hlt => absurd hlt (Nat.lt_irrefl _), fun i hi => ?_⟩, rfl⟩
    · simp only [length_newest]
      omega
    · dsimp only at hi ⊢
      have hslot := hb.slot_eq (b.count - size + i) (by omega)
      have hlt : (b.head + (b.count - size + i)) % b.maxSize < b.buffer.length :=
        b.slot_lt hdrop.2 _
      rw [getElem?_eq_getElem hlt] at hslot
      rw [Nat.zero_add, Nat.mod_eq_of_lt hi, getElem?_newest, length_newest,
        getElem?_map, getElem?_range hi, Option.map_some,
        getD_eq_getElem?_getD, getElem?_eq_getElem hlt, Option.getD_some, hslot]
      exact congrArg (xs[·]?) (by omega)
  -- the slots stay as they are
  · have hsize : b.count ≤ size := by omega
    refine ⟨⟨?_, fun _ => rfl, fun i hi => ?_⟩, rfl⟩
    · simp only [length_newest]
      omega
    · dsimp only at hi ⊢
      have hhead : b.head = 0 := by omega
      have hslot := hb.slot_eq i hi
      rw [hhead, Nat.zero_add, Nat.mod_eq_of_lt (by omega)] at hslot
      rw [Nat.zero_add, Nat.mod_eq_of_lt (by omega), getElem?_resize (by omega) (by omega), hslot,
        newest_eq_self (by omega)]

/-! ### Runs -/

/-- The buffer stands for the bounded list. -/
structure Represents (b : CircularBuffer α) (l : BoundedList α) : Prop where
  holds : b.Holds l.items
  capacity_eq : b.maxSize = l.capacity

/-- A call of `set_capacity` drops values, or finds the oldest value in the first slot. -/
def Unwrapped (b : CircularBuffer α) : BufferCall α → Prop
  | .setCapacity size => size < b.count ∨ b.head = 0
  | _ => True

/-- All calls of a run are `Unwrapped`. -/
def RunUnwrapped [Inhabited α] (b : CircularBuffer α) : List (BufferCall α) → Prop
  | [] => True
  | c :: calls => b.Unwrapped c ∧ RunUnwrapped (b.call c).2 calls

namespace Represents

variable {l : BoundedList α}

section

variable (h : b.Represents l)
include h

theorem length_eq : l.items.length = b.count := by
  have hcount := h.holds.count_eq
  have hle := l.length_le
  have hcapacity := h.capacity_eq
  omega

theorem insert [Inhabited α] (x : α) :
    (b.call (.insert x)).1 = (listCall l (.insert x)).1 ∧
      (b.call (.insert x)).2.Represents (listCall l (.insert x)).2 := by
  have hcapacity := h.capacity_eq
  by_cases hzero : l.capacity = 0
  · have hinsert := CircularBuffer.insert_eq_error (x := x) (hcapacity.trans hzero)
    simp [call, listCall, BoundedList.insert, hinsert, hzero, h]
  · have hpos : 0 < b.maxSize := by omega
    have hinsert := CircularBuffer.insert_eq_ok (x := x) hpos
    have hpush := (h.holds.push hpos (x := x)).keepNewest
    rw [push_maxSize, hcapacity] at hpush
    simp only [call, listCall, BoundedList.insert, hinsert, if_neg hzero, Option.elim_some]
    exact ⟨trivial, hpush, (push_maxSize hpos).trans hcapacity⟩

theorem clear [Inhabited α] : b.clear.Represents l.clear :=
  ⟨holds_clear b, h.capacity_eq⟩

theorem setCapacity [Inhabited α] {size : ℕ}
    (hsize : size < b.count ∨ b.head = 0) :
    (b.setCapacity size).Represents (l.resize size) := by
  obtain ⟨hholds, hcapacity⟩ := h.holds.setCapacity h.length_eq hsize
  exact ⟨hholds, hcapacity⟩

theorem value (index : ℤ) :
    (b.value index).toOption = l.get? index := by
  have hlength := h.length_eq
  by_cases hin : -(b.count : ℤ) ≤ index ∧ index < b.count
  · obtain ⟨y, hy, hget⟩ := h.holds.value_index index hin.1 hin.2
    rw [hlength, Nat.sub_self, Nat.zero_add] at hget
    rw [hy, BoundedList.get?, hlength]
    by_cases hneg : index < 0
    · rw [if_pos hneg] at hget
      rw [if_neg (by omega), if_pos hin.1, hget]
      rfl
    · rw [if_neg hneg] at hget
      rw [if_pos (by omega), hget]
      rfl
  · rw [CircularBuffer.value, dif_pos (by omega), BoundedList.get?, hlength]
    split_ifs with hnonneg hlow
    · exact (getElem?_eq_none (by omega)).symm
    · omega
    · rfl

theorem makeVector (start stop : ℕ) :
    (b.makeVector start stop).toOption = l.slice start stop := by
  have hlength := h.length_eq
  rw [BoundedList.slice, hlength]
  by_cases hin : start < stop ∧ stop ≤ b.count
  · rw [if_pos hin, h.holds.makeVector_slice hin.1 hin.2, hlength, Nat.sub_self, drop_zero]
    rfl
  · rw [if_neg hin, CircularBuffer.makeVector, CircularBuffer.size]
    split_ifs with hstart hstop hslice
    · rfl
    · rfl
    · rfl
    · omega

theorem makeVectorAll : b.makeVectorAll = l.items := by
  rw [h.holds.makeVectorAll, h.length_eq, Nat.sub_self, drop_zero]

end

end Represents

/-- An unwrapped call returns what it returns on the bounded list, and the buffer stands for the
bounded list after it. -/
theorem step_refines [Inhabited α] {l : BoundedList α} (h : b.Represents l) (c : BufferCall α)
    (hc : b.Unwrapped c) :
    (b.call c).1 = (listCall l c).1 ∧ (b.call c).2.Represents (listCall l c).2 := by
  cases c with
  | insert x => exact h.insert x
  | setCapacity size => exact ⟨rfl, h.setCapacity hc⟩
  | clear => exact ⟨rfl, h.clear⟩
  | value index =>
    have hvalue := h.value index
    simp only [call, listCall, ← hvalue]
    cases b.value index with
    | ok x => exact ⟨rfl, h⟩
    | error e => exact ⟨rfl, h⟩
  | makeVector start stop =>
    have hvector := h.makeVector start stop
    simp only [call, listCall, ← hvector]
    cases b.makeVector start stop with
    | ok xs => exact ⟨rfl, h⟩
    | error e => exact ⟨rfl, h⟩
  | makeVectorAll => exact ⟨congrArg BufferReply.vector h.makeVectorAll, h⟩

theorem run_refines [Inhabited α] {l : BoundedList α} (h : b.Represents l)
    (calls : List (BufferCall α)) (hcalls : b.RunUnwrapped calls) :
    b.replies calls = listReplies l calls := by
  induction calls generalizing b l with
  | nil => rfl
  | cons c calls ih =>
    obtain ⟨hreply, hnext⟩ := step_refines h c hcalls.1
    rw [replies, listReplies, hreply, ih hnext hcalls.2]

/-- A run of unwrapped calls on a new buffer returns what it returns on the empty bounded list. -/
theorem buffer_refines [Inhabited α] (size : ℕ) (calls : List (BufferCall α))
    (hcalls : (make size : CircularBuffer α).RunUnwrapped calls) :
    (make size).replies calls = listReplies (BoundedList.empty size) calls :=
  run_refines ⟨holds_make size, rfl⟩ calls hcalls

theorem buffer_refines_shrunk :
    (make 3 : CircularBuffer ℕ).RunUnwrapped
        [.insert 1, .insert 2, .insert 3, .insert 4, .setCapacity 2, .insert 5, .value (-1)] ∧
      (make 3 : CircularBuffer ℕ).replies
        [.insert 1, .insert 2, .insert 3, .insert 4, .setCapacity 2, .insert 5, .value (-1)] =
      listReplies (BoundedList.empty 3)
        [.insert 1, .insert 2, .insert 3, .insert 4, .setCapacity 2, .insert 5, .value (-1)] := by
  have hcalls : (make 3 : CircularBuffer ℕ).RunUnwrapped
      [.insert 1, .insert 2, .insert 3, .insert 4, .setCapacity 2, .insert 5, .value (-1)] :=
    ⟨trivial, trivial, trivial, trivial, .inl (by decide), trivial, trivial, trivial⟩
  exact ⟨hcalls, buffer_refines 3 _ hcalls⟩

/-- A full buffer that has wrapped around loses the order of its values when it grows. -/
theorem not_buffer_refines :
    ¬ ∀ (size : ℕ) (calls : List (BufferCall ℕ)),
      (make size).replies calls = listReplies (BoundedList.empty size) calls := by
  intro h
  have hrun := h 2 [.insert 1, .insert 2, .insert 3, .setCapacity 3, .value 0]
  revert hrun
  decide

end CircularBuffer

end Geopm
