import Mathlib.Data.List.Rotate

/- Ring buffers.

   A vector with a write index: elements are appended while there is room, and then each one takes the place of the
   oldest. Read from the write index on, the ring is the queue of the last elements (`pushAll_rotate`); read from the
   front it is that queue only until it wraps. -/
namespace Lib
open List

structure RingBuffer (α : Type) where
  slots : List α := []
  head : Nat := 0

namespace RingBuffer
variable {α : Type} {capacity : Nat} {r : RingBuffer α} {a : α} {as : List α}

def push (capacity : Nat) (r : RingBuffer α) (a : α) : RingBuffer α :=
  if r.slots.length < capacity then { r with slots := r.slots ++ [a] }
  else { slots := r.slots.set r.head a, head := (r.head + 1) % capacity }

/-- A push writes into the vector, and takes no remainder by zero. -/
def InRange (capacity : Nat) (r : RingBuffer α) : Prop :=
  r.slots.length < capacity ∨ (r.head < r.slots.length ∧ capacity ≠ 0)

/-- The ring after the elements of a list. -/
def pushAll (capacity : Nat) (as : List α) : RingBuffer α := as.foldl (push capacity) {}

theorem pushAll_snoc (as : List α) (a : α) : pushAll capacity (as ++ [a]) = (pushAll capacity as).push capacity a :=
  foldl_concat ..

theorem pushAll_room (h : as.length ≤ capacity) : pushAll capacity as = { slots := as } := by
  induction as using reverseRecOn with
  | nil => rfl
  | append_singleton as a ih =>
    rw [length_append, length_singleton] at h
    rw [pushAll_snoc, ih (by omega)]
    exact if_pos h

theorem pushAll_length (capacity : Nat) (as : List α) :
    (pushAll capacity as).slots.length = min as.length capacity := by
  induction as using reverseRecOn with
  | nil => exact (Nat.zero_min _).symm
  | append_singleton as a ih =>
    rw [pushAll_snoc, push]
    split
    · simp only [length_append, length_singleton]
      omega
    · simp only [length_set, length_append, length_singleton]
      omega

theorem pushAll_head (hpos : 0 < capacity) (as : List α) : (pushAll capacity as).head < capacity := by
  induction as using reverseRecOn with
  | nil => exact hpos
  | append_singleton as a ih =>
    rw [pushAll_snoc, push]
    split
    · exact ih
    · exact Nat.mod_lt _ hpos

theorem pushAll_inRange (hpos : 0 < capacity) (as : List α) : (pushAll capacity as).InRange capacity := by
  have hlength := pushAll_length capacity as
  have hhead := pushAll_head hpos as
  unfold InRange
  omega

/-- Writing over the oldest element and moving on drops it and appends the new one. -/
theorem rotate_push (hlength : r.slots.length = capacity) (hhead : r.head < capacity) :
    (r.push capacity a).slots.rotate (r.push capacity a).head = (r.slots.rotate r.head).drop 1 ++ [a] := by
  have hmod : (r.slots.set r.head a).rotate ((r.head + 1) % capacity) = (r.slots.set r.head a).rotate (r.head + 1) := by
    rw [← rotate_mod _ (r.head + 1), length_set, hlength]
  rw [push, if_neg (by omega)]
  calc (r.slots.set r.head a).rotate ((r.head + 1) % capacity)
      = (r.slots.set r.head a).drop (r.head + 1) ++ (r.slots.set r.head a).take (r.head + 1) := by
        rw [hmod, rotate_eq_drop_append_take (by rw [length_set]; omega)]
    _ = r.slots.drop (r.head + 1) ++ (r.slots.take r.head ++ [a]) := by
        rw [drop_set_of_lt (Nat.lt_succ_self _), take_add_one, getElem?_set_self (by omega),
          take_set_of_le (Nat.le_refl _)]
        rfl
    _ = (r.slots.rotate r.head).drop 1 ++ [a] := by
        rw [rotate_eq_drop_append_take (by omega), drop_append_of_le_length (by rw [length_drop]; omega),
          drop_drop, append_assoc]

/-- Read from the write index on, the ring holds the last elements, oldest first. -/
theorem pushAll_rotate (hpos : 0 < capacity) (as : List α) :
    (pushAll capacity as).slots.rotate (pushAll capacity as).head = as.drop (as.length - capacity) := by
  induction as using reverseRecOn with
  | nil => simp [pushAll]
  | append_singleton as a ih =>
    by_cases hroom : as.length < capacity
    · rw [pushAll_room (by simp; omega), rotate_zero, length_append, length_singleton,
        Nat.sub_eq_zero_of_le hroom, drop_zero]
    · have hlength : (pushAll capacity as).slots.length = capacity := by
        rw [pushAll_length]
        omega
      rw [pushAll_snoc, rotate_push hlength (pushAll_head hpos as), ih, drop_drop, length_append, length_singleton,
        drop_append_of_le_length (by omega)]
      congr 2
      omega

/-- Once the ring has wrapped, what stands at its front came after the first round. -/
theorem pushAll_front (hpos : 0 < capacity) (h : capacity < as.length) :
    ∃ a ∈ as.drop capacity, (pushAll capacity as).slots[0]? = some a := by
  induction as using reverseRecOn with
  | nil => exact absurd h (Nat.not_lt_zero _)
  | append_singleton as a ih =>
    rw [length_append, length_singleton] at h
    have hlength := pushAll_length capacity as
    rw [pushAll_snoc, push, if_neg (by omega), drop_append_of_le_length (by omega)]
    by_cases hhead : (pushAll capacity as).head = 0
    · refine ⟨a, mem_append_right _ (mem_singleton_self a), ?_⟩
      rw [hhead, getElem?_set_self (by omega)]
    · -- the write index has moved on, so this is not the push that wraps
      have hwrapped : capacity < as.length := by
        by_contra hroom
        exact hhead (congrArg head (pushAll_room (Nat.not_lt.mp hroom)))
      obtain ⟨b, hb, hfront⟩ := ih hwrapped
      exact ⟨b, mem_append_left _ hb, (getElem?_set_ne hhead).trans hfront⟩

end RingBuffer
end Lib
