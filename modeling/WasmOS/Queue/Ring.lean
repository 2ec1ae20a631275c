import Mathlib.Data.Nat.ModEq

/-! # Ring buffers

A queue in a fixed number of slots: a head, a tail and a count. The fields tie the three together,
so every ring has a list of contents, and pushing and popping are what they are on that list.
-/

namespace Queue

/-- A ring of `n` slots, `count` of them in use from `head` on. -/
structure Ring (α : Type*) (n : ℕ) where
  slots : Vector α n
  head : ℕ
  tail : ℕ
  count : ℕ
  head_lt : head < n
  count_le : count ≤ n
  tail_eq : tail = (head + count) % n

namespace Ring

variable {α : Type*} {n : ℕ} (r : Ring α n)

lemma tail_lt : r.tail < n := r.tail_eq ▸ Nat.mod_lt _ (Nat.zero_lt_of_lt r.head_lt)

def empty (filler : α) (h : 0 < n) : Ring α n :=
  ⟨Vector.replicate n filler, 0, 0, 0, h, Nat.zero_le n, by simp⟩

variable (a : α)

def push (h : r.count < n) : Ring α n where
  slots := r.slots.set r.tail a r.tail_lt
  head := r.head
  tail := (r.tail + 1) % n
  count := r.count + 1
  head_lt := r.head_lt
  count_le := h
  tail_eq := by rw [r.tail_eq, Nat.mod_add_mod, add_assoc]

def front : α :=
  have := r.head_lt
  r.slots[r.head]

def pop (h : 0 < r.count) : Ring α n where
  slots := r.slots
  head := (r.head + 1) % n
  tail := r.tail
  count := r.count - 1
  head_lt := Nat.mod_lt _ (Nat.zero_lt_of_lt r.head_lt)
  count_le := (Nat.sub_le _ _).trans r.count_le
  tail_eq := by
    rw [r.tail_eq, Nat.mod_add_mod]
    congr 1
    omega

def slotAt (i : ℕ) : α :=
  have : (r.head + i) % n < n := Nat.mod_lt _ (Nat.zero_lt_of_lt r.head_lt)
  r.slots[(r.head + i) % n]

def toList : List α := (List.range r.count).map r.slotAt

lemma slotAt_push_of_lt (h : r.count < n) {i : ℕ} (hi : i < r.count) :
    (r.push a h).slotAt i = r.slotAt i := by
  -- distinct offsets below the number of slots are distinct slots
  have hne : r.tail ≠ (r.head + i) % n := by
    rw [r.tail_eq]
    intro heq
    have : r.count ≡ i [MOD n] := Nat.ModEq.add_left_cancel' r.head heq
    have := this.eq_of_lt_of_lt h (hi.trans h)
    omega
  simp only [slotAt, push]
  exact Vector.getElem_set_ne _ _ hne

lemma slotAt_push_count (h : r.count < n) : (r.push a h).slotAt r.count = a := by
  simp only [slotAt, push, ← r.tail_eq]
  exact Vector.getElem_set_self _

@[simp] lemma toList_push (h : r.count < n) : (r.push a h).toList = r.toList ++ [a] := by
  have hcount : (r.push a h).count = r.count + 1 := rfl
  rw [toList, hcount, List.range_succ, List.map_append, List.map_singleton, slotAt_push_count]
  congr 1
  exact List.map_congr_left fun i hi => slotAt_push_of_lt r a h (List.mem_range.1 hi)

lemma slotAt_pop (h : 0 < r.count) (i : ℕ) : (r.pop h).slotAt i = r.slotAt (i + 1) := by
  have : ((r.head + 1) % n + i) % n = (r.head + (i + 1)) % n := by
    rw [Nat.mod_add_mod, Nat.add_assoc, Nat.add_comm 1 i]
  simp only [slotAt, pop, this]

lemma slotAt_zero : r.slotAt 0 = r.front := by
  simp [slotAt, front, Nat.mod_eq_of_lt r.head_lt]

lemma toList_eq_front_cons (h : 0 < r.count) : r.toList = r.front :: (r.pop h).toList := by
  have hcount : r.count = (r.pop h).count + 1 := by simp only [pop]; omega
  rw [toList, hcount, List.range_succ_eq_map, List.map_cons, slotAt_zero, List.map_map]
  congr 1
  exact List.map_congr_left fun i _ => (slotAt_pop r h i).symm

end Ring

end Queue
