import Mathlib.Order.MinMax

/-! # A ring shared with any peer

The calls of `ringbuf.h` on one side of an attached ring. The peer owns the other index and the data
bytes, so that every load of these may give anything.
-/

open List

namespace Ringbuf

/-- What the peer has stored when a call loads its index, or a data byte, for the `k`-th time. -/
structure Peer where
  index : ℕ → BitVec 32
  byte : ℕ → BitVec 8

structure Outcome where
  /-- The offsets in the data region that are loaded or stored. -/
  touched : List ℕ
  /-- How many bytes are taken from the caller's buffer. -/
  taken : ℕ
  /-- The bytes put into the caller's buffer, from its start on. -/
  stored : List (BitVec 8)
  result : Int
  /-- The side's own index afterwards. -/
  own : BitVec 32

inductive Call
  | write (len : BitVec 32)
  | writeRecord (len : BitVec 32)
  | read (len : BitVec 32)
  | peek (len : BitVec 32)
  | readRecord (max : BitVec 32)

/-- The `len` or `max` of a call. -/
def Call.room : Call → ℕ
  | write len | writeRecord len | read len | peek len => len.toNat
  | readRecord max => max.toNat

def Call.reads : Call → Bool
  | write _ | writeRecord _ => false
  | read _ | peek _ | readRecord _ => true

/-- `wasmos_ringbuf_is_pow2`, which `wasmos_ringbuf_attach` requires of the capacity. -/
def isPow2 (x : BitVec 32) : Bool := x ≠ 0 ∧ x &&& (x - 1) = 0

variable (cap own : BitVec 32) (p : Peer)

/-- The offsets of `wasmos_ringbuf__store` and `wasmos_ringbuf__load`, split at the capacity. -/
def span (pos : BitVec 32) (n : ℕ) : List ℕ :=
  let off := (pos &&& (cap - 1)).toNat
  let first := min (cap.toNat - off) n
  (range first).map (off + ·) ++ range (n - first)

/-- The free bytes a producer sees at its `k`-th load. -/
def free (k : ℕ) : ℕ := (cap - (own - p.index k)).toNat

/-- The used bytes a consumer sees at its `k`-th load. -/
def used (k : ℕ) : ℕ := (p.index k - own).toNat

/-- The length of a record in its first four bytes. -/
def recordLen : BitVec 32 :=
  (p.byte 0).setWidth 32 ||| (p.byte 1).setWidth 32 <<< 8 ||| (p.byte 2).setWidth 32 <<< 16 |||
    (p.byte 3).setWidth 32 <<< 24

def readRecord (max : BitVec 32) : Outcome :=
  let peeked := span cap own (min 4 (used own p 0))
  let fail (result : Int) : Outcome := ⟨peeked, 0, [], result, own⟩
  let len := recordLen p
  let need := len + 4
  if used own p 0 < 4 then fail (-1)
  else if need < 4 ∨ cap < need then fail (-1)
  else if used own p 1 < need.toNat then fail (-1)
  else if max < len then fail (-2)
  else
    let own := own + .ofNat 32 (min 4 (used own p 2))
    let n := min len.toNat (used own p 3)
    ⟨peeked ++ span cap own n, 0, (range n).map fun k => p.byte (4 + k), len.toInt,
      own + .ofNat 32 n⟩

def exec : Call → Outcome
  | .write len =>
    let n := min len.toNat (free cap own p 0)
    ⟨span cap own n, n, [], n, own + .ofNat 32 n⟩
  | .writeRecord len =>
    let need := len + 4
    if need < len ∨ free cap own p 0 < need.toNat then ⟨[], 0, [], -1, own⟩
    else ⟨span cap own 4 ++ span cap (own + 4) len.toNat, len.toNat, [], len.toInt, own + need⟩
  | .read len =>
    let n := min len.toNat (used own p 0)
    ⟨span cap own n, 0, (range n).map p.byte, n, own + .ofNat 32 n⟩
  | .peek len =>
    let n := min len.toNat (used own p 0)
    ⟨span cap own n, 0, (range n).map p.byte, n, own⟩
  | .readRecord max => readRecord cap own p max

/-- `n` bytes from a position on go round the region less than twice. -/
def Reach (pos : BitVec 32) (n : ℕ) : Prop := n + (pos &&& (cap - 1)).toNat ≤ 2 * cap.toNat

/-- The indices that a call loads do not lead it out of the region, and that of a writer does not go
back behind a record that it was seen to hold. -/
def Fair : Call → Prop
  | .write len => Reach cap own (min len.toNat (free cap own p 0))
  | .writeRecord len => len ≤ len + 4 → (len + 4).toNat ≤ free cap own p 0 →
      Reach cap own 4 ∧ Reach cap (own + 4) len.toNat
  | .read len | .peek len => Reach cap own (min len.toNat (used own p 0))
  | .readRecord max => Reach cap own (min 4 (used own p 0)) ∧
      (4 ≤ used own p 0 → 4 ≤ recordLen p + 4 → recordLen p + 4 ≤ cap →
        (recordLen p + 4).toNat ≤ used own p 1 → recordLen p ≤ max →
        (recordLen p).toNat ≤ used (own + .ofNat 32 (min 4 (used own p 2))) p 3)

variable {cap own p} {n : ℕ} {c : Call}

lemma offset_lt (hcap : 0 < cap.toNat) (pos : BitVec 32) :
    (pos &&& (cap - 1)).toNat < cap.toNat := by
  have : (pos &&& (cap - 1)).toNat ≤ (cap - 1).toNat := by
    rw [BitVec.toNat_and]
    exact Nat.and_le_right
  bv_omega

lemma span_lt_iff (hcap : 0 < cap.toNat) (pos : BitVec 32) :
    (∀ o ∈ span cap pos n, o < cap.toNat) ↔ Reach cap pos n := by
  have hoff := offset_lt hcap pos
  unfold span Reach
  dsimp only
  generalize (pos &&& (cap - 1)).toNat = off at *
  constructor
  · intro h
    by_contra hfar
    have := h cap.toNat (mem_append_right _ (List.mem_range.mpr (by omega)))
    omega
  · intro h o ho
    rcases mem_append.mp ho with ho | ho
    · obtain ⟨i, hi, rfl⟩ := mem_map.mp ho
      have := List.mem_range.mp hi
      omega
    · have := List.mem_range.mp ho
      omega

lemma isPow2_le (h : isPow2 cap = true) : 0 < cap.toNat ∧ cap.toNat ≤ 0x80000000 := by
  obtain ⟨hne, hand⟩ : cap ≠ 0 ∧ cap &&& (cap - 1) = 0 := by simpa [isPow2] using h
  refine ⟨by bv_omega, not_lt.mp fun hlt => ?_⟩
  -- above 2 ^ 31 both the capacity and its predecessor have the top bit
  have htop : (cap &&& (cap - 1)).msb = true := by
    rw [BitVec.msb_and, BitVec.msb_eq_decide, BitVec.msb_eq_decide]
    simp only [Bool.and_eq_true, decide_eq_true_eq]
    bv_omega
  rw [hand] at htop
  exact absurd htop (by decide)

lemma readRecord_bounded (hcap : isPow2 cap = true) (max : BitVec 32) :
    let o := readRecord cap own p max
    o.taken = 0 ∧ o.stored.length ≤ max.toNat ∧
      ((∀ i ∈ o.touched, i < cap.toNat) ∧ (0 ≤ o.result → o.result = o.stored.length) ↔
        Fair cap own p (.readRecord max)) := by
  obtain ⟨hpos, htop⟩ := isPow2_le hcap
  unfold readRecord Fair
  dsimp only
  split_ifs with h₀ h₁ h₂ h₃
  iterate 4
    refine ⟨rfl, Nat.zero_le _, ?_⟩
    rw [span_lt_iff hpos]
    exact ⟨fun h => ⟨h.1, fun _ _ _ _ _ => by bv_omega⟩, fun h => ⟨h.1, by simp⟩⟩
  have hneed : (recordLen p + 4).toNat = (recordLen p).toNat + 4 := by bv_omega
  have hle : (recordLen p + 4).toNat ≤ cap.toNat := by bv_omega
  simp only [length_map, length_range]
  refine ⟨trivial, by bv_omega, ?_⟩
  generalize own + .ofNat 32 (min 4 (used own p 2)) = own'
  -- a record that fits leaves the region nowhere
  have hbody : Reach cap own' (min (recordLen p).toNat (used own' p 3)) := by
    have := offset_lt hpos own'
    unfold Reach
    omega
  have hint : (recordLen p).toInt = (recordLen p).toNat := by
    rw [BitVec.toInt_eq_toNat_cond, if_pos (by omega)]
  rw [forall_mem_append, span_lt_iff hpos, span_lt_iff hpos, hint]
  constructor
  · rintro ⟨⟨hhead, -⟩, hall⟩
    refine ⟨hhead, fun _ _ _ _ _ => ?_⟩
    have := hall (by omega)
    omega
  · rintro ⟨hhead, hlast⟩
    have := hlast (by omega) (by bv_omega) (by bv_omega) (by omega) (by bv_omega)
    exact ⟨⟨hhead, hbody⟩, fun _ => by omega⟩

/-- Whatever the peer stores, a call keeps to the caller's buffer. It keeps to the region and
answers with the number of bytes it put into the buffer exactly if the loads it makes are fair. -/
theorem exec_bounded (hcap : isPow2 cap = true) (own : BitVec 32) (p : Peer) (c : Call) :
    let o := exec cap own p c
    o.taken ≤ c.room ∧ o.stored.length ≤ c.room ∧ ((∀ i ∈ o.touched, i < cap.toNat) ∧
        (c.reads = true → 0 ≤ o.result → o.result = o.stored.length) ↔ Fair cap own p c) := by
  have hpos := (isPow2_le hcap).1
  cases c with
  | write len =>
    refine ⟨min_le_left .., Nat.zero_le _, ?_⟩
    exact (and_iff_left nofun).trans (span_lt_iff hpos own)
  | writeRecord len =>
    unfold exec Fair
    dsimp only
    split_ifs with hfit
    · refine ⟨Nat.zero_le _, Nat.zero_le _, iff_of_true ⟨nofun, nofun⟩ fun _ _ => ?_⟩
      bv_omega
    refine ⟨le_rfl, Nat.zero_le _, (and_iff_left nofun).trans ?_⟩
    rw [forall_mem_append, span_lt_iff hpos, span_lt_iff hpos]
    exact ⟨fun h _ _ => h, fun h => h (by bv_omega) (by bv_omega)⟩
  | readRecord max =>
    obtain ⟨h₁, h₂, h₃⟩ := readRecord_bounded hcap max
    exact ⟨h₁.le.trans (Nat.zero_le _), h₂, by simpa [Call.reads, exec] using h₃⟩
  | _ len =>
    refine ⟨Nat.zero_le _, by simp [exec, Call.room], ?_⟩
    exact (and_iff_left fun _ _ => by simp [exec]).trans (span_lt_iff hpos own)

theorem exec_bounded_record :
    let o := exec 16 0 ⟨fun _ => 9, fun k => if k = 0 then 5 else 0⟩ (.readRecord 8)
    (∀ i ∈ o.touched, i < 16) ∧ o.result = 5 := by
  have h := exec_bounded (by decide : isPow2 16 = true) 0
    ⟨fun _ => 9, fun k => if k = 0 then 5 else 0⟩ (.readRecord 8)
  exact ⟨(h.2.2.mpr (by unfold Fair Reach; decide)).1, by decide⟩

/-- An index beyond the capacity leads a write out of the region, and one that goes back after the
check of a record makes its read claim bytes that it did not store. -/
theorem exec_misled :
    91 ∈ (exec 8 0 ⟨fun _ => 100, fun _ => 0⟩ (.write 100)).touched ∧
    let o := exec 16 0 ⟨fun k => if k < 3 then 8 else 4, fun k => if k = 0 then 4 else 0⟩
      (.readRecord 8)
    o.result = 4 ∧ o.stored = [] := by
  decide

end Ringbuf
