import Mathlib.Data.UInt
import WasmOS.Wfs.Volume.ExtentTask

/-! # The lookup in the words of the disk

Records and tree nodes hold 64-bit block numbers and 32-bit lengths, while the driver addresses
blocks by 32 bits. This is the lookup with those words, over whatever the disk holds, and its
relation to the lookup over extents.
-/

open List UInt32 Except

namespace Wfs

structure RawExtent where
  logical : UInt64
  physical : UInt64
  length : UInt32

/-- A node that verified: its capacity word and its records, with the depth of an interior one. -/
inductive RawNode
  | leaf (capacity : ℕ) (records : List RawExtent)
  | interior (depth capacity : ℕ) (records : List (UInt64 × UInt64))

/-- An object record that verified; the array always has its six extents. -/
structure RawObject where
  inlineFlag : Bool
  size : UInt64
  extentCount : UInt32
  treeBlock : UInt64
  extents : List RawExtent
  length_eq : extents.length = inlineExtents

/-- A mounted volume as the lookup sees it: a block read as a node, or why that fails. -/
structure RawVolume where
  blockSize : ℕ
  totalBlocks : UInt32
  node : UInt32 → Except Err RawNode

namespace RawVolume

variable (v : RawVolume)

def dims : Dims := ⟨v.blockSize, v.totalBlocks.toNat⟩

end RawVolume

structure Mapping where
  physical : UInt32
  run : UInt32

/-- What `wfs_object_task` demands of a record. -/
def RawObject.accepted (o : RawObject) : Bool :=
  if o.inlineFlag then
    decide (o.size.toNat ≤ inlineDataMax) && decide (o.extentCount = 0) && decide (o.treeBlock = 0)
  else decide (o.extentCount.toNat ≤ inlineExtents) || decide (o.treeBlock ≠ 0)

namespace RawExtent

variable (e : RawExtent) (k : UInt64)

def covers : Bool :=
  decide (e.length ≠ 0) && decide (e.logical ≤ k) && decide (k < e.logical + e.length.toUInt64)

/-- `take_extent`: the sum and the offset are narrowed to 32 bits. -/
def take : Mapping := ⟨(e.physical + (k - e.logical)).toUInt32, e.length - (k - e.logical).toUInt32⟩

end RawExtent

namespace RawVolume

variable (v : RawVolume) (k : UInt64)

def leafTask (capacity : ℕ) (records : List RawExtent) : Except Err (Option Mapping) :=
  if capacity ≠ v.dims.leafCapacity ∨ capacity < records.length then .error .corrupt
  else
    match records.find? (·.covers k) with
    | none => .ok none
    | some e =>
      if v.totalBlocks.toUInt64 ≤ e.physical ∨
          v.totalBlocks.toUInt64 < e.physical + e.length.toUInt64 then .error .corrupt
      else .ok (some (e.take k))

/-- The descent; `guard` is `depth_guard`, which goes down with every node. -/
def descend : (guard : ℕ) → (block : UInt32) → Except Err (Option Mapping)
  | guard, block =>
    match v.node block with
    | .error e => .error e
    | .ok (.leaf capacity records) => v.leafTask k capacity records
    | .ok (.interior depth capacity index) =>
      if capacity ≠ v.dims.interiorCapacity ∨ capacity < index.length ∨ index = [] then
        .error .corrupt
      else if extentMaxDepth < depth then .error .corrupt
      else
        match guard with
        | 0 => .error .corrupt
        | guard + 1 =>
          match (index.takeWhile (fun c => decide (c.1 ≤ k))).getLast? with
          | none => .ok none
          | some (_, child) =>
            if child = 0 ∨ v.totalBlocks.toUInt64 ≤ child then .error .corrupt
            else descend guard child.toUInt32

def extentTask (o : RawObject) : Except Err (Option Mapping) :=
  if o.treeBlock = 0 then
    if inlineExtents < o.extentCount.toNat then .error .corrupt
    else .ok (((o.extents.take o.extentCount.toNat).find? (·.covers k)).map (·.take k))
  else if v.totalBlocks.toUInt64 ≤ o.treeBlock then .error .corrupt
  else v.descend k extentMaxDepth o.treeBlock.toUInt32

/-- The records of the leaf that the keys lead to; none where a node on the way is refused. -/
def leafFor : (guard : ℕ) → (block : UInt32) → List RawExtent
  | guard, block =>
    match v.node block with
    | .error _ => []
    | .ok (.leaf capacity records) =>
      if capacity ≠ v.dims.leafCapacity ∨ capacity < records.length then [] else records
    | .ok (.interior depth capacity index) =>
      if capacity ≠ v.dims.interiorCapacity ∨ capacity < index.length ∨ index = [] then []
      else if extentMaxDepth < depth then []
      else
        match guard with
        | 0 => []
        | guard + 1 =>
          match (index.takeWhile (fun c => decide (c.1 ≤ k))).getLast? with
          | none => []
          | some (_, child) =>
            if child = 0 ∨ v.totalBlocks.toUInt64 ≤ child then []
            else leafFor guard child.toUInt32

/-- The first extent over `k`, in the record's array or in the leaf that the keys lead to, where one
that ends past the volume is refused. -/
def selected (o : RawObject) : Option RawExtent :=
  if o.treeBlock = 0 then
    if inlineExtents < o.extentCount.toNat then none
    else (o.extents.take o.extentCount.toNat).find? (·.covers k)
  else if v.totalBlocks.toUInt64 ≤ o.treeBlock then none
  else ((v.leafFor k extentMaxDepth o.treeBlock.toUInt32).find? (·.covers k)).filter fun e =>
    decide (e.physical.toNat + e.length.toNat ≤ v.totalBlocks.toNat)

end RawVolume

variable {e : RawExtent} {k : UInt64} {v : RawVolume} {o : RawObject}

lemma RawExtent.covers_toNat (h : e.covers k = true) :
    e.length ≠ 0 ∧ e.logical.toNat ≤ k.toNat ∧ k.toNat < e.logical.toNat + e.length.toNat := by
  simp only [covers, Bool.and_eq_true, decide_eq_true_eq] at h
  obtain ⟨⟨hlen, hle⟩, hlt⟩ := h
  have hle' := UInt64.le_iff_toNat_le.mp hle
  have hlt' := UInt64.lt_iff_toNat_lt.mp hlt
  refine ⟨hlen, hle', lt_of_lt_of_le hlt' (Nat.mod_le _ _)⟩

lemma RawExtent.take_toNat (h : e.covers k = true)
    (hfit : e.physical.toNat + e.length.toNat ≤ v.totalBlocks.toNat) :
    (e.take k).physical.toNat = e.physical.toNat + (k.toNat - e.logical.toNat) ∧
      (e.take k).run.toNat = e.length.toNat - (k.toNat - e.logical.toNat) := by
  obtain ⟨-, hle, hlt⟩ := e.covers_toNat h
  have htotal := v.totalBlocks.toNat_lt
  have hsub := UInt64.toNat_sub_of_le _ _ (UInt64.le_iff_toNat_le.mpr hle)
  have hoff : ((k - e.logical).toUInt32).toNat = k.toNat - e.logical.toNat := by
    rw [UInt64.toNat_toUInt32, hsub]
    exact Nat.mod_eq_of_lt (by omega)
  constructor
  · simp only [take]
    rw [UInt64.toNat_toUInt32, UInt64.toNat_add, hsub, Nat.mod_eq_of_lt (by omega),
      Nat.mod_eq_of_lt (by omega)]
  · simp only [take]
    rw [UInt32.toNat_sub_of_le _ _ (UInt32.le_iff_toNat_le.mpr (by omega)), hoff]

variable {r : Option Mapping} {records : List RawExtent}

lemma RawVolume.leafTask_ok {capacity : ℕ} (h : v.leafTask k capacity records = .ok r) :
    records.length ≤ v.dims.leafCapacity ∧ ((records.find? (·.covers k) = none ∧ r = none) ∨
        ∃ e, records.find? (·.covers k) = some e ∧ r = some (e.take k) ∧
          e.physical.toNat < v.totalBlocks.toNat ∧
          e.physical.toNat + e.length.toNat ≤ v.totalBlocks.toNat) := by
  unfold leafTask at h
  split at h
  · cases h
  next hcap =>
  refine ⟨by omega, ?_⟩
  split at h
  · next hfind => exact .inl ⟨hfind, (ok.inj h).symm⟩
  next e hfind =>
  split at h
  · cases h
  next hbound =>
  rw [not_or, UInt64.not_le, UInt64.not_lt] at hbound
  have hlt := UInt64.lt_iff_toNat_lt.mp hbound.1
  have hle := UInt64.le_iff_toNat_le.mp hbound.2
  have htotal := v.totalBlocks.toNat_lt
  have hlen := e.length.toNat_lt
  rw [toNat_toUInt64] at hlt
  rw [UInt64.toNat_add, toNat_toUInt64, toNat_toUInt64, Nat.mod_eq_of_lt (by omega)] at hle
  exact .inr ⟨e, hfind, (ok.inj h).symm, hlt, hle⟩

lemma RawVolume.leafTask_some_iff {capacity : ℕ} {m : Mapping} :
    v.leafTask k capacity records = .ok (some m) ↔
      ∃ e, (if capacity ≠ v.dims.leafCapacity ∨ capacity < records.length then []
          else records).find? (·.covers k) = some e ∧
        e.physical.toNat + e.length.toNat ≤ v.totalBlocks.toNat ∧ m = e.take k := by
  by_cases hcap : capacity ≠ v.dims.leafCapacity ∨ capacity < records.length
  · rw [leafTask, if_pos hcap, if_pos hcap]
    simp
  rw [if_neg hcap]
  constructor
  · intro h
    rcases (leafTask_ok h).2 with ⟨-, hr⟩ | ⟨e, hfind, hr, -, hfit⟩
    · cases hr
    · exact ⟨e, hfind, hfit, Option.some.inj hr⟩
  · rintro ⟨e, hfind, hfit, rfl⟩
    have hlen := (e.covers_toNat (by simpa using find?_some hfind)).2
    have htotal := v.totalBlocks.toNat_lt
    have hsum : (e.physical + e.length.toUInt64).toNat = e.physical.toNat + e.length.toNat := by
      rw [UInt64.toNat_add, toNat_toUInt64, Nat.mod_eq_of_lt (by omega)]
    rw [leafTask, if_neg hcap, hfind]
    refine if_neg ?_
    rw [not_or, UInt64.not_le, UInt64.not_lt, UInt64.lt_iff_toNat_lt, UInt64.le_iff_toNat_le, hsum,
      toNat_toUInt64]
    omega

lemma RawVolume.descend_some_iff {block : UInt32} {guard : ℕ} {m : Mapping} :
    v.descend k guard block = .ok (some m) ↔
      ∃ e, (v.leafFor k guard block).find? (·.covers k) = some e ∧
        e.physical.toNat + e.length.toNat ≤ v.totalBlocks.toNat ∧ m = e.take k := by
  induction guard generalizing block with
  | zero =>
    rw [descend, leafFor]
    rcases v.node block with err | ⟨capacity, records⟩ | ⟨depth, capacity, index⟩
    · simp
    · exact leafTask_some_iff
    · dsimp only
      split_ifs <;> simp
  | succ guard ih =>
    rw [descend, leafFor]
    rcases v.node block with err | ⟨capacity, records⟩ | ⟨depth, capacity, index⟩
    · simp
    · exact leafTask_some_iff
    · dsimp only
      split_ifs
      · simp
      · simp
      split
      · simp
      · split_ifs
        · simp
        · exact ih

lemma RawVolume.extentTask_some_iff {m : Mapping} :
    v.extentTask k o = .ok (some m) ↔ ∃ e, v.selected k o = some e ∧ m = e.take k := by
  unfold extentTask selected
  split_ifs
  · simp
  · simp [eq_comm]
  · simp
  · rw [descend_some_iff]
    simp only [Option.filter_eq_some_iff, decide_eq_true_eq, and_assoc]

lemma RawVolume.selected_covers (h : v.selected k o = some e) : e.covers k = true := by
  unfold selected at h
  split_ifs at h
  · simpa using find?_some h
  · simpa using find?_some (Option.filter_eq_some_iff.mp h).1

def RawVolume.InVolume (v : RawVolume) (m : Mapping) : Prop :=
  1 ≤ m.physical.toNat ∧ 1 ≤ m.run.toNat ∧ m.physical.toNat + m.run.toNat ≤ v.totalBlocks.toNat

def RawExtent.Maps (e : RawExtent) (k : UInt64) (m : Mapping) : Prop :=
  m.physical.toNat = e.physical.toNat + (k.toNat - e.logical.toNat) ∧
    m.run.toNat = e.length.toNat - (k.toNat - e.logical.toNat)

/-- A lookup fails, finds a hole, or reports a run of the volume past its superblock with no sum cut
off, exactly if the extent it selects ends in the volume and the block is not the superblock. -/
theorem lookup_reports_in_volume (v : RawVolume) (o : RawObject) (k : UInt64) :
    ((∃ err, v.extentTask k o = .error err) ∨ v.extentTask k o = .ok none ∨
      ∃ m e, v.extentTask k o = .ok (some m) ∧ v.InVolume m ∧ v.selected k o = some e ∧
        e.Maps k m) ↔
    ∀ e, v.selected k o = some e → 1 ≤ e.physical.toNat + (k.toNat - e.logical.toNat) ∧
      e.physical.toNat + e.length.toNat ≤ v.totalBlocks.toNat := by
  constructor
  · intro h e he
    have htask := RawVolume.extentTask_some_iff.mpr ⟨e, he, rfl⟩
    rw [htask] at h
    rcases h with ⟨err, h⟩ | h | ⟨m, e', -, hin, he', hmaps⟩
    · cases h
    · cases h
    obtain rfl : e = e' := Option.some.inj (he.symm.trans he')
    obtain ⟨-, hle, hlt⟩ := e.covers_toNat (RawVolume.selected_covers he)
    unfold RawVolume.InVolume at hin
    obtain ⟨hphys, hrun⟩ := hmaps
    omega
  · intro hsel
    rcases hr : v.extentTask k o with err | m
    · exact .inl ⟨err, rfl⟩
    cases m with
    | none => exact .inr (.inl rfl)
    | some m =>
      obtain ⟨e, he, rfl⟩ := RawVolume.extentTask_some_iff.mp hr
      obtain ⟨hpos, hfit⟩ := hsel e he
      have hcov := RawVolume.selected_covers he
      obtain ⟨-, hle, hlt⟩ := e.covers_toNat hcov
      obtain ⟨hphys, hrun⟩ := e.take_toNat hcov hfit
      refine .inr (.inr ⟨_, e, rfl, ?_, he, hphys, hrun⟩)
      unfold RawVolume.InVolume
      omega

def recordOf (a b : RawExtent) : RawObject where
  inlineFlag := false
  size := 8192
  extentCount := 2
  treeBlock := 0
  extents := [a, b, ⟨0, 0, 0⟩, ⟨0, 0, 0⟩, ⟨0, 0, 0⟩, ⟨0, 0, 0⟩]
  length_eq := rfl

def leafAt40 (e : RawExtent) : RawVolume :=
  ⟨4096, 64, fun b => if b = 40 then .ok (.leaf 170 [e]) else .error .corrupt⟩

def fileOfLeaf : RawObject :=
  { recordOf ⟨0, 0, 0⟩ ⟨0, 0, 0⟩ with extentCount := 1, treeBlock := 40 }

theorem lookup_reports_in_volume_leaf : fileOfLeaf.accepted = true ∧
    ∃ m, (leafAt40 ⟨0, 41, 3⟩).extentTask 2 fileOfLeaf = .ok (some m) ∧
      (leafAt40 ⟨0, 41, 3⟩).InVolume m := by
  have hsel : (leafAt40 ⟨0, 41, 3⟩).selected 2 fileOfLeaf = some ⟨0, 41, 3⟩ := rfl
  refine ⟨rfl, ?_⟩
  rcases (lookup_reports_in_volume (leafAt40 ⟨0, 41, 3⟩) fileOfLeaf 2).mpr (by
    rw [hsel]
    rintro e ⟨⟩
    decide) with ⟨err, h⟩ | h | ⟨m, e, h, hin, -⟩
  · cases h
  · cases h
  · exact ⟨m, h, hin⟩

/-- Lookups that report the superblock, from the array and from a leaf, a block past the volume, and
what is left of a number past 32 bits. -/
theorem lookups_outside_the_volume : ((recordOf ⟨0, 0, 1⟩ ⟨1, 70, 2⟩).accepted = true ∧
      (leafAt40 ⟨0, 0, 1⟩).extentTask 0 (recordOf ⟨0, 0, 1⟩ ⟨1, 70, 2⟩) = .ok (some ⟨0, 1⟩) ∧
      (leafAt40 ⟨0, 0, 1⟩).extentTask 1 (recordOf ⟨0, 0, 1⟩ ⟨1, 70, 2⟩) = .ok (some ⟨70, 2⟩) ∧
      ¬ (leafAt40 ⟨0, 0, 1⟩).InVolume ⟨0, 1⟩ ∧ ¬ (leafAt40 ⟨0, 0, 1⟩).InVolume ⟨70, 2⟩) ∧
    (fileOfLeaf.accepted = true ∧
      (leafAt40 ⟨0, 0, 1⟩).extentTask 0 fileOfLeaf = .ok (some ⟨0, 1⟩)) ∧
    ((recordOf ⟨0, 2 ^ 32 + 1, 1⟩ ⟨1, 0, 0⟩).accepted = true ∧
      (leafAt40 ⟨0, 0, 1⟩).extentTask 0 (recordOf ⟨0, 2 ^ 32 + 1, 1⟩ ⟨1, 0, 0⟩) =
        .ok (some ⟨1, 1⟩)) := by
  refine ⟨⟨rfl, rfl, rfl, ?_, ?_⟩, ⟨rfl, rfl⟩, ⟨rfl, rfl⟩⟩
  · rintro ⟨h, -⟩
    exact absurd h (by decide)
  · rintro ⟨-, -, h⟩
    exact absurd h (by decide)

def RawExtent.toExtent (e : RawExtent) : Extent :=
  ⟨e.logical.toNat, e.physical.toNat, e.length.toNat⟩

lemma RawExtent.covers_iff (h : e.logical.toNat + e.length.toNat < 2 ^ 64) :
    e.toExtent.covers k.toNat = e.covers k := by
  rw [Bool.eq_iff_iff, Extent.covers_iff, covers]
  simp only [Bool.and_eq_true, decide_eq_true_eq, UInt64.le_iff_toNat_le, UInt64.lt_iff_toNat_lt,
    UInt64.toNat_add, UInt32.toNat_toUInt64, Nat.mod_eq_of_lt h, toExtent, Extent.stop, ne_eq,
    ← UInt32.toNat_inj, UInt32.toNat_zero]
  omega

end Wfs
