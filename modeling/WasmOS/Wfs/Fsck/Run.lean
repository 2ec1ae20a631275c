import WasmOS.Wfs.Fsck.Sound

/-! # A whole run of the checker

On an image whose superblock parses and whose parts hold different blocks a run ends
without structural findings. What it says of bitmaps and counters is a matter of
counting the blocks that were claimed.
-/

open List Bool

namespace Wfs

structure Super.Valid (sb : Super) : Prop where
  blockSize_mem : sb.blockSize = 4096 ∨ sb.blockSize = 8192 ∨ sb.blockSize = 16384
  blocksPerGroup_eq : sb.blocksPerGroup = 8 * sb.blockSize
  total_lt : sb.totalBlocks < 2 ^ 32
  objects_lt : sb.totalObjects < 2 ^ 32
  words_lt : ∀ w ∈ sb.words, w < 2 ^ 32
  groupTable : sb.groupTableStart < sb.totalBlocks ∧
    sb.groupTableStart + sb.groupTableBlocks ≤ sb.totalBlocks
  objectTable : sb.objectTableStart < sb.totalBlocks ∧
    sb.objectTableStart + sb.objectTableBlocks ≤ sb.totalBlocks
  bitmaps : sb.bitmapStart < sb.totalBlocks ∧ sb.bitmapStart + sb.bitmapBlocks ≤ sb.totalBlocks
  journal : sb.journalStart < sb.totalBlocks ∧ sb.journalStart + sb.journalBlocks ≤ sb.totalBlocks
  root : sb.rootObjectId = objectRoot
  groups : sb.groupCount ≤ u32 (sb.groupTableBlocks * sb.groupDescsPerBlock)

lemma superParse_iff {s : Sealed Super} {location : ℕ} {sb : Super} :
    superParse s location = .ok sb ↔ s = ⟨location, sb⟩ ∧ sb.Valid := by
  obtain ⟨seed, value⟩ := s
  unfold superParse Sealed.verify
  by_cases hs : seed = location
  · subst hs
    rw [if_pos rfl]
    dsimp only
    constructor
    · intro h
      split_ifs at h with h₁ h₂ h₃ h₄ h₅ h₆ h₇ h₈ h₉
      cases h
      push Not at h₅
      exact ⟨rfl, by tauto, by tauto, by omega, by omega, h₅, by omega, by omega, by omega,
        by omega, by tauto, by omega⟩
    rintro ⟨he, hv⟩
    cases he
    have h₁ := hv.blockSize_mem
    have h₃ := hv.total_lt
    have h₄ := hv.objects_lt
    have h₅ := hv.words_lt
    have h₆ := hv.groupTable
    have h₇ := hv.objectTable
    have h₈ := hv.bitmaps
    have h₉ := hv.journal
    rw [if_neg (by omega), if_neg (not_not.mpr hv.blocksPerGroup_eq), if_neg (by omega),
      if_neg (by omega), if_neg (by push Not; exact h₅), if_neg (by omega), if_neg (by omega),
      if_neg (not_not.mpr hv.root), if_neg (not_lt.mpr hv.groups)]
  · rw [if_neg hs]
    constructor
    · intro h
      cases h
    rintro ⟨he, -⟩
    cases he
    exact absurd rfl hs

namespace Super.Valid

variable {sb : Super} {g : ℕ}

lemma descsPerBlock_pos (h : sb.Valid) : 0 < sb.groupDescsPerBlock := by
  have := h.blockSize_mem
  unfold groupDescsPerBlock
  omega

lemma descBlock_lt (h : sb.Valid) (hg : g < sb.groupCount) :
    sb.groupTableStart + g / sb.groupDescsPerBlock < sb.totalBlocks := by
  have hlt : g < sb.groupTableBlocks * sb.groupDescsPerBlock :=
    lt_of_lt_of_le hg (h.groups.trans (Nat.mod_le _ _))
  have := (Nat.div_lt_iff_lt_mul h.descsPerBlock_pos).mpr hlt
  have := h.groupTable
  omega

end Super.Valid

namespace Fsck

open Procedure

lemma sum_countP_groups (p : ℕ → Bool) (size total n : ℕ) : ((List.range n).map fun g =>
        (List.range (min size (total - g * size))).countP fun i => p (g * size + i)).sum =
      (List.range (min (n * size) total)).countP p := by
  induction n with
  | zero => simp
  | succ n ih =>
    rw [range_succ, map_append, sum_append, ih, map_singleton, sum_singleton]
    rcases lt_or_ge total (n * size) with h | h
    · have : total ≤ (n + 1) * size := by rw [Nat.succ_mul]; omega
      rw [min_eq_right h.le, min_eq_right this, Nat.sub_eq_zero_of_le h.le]
      simp
    have hsplit : min ((n + 1) * size) total = n * size + min size (total - n * size) := by
      rw [Nat.succ_mul]
      omega
    rw [hsplit, min_eq_left h, range_add, countP_append, countP_map]
    rfl

lemma countP_not_mem {held : List ℕ} {total : ℕ} (hn : held.Nodup) (hlt : ∀ b ∈ held, b < total) :
    (List.range total).countP (fun b => !decide (b ∈ held)) = total - held.length := by
  have hperm : ((List.range total).filter (fun b => decide (b ∈ held))).Perm held := by
    refine (perm_ext_iff_of_nodup (nodup_range.filter _) hn).mpr fun b => ?_
    rw [mem_filter, mem_range, decide_eq_true_eq]
    exact ⟨fun h => h.2, fun h => ⟨hlt b h, h⟩⟩
  have hcount := length_eq_countP_add_countP (fun b => decide (b ∈ held)) (l := List.range total)
  rw [length_range, countP_eq_length_filter, hperm.length_eq] at hcount
  simp only [not_eq_true, decide_eq_false_iff_not] at hcount
  simp only [decide_not] at hcount
  omega

def metadataBlocks (sb : Super) : List ℕ :=
  [0] ++ List.range' sb.groupTableStart sb.groupTableBlocks ++
    List.range' sb.objectTableStart sb.objectTableBlocks ++
    List.range' sb.bitmapStart sb.bitmapBlocks ++ List.range' sb.journalStart sb.journalBlocks

def backupOf (sb : Super) (g : ℕ) : List ℕ :=
  if Journal.groupHasBackup g then [g * sb.blocksPerGroup] else []

def backupBlocks (sb : Super) : List ℕ := (List.range sb.groupCount).flatMap (backupOf sb)

def live (I : Image) (sb : Super) (id : ℕ) : Bool := decide (id < sb.totalObjects) &&
    I.objectBit sb (id / objectsPerGroup sb) (id % objectsPerGroup sb)

def walkedIds (I : Image) (sb : Super) : List ℕ :=
  (List.range sb.totalObjects).filter fun id => live I sb id && walked sb id

/-- An image whose superblock parses and whose descriptors verify, and whose objects pass with the
different blocks `holds` and the references `refs`. -/
structure Consistent (I : Image) (sb : Super) (holds refs : ℕ → List ℕ) : Prop where
  super : I.superAt 0 = some sb
  groupTable_pos : 0 < sb.groupTableBlocks
  objectTable_pos : 0 < sb.objectTableBlocks
  bitmaps_pos : 0 < sb.bitmapBlocks
  objects_eq : sb.totalObjects = sb.groupCount * objectsPerGroup sb
  perGroup_le : objectsPerGroup sb ≤ 8 * sb.blockSize
  seed : ∀ g < sb.groupCount, (I.descSlot (sb.groupTableStart + g / sb.groupDescsPerBlock)
    (g % sb.groupDescsPerBlock)).seed = g
  backup : ∀ g < sb.groupCount, (I.desc sb g).hasBackup = Journal.groupHasBackup g
  blockBitmap_lt : ∀ g < sb.groupCount, (I.desc sb g).blockBitmap < sb.totalBlocks
  objectBitmap_lt : ∀ g < sb.groupCount, (I.desc sb g).objectBitmap < sb.totalBlocks
  object : ∀ id ∈ walkedIds I sb, Passes (checkObject I sb id) (fun _ => True) (holds id) (refs id)
  nodup : (metadataBlocks sb ++ backupBlocks sb ++ (walkedIds I sb).flatMap holds).Nodup
  named : ∀ id, live I sb id = true → objectFirst ≤ id → id ≠ objectRoot →
    id ∈ (walkedIds I sb).flatMap refs

section Passes

variable {I : Image} {sb : Super} {holds refs : ℕ → List ℕ} {w : Walk}

section

variable (h : Consistent I sb holds refs)
include h

lemma Consistent.parsed : ∃ s, I.block 0 = .super s ∧ superParse s 0 = .ok sb := by
  have hs := h.super
  unfold Image.superAt at hs
  split at hs
  · next s hb =>
    refine ⟨s, hb, ?_⟩
    cases hp : superParse s 0 with
    | error e => rw [hp] at hs; cases hs
    | ok sb' => rw [hp] at hs; cases hs; rfl
  · cases hs

lemma Consistent.valid : sb.Valid := by
  obtain ⟨s, -, hp⟩ := h.parsed
  exact (superParse_iff.mp hp).2

lemma Consistent.block_zero : I.block 0 = .super ⟨0, sb⟩ := by
  obtain ⟨s, hb, hp⟩ := h.parsed
  rw [hb, (superParse_iff.mp hp).1]

lemma Consistent.group_le {g : ℕ} (hg : g < sb.groupCount) :
    g * objectsPerGroup sb + objectsPerGroup sb ≤ sb.totalObjects := by
  rw [h.objects_eq, ← Nat.succ_mul]
  exact Nat.mul_le_mul_right _ hg

end

lemma live_past {n : ℕ} (hn : sb.totalObjects ≤ n) (id : ℕ) :
    (decide (n ≤ id) && live I sb id) = false := by
  rw [live, and_eq_false_iff, and_eq_false_iff, decide_eq_false_iff_not, decide_eq_false_iff_not]
  omega

lemma passes_claimMetadata (h : Consistent I sb holds refs) :
    Passes (claimMetadata sb) (· = true) (metadataBlocks sb) [] := by
  have hv := h.valid
  have htotal := hv.groupTable
  have hzero : Passes (claim sb 0 1) (· = true) [0] [] := passes_claim (by omega) (by omega)
  have hgroup := passes_claim h.groupTable_pos hv.groupTable.2
  have hobject := passes_claim h.objectTable_pos hv.objectTable.2
  have hbitmap := passes_claim h.bitmaps_pos hv.bitmaps.2
  have hjournal : Passes (claimJournal sb) (· = true)
      (List.range' sb.journalStart sb.journalBlocks) [] := by
    unfold claimJournal
    split
    · next hj => exact passes_claim (pos_of_ne_zero hj) hv.journal.2
    next hj =>
    rw [not_not.mp hj]
    exact passes_pure rfl
  have hall := hzero.bind fun a ha => hgroup.bind fun b hb => hobject.bind fun c hc =>
    hbitmap.bind fun d hd => hjournal.bind_pure (g := fun e => a && b && c && d && e)
      (S := (· = true)) fun e he => by rw [ha, hb, hc, hd, he]; rfl
  simpa [claimMetadata, metadataBlocks] using hall

lemma groupCount_mul_lt (hv : sb.Valid) {g : ℕ} (hg : g < sb.groupCount) :
    g * sb.blocksPerGroup < sb.totalBlocks := by
  have hpos : 0 < sb.blocksPerGroup := by
    have := hv.blockSize_mem
    have := hv.blocksPerGroup_eq
    omega
  have := (Nat.le_div_iff_mul_le hpos).mp (Nat.succ_le_of_lt hg)
  have : u32 (sb.totalBlocks + sb.blocksPerGroup - 1) ≤ _ := Nat.mod_le _ _
  rw [Nat.succ_mul] at *
  omega

lemma passes_checkGroup (h : Consistent I sb holds refs) {g : ℕ} (hg : g < sb.groupCount) :
    Passes (checkGroup I sb g) (fun _ => True) (backupOf sb g) [] := by
  have hv := h.valid
  have hlt := groupCount_mul_lt hv hg
  have hverify : (I.descSlot (sb.groupTableStart + g / sb.groupDescsPerBlock)
      (g % sb.groupDescsPerBlock)).verify g = some (I.desc sb g) := if_pos (h.seed g hg)
  unfold checkGroup require
  dsimp only
  rw [if_pos (hv.descBlock_lt hg)]
  refine Passes.after (Q := fun _ => True) (passes_pure trivial) fun _ _ => ?_
  rw [hverify]
  dsimp only
  rw [h.backup g hg, Bool.and_self, backupOf]
  cases hb : Journal.groupHasBackup g with
  | false => exact passes_pure trivial
  | true =>
    have hne : g * sb.blocksPerGroup ≠ 0 := by
      have := hv.blocksPerGroup_eq
      have := hv.blockSize_mem
      have hg0 : g ≠ 0 := by
        rintro rfl
        cases hb
      exact mul_ne_zero hg0 (by omega)
    rw [Bool.true_and, if_pos (by simpa using hne), if_pos rfl]
    exact (passes_claim (by omega) (by omega)).bind_pure fun _ _ => trivial

lemma live_of_group {g id : ℕ} (hlo : g * objectsPerGroup sb ≤ id)
    (hhi : id < g * objectsPerGroup sb + objectsPerGroup sb) (hid : id < sb.totalObjects) :
    live I sb id = I.objectBit sb g (id - g * objectsPerGroup sb) := by
  have hdiv : id / objectsPerGroup sb = g :=
    Nat.div_eq_of_lt_le hlo (by rw [Nat.succ_mul]; exact hhi)
  have hmod : id % objectsPerGroup sb = id - g * objectsPerGroup sb := by
    have := Nat.div_add_mod' id (objectsPerGroup sb)
    rw [hdiv] at this
    omega
  rw [live, hdiv, hmod, decide_eq_true hid, Bool.true_and]

variable (h : Consistent I sb holds refs)
include h

lemma loadObjectBitmap_spec {n g : ℕ} (hn : g + n = sb.groupCount) :
    wp (loadObjectBitmap I sb (List.range' g n)) (fun _ t => t = { w with
      objects := fun id => w.objects id || (decide (g * objectsPerGroup sb ≤ id) && live I sb id) })
      (fun _ => False) w := by
  induction n generalizing g w with
  | zero =>
    change w = _
    have hend : sb.totalObjects ≤ g * objectsPerGroup sb := by
      rw [h.objects_eq, ← hn, add_zero]
    simp [live_past hend]
  | succ n ih =>
    have hg : g < sb.groupCount := by omega
    have htotal := h.group_le hg
    rw [range'_succ, loadObjectBitmap, wp_bind, wp_require, if_pos (h.valid.descBlock_lt hg)]
    rw [if_neg (not_le.mpr (h.objectBitmap_lt g hg))]
    by_cases hend : sb.totalObjects ≤ g * objectsPerGroup sb
    · rw [if_pos hend]
      change w = _
      simp [live_past hend]
    have hcount : min (min (objectsPerGroup sb) (sb.totalObjects - g * objectsPerGroup sb))
        (8 * sb.blockSize) = objectsPerGroup sb := by
      have := h.perGroup_le
      omega
    rw [if_neg hend, wp_bind, wp_modify, hcount]
    refine wp_mono (ih (by omega)) ?_ fun _ ht => ht
    rintro _ t rfl
    congr 1
    funext id
    rw [Bool.or_assoc, Nat.succ_mul]
    congr 1
    by_cases hin : g * objectsPerGroup sb ≤ id ∧ id < g * objectsPerGroup sb + objectsPerGroup sb
    · rw [live_of_group hin.1 hin.2 (by omega)]
      simp [hin, Image.objectBit]
    have hout : g * objectsPerGroup sb + objectsPerGroup sb ≤ id ↔ g * objectsPerGroup sb ≤ id := by
      omega
    rw [← decide_and, decide_eq_false hin, decide_eq_decide.mpr hout]
    rfl

lemma checkObjects_spec {ids held seen : List ℕ}
    (hids : ∀ id ∈ ids, id < sb.totalObjects) (hw : Clean w held seen)
    (hlive : ∀ id, w.objects id = live I sb id)
    (hn : (held ++ (ids.filter fun id => live I sb id && walked sb id).flatMap holds).Nodup) :
    wp (checkObjects I sb ids) (fun _ t =>
      Clean t (held ++ (ids.filter fun id => live I sb id && walked sb id).flatMap holds)
        (seen ++ (ids.filter fun id => live I sb id && walked sb id).flatMap refs) ∧
      t.objects = w.objects) (fun _ => False) w := by
  refine wp_fold (I := fun pre _ t =>
    Clean t (held ++ (pre.filter fun id => live I sb id && walked sb id).flatMap holds)
      (seen ++ (pre.filter fun id => live I sb id && walked sb id).flatMap refs) ∧
    t.objects = w.objects) ⟨by simpa using hw, rfl⟩ ?_
  rintro pre id post _ t rfl ⟨ht, ho⟩
  rw [wp_bind, wp_get, ho, hlive id, filter_append, flatMap_append, flatMap_append,
    filter_singleton]
  cases hc : live I sb id && walked sb id with
  | false =>
    simp only [cond_false, flatMap_nil, append_nil]
    exact ⟨ht, ho⟩
  | true =>
    simp only [cond_true, flatMap_singleton]
    have hmem : id ∈ walkedIds I sb := mem_filter.mpr ⟨mem_range.mpr (hids id (by simp)), hc⟩
    have hn' : (held ++ (pre.filter fun id => live I sb id && walked sb id).flatMap holds ++
        holds id).Nodup := by
      refine hn.sublist ?_
      rw [filter_append, filter_cons_of_pos (by exact hc), flatMap_append,
        flatMap_cons, ← append_assoc, ← append_assoc]
      exact sublist_append_left _ _
    refine wp_mono (h.object id hmem t _ _ ht hn') ?_ fun _ hu => hu
    rintro _ u ⟨-, hu, ho'⟩
    rw [← append_assoc, ← append_assoc]
    exact ⟨hu, ho'.trans ho⟩

lemma checkGroups_spec :
    Passes (forEach (checkGroup I sb) (List.range sb.groupCount)) (fun _ => True)
      (backupBlocks sb) [] := by
  have hfold : Passes (fold (fun _ => checkGroup I sb) (List.range sb.groupCount) ())
      (fun _ => True) ((List.range sb.groupCount).flatMap (backupOf sb))
      ((List.range sb.groupCount).flatMap fun _ => []) :=
    passes_fold (J := fun _ _ => True) trivial fun pre g post c hs _ =>
      passes_checkGroup h (mem_range.mp (hs ▸ by simp))
  have hnil : (List.range sb.groupCount).flatMap (fun _ => ([] : List ℕ)) = [] := by simp
  rwa [hnil] at hfold

end Passes

def groupSize (sb : Super) (g : ℕ) : ℕ :=
  min sb.blocksPerGroup (sb.totalBlocks - g * sb.blocksPerGroup)

/-- The bitmaps mark the blocks in `H` and those past the end, and every group counts their clear
bits. -/
structure Counted (I : Image) (sb : Super) (H : List ℕ) : Prop where
  whole : sb.totalBlocks ≤ sb.groupCount * sb.blocksPerGroup
  bits : ∀ g < sb.groupCount, ∀ i < groupSize sb g,
    I.blockBit sb g i = decide (g * sb.blocksPerGroup + i ∈ H)
  past : ∀ g < sb.groupCount, ∀ i, groupSize sb g ≤ i → i < sb.blocksPerGroup →
    I.blockBit sb g i = true
  freeBlocks : ∀ g < sb.groupCount, (I.desc sb g).freeBlocks =
    (List.range (groupSize sb g)).countP fun i => !I.blockBit sb g i
  freeObjects : ∀ g < sb.groupCount, (I.desc sb g).freeObjects =
    (List.range (objectsPerGroup sb)).countP fun i => !I.objectBit sb g i

section Counts

variable {I : Image} {sb : Super} {holds refs : ℕ → List ℕ} {w : Walk} {H R : List ℕ} {g : ℕ}

def freeOf (I : Image) (sb : Super) (groups : List ℕ) : ℕ × ℕ :=
  ((groups.map fun g => (I.desc sb g).freeBlocks).sum,
    (groups.map fun g => (I.desc sb g).freeObjects).sum)

lemma Counted.wrong_eq (hc : Counted I sb H) (hw : Clean w H R) (hg : g < sb.groupCount) :
    ((List.range (groupSize sb g)).countP fun i =>
      I.bitAt (I.desc sb g).blockBitmap i != w.used (g * sb.blocksPerGroup + i)) = 0 := by
  rw [countP_eq_zero]
  intro i hi
  have hbit := hc.bits g hg i (mem_range.mp hi)
  have hused : w.used (g * sb.blocksPerGroup + i) = decide (g * sb.blocksPerGroup + i ∈ H) := by
    rw [Bool.eq_iff_iff, hw.used, decide_eq_true_eq]
  rw [Image.blockBit] at hbit
  rw [hbit, hused]
  simp

lemma Counted.past_eq (hc : Counted I sb H) (hg : g < sb.groupCount) :
    ((List.range' (groupSize sb g)
      (min sb.blocksPerGroup (8 * sb.blockSize) - groupSize sb g)).countP fun i =>
        !I.bitAt (I.desc sb g).blockBitmap i) = 0 := by
  rw [countP_eq_zero]
  intro i hi
  rw [mem_range'_1] at hi
  have hbit := hc.past g hg i hi.1 (by omega)
  rw [Image.blockBit] at hbit
  rw [hbit]
  simp

lemma Counted.freeBlocks_eq (hc : Counted I sb H) (hw : Clean w H R) (hg : g < sb.groupCount) :
    ((List.range (groupSize sb g)).countP fun i => !w.used (g * sb.blocksPerGroup + i)) =
      (I.desc sb g).freeBlocks := by
  rw [hc.freeBlocks g hg]
  refine countP_congr fun i hi => ?_
  rw [hc.bits g hg i (mem_range.mp hi), not_eq_true', not_eq_true',
    ← not_eq_true, hw.used, decide_eq_false_iff_not]

section

variable (h : Consistent I sb holds refs) (hc : Counted I sb H)
include h hc

lemma Counted.freeObjects_eq (hlive : ∀ id, w.objects id = live I sb id) (hg : g < sb.groupCount) :
    ((List.range (min (objectsPerGroup sb) (sb.totalObjects - g * objectsPerGroup sb))).countP
      fun i => !w.objects (g * objectsPerGroup sb + i)) = (I.desc sb g).freeObjects := by
  have htotal := h.group_le hg
  rw [hc.freeObjects g hg, Nat.min_eq_left (by omega)]
  refine countP_congr fun i hi => ?_
  rw [mem_range] at hi
  rw [hlive, live_of_group (Nat.le_add_right _ _) (by omega) (by omega), Nat.add_sub_cancel_left]

lemma repairGroup_spec
    (hw : Clean w H R) (hlive : ∀ id, w.objects id = live I sb id) (hg : g < sb.groupCount) :
    wp (repairGroup I sb g) (fun free t =>
      free = ((I.desc sb g).freeBlocks, (I.desc sb g).freeObjects) ∧ t = w) (fun _ => False) w := by
  have hwrong := hc.wrong_eq hw hg
  have hpast := hc.past_eq hg
  have hblocks := hc.freeBlocks_eq hw hg
  have hobjects := hc.freeObjects_eq h hlive hg
  unfold groupSize at hwrong hpast hblocks
  unfold repairGroup
  dsimp only
  rw [if_neg (not_le.mpr (groupCount_mul_lt h.valid hg)), wp_bind, wp_require,
    if_pos (h.valid.descBlock_lt hg), if_neg (not_le.mpr (h.blockBitmap_lt g hg)), wp_bind, wp_get,
    hwrong, hpast, hblocks, hobjects, wp_bind, if_neg (by simp)]
  exact ⟨rfl, rfl⟩

lemma repairGroups_spec (hw : Clean w H R) (hlive : ∀ id, w.objects id = live I sb id) :
    wp (repairGroups I sb (List.range sb.groupCount)) (fun free t =>
      free = freeOf I sb (List.range sb.groupCount) ∧ t = w) (fun _ => False) w := by
  refine wp_fold (I := fun pre free t => free = freeOf I sb pre ∧ t = w) ⟨rfl, rfl⟩ ?_
  rintro pre g post _ _ hs ⟨rfl, rfl⟩
  have hg : g < sb.groupCount := mem_range.mp (hs ▸ by simp)
  refine wp_seq (repairGroup_spec h hc hw hlive hg) ?_ fun _ ht => ht
  rintro _ t ⟨rfl, rfl⟩
  exact ⟨by simp [freeOf], rfl⟩

end

lemma Counted.free_blocks (hc : Counted I sb H) (hn : H.Nodup) (hlt : ∀ b ∈ H, b < sb.totalBlocks) :
    (freeOf I sb (List.range sb.groupCount)).1 = sb.totalBlocks - H.length := by
  have hgroup : ∀ g ∈ List.range sb.groupCount, (I.desc sb g).freeBlocks =
      (List.range (min sb.blocksPerGroup (sb.totalBlocks - g * sb.blocksPerGroup))).countP fun i =>
        !decide (g * sb.blocksPerGroup + i ∈ H) := by
    intro g hg
    rw [mem_range] at hg
    rw [hc.freeBlocks g hg, groupSize]
    refine countP_congr fun i hi => ?_
    rw [hc.bits g hg i (mem_range.mp hi)]
  rw [freeOf, map_congr_left hgroup,
    sum_countP_groups (fun b => !decide (b ∈ H)) sb.blocksPerGroup sb.totalBlocks,
    min_eq_right hc.whole, countP_not_mem hn hlt]

lemma Counted.free_objects (h : Consistent I sb holds refs) (hc : Counted I sb H) :
    (freeOf I sb (List.range sb.groupCount)).2 =
      (List.range sb.totalObjects).countP fun id => !live I sb id := by
  have hgroup : ∀ g ∈ List.range sb.groupCount, (I.desc sb g).freeObjects =
      (List.range (min (objectsPerGroup sb) (sb.totalObjects - g * objectsPerGroup sb))).countP
        fun i => !live I sb (g * objectsPerGroup sb + i) := fun g hg =>
    (hc.freeObjects_eq (w := ⟨fun _ => false, fun _ => 0, live I sb, {}⟩) h (fun _ => rfl)
      (mem_range.mp hg)).symm
  rw [freeOf, map_congr_left hgroup,
    sum_countP_groups (fun id => !live I sb id) (objectsPerGroup sb) sb.totalObjects,
    min_eq_right h.objects_eq.le]

def allBlocks (I : Image) (sb : Super) (holds : ℕ → List ℕ) : List ℕ :=
  metadataBlocks sb ++ backupBlocks sb ++ (walkedIds I sb).flatMap holds

lemma checkLinks_eq (h : Consistent I sb holds refs) (hlive : ∀ id, w.objects id = live I sb id)
    (hw : Clean w H ((walkedIds I sb).flatMap refs)) : checkLinks sb w = (.ok (), w) := by
  have hnone : (List.range sb.totalObjects).countP (orphan sb w) = 0 := by
    rw [countP_eq_zero]
    intro id _ ho
    simp only [orphan, and_eq_true, decide_eq_true_eq, bne_iff_ne, beq_iff_eq] at ho
    obtain ⟨⟨⟨hid, hfirst⟩, hroot⟩, hlinks⟩ := ho
    rw [h.valid.root] at hroot
    rw [hlive] at hid
    rw [hw.links, count_eq_zero] at hlinks
    exact hlinks (h.named id hid hfirst hroot)
  change (Except.ok (), { w with report := { w.report with linkErrors :=
    w.report.linkErrors + (List.range sb.totalObjects).countP (orphan sb w) } }) = _
  rw [hnone]
  rfl

def superCounts (I : Image) (sb : Super) : Prop :=
  sb.freeBlocks = (freeOf I sb (List.range sb.groupCount)).1 ∧
    sb.freeObjects = (freeOf I sb (List.range sb.groupCount)).2

instance : Decidable (superCounts I sb) := by
  unfold superCounts
  infer_instance

lemma finishSuper_spec (h : Consistent I sb holds refs) (hw : Clean w H R) {blocks objects : ℕ}
    (hb : blocks < 2 ^ 32) (ho : objects < 2 ^ 32) :
    wp (finishSuper I blocks objects) (fun _ t => t.report.structural = false ∧
      t.report.bitmapErrors = 0 ∧
      t.report.counterErrors = if sb.freeBlocks = blocks ∧ sb.freeObjects = objects then 0 else 1)
      (fun _ => False) w := by
  obtain ⟨hs, hbits, hcounter⟩ := hw.clear
  rw [finishSuper, h.block_zero]
  dsimp only
  rw [u32_of_lt hb, u32_of_lt ho]
  by_cases hcount : sb.freeBlocks = blocks ∧ sb.freeObjects = objects
  · rw [if_neg (by tauto), if_pos hcount]
    exact ⟨hs, hbits, hcounter⟩
  rw [if_pos (by tauto), if_neg hcount]
  refine ⟨hs, hbits, ?_⟩
  change w.report.counterErrors + 1 = 1
  rw [hcounter]

/-- A run over a consistent volume with right bitmaps succeeds; all it can find is that the
superblock counts wrong. -/
lemma run_of_consistent (h : Consistent I sb holds refs) (hc : Counted I sb (allBlocks I sb holds))
    (hlt : ∀ b ∈ allBlocks I sb holds, b < sb.totalBlocks) :
    ∃ r, run I = (.ok (), r) ∧ r.structural = false ∧ r.bitmapErrors = 0 ∧
      r.counterErrors = if superCounts I sb then 0 else 1 := by
  have hv := h.valid
  have hn := h.nodup
  have hfree := hc.free_blocks hn hlt
  have hobjects := hc.free_objects h
  have hblocks_lt : (freeOf I sb (List.range sb.groupCount)).1 < 2 ^ 32 := by
    have := hv.total_lt
    omega
  have hobjects_lt : (freeOf I sb (List.range sb.groupCount)).2 < 2 ^ 32 := by
    have hle := countP_le_length (p := fun id => !live I sb id) (l := List.range sb.totalObjects)
    rw [length_range] at hle
    have := hv.objects_lt
    omega
  have hpasses : wp (passes I sb) (fun _ t => t.report.structural = false ∧
      t.report.bitmapErrors = 0 ∧ t.report.counterErrors = if superCounts I sb then 0 else 1)
      (fun _ => False) { report := {} } := by
    have hempty : Clean { report := {} } [] [] := ⟨by simp, by simp, rfl, rfl, rfl⟩
    refine wp_seq (passes_claimMetadata h _ [] [] hempty
      (hn.sublist ((sublist_append_left _ _).trans (sublist_append_left _ _)))) ?_
      fun _ ht => ht
    rintro _ w₁ ⟨rfl, h₁, ho₁⟩
    rw [wp_bind, wp_require, if_pos rfl]
    refine wp_seq (checkGroups_spec h w₁ _ _ h₁ (hn.sublist (sublist_append_left _ _))) ?_
      fun _ ht => ht
    rintro _ w₂ ⟨-, h₂, ho₂⟩
    rw [range_eq_range']
    refine wp_seq (loadObjectBitmap_spec h (zero_add _)) ?_ fun _ ht => ht
    rintro _ w₃ rfl
    have hnone : ∀ id, w₂.objects id = false := fun id => by rw [ho₂, ho₁]
    have hlive : ∀ id, (w₂.objects id || (decide (0 * objectsPerGroup sb ≤ id) && live I sb id)) =
        live I sb id := by simp [hnone]
    refine wp_seq (checkObjects_spec h (fun _ hid => mem_range.mp hid)
      (Clean.mk h₂.used h₂.links h₂.clear) hlive hn) ?_ fun _ ht => ht
    rintro _ w₄ ⟨h₄, ho₄⟩
    have hlive₄ : ∀ id, w₄.objects id = live I sb id := fun id => by
      rw [ho₄]
      exact hlive id
    rw [← range_eq_range']
    refine wp_seq (repairGroups_spec h hc h₄ hlive₄) ?_ fun _ ht => ht
    rintro _ _ ⟨rfl, rfl⟩
    rw [wp_bind, wp, checkLinks_eq h hlive₄ h₄]
    refine wp_seq (finishSuper_spec h h₄ hblocks_lt hobjects_lt) ?_ fun _ ht => ht
    rintro _ w₅ ⟨hs, hb, hcount⟩
    rw [wp_bind, wp_get, wp_require, if_pos hs]
    exact ⟨hs, hb, hcount⟩
  have hload : loadSuper I = (some sb, {}) := by
    rw [loadSuper, primary, h.super]
  rw [run, hload]
  dsimp only
  rw [wp] at hpasses
  split at hpasses
  · next u t ht =>
    exact ⟨t.report, by rw [ht], hpasses⟩
  · exact hpasses.elim

end Counts

end Fsck

end Wfs
