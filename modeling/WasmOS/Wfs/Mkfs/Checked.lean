import WasmOS.Wfs.Fsck.Run
import WasmOS.Wfs.Mkfs.Volume

/-! # The checker on a formatted volume

The blocks a formatted volume and its objects hold are the numbers up to the end of the runs and the
backups. The checker agrees with its bitmaps and group counters; the superblock keeps the counters
of an empty volume.
-/

namespace Wfs.Mkfs

open Fsck List Nat

variable {p : Params} {es : List Entry} {P : Plan} {I : Image}

lemma sub32_lt {a b : ℕ} (ha : a < 2 ^ 32) : sub32 a b < 2 ^ 32 := by
  unfold sub32
  split <;> omega

namespace Laid

variable (h : Laid es P)
include h

lemma blockSize_ge : 4096 ≤ P.layout.blockSize := by
  have := h.regular.blockSize_mem
  omega

lemma groupCount_superOf : P.super.groupCount = P.layout.groupCount := by
  have hr := h.regular
  have htotal := hr.total_le
  rw [hr.groupCount_eq]
  change u32 (P.layout.totalBlocks + P.layout.blocksPerGroup - 1) / P.layout.blocksPerGroup = _
  rw [u32_of_lt (by omega)]

lemma objectsPerGroup_superOf : objectsPerGroup P.super = P.layout.objectsPerGroup := by
  unfold objectsPerGroup
  rw [h.groupCount_superOf]
  change P.layout.totalObjects / P.layout.groupCount = _
  rw [h.objects_eq, Nat.mul_div_cancel _ h.groupCount_pos]

lemma super_valid : P.super.Valid := by
  have hr := h.regular
  obtain ⟨h₁, h₂, h₃, h₄, h₅, h₆, h₇⟩ := h.bounds
  have hgroups := h.groupCount_pos
  have hbitmap := hr.bitmapBlocks_eq
  have hobjects := h.objects_lt
  constructor
  case blockSize_mem => exact hr.blockSize_mem
  case blocksPerGroup_eq => exact hr.blocksPerGroup_eq
  case total_lt => exact h₇
  case objects_lt => exact hobjects
  case words_lt =>
    have hfree : P.layout.freeBlocks < 2 ^ 32 := by
      rw [h.freeBlocks_eq]
      exact sub32_lt (sub32_lt h₇)
    have hfreeObjects : P.layout.freeObjects < 2 ^ 32 := by
      rw [h.freeObjects_eq]
      exact sub32_lt hobjects
    intro w hw
    have hw : w ∈ [objectRoot, P.layout.groupTableStart, P.layout.groupTableBlocks,
        P.layout.objectTableStart, P.layout.objectTableBlocks, P.layout.bitmapStart,
        P.layout.bitmapBlocks, P.layout.journalStart, P.layout.journalBlocks,
        P.layout.freeBlocks, P.layout.freeObjects] := hw
    simp only [mem_cons, not_mem_nil, or_false] at hw
    unfold objectRoot at hw
    omega
  case groupTable | objectTable | bitmaps | journal =>
    all_goals
      simp only [superOf, buildSuper]
      omega
  case root => rfl
  case groups =>
    rw [h.groupCount_superOf]
    change P.layout.groupCount ≤ u32 (P.layout.groupTableBlocks * (P.layout.blockSize / 64))
    have hbs := h.blockSize_ge
    have hpos : 0 < P.layout.blockSize / 64 := by omega
    have hlt := divUp_mul_lt (a := P.layout.groupCount) hpos
    have hle := le_divUp_mul (a := P.layout.groupCount) hpos
    rw [← hr.groupTableBlocks_eq] at hlt hle
    rw [u32_of_lt]
    · exact hle
    have := hr.total_le
    have := hr.blocksPerGroup_eq
    omega

end Laid

lemma Emits.superAt (hI : Emits es P I) (h : Laid es P) : I.superAt 0 = some P.super := by
  have hparse : superParse (buildSuper P.layout 0) 0 = .ok P.super :=
    superParse_iff.mpr ⟨rfl, h.super_valid⟩
  rw [Image.superAt, hI.super h]
  dsimp only
  rw [hparse]
  rfl

section Objects

def objectIds (es : List Entry) : List ℕ := objectRoot :: es.zipIdx.map fun x => objectFirst + x.2

variable (hI : Emits es P I) (h : Laid es P)
  (hroom : objectFirst + es.length ≤ P.layout.objectsPerGroup)

include hI h hroom

omit hI h hroom in
lemma filter_range_lt {k n : ℕ} (hk : k ≤ n) (q : ℕ → Bool) :
    (List.range n).filter (fun i => decide (i < k) && q i) = (List.range k).filter q := by
  obtain ⟨m, rfl⟩ := Nat.exists_eq_add_of_le hk
  have hpast : ((List.range m).map (k + ·)).filter (fun i => decide (i < k) && q i) = [] :=
    filter_eq_nil_iff.2 (by simp)
  rw [range_add, filter_append, hpast, append_nil]
  exact filter_congr fun i hi => by rw [decide_eq_true (mem_range.1 hi), Bool.true_and]

omit hI h hroom in
lemma countP_range_not {k n : ℕ} {q : ℕ → Bool} (hk : k ≤ n)
    (hq : ∀ i < n, q i = decide (i < k)) : (List.range n).countP (fun i => !q i) = n - k := by
  have hmem : ∀ i ∈ List.range n, (!q i) = true ↔ (!decide (i ∈ List.range k)) = true := by
    intro i hi
    rw [hq i (mem_range.mp hi)]
    simp
  rw [countP_congr hmem, countP_not_mem nodup_range fun i hi =>
    lt_of_lt_of_le (mem_range.mp hi) hk, length_range]

omit hroom in
/-- Ids past the first group are marked nowhere. -/
lemma live_eq (id : ℕ) :
    live I P.super id = decide (id < objectFirst + es.length ∧ id < P.layout.objectsPerGroup) := by
  have hper := h.regular.perGroup_pos
  have hle := h.regular.perGroup_le
  have hbs := h.regular.blocksPerGroup_eq
  have hcount := h.count_le
  rw [live, h.objectsPerGroup_superOf, Bool.eq_iff_iff]
  change (decide (id < P.layout.totalObjects) && _) = true ↔ _
  by_cases hid : id < P.layout.totalObjects
  · have hg : id / P.layout.objectsPerGroup < P.layout.groupCount := by
      rwa [div_lt_iff_lt_mul hper, mul_comm, ← h.objects_eq]
    rw [hI.objectBit h hg]
    simp only [Bool.and_eq_true, decide_eq_true_eq, beq_iff_eq]
    rcases lt_or_ge id P.layout.objectsPerGroup with hlt | hge
    · rw [div_eq_of_lt hlt, mod_eq_of_lt hlt]
      omega
    · have := div_pos hge hper
      omega
  · rw [decide_eq_false hid, Bool.false_and, decide_eq_true_eq]
    exact ⟨(absurd · Bool.false_ne_true), fun hlt => absurd (hlt.1.trans_le hcount) hid⟩

lemma live_iff (id : ℕ) : live I P.super id = decide (id < objectFirst + es.length) := by
  rw [live_eq hI h, decide_eq_decide]
  omega

lemma walkedIds_eq : walkedIds I P.super = objectIds es := by
  have hidx : es.zipIdx.map Prod.snd = List.range es.length := by
    rw [zipIdx_map_snd, range_eq_range']
  have hreserved : (List.range objectFirst).filter (walked P.super) = [objectRoot] := rfl
  have hentries : ∀ id ∈ (List.range es.length).map (objectFirst + ·),
      walked P.super id = true := by
    simp [walked]
  unfold walkedIds objectIds
  simp only [live_iff hI h hroom]
  rw [filter_range_lt (n := P.super.totalObjects) h.count_le, range_add, filter_append, hreserved,
    filter_eq_self.2 hentries, ← hidx, map_map]
  rfl

end Objects

section Directories

variable {parent : Option ℕ} {self up start : ℕ} {x : Entry × ℕ}

lemma dirUsableBytes_mod (h : Laid es P) : dirUsableBytes P.layout.blockSize % 8 = 0 := by
  have := h.regular.blockSize_mem
  unfold dirUsableBytes
  omega

variable (h : Laid es P) (hself : self ≠ 0 ∧ self < P.layout.totalObjects)
  (hup : up ≠ 0 ∧ up < P.layout.totalObjects)
  (hread : ∀ k < dirBlocksFor es parent P.layout.blockSize, I.dirAt (start + k) =
    some (buildDirBlock es P.layout.blockSize parent self up k))

include h hself hup hread

lemma dirOk_of_run :
    DirOk I P.super (List.range' start (dirBlocksFor es parent P.layout.blockSize)) := by
  constructor
  · intro b hb
    obtain ⟨hlo, hhi⟩ := mem_range'_1.mp hb
    obtain ⟨k, rfl⟩ := Nat.exists_eq_add_of_le hlo
    have hk : k < dirBlocksFor es parent P.layout.blockSize := by omega
    refine ⟨_, hread k hk, ?_⟩
    rw [dirBlocksFor_eq] at hk
    have hbin := getElem?_eq_getElem hk
    rw [buildDirBlock_eq hbin]
    exact (packed_dirBlock h.entries h.blockSize_ge hself hup h.count_le hbin).recordsOk
      (dirUsableBytes_mod h)
  · intro b hb rs hrs
    have hpos : 0 < dirBlocksFor es parent P.layout.blockSize := dirBlocksFor_pos
    have hstart : b = start := by
      rw [head?_range', if_neg (by omega)] at hb
      exact (Option.some.inj hb).symm
    subst hstart
    have hdir := hread 0 hpos
    rw [add_zero, hrs] at hdir
    rw [Option.some.inj hdir]
    rw [dirBlocksFor_eq] at hpos
    exact hasDots_buildDirBlock hself.1 hup.1 (getElem?_eq_getElem hpos)

lemma mem_refs_of_child (hx : x ∈ children es parent) : objectFirst + x.2 ∈
      (List.range' start (dirBlocksFor es parent P.layout.blockSize)).flatMap (refsAt I) := by
  obtain ⟨k, b, hbin, hxb⟩ := exists_dirBins hx P.layout.blockSize
  have hk : k < dirBlocksFor es parent P.layout.blockSize := by
    rw [dirBlocksFor_eq]
    exact (List.getElem?_eq_some_iff.mp hbin).1
  refine List.mem_flatMap.mpr ⟨start + k, List.mem_range'_1.mpr (by omega), ?_⟩
  rw [refsAt, hread k hk, Option.getD_some, buildDirBlock_eq hbin,
    (packed_dirBlock h.entries h.blockSize_ge hself hup h.count_le hbin).targets_eq, map_append]
  exact mem_append_right _ (mem_map.mpr ⟨entryDirent x, mem_map.mpr ⟨x, hxb, rfl⟩, rfl⟩)

end Directories

section Holds

variable {x : Entry × ℕ}

lemma take_buildObject (id : ℕ) (type : ObjectType) (inline : Bool)
    (size links first count : ℕ) (data : Bytes) :
    (buildObject id type inline size links first count data).value.extents.take
      (buildObject id type inline size links first count data).value.extentCount =
      if count ≠ 0 then [⟨0, first, count⟩] else [] := by
  by_cases hn : count = 0 <;> simp [buildObject, hn]

variable {id : ℕ} {type : ObjectType} {inline : Bool} {size links first count : ℕ} {data : Bytes}

lemma count_buildObject :
    (buildObject id type inline size links first count data).value.extentCount ≤ inlineExtents := by
  change (if count ≠ 0 then 1 else 0) ≤ inlineExtents
  unfold inlineExtents
  split <;> omega

lemma blocks_buildObject : Extent.blocks
    ((buildObject id type inline size links first count data).value.extents.take
      (buildObject id type inline size links first count data).value.extentCount) =
      List.range' first count := by
  rw [take_buildObject]
  by_cases hn : count = 0 <;> simp [hn, Extent.run]

lemma held_buildObject : held (buildObject id type inline size links first count data).value =
    if inline then [] else List.range' first count := by
  rw [held, blocks_buildObject]
  rfl

lemma buildObject_ok (hinline : inline = true → size ≤ inlineDataMax)
    (hend : first + count ≤ P.layout.totalBlocks)
    (hdir : type = .dir → DirOk I P.super (List.range' first count)) :
    ObjectOk I P.super (buildObject id type inline size links first count data).value where
  inline := hinline
  tree _ := rfl
  count _ := count_buildObject
  sorted _ := by
    rw [take_buildObject]
    split
    next hn =>
      rw [Extent.sorted_cons]
      exact ⟨pos_of_ne_zero hn, Extent.sorted_nil, by simp⟩
    next => exact Extent.sorted_nil
  range _ e he := by
    rw [take_buildObject] at he
    split at he
    · cases mem_singleton.mp he
      exact hend
    · cases he
  dir _ htype := by
    rw [blocks_buildObject]
    exact hdir htype

lemma held_rootObject (P : Plan) : held (rootObject P.layout) =
    List.range' P.layout.firstDataBlock P.layout.rootBlocks := held_buildObject

lemma held_entryObject (x : Entry × ℕ) : held (entryObject P.layout.blockSize x.1 (nodeAt es P x)) =
      List.range' (runStart es P x.2) (need es P.layout.blockSize x) := by
  refine held_buildObject.trans ?_
  split
  next hinline =>
    have hneed : need es P.layout.blockSize x = 0 := by simp_all [nodeAt, nodeOf, need]
    rw [hneed]
    rfl
  next => rfl

lemma rootId_ok (h : Laid es P) : objectRoot ≠ 0 ∧ objectRoot < P.layout.totalObjects := by
  have := h.count_le
  unfold objectRoot objectFirst at *
  omega

lemma entryId_ok (h : Laid es P) (hx : x ∈ es.zipIdx) :
    objectFirst + x.2 ≠ 0 ∧ objectFirst + x.2 < P.layout.totalObjects := by
  have := h.count_le
  have := index_lt hx
  unfold objectFirst at *
  omega

lemma parentOk_iff {i : ℕ} {parent : Option ℕ} : parentOk es i parent = true ↔
    ∀ k ∈ parent, k < i ∧ ∃ e, es[k]? = some e ∧ e.isDir = true := by
  cases parent with
  | none => simp [parentOk]
  | some k => cases hk : es[k]? <;> simp [parentOk, hk]

lemma parentId_ok (h : Laid es P) (hx : x ∈ es.zipIdx) :
    parentId x.1.parent ≠ 0 ∧ parentId x.1.parent < P.layout.totalObjects := by
  have hparent := parentOk_iff.mp (h.entries.parent x hx)
  cases hp : x.1.parent with
  | none => exact rootId_ok h
  | some k =>
    have := hparent k hp
    have := h.count_le
    have := index_lt hx
    change objectFirst + k ≠ 0 ∧ objectFirst + k < P.layout.totalObjects
    unfold objectFirst at *
    omega

section

variable (hI : Emits es P I)
include hI

lemma rootDir_read (h : Laid es P) :
    ∀ k < dirBlocksFor es none P.layout.blockSize, I.dirAt (P.layout.firstDataBlock + k) =
      some (buildDirBlock es P.layout.blockSize none objectRoot objectRoot k) := by
  intro k hk
  rw [← h.root_eq] at hk
  exact hI.root h hk

lemma entryDir_read (h : Laid es P) (hx : x ∈ es.zipIdx) (hd : x.1.isDir = true) :
    ∀ k < dirBlocksFor es (some x.2) P.layout.blockSize, I.dirAt (runStart es P x.2 + k) =
      some (buildDirBlock es P.layout.blockSize (some x.2) (objectFirst + x.2)
        (parentId x.1.parent) k) := by
  intro k hk
  refine hI.entryDir h hx hd ?_
  rwa [need, if_pos hd]

lemma rootObject_ok (h : Laid es P) : ObjectOk I P.super (rootObject P.layout) := by
  have := h.bounds
  refine buildObject_ok nofun (by omega) fun _ => ?_
  rw [h.root_eq]
  exact dirOk_of_run h (rootId_ok h) (rootId_ok h) (rootDir_read hI h)

lemma entryObject_ok (h : Laid es P) (hx : x ∈ es.zipIdx) :
    ObjectOk I P.super (entryObject P.layout.blockSize x.1 (nodeAt es P x)) := by
  refine buildObject_ok (fun hf => ?_) ((h.runStart_le hx).trans h.dataEnd_le) fun htype => ?_
  · have hf : (!x.1.isDir && decide (x.1.size.toNat ≤ inlineDataMax)) = true := hf
    simp_all
  have hd : x.1.isDir = true := by
    by_contra hd
    rw [if_neg hd] at htype
    cases htype
  change DirOk I _ (List.range' _ (need es P.layout.blockSize x))
  rw [need, if_pos hd]
  exact dirOk_of_run h (entryId_ok h hx) (parentId_ok h hx) (entryDir_read hI h hx hd)

end

end Holds

section Blocks

def holds (I : Image) (sb : Super) (id : ℕ) : List ℕ := ((I.record sb id).map held).getD []
def refsOf (I : Image) (sb : Super) (id : ℕ) : List ℕ := ((I.record sb id).map (refs I)).getD []

variable {bs next : ℕ} {xs : List (Entry × ℕ)}

lemma flatMap_placed : (placed es bs xs next).flatMap (fun n =>
    List.range' n.firstBlock n.blockCount) = List.range' next (xs.map (need es bs)).sum := by
  induction xs generalizing next with
  | nil => rfl
  | cons x xs ih =>
    rw [placed, flatMap_cons, ih, map_cons, sum_cons]
    exact range'_append_1

lemma Laid.nodes_map (h : Laid es P) : P.nodes = es.zipIdx.map (nodeAt es P) := by
  refine ext_getElem? fun i => ?_
  rw [getElem?_map]
  cases hi : es.zipIdx[i]? with
  | none => rw [h.nodes_eq, placed_getElem?, hi]; rfl
  | some x =>
    have hx : x ∈ es.zipIdx := mem_of_getElem? hi
    have hidx : x.2 = i := by
      rw [getElem?_zipIdx] at hi
      obtain ⟨e, -, rfl⟩ := Option.map_eq_some_iff.mp hi
      exact zero_add i
    rw [← hidx, h.nodes_getElem? hx]
    rfl

lemma flatMap_holds (hI : Emits es P I) (h : Laid es P) : (objectIds es).flatMap (holds I P.super) =
      List.range' P.layout.firstDataBlock (P.layout.rootBlocks + P.layout.usedBlocks) := by
  have hentries : ∀ x ∈ es.zipIdx, holds I P.super (objectFirst + x.2) =
      List.range' (nodeAt es P x).firstBlock (nodeAt es P x).blockCount := by
    intro x hx
    rw [holds, hI.entryRecord h hx, Option.map_some, Option.getD_some, held_entryObject]
    rfl
  have hroot : holds I P.super objectRoot =
      List.range' P.layout.firstDataBlock P.layout.rootBlocks := by
    rw [holds, hI.rootRecord h, Option.map_some, Option.getD_some, held_rootObject P]
  have hruns : (placed es P.layout.blockSize es.zipIdx
      (P.layout.firstDataBlock + P.layout.rootBlocks)).flatMap (fun n =>
        List.range' n.firstBlock n.blockCount) = _ := flatMap_placed
  rw [← h.nodes_eq, ← h.used_eq, h.nodes_map, flatMap_map] at hruns
  rw [objectIds, flatMap_cons, flatMap_map, flatMap_congr hentries, hruns, hroot]
  exact range'_append_1

lemma metadata_perm (h : Laid es P) :
    (metadataBlocks P.super).Perm (List.range P.layout.firstDataBlock) := by
  obtain ⟨h₁, h₂, h₃, h₄, h₅, -, -⟩ := h.bounds
  have hbitmap := h.regular.bitmapBlocks_eq
  -- the journal stands before the object table and the bitmaps
  have hswap : (metadataBlocks P.super).Perm
      ([0] ++ List.range' P.layout.groupTableStart P.layout.groupTableBlocks ++
        (List.range' P.layout.journalStart P.layout.journalBlocks ++
          (List.range' P.layout.objectTableStart P.layout.objectTableBlocks ++
            List.range' P.layout.bitmapStart P.layout.bitmapBlocks))) := by
    rw [metadataBlocks, append_assoc _ (List.range' _ _) (List.range' _ _), append_assoc]
    refine List.Perm.append_left _ ?_
    rw [← append_assoc]
    exact perm_append_comm
  refine hswap.trans (List.Perm.of_eq ?_)
  rw [h₁, h₂] at *
  have hobjects : List.range' P.layout.objectTableStart P.layout.objectTableBlocks ++
      List.range' P.layout.bitmapStart P.layout.bitmapBlocks = List.range' P.layout.objectTableStart
        (P.layout.objectTableBlocks + P.layout.bitmapBlocks) := by
    rw [h₄]
    exact range'_append_1
  rw [hobjects, h₃, range'_append_1, append_assoc, range'_append_1,
    show ([0] : List ℕ) = List.range' 0 1 from rfl,
    show (1 : ℕ) = 0 + 1 from rfl, range'_append_1, range_eq_range']
  congr 1
  omega

lemma backupBlocks_eq (sb : Super) : backupBlocks sb =
    ((List.range sb.groupCount).filter Journal.groupHasBackup).map (· * sb.blocksPerGroup) := by
  unfold backupBlocks
  induction List.range sb.groupCount with
  | nil => rfl
  | cons g gs ih =>
    rw [flatMap_cons, ih, backupOf]
    cases hg : Journal.groupHasBackup g with
    | false => rw [filter_cons_of_neg (by rw [hg]; exact Bool.false_ne_true)]; rfl
    | true => rw [filter_cons_of_pos hg]; rfl

lemma mem_backupBlocks (h : Laid es P) {b : ℕ} : b ∈ backupBlocks P.super ↔
    ∃ g < P.layout.groupCount, Journal.groupHasBackup g = true ∧
      g * P.layout.blocksPerGroup = b := by
  rw [backupBlocks_eq, h.groupCount_superOf]
  simp only [mem_map, mem_filter, mem_range, and_assoc]
  rfl

lemma nodup_backupBlocks (h : Laid es P) : (backupBlocks P.super).Nodup := by
  have hpos : 0 < P.layout.blocksPerGroup := by
    have := h.blockSize_ge
    have := h.regular.blocksPerGroup_eq
    omega
  rw [backupBlocks_eq]
  refine (nodup_range.filter _).map ?_
  intro a b hab
  exact eq_of_mul_eq_mul_right hpos hab

section All

variable (hI : Emits es P I) (h : Laid es P)
  (hroom : objectFirst + es.length ≤ P.layout.objectsPerGroup)

include hI h hroom

lemma allBlocks_perm : (allBlocks I P.super (holds I P.super)).Perm
    (List.range P.layout.dataEnd ++ backupBlocks P.super) := by
  have hdata : List.range P.layout.firstDataBlock ++
      List.range' P.layout.firstDataBlock (P.layout.rootBlocks + P.layout.usedBlocks) =
      List.range P.layout.dataEnd := by
    have happ := range'_append_1 (s := 0) (m := P.layout.firstDataBlock)
      (n := P.layout.rootBlocks + P.layout.usedBlocks)
    rw [zero_add] at happ
    rw [range_eq_range', range_eq_range', happ, Layout.dataEnd, add_assoc]
  rw [allBlocks, walkedIds_eq hI h hroom, flatMap_holds hI h, ← hdata, append_assoc, append_assoc]
  exact (metadata_perm h).append perm_append_comm

lemma mem_allBlocks {b : ℕ} : b ∈ allBlocks I P.super (holds I P.super) ↔
    b < P.layout.dataEnd ∨ b ∈ backupBlocks P.super := by
  rw [(allBlocks_perm hI h hroom).mem_iff, mem_append, mem_range]

lemma nodup_allBlocks : (allBlocks I P.super (holds I P.super)).Nodup := by
  rw [(allBlocks_perm hI h hroom).nodup_iff, nodup_append']
  refine ⟨nodup_range, nodup_backupBlocks h, ?_⟩
  intro b hb hback
  rw [mem_range] at hb
  obtain ⟨g, hg, hbg, rfl⟩ := (mem_backupBlocks h).mp hback
  have := h.backups g hg hbg
  omega

lemma allBlocks_lt : ∀ b ∈ allBlocks I P.super (holds I P.super), b < P.layout.totalBlocks := by
  intro b hb
  rcases (mem_allBlocks hI h hroom).mp hb with hb | hb
  · exact lt_of_lt_of_le hb h.dataEnd_le
  · obtain ⟨g, hg, -, rfl⟩ := (mem_backupBlocks h).mp hb
    exact h.group_start_lt hg

lemma length_allBlocks : (allBlocks I P.super (holds I P.super)).length =
    P.layout.dataEnd + backupCount P.layout.groupCount := by
  rw [(allBlocks_perm hI h hroom).length_eq, length_append, length_range,
    backupBlocks_eq, length_map, h.groupCount_superOf, backupCount]

lemma mem_refsOf {x : Entry × ℕ} (hx : x ∈ es.zipIdx) :
    objectFirst + x.2 ∈ (walkedIds I P.super).flatMap (refsOf I P.super) := by
  rw [walkedIds_eq hI h hroom]
  have hchild : x ∈ children es x.1.parent := mem_children.mpr ⟨hx, rfl⟩
  cases hp : x.1.parent with
  | none =>
    rw [hp] at hchild
    refine mem_flatMap.mpr ⟨objectRoot, .head _, ?_⟩
    rw [refsOf, hI.rootRecord h, Option.map_some, Option.getD_some, refs, held_rootObject P,
      h.root_eq]
    exact mem_refs_of_child h (rootId_ok h) (rootId_ok h) (rootDir_read hI h) hchild
  | some k =>
    obtain ⟨-, e, he, hd⟩ := parentOk_iff.mp (h.entries.parent x hx) k hp
    have hk : (e, k) ∈ es.zipIdx := mem_zipIdx_iff.mpr he
    rw [hp] at hchild
    refine mem_flatMap.mpr ⟨objectFirst + k, .tail _ (mem_map.mpr ⟨(e, k), hk, rfl⟩), ?_⟩
    have hrec := hI.entryRecord h hk
    have hneed : need es P.layout.blockSize (e, k) =
        dirBlocksFor es (some k) P.layout.blockSize := if_pos hd
    have htype : (entryObject P.layout.blockSize e (nodeAt es P (e, k))).type = .dir := if_pos hd
    rw [refsOf, hrec, Option.map_some, Option.getD_some, refs, held_entryObject, htype, hneed]
    exact mem_refs_of_child h (entryId_ok h hk) (parentId_ok h hk) (entryDir_read hI h hk hd) hchild

lemma consistent : Consistent I P.super (holds I P.super) (refsOf I P.super) := by
  have := h.bounds
  have hper := h.objectsPerGroup_superOf
  have hdesc : ∀ g < P.super.groupCount, _ := fun g hg => hI.desc h (h.groupCount_superOf ▸ hg)
  constructor
  case super => exact hI.superAt h
  case groupTable_pos => exact zero_lt_of_lt (h.descBlock_lt h.groupCount_pos)
  case objectTable_pos => exact zero_lt_of_lt (h.recordBlock_lt (rootId_ok h).2)
  case bitmaps_pos =>
    have := h.groupCount_pos
    change 0 < P.layout.bitmapBlocks
    rw [h.regular.bitmapBlocks_eq]
    omega
  case objects_eq =>
    rw [h.groupCount_superOf, hper, mul_comm]
    exact h.objects_eq
  case perGroup_le =>
    rw [hper]
    change P.layout.objectsPerGroup ≤ 8 * P.layout.blockSize
    rw [← h.regular.blocksPerGroup_eq]
    exact h.regular.perGroup_le
  case seed =>
    intro g hg
    rw [hI.descSlot h (h.groupCount_superOf ▸ hg)]
    rfl
  case backup =>
    intro g hg
    rw [hdesc g hg]
    rfl
  case blockBitmap_lt =>
    intro g hg
    rw [hdesc g hg]
    have := h.groupCount_superOf
    change P.layout.bitmapStart + 2 * g < P.layout.totalBlocks
    omega
  case objectBitmap_lt =>
    intro g hg
    rw [hdesc g hg]
    have := h.groupCount_superOf
    change P.layout.bitmapStart + 2 * g + 1 < P.layout.totalBlocks
    omega
  case object =>
    intro id hid
    rw [walkedIds_eq hI h hroom, objectIds, mem_cons, mem_map] at hid
    have htable : ∀ {id}, id < P.layout.totalObjects →
        P.super.objectTableStart + id / P.super.objectsPerBlock < P.super.totalBlocks := by
      intro id hid
      have := h.recordBlock_lt hid
      change P.layout.objectTableStart + id / (P.layout.blockSize / 256) < P.layout.totalBlocks
      omega
    rcases hid with rfl | ⟨x, hx, rfl⟩
    · rw [holds, refsOf, hI.rootRecord h]
      exact passes_checkObject (hI.rootRecord h) (htable (rootId_ok h).2) (rootObject_ok hI h)
    rw [holds, refsOf, hI.entryRecord h hx]
    exact passes_checkObject (hI.entryRecord h hx) (htable (entryId_ok h hx).2)
      (entryObject_ok hI h hx)
  case nodup => exact nodup_allBlocks hI h hroom
  case named =>
    intro id hlive hfirst _
    rw [live_iff hI h hroom, decide_eq_true_eq] at hlive
    obtain ⟨i, rfl⟩ := Nat.exists_eq_add_of_le hfirst
    have hi : i < es.length := by omega
    exact mem_refsOf hI h hroom (x := (es[i], i)) (mem_zipIdx_iff.mpr (getElem?_eq_getElem hi))

omit hI h hroom in
lemma mem_groupSize {g i : ℕ} : i < groupSize P.super g ↔
    i < P.layout.blocksPerGroup ∧ g * P.layout.blocksPerGroup + i < P.layout.totalBlocks := by
  change i < min P.layout.blocksPerGroup (P.layout.totalBlocks - g * P.layout.blocksPerGroup) ↔ _
  omega

lemma blockBit_eq {g i : ℕ} (hg : g < P.layout.groupCount)
    (hi : i < groupSize P.super g) : I.blockBit P.super g i =
      decide (g * P.layout.blocksPerGroup + i ∈ allBlocks I P.super (holds I P.super)) := by
  obtain ⟨hper, hlt⟩ := mem_groupSize.mp hi
  have := h.bounds
  have hdata : u32 (P.layout.firstDataBlock + P.layout.rootBlocks + P.layout.usedBlocks) =
      P.layout.dataEnd := u32_of_lt (by omega)
  have hback : g * P.layout.blocksPerGroup + i ∈ backupBlocks P.super ↔
      Journal.groupHasBackup g = true ∧ i = 0 := by
    rw [mem_backupBlocks h]
    constructor
    · rintro ⟨g', -, hb, heq⟩
      have hdiv := congrArg (· / P.layout.blocksPerGroup) heq
      have hmod := congrArg (· % P.layout.blocksPerGroup) heq
      rw [Nat.mul_div_cancel _ (by omega), mul_comm, Nat.mul_add_div (by omega),
        Nat.div_eq_of_lt hper, add_zero] at hdiv
      rw [Nat.mul_mod_left, mul_comm, Nat.mul_add_mod, Nat.mod_eq_of_lt hper] at hmod
      exact ⟨hdiv ▸ hb, hmod.symm⟩
    · rintro ⟨hb, rfl⟩
      exact ⟨g, hg, hb, rfl⟩
  rw [hI.blockBit h hg, Bool.eq_iff_iff, decide_eq_true_eq, mem_allBlocks hI h hroom, hback]
  simp only [taken, hdata, Bool.and_eq_true, Bool.or_eq_true, decide_eq_true_eq, beq_iff_eq]
  have := not_le.mpr hlt
  tauto

omit hI hroom in
lemma groupSize_eq {g : ℕ} (hg : g < P.layout.groupCount) : groupSize P.super g =
      if g = P.layout.groupCount - 1 then P.layout.totalBlocks - g * P.layout.blocksPerGroup
      else P.layout.blocksPerGroup := by
  have hcover := h.groups_cover
  change min P.layout.blocksPerGroup (P.layout.totalBlocks - g * P.layout.blocksPerGroup) = _
  split
  · next hlast =>
    have hsucc : P.layout.groupCount * P.layout.blocksPerGroup =
        g * P.layout.blocksPerGroup + P.layout.blocksPerGroup := by
      rw [← succ_mul, show g.succ = P.layout.groupCount by omega]
    omega
  · next hlast =>
    have hnext := h.group_start_lt (g := g + 1) (by omega)
    rw [succ_mul] at hnext
    omega

omit hroom in
lemma usedIn_eq {g : ℕ} (hg : g < P.layout.groupCount) : usedIn P.layout g =
    (List.range (groupSize P.super g)).countP fun i =>
      I.blockBit P.super g i := by
  have hle : groupSize P.super g ≤ P.layout.blocksPerGroup := min_le_left _ _
  rw [usedIn, countP_eq_length_filter, ← filter_range_lt hle]
  refine congrArg _ (filter_congr fun i hi => ?_)
  have hper := mem_range.mp hi
  rw [hI.blockBit h hg, decide_eq_true hper, Bool.true_and, Bool.and_comm]
  congr 1
  rw [decide_eq_decide, mem_groupSize]
  exact ⟨fun hlt => ⟨hper, hlt⟩, fun hlt => hlt.2⟩

omit hroom in
lemma freeBlocks_desc {g : ℕ} (hg : g < P.layout.groupCount) :
    (I.desc P.super g).freeBlocks = (List.range (groupSize P.super g)).countP fun i =>
        !I.blockBit P.super g i := by
  have hlen := length_eq_countP_add_countP (fun i => I.blockBit P.super g i)
    (l := List.range (groupSize P.super g))
  simp only [length_range, Bool.not_eq_true, Bool.decide_eq_false] at hlen
  rw [hI.desc h hg]
  change sub32 (if g = P.layout.groupCount - 1 then
      P.layout.totalBlocks - g * P.layout.blocksPerGroup else P.layout.blocksPerGroup)
    (usedIn P.layout g) = _
  rw [← groupSize_eq h hg, usedIn_eq hI h hg, sub32_of_le (by omega)]
  omega

lemma freeObjects_desc {g : ℕ} (hg : g < P.layout.groupCount) :
    (I.desc P.super g).freeObjects = (List.range P.layout.objectsPerGroup).countP fun i =>
        !I.objectBit P.super g i := by
  have hle := h.regular.perGroup_le
  have hbs := h.regular.blocksPerGroup_eq
  rw [hI.desc h hg]
  change (if g = 0 then sub32 (sub32 P.layout.objectsPerGroup objectFirst) es.length
    else P.layout.objectsPerGroup) = _
  simp only [hI.objectBit h hg]
  split
  · next h0 =>
    rw [countP_range_not hroom,
      sub32_of_le (show objectFirst ≤ P.layout.objectsPerGroup by omega), sub32_of_le (by omega)]
    · omega
    intro i hi
    simp only [h0, beq_self_eq_true, Bool.true_and, ← Bool.decide_and, decide_eq_decide]
    omega
  · next h0 =>
    rw [countP_range_not (Nat.zero_le _), Nat.sub_zero]
    simp [h0]

lemma counted : Counted I P.super (allBlocks I P.super (holds I P.super)) := by
  have hgroups := h.groupCount_superOf
  constructor
  case whole =>
    rw [hgroups]
    exact h.groups_cover
  case bits => exact fun g hg i hi => blockBit_eq hI h hroom (hgroups ▸ hg) hi
  case past =>
    intro g hg i hlo hhi
    rw [hgroups] at hg
    have hhi : i < P.layout.blocksPerGroup := hhi
    have hout := not_lt.mpr hlo
    rw [mem_groupSize, not_and, not_lt] at hout
    rw [hI.blockBit h hg, taken, decide_eq_true hhi, decide_eq_true (hout hhi)]
    rfl
  case freeBlocks => exact fun g hg => freeBlocks_desc hI h (hgroups ▸ hg)
  case freeObjects =>
    intro g hg
    rw [h.objectsPerGroup_superOf]
    exact freeObjects_desc hI h hroom (hgroups ▸ hg)

lemma superCounts_iff : superCounts I P.super ↔ es = [] := by
  have hcon := consistent hI h hroom
  have hcnt := counted hI h hroom
  have hlen := length_allBlocks hI h hroom
  have hblocks := hcnt.free_blocks (nodup_allBlocks hI h hroom) (allBlocks_lt hI h hroom)
  have hobjects := hcnt.free_objects hcon
  have hcount := h.count_le
  have hlive := countP_range_not hcount fun id _ => live_iff hI h hroom id
  have hroot := h.rootBlocks_pos
  have := h.bounds
  have hle : P.layout.dataEnd + backupCount P.layout.groupCount ≤ P.layout.totalBlocks := by
    have hsub := subperm_of_subset (nodup_allBlocks hI h hroom) fun b hb =>
      mem_range.mpr (allBlocks_lt hI h hroom b hb)
    have := hsub.length_le
    rwa [hlen, length_range] at this
  have hfree : P.layout.freeBlocks = P.layout.totalBlocks - (P.layout.firstDataBlock + 1) -
      backupCount P.layout.groupCount := by
    unfold Layout.dataEnd at hle
    rw [h.freeBlocks_eq, u32_of_lt (by omega),
      sub32_of_le (a := P.layout.totalBlocks) (b := P.layout.firstDataBlock + 1) (by omega),
      sub32_of_le (by omega)]
  have hfreeObjects : P.layout.freeObjects = P.layout.totalObjects - objectFirst := by
    rw [h.freeObjects_eq, sub32_of_le (by omega)]
  rw [hlen] at hblocks
  unfold superCounts
  rw [hblocks, hobjects]
  change P.layout.freeBlocks = P.layout.totalBlocks - _ ∧ P.layout.freeObjects =
    (List.range P.layout.totalObjects).countP _ ↔ _
  rw [hlive, hfree, hfreeObjects]
  constructor
  · rintro ⟨-, hn⟩
    exact length_eq_zero_iff.mp (by omega)
  rintro rfl
  have hone : P.layout.rootBlocks = 1 := h.root_eq
  have hused : P.layout.usedBlocks = 0 := h.used_eq
  unfold Layout.dataEnd
  rw [hone, hused, length_nil]
  omega

end All

end Blocks

/-! ## What formatting and checking agree on -/

def clearBlocks (I : Image) (sb : Super) (g : ℕ) : ℕ :=
  (List.range (groupSize sb g)).countP fun i => !I.blockBit sb g i

def clearObjects (I : Image) (sb : Super) (g : ℕ) : ℕ :=
  (List.range (objectsPerGroup sb)).countP fun i => !I.objectBit sb g i

def directories (es : List Entry) : List (Option ℕ) :=
  none :: (es.zipIdx.filter fun x => x.1.isDir).map fun x => some x.2

def childDirectories (es : List Entry) (parent : Option ℕ) : ℕ :=
  (children es parent).countP fun x => x.1.isDir

def LinksRight (es : List Entry) (I : Image) (sb : Super) : Prop :=
  ∀ d ∈ directories es, ∃ o, I.record sb (parentId d) = some o ∧ o.type = .dir ∧
    o.linkCount = 2 + childDirectories es d

structure Agrees (es : List Entry) (I : Image) (sb : Super) : Prop where
  run : ∃ r, Fsck.run I = (.ok (), r) ∧ r.Clear
  groups : ∀ g < sb.groupCount, (I.desc sb g).freeBlocks = clearBlocks I sb g ∧
    (I.desc sb g).freeObjects = clearObjects I sb g
  super : sb.freeBlocks = ((List.range sb.groupCount).map (clearBlocks I sb)).sum ∧
    sb.freeObjects = ((List.range sb.groupCount).map (clearObjects I sb)).sum
  objects : ∀ id < sb.totalObjects, live I sb id = true ↔ id < objectFirst ∨ id ∈ objectIds es
  links : LinksRight es I sb

section Agreement

variable (hI : Emits es P I) (h : Laid es P)

include hI h

/-- Links are counted right on volumes of files only. -/
lemma linksRight_iff : LinksRight es I P.super ↔ ∀ x ∈ es.zipIdx, x.1.isDir = false := by
  constructor
  · intro hlinks
    have hroot : childDirectories es none = 0 := by
      obtain ⟨o, ho, -, hcount⟩ := hlinks none (.head _)
      have hrec := hI.rootRecord h
      cases hrec.symm.trans ho
      have hcount : 2 = 2 + childDirectories es none := hcount
      omega
    -- a directory has its parent's entry before its own, so there is no first one
    suffices ∀ i x, x.2 = i → x ∈ es.zipIdx → x.1.isDir = false from fun x hx => this x.2 x rfl hx
    intro i
    induction i using Nat.strong_induction_on with
    | _ i ih =>
      rintro x rfl hx
      by_contra hd
      rw [Bool.not_eq_false] at hd
      have hchild : x ∈ children es x.1.parent := mem_children.mpr ⟨hx, rfl⟩
      cases hp : x.1.parent with
      | none =>
        rw [hp] at hchild
        exact (countP_eq_zero.mp hroot x hchild) hd
      | some k =>
        obtain ⟨hk, e, he, hdir⟩ := parentOk_iff.mp (h.entries.parent x hx) k hp
        have := ih k hk (e, k) rfl (mem_zipIdx_iff.mpr he)
        cases hdir.symm.trans this
  · intro hfiles d hd
    have hnone : ∀ d, childDirectories es d = 0 := by
      intro d
      refine countP_eq_zero.mpr fun x hx => ?_
      rw [hfiles x (mem_children.mp hx).1]
      exact Bool.false_ne_true
    rcases mem_cons.mp hd with rfl | hd
    · refine ⟨rootObject P.layout, hI.rootRecord h, rfl, ?_⟩
      rw [hnone]
      rfl
    obtain ⟨x, hx, rfl⟩ := mem_map.mp hd
    obtain ⟨hx, hdir⟩ := mem_filter.mp hx
    rw [hfiles x hx] at hdir
    cases hdir

omit hI in
lemma objectFirst_le : objectFirst ≤ P.layout.objectsPerGroup := by
  have hdvd := Nat.le_of_dvd h.regular.perGroup_pos h.regular.perGroup_dvd
  have := h.regular.blockSize_mem
  unfold objectFirst
  omega

variable (hroom : objectFirst + es.length ≤ P.layout.objectsPerGroup)

include hroom

lemma live_iff_objectIds (id : ℕ) : live I P.super id = true ↔
    id < objectFirst ∨ id ∈ objectIds es := by
  rw [live_iff hI h hroom, decide_eq_true_eq]
  constructor
  · intro hid
    rcases lt_or_ge id objectFirst with hlt | hge
    · exact .inl hlt
    obtain ⟨i, rfl⟩ := Nat.exists_eq_add_of_le hge
    have hi : i < es.length := by omega
    exact .inr (.tail _ (mem_map.mpr ⟨(es[i], i),
      mem_zipIdx_iff.mpr (getElem?_eq_getElem hi), rfl⟩))
  rintro (hlt | hid)
  · omega
  rcases mem_cons.mp hid with rfl | hid
  · unfold objectRoot objectFirst
    omega
  obtain ⟨x, hx, rfl⟩ := mem_map.mp hid
  have := index_lt hx
  omega

lemma agrees_groups : ∀ g < P.super.groupCount,
    (I.desc P.super g).freeBlocks = clearBlocks I P.super g ∧
      (I.desc P.super g).freeObjects = clearObjects I P.super g :=
  fun g hg => ⟨(counted hI h hroom).freeBlocks g hg, (counted hI h hroom).freeObjects g hg⟩

lemma agrees_super :
    (P.super.freeBlocks = ((List.range P.super.groupCount).map (clearBlocks I P.super)).sum ∧
    P.super.freeObjects = ((List.range P.super.groupCount).map (clearObjects I P.super)).sum) ↔
      es = [] := by
  have hgroups := agrees_groups hI h hroom
  rw [map_congr_left fun g hg => (hgroups g (mem_range.mp hg)).1.symm,
    map_congr_left fun g hg => (hgroups g (mem_range.mp hg)).2.symm]
  exact superCounts_iff hI h hroom

lemma run_formatted : ∃ r, Fsck.run I = (.ok (), r) ∧ r.structural = false ∧
    r.bitmapErrors = 0 ∧ (r.counterErrors = 0 ↔ es = []) := by
  obtain ⟨r, hrun, hstruct, hbits, hcount⟩ := run_of_consistent (consistent hI h hroom)
    (counted hI h hroom) (allBlocks_lt hI h hroom)
  refine ⟨r, hrun, hstruct, hbits, ?_⟩
  rw [hcount, ← superCounts_iff hI h hroom]
  split
  · next hs => exact ⟨fun _ => hs, fun _ => rfl⟩
  · next hs => exact ⟨fun h1 => absurd h1 one_ne_zero, fun h1 => absurd h1 hs⟩

omit hroom in
/-- The bitmap has room for the live objects exactly when they are all in the first group. -/
lemma objects_iff : (∀ id < P.super.totalObjects, live I P.super id = true ↔
    id < objectFirst ∨ id ∈ objectIds es) ↔ objectFirst + es.length ≤ P.layout.objectsPerGroup := by
  refine ⟨fun hobjects => ?_, fun hroom id _ => live_iff_objectIds hI h hroom id⟩
  by_contra hout
  have hfirst := objectFirst_le h
  have hlast : es.length - 1 < es.length := by omega
  have hx : (es[es.length - 1], es.length - 1) ∈ es.zipIdx :=
    mem_zipIdx_iff.mpr (getElem?_eq_getElem hlast)
  have hlive := (hobjects _ (entryId_ok h hx).2).mpr (.inr (.tail _ (mem_map.mpr ⟨_, hx, rfl⟩)))
  rw [live_eq hI h, decide_eq_true_eq] at hlive
  omega

omit hroom in
lemma agrees_iff : Agrees es I P.super ↔ es = [] := by
  constructor
  · intro ha
    exact (agrees_super hI h ((objects_iff hI h).mp ha.objects)).mp ha.super
  intro hnil
  have hroom : objectFirst + es.length ≤ P.layout.objectsPerGroup := by
    rw [hnil]
    exact objectFirst_le h
  obtain ⟨r, hrun, hstruct, hbits, hcount⟩ := run_formatted hI h hroom
  constructor
  case run => exact ⟨r, hrun, hstruct, hbits, hcount.mpr hnil⟩
  case groups => exact agrees_groups hI h hroom
  case super => exact (agrees_super hI h hroom).mpr hnil
  case objects => exact fun id _ => live_iff_objectIds hI h hroom id
  case links =>
    rw [linksRight_iff hI h, hnil]
    simp

end Agreement

lemma exists_laid (h : formatTree p es = .ok I) (hf : Fits p es) :
    ∃ P, Emits es P I ∧ Laid es P ∧ P.layout.objectsPerGroup = p.perGroup := by
  obtain ⟨P, hP, hI⟩ := formatTree_ok h
  have hplan := planTree_ok hP hf
  refine ⟨P, hI, hplan.laid, ?_⟩
  rw [hplan.layout_eq, hplan.inRange.layout_eq]

/-- A volume formatted without wrapping agrees with the checker exactly when it has no entries: any
entry leaves the superblock counters wrong, any directory the link counts, and an entry past the
first group the object bitmap. While all are in that group, the checker finds no damage, and the
bitmaps and group counters are right. -/
theorem formatTree_checked (h : formatTree p es = .ok I) (hf : Fits p es) :
    ∃ sb, I.superAt 0 = some sb ∧ (Agrees es I sb ↔ es = []) ∧
      (LinksRight es I sb ↔ ∀ x ∈ es.zipIdx, x.1.isDir = false) ∧
      ((∀ id < sb.totalObjects, live I sb id = true ↔ id < objectFirst ∨ id ∈ objectIds es) ↔
        objectFirst + es.length ≤ p.perGroup) ∧
      (objectFirst + es.length ≤ p.perGroup →
        (∃ r, Fsck.run I = (.ok (), r) ∧ r.structural = false ∧ r.bitmapErrors = 0 ∧
          (r.counterErrors = 0 ↔ es = [])) ∧
        ∀ g < sb.groupCount, (I.desc sb g).freeBlocks = clearBlocks I sb g ∧
          (I.desc sb g).freeObjects = clearObjects I sb g) := by
  obtain ⟨P, hI, hL, hper⟩ := exists_laid h hf
  rw [← hper]
  exact ⟨P.super, hI.superAt hL, agrees_iff hI hL, linksRight_iff hI hL, objects_iff hI hL,
    fun hroom => ⟨run_formatted hI hL hroom, agrees_groups hI hL hroom⟩⟩

lemma exists_image (h : (formatTree p es).toOption.isSome = true) :
    ∃ I, formatTree p es = .ok I := by
  cases hf : formatTree p es with
  | error e =>
    rw [hf] at h
    cases h
  | ok I => exact ⟨I, rfl⟩

def smallVolume : Params := ⟨524288, 0, 0, 16⟩

def fileInDirectory : List Entry :=
  [⟨[97], none, true, 0, fun _ => 0, fun _ => false⟩,
    ⟨[98], some 0, false, 5000, fun i => UInt8.ofNat i, fun _ => false⟩]

theorem formatTree_checked_fileInDirectory : ∃ I, formatTree smallVolume fileInDirectory = .ok I ∧
    ∃ sb r, I.superAt 0 = some sb ∧ Fsck.run I = (.ok (), r) ∧ r.structural = false ∧
      r.bitmapErrors = 0 ∧ r.counterErrors ≠ 0 ∧ ¬ LinksRight fileInDirectory I sb := by
  have hsome : (formatTree smallVolume fileInDirectory).toOption.isSome = true := by decide +kernel
  obtain ⟨I, hform⟩ := exists_image hsome
  obtain ⟨sb, hsuper, -, hlinks, -, hrun⟩ := formatTree_checked hform (by decide +kernel)
  obtain ⟨⟨r, hr, hdamage, hbits, hcount⟩, -⟩ := hrun (by decide +kernel)
  refine ⟨I, hform, sb, r, hsuper, hr, hdamage, hbits, fun h0 => cons_ne_nil _ _ (hcount.mp h0),
    fun hl => ?_⟩
  exact Bool.false_ne_true (hlinks.mp hl _ (.head _)).symm

def oneFile : List Entry := [⟨[97], none, false, 0, fun _ => 0, fun _ => false⟩]

/-- One file is enough: the checker finds the superblock counters wrong. -/
theorem oneFile_counters : ∃ I, formatTree smallVolume oneFile = .ok I ∧
    ∃ sb r, I.superAt 0 = some sb ∧ Fsck.run I = (.ok (), r) ∧ r.counterErrors ≠ 0 ∧
      ¬ Agrees oneFile I sb := by
  have hfits : Fits smallVolume oneFile := by decide +kernel
  have hsome : (formatTree smallVolume oneFile).toOption.isSome = true := by decide +kernel
  obtain ⟨I, hform⟩ := exists_image hsome
  obtain ⟨P, hE, hL, hper⟩ := exists_laid hform hfits
  have hroom : objectFirst + oneFile.length ≤ P.layout.objectsPerGroup := by
    rw [hper]
    decide +kernel
  obtain ⟨r, hrun, -, -, hcount⟩ := run_formatted hE hL hroom
  have hne : oneFile ≠ [] := cons_ne_nil _ _
  exact ⟨I, hform, P.super, r, hE.superAt hL, hrun, fun h0 => hne (hcount.mp h0),
    fun ha => hne ((agrees_iff hE hL).mp ha)⟩

end Wfs.Mkfs
