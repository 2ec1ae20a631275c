import WasmOS.Wfs.Fsck.Sound
import WasmOS.Wfs.Mkfs.Regions

/-! # Reading a formatted volume

The children of a directory are packed into blocks in order, the last record stretched to the tail.
On the image of a plan that fits, a block of the data area belongs to the one run that covers it.
-/

open List Packing Except Nat

namespace Wfs

variable {n : ℕ}

lemma le_dirRecordLength (n : ℕ) : 12 + n ≤ dirRecordLength n := by
  unfold dirRecordLength
  omega

lemma dirRecordLength_mod (n : ℕ) : dirRecordLength n % 8 = 0 := Nat.mul_mod_left _ _

lemma dirRecordLength_ge (h : 0 < n) : 16 ≤ dirRecordLength n := by
  unfold dirRecordLength
  omega

lemma dirRecordLength_le (h : n ≤ nameMax) : dirRecordLength n ≤ 272 := by
  unfold dirRecordLength nameMax at *
  omega

namespace Mkfs

section

open Fsck

structure Tight (objects : ℕ) (r : Dirent) : Prop where
  object_ne : r.object ≠ 0
  object_lt : r.object < objects
  name_ne : r.name ≠ []
  name_le : r.name.length ≤ nameMax
  length_eq : r.length = dirRecordLength r.name.length

structure Packed (usable objects : ℕ) (rs : List Dirent) : Prop where
  ne_nil : rs ≠ []
  fits : (rs.map Dirent.length).sum ≤ usable
  tight : ∀ r ∈ rs, Tight objects r

variable {usable objects : ℕ} {rs : List Dirent}

lemma Tight.stride {r : Dirent} (h : Tight objects r) :
    16 ≤ r.length ∧ r.length % 8 = 0 ∧ 12 + r.name.length ≤ r.length := by
  rw [h.length_eq]
  exact ⟨dirRecordLength_ge (length_pos_iff.mpr h.name_ne), dirRecordLength_mod _,
    le_dirRecordLength _⟩

lemma closeDirBlock_eq (h : rs ≠ []) : closeDirBlock usable rs = rs.dropLast ++ [{ rs.getLast h with
      length := usable - (rs.dropLast.map Dirent.length).sum }] := by
  rw [closeDirBlock, getLast?_eq_some_getLast h]

lemma map_closeDirBlock {β : Type} (f : Dirent → β) (hf : ∀ r l, f { r with length := l } = f r)
    (h : rs ≠ []) : (closeDirBlock usable rs).map f = rs.map f := by
  conv_rhs => rw [← dropLast_append_getLast h]
  rw [closeDirBlock_eq h, map_append, map_append, map_singleton, map_singleton, hf]

lemma sum_mod_eq_zero {m : ℕ} {ls : List ℕ} (h : ∀ l ∈ ls, l % m = 0) : ls.sum % m = 0 := by
  induction ls with
  | nil => exact Nat.zero_mod m
  | cons l ls ih =>
    rw [sum_cons, Nat.add_mod, h l (.head _),
      ih fun k hk => h k (.tail _ hk), add_zero, Nat.zero_mod]

namespace Packed

variable (h : Packed usable objects rs)
include h

lemma getLast_le : (rs.dropLast.map Dirent.length).sum + (rs.getLast h.ne_nil).length ≤ usable := by
  have hfits := h.fits
  rw [← dropLast_append_getLast h.ne_nil] at hfits
  simpa using hfits

lemma recordsOk (h8 : usable % 8 = 0) : RecordsOk usable objects (closeDirBlock usable rs) := by
  have hlast := h.getLast_le
  have htight := h.tight _ (getLast_mem h.ne_nil)
  obtain ⟨hl, -, hn⟩ := htight.stride
  have hinit : ∀ r ∈ rs.dropLast, Tight objects r := fun r hr => h.tight r (dropLast_subset _ hr)
  have hsum : (rs.dropLast.map Dirent.length).sum % 8 = 0 := by
    refine sum_mod_eq_zero fun l hl => ?_
    obtain ⟨r, hr, rfl⟩ := mem_map.mp hl
    exact (hinit r hr).stride.2.1
  rw [closeDirBlock_eq h.ne_nil]
  generalize hroom : usable - (rs.dropLast.map Dirent.length).sum = room
  constructor
  case covers =>
    rw [map_append, sum_append_nat, map_singleton, sum_singleton]
    change _ + room = usable
    omega
  case stride =>
    rw [forall_mem_append, forall_mem_singleton]
    refine ⟨fun r hr => ⟨(hinit r hr).stride.1, (hinit r hr).stride.2.1⟩, ?_⟩
    change 16 ≤ room ∧ room % 8 = 0
    omega
  case free =>
    rw [forall_mem_append, forall_mem_singleton]
    exact ⟨fun r hr h0 => absurd h0 (hinit r hr).object_ne, fun h0 => absurd h0 htight.object_ne⟩
  case entry =>
    rw [forall_mem_append, forall_mem_singleton]
    refine ⟨fun r hr _ => ⟨(hinit r hr).name_ne, (hinit r hr).name_le, (hinit r hr).stride.2.2,
      (hinit r hr).object_lt⟩, fun _ => ⟨htight.name_ne, htight.name_le, ?_, htight.object_lt⟩⟩
    change 12 + (rs.getLast h.ne_nil).name.length ≤ room
    omega

lemma targets_eq : targets (closeDirBlock usable rs) = rs.map Dirent.object := by
  rw [targets, map_closeDirBlock Dirent.object (fun _ _ => rfl) h.ne_nil, filter_eq_self]
  intro id hid
  obtain ⟨r, hr, rfl⟩ := mem_map.mp hid
  simpa using (h.tight r hr).object_ne

end Packed

def dirBins (es : List Entry) (bs : ℕ) (parent : Option ℕ) : List (List (Entry × ℕ)) :=
  bins recordSize (dirUsableBytes bs) dotsLength (children es parent)

def dots (self up index : ℕ) : List Dirent :=
  if index = 0 then [⟨self, dirRecordLength 1, dotName⟩, ⟨up, dirRecordLength 2, dotDotName⟩]
  else []

variable {es : List Entry} {bs : ℕ} {parent : Option ℕ} {self up index : ℕ} {x : Entry × ℕ}
  {b : List (Entry × ℕ)}

lemma dirBlocksFor_eq : dirBlocksFor es parent bs = (dirBins es bs parent).length := by
  rw [dirBlocksFor, countLoop_eq, zero_add, dirBins]

lemma dirBlocksFor_pos : 0 < dirBlocksFor es parent bs := by
  rw [dirBlocksFor_eq]
  exact length_pos_iff.mpr bins_ne_nil

lemma buildDirBlock_eq (h : (dirBins es bs parent)[index]? = some b) :
    buildDirBlock es bs parent self up index =
      closeDirBlock (dirUsableBytes bs) (dots self up index ++ b.map entryDirent) := by
  unfold buildDirBlock
  rw [pickLoop_eq (Nat.zero_le _), Nat.sub_zero, ← dirBins, h]
  rfl

lemma checkEntries_ok {xs : List (Entry × ℕ)} (h : checkEntries es xs = .ok ()) :
    ∀ x ∈ xs, nameOk x.1.name = true ∧ parentOk es x.2 x.1.parent = true := by
  induction xs with
  | nil => simp
  | cons y ys ih =>
    obtain ⟨e, i⟩ := y
    unfold checkEntries at h
    split_ifs at h with hname hparent
    rw [Bool.not_eq_true, Bool.not_eq_false'] at hname hparent
    exact forall_mem_cons.mpr ⟨⟨hname, hparent⟩, ih h⟩

structure Accepted (es : List Entry) : Prop where
  name : ∀ x ∈ es.zipIdx, nameOk x.1.name = true
  parent : ∀ x ∈ es.zipIdx, parentOk es x.2 x.1.parent = true

lemma accepted_of_checkEntries (h : checkEntries es es.zipIdx = .ok ()) : Accepted es :=
  ⟨fun x hx => (checkEntries_ok h x hx).1, fun x hx => (checkEntries_ok h x hx).2⟩

lemma nameOk_iff {name : Name} : nameOk name = true ↔
    name ≠ [] ∧ name.length ≤ nameMax ∧ (∀ c ∈ name, c ≠ 47 ∧ c ≠ 0) ∧ name ≠ dotName ∧
      name ≠ dotDotName := by
  simp [nameOk, and_assoc]

lemma mem_children : x ∈ children es parent ↔ x ∈ es.zipIdx ∧ x.1.parent = parent := by
  simp [children]

lemma mem_zipIdx_iff : x ∈ es.zipIdx ↔ es[x.2]? = some x.1 := by
  rw [mem_zipIdx_iff_getElem?]

lemma index_lt (h : x ∈ es.zipIdx) : x.2 < es.length :=
  (List.getElem?_eq_some_iff.mp (mem_zipIdx_iff.mp h)).1

lemma flatten_dirBins : (dirBins es bs parent).flatten = children es parent := flatten_bins

lemma mem_dirBins (hb : (dirBins es bs parent)[index]? = some b) (hx : x ∈ b) :
    x ∈ children es parent := by
  rw [← flatten_dirBins]
  exact mem_flatten.mpr ⟨b, mem_of_getElem? hb, hx⟩

lemma exists_dirBins (hx : x ∈ children es parent) (bs : ℕ) :
    ∃ (index : ℕ) (b : List (Entry × ℕ)), (dirBins es bs parent)[index]? = some b ∧ x ∈ b := by
  have hflat : (dirBins es bs parent).flatten = children es parent := flatten_dirBins
  rw [← hflat] at hx
  obtain ⟨b, hb, hx⟩ := mem_flatten.mp hx
  obtain ⟨index, hi⟩ := mem_iff_getElem?.mp hb
  exact ⟨index, b, hi, hx⟩

lemma sum_entryDirent : ((b.map entryDirent).map Dirent.length).sum = (b.map recordSize).sum := by
  rw [map_map]
  rfl

lemma tight_entryDirent (ha : Accepted es) (hcount : objectFirst + es.length ≤ objects)
    (hx : x ∈ es.zipIdx) : Tight objects (entryDirent x) := by
  have hname := nameOk_iff.mp (ha.name x hx)
  have hlt := index_lt hx
  refine ⟨?_, ?_, hname.1, hname.2.1, rfl⟩
  · change objectFirst + x.2 ≠ 0
    unfold objectFirst
    omega
  · change objectFirst + x.2 < objects
    omega

lemma tight_dots (hself : self ≠ 0 ∧ self < objects) (hup : up ≠ 0 ∧ up < objects) :
    ∀ r ∈ dots self up index, Tight objects r := by
  intro r hr
  unfold dots at hr
  split at hr
  · rcases mem_pair.mp hr with rfl | rfl
    · exact ⟨hself.1, hself.2, by simp [dotName], by simp [dotName, nameMax], rfl⟩
    · exact ⟨hup.1, hup.2, by simp [dotDotName], by simp [dotDotName, nameMax], rfl⟩
  · exact absurd hr not_mem_nil

lemma packed_dirBlock (ha : Accepted es) (hbs : 4096 ≤ bs)
    (hself : self ≠ 0 ∧ self < objects) (hup : up ≠ 0 ∧ up < objects)
    (hcount : objectFirst + es.length ≤ objects) (h : (dirBins es bs parent)[index]? = some b) :
    Packed (dirUsableBytes bs) objects (dots self up index ++ b.map entryDirent) := by
  have hsize : ∀ x ∈ children es parent, recordSize x ≤ dirUsableBytes bs := by
    intro x hx
    have := dirRecordLength_le (nameOk_iff.mp (ha.name x (mem_children.mp hx).1)).2.1
    unfold recordSize dirUsableBytes
    omega
  have hdots : dotsLength ≤ dirUsableBytes bs := by
    unfold dotsLength dirRecordLength dirUsableBytes
    omega
  obtain ⟨b₀, rest, hbins⟩ := exists_bins_eq_cons recordSize (dirUsableBytes bs) dotsLength
    (children es parent)
  obtain ⟨hfit, hrest⟩ := bins_fit hsize hdots hbins
  have htight : ∀ r ∈ dots self up index ++ b.map entryDirent, Tight objects r := by
    rw [forall_mem_append, forall_mem_map]
    exact ⟨tight_dots hself hup, fun x hx =>
      tight_entryDirent ha hcount (mem_children.mp (mem_dirBins h hx)).1⟩
  rw [dirBins, hbins] at h
  cases index with
  | zero =>
    cases h
    refine ⟨by simp [dots], ?_, htight⟩
    rwa [map_append, sum_append_nat, sum_entryDirent]
  | succ index =>
    rw [getElem?_cons_succ] at h
    obtain ⟨hne, hfit⟩ := hrest b (mem_of_getElem? h)
    refine ⟨by simpa [dots] using hne, ?_, htight⟩
    rw [map_append, sum_append_nat, sum_entryDirent]
    simpa [dots] using hfit

lemma hasDots_buildDirBlock (hself : self ≠ 0) (hup : up ≠ 0)
    (h : (dirBins es bs parent)[0]? = some b) : HasDots (buildDirBlock es bs parent self up 0) := by
  have hne : dots self up 0 ++ b.map entryDirent ≠ [] := by simp [dots]
  have hmap : (closeDirBlock (dirUsableBytes bs) (dots self up 0 ++ b.map entryDirent)).map
      (fun r => (r.object, r.name)) = _ := map_closeDirBlock _ (fun _ _ => rfl) hne
  have hmem : ∀ q ∈ [(self, dotName), (up, dotDotName)],
      ∃ r ∈ buildDirBlock es bs parent self up 0, (r.object, r.name) = q := by
    intro q hq
    rw [← mem_map, buildDirBlock_eq h, hmap, map_append]
    exact mem_append_left _ hq
  obtain ⟨r, hr, he⟩ := hmem _ (.head _)
  obtain ⟨r', hr', he'⟩ := hmem _ (mem_cons_of_mem _ (.head _))
  rw [Prod.mk.injEq] at he he'
  exact ⟨⟨r, hr, he.1 ▸ hself, he.2⟩, r', hr', he'.1 ▸ hup, he'.2⟩

end

def Layout.dataEnd (L : Layout) : ℕ := L.firstDataBlock + L.rootBlocks + L.usedBlocks

/-- A plan whose regions and runs follow one another on the volume and stay clear of the backups. -/
structure Laid (es : List Entry) (P : Plan) : Prop where
  regular : Regular P.layout
  entries : Accepted es
  objects_eq : P.layout.totalObjects = P.layout.objectsPerGroup * P.layout.groupCount
  objects_lt : P.layout.totalObjects < 2 ^ 32
  count_le : objectFirst + es.length ≤ P.layout.totalObjects
  root_eq : P.layout.rootBlocks = dirBlocksFor es none P.layout.blockSize
  used_eq : P.layout.usedBlocks = (es.zipIdx.map (need es P.layout.blockSize)).sum
  nodes_eq : P.nodes = placed es P.layout.blockSize es.zipIdx
    (P.layout.firstDataBlock + P.layout.rootBlocks)
  dataEnd_le : P.layout.dataEnd ≤ P.layout.totalBlocks
  backups : ∀ g < P.layout.groupCount, Journal.groupHasBackup g = true →
    P.layout.dataEnd ≤ g * P.layout.blocksPerGroup
  freeBlocks_eq : P.layout.freeBlocks =
    sub32 (sub32 P.layout.totalBlocks (u32 (P.layout.firstDataBlock + 1)))
      (backupCount P.layout.groupCount)
  freeObjects_eq : P.layout.freeObjects = sub32 P.layout.totalObjects objectFirst

variable {p : Params} {es : List Entry} {P : Plan} {I : Image}

lemma Planned.laid (h : Planned p es P) : Laid es P := by
  have hr := h.inRange
  have hreg := hr.regular
  have hobjects := hr.objects_lt fun g hg hb => by
    have := h.before_backups g hg hb
    omega
  have hcount := h.count_le
  have hfits := h.fits
  have hbackups := h.before_backups
  have hnodes := h.nodes_eq
  unfold demand at hfits hbackups
  rw [hr.layout_eq] at hreg
  have hL := h.layout_eq
  rw [hr.layout_eq, u32_of_lt hobjects] at hL
  obtain ⟨L, nodes⟩ := P
  subst hL
  constructor
  case regular => exact { hreg with }
  case entries => exact accepted_of_checkEntries h.entries
  case objects_lt => exact hobjects
  case count_le => exact hcount
  case nodes_eq => exact hnodes
  case dataEnd_le =>
    unfold Layout.dataEnd
    dsimp only
    omega
  case backups =>
    intro g hg hb
    have := hbackups g hg hb
    unfold Layout.dataEnd
    dsimp only
    omega
  all_goals rfl

structure Emits (es : List Entry) (P : Plan) (I : Image) : Prop where
  blockSize_eq : I.blockSize = P.layout.blockSize
  block : ∀ b < P.layout.totalBlocks, blockAt es P b = .ok (I.block b)

lemma formatTree_ok (h : formatTree p es = .ok I) : ∃ P, planTree p es = .ok P ∧ Emits es P I := by
  unfold formatTree at h
  repeat' split at h
  any_goals cases h
  next P hP _ hnone =>
  refine ⟨P, hP, rfl, fun b hb => ?_⟩
  rw [findSome?_eq_none_iff] at hnone
  have := hnone b (mem_range.mpr hb)
  dsimp only
  cases hat : blockAt es P b with
  | error e =>
    rw [hat] at this
    cases this
  | ok c => rfl

namespace Laid

variable (h : Laid es P)
include h

lemma bounds :
    P.layout.groupTableStart = 1 ∧ P.layout.journalStart = 1 + P.layout.groupTableBlocks ∧
      P.layout.objectTableStart = P.layout.journalStart + P.layout.journalBlocks ∧
      P.layout.bitmapStart = P.layout.objectTableStart + P.layout.objectTableBlocks ∧
      P.layout.firstDataBlock = P.layout.bitmapStart + 2 * P.layout.groupCount ∧
      P.layout.firstDataBlock + P.layout.rootBlocks + P.layout.usedBlocks ≤ P.layout.totalBlocks ∧
      P.layout.totalBlocks < 2 ^ 32 := by
  have hr := h.regular
  have hbs := hr.blockSize_mem
  have hper := hr.blocksPerGroup_eq
  have htotal := hr.total_le
  refine ⟨hr.groupTableStart_eq, hr.journalStart_eq, hr.objectTableStart_eq, hr.bitmapStart_eq,
    ?_, h.dataEnd_le, by omega⟩
  rw [hr.firstDataBlock_eq, hr.bitmapBlocks_eq]

lemma groupCount_pos : 0 < P.layout.groupCount := by
  have hr := h.regular
  have := hr.total_ge
  have := hr.blockSize_mem
  have := hr.blocksPerGroup_eq
  rw [hr.groupCount_eq]
  exact div_pos (by omega) (by omega)

lemma groups_cover : P.layout.totalBlocks ≤ P.layout.groupCount * P.layout.blocksPerGroup := by
  have hr := h.regular
  have := hr.blockSize_mem
  have := hr.blocksPerGroup_eq
  rw [hr.groupCount_eq]
  exact le_divUp_mul (by omega)

lemma group_start_lt {g : ℕ} (hg : g < P.layout.groupCount) :
    g * P.layout.blocksPerGroup < P.layout.totalBlocks := by
  rw [h.regular.groupCount_eq] at hg
  exact groups_mul_lt hg

lemma descBlock_lt {g : ℕ} (hg : g < P.layout.groupCount) :
    g / (P.layout.blockSize / 64) < P.layout.groupTableBlocks := by
  have hr := h.regular
  have := hr.blockSize_mem
  have hpos : 0 < P.layout.blockSize / 64 := by omega
  rw [div_lt_iff_lt_mul hpos, hr.groupTableBlocks_eq]
  exact lt_of_lt_of_le hg (le_divUp_mul hpos)

lemma perBlock_pos : 0 < P.layout.blockSize / 256 := by
  have := h.regular.blockSize_mem
  omega

lemma recordBlock_lt {id : ℕ} (hid : id < P.layout.totalObjects) :
    id / (P.layout.blockSize / 256) < P.layout.objectTableBlocks := by
  have hr := h.regular
  rw [Nat.div_lt_iff_lt_mul h.perBlock_pos, hr.objectTableBlocks_eq, hr.tablePerGroup_eq,
    mul_right_comm, Nat.div_mul_cancel hr.perGroup_dvd, ← h.objects_eq]
  exact hid

lemma rootBlocks_pos : 0 < P.layout.rootBlocks := by
  rw [h.root_eq]
  exact dirBlocksFor_pos

end Laid

namespace Emits

variable {k g i b : ℕ}

lemma super (hI : Emits es P I) (h : Laid es P) : I.block 0 = .super (buildSuper P.layout 0) := by
  have htotal := h.regular.total_ge
  have hb := hI.block 0 (by omega)
  unfold blockAt at hb
  rw [if_neg (by omega), if_pos rfl] at hb
  exact (ok.inj hb).symm

lemma groups (hI : Emits es P I) (h : Laid es P) (hk : k < P.layout.groupTableBlocks) :
    I.block (1 + k) = .groups fun i =>
      if i < P.layout.blockSize / 64 ∧ k * (P.layout.blockSize / 64) + i < P.layout.groupCount then
        some (buildDesc P.layout es.length (k * (P.layout.blockSize / 64) + i)) else none := by
  obtain ⟨h₁, h₂, h₃, h₄, h₅, h₆, h₇⟩ := h.bounds
  have hb := hI.block (1 + k) (by omega)
  unfold blockAt at hb
  rw [if_neg (by omega), if_neg (by omega), if_pos (by omega), h₁, Nat.add_sub_cancel_left] at hb
  exact (ok.inj hb).symm

lemma blockAt_of_journal_le (h : Laid es P) (hb : P.layout.objectTableStart ≤ b)
    (hlt : b < P.layout.totalBlocks) : blockAt es P b = if b < P.layout.bitmapStart then
      recordBlock es P ((b - P.layout.objectTableStart) * (P.layout.blockSize / 256))
    else if b < P.layout.firstDataBlock then
      let g := (b - P.layout.bitmapStart) / 2
      if (b - P.layout.bitmapStart) % 2 = 0 then
        .ok (.bitmap fun i => decide (i < P.layout.blocksPerGroup) && taken P.layout g i)
      else .ok (.bitmap fun i =>
        g == 0 && decide (i < objectFirst + es.length) && decide (i < 8 * P.layout.blockSize))
    else if b < P.layout.firstDataBlock + P.layout.rootBlocks then
      .ok (.dir ⟨b, buildDirBlock es P.layout.blockSize none objectRoot objectRoot
        (b - P.layout.firstDataBlock)⟩)
    else if b < P.layout.dataEnd then dataBlock es P.layout.blockSize P.nodes b
    else if b % P.layout.blocksPerGroup = 0 ∧
        Journal.groupHasBackup (b / P.layout.blocksPerGroup) = true then
      .ok (.super (buildSuper P.layout b))
    else .ok (.bytes fun _ => 0) := by
  obtain ⟨h₁, h₂, h₃, h₄, h₅, h₆, h₇⟩ := h.bounds
  unfold blockAt Layout.dataEnd
  dsimp only
  simp (disch := omega) only [u32_of_lt]
  rw [if_neg (by omega), if_neg (by omega), if_neg (by omega), if_neg (by omega), ← h₄, ← h₅]
  by_cases hrec : b < P.layout.bitmapStart
  · rw [if_pos ⟨hb, hrec⟩, if_pos hrec]
  rw [if_neg (by omega), if_neg hrec]
  by_cases hbit : b < P.layout.firstDataBlock
  · rw [if_pos (by omega), if_pos hbit]
  · rw [if_neg (by omega), if_neg hbit]

variable (hI : Emits es P I) (h : Laid es P)
include hI h

lemma objects (hk : k < P.layout.objectTableBlocks) :
    recordBlock es P (k * (P.layout.blockSize / 256)) =
      .ok (I.block (P.layout.objectTableStart + k)) := by
  have := h.bounds
  have hb := hI.block (P.layout.objectTableStart + k) (by omega)
  rw [blockAt_of_journal_le h (by omega) (by omega), if_pos (by omega),
    Nat.add_sub_cancel_left] at hb
  exact hb

lemma blockBitmap (hg : g < P.layout.groupCount) : I.block (P.layout.bitmapStart + 2 * g) =
      .bitmap fun i => decide (i < P.layout.blocksPerGroup) && taken P.layout g i := by
  have := h.bounds
  have hb := hI.block (P.layout.bitmapStart + 2 * g) (by omega)
  rw [blockAt_of_journal_le h (by omega) (by omega), if_neg (by omega), if_pos (by omega),
    Nat.add_sub_cancel_left] at hb
  rw [if_pos (by omega), Nat.mul_div_cancel_left _ (by omega)] at hb
  exact (ok.inj hb).symm

lemma objectBitmap (hg : g < P.layout.groupCount) :
    I.block (P.layout.bitmapStart + 2 * g + 1) = .bitmap fun i =>
      g == 0 && decide (i < objectFirst + es.length) && decide (i < 8 * P.layout.blockSize) := by
  have := h.bounds
  have hb := hI.block (P.layout.bitmapStart + 2 * g + 1) (by omega)
  rw [blockAt_of_journal_le h (by omega) (by omega), if_neg (by omega), if_pos (by omega),
    show P.layout.bitmapStart + 2 * g + 1 - P.layout.bitmapStart = 2 * g + 1 by omega] at hb
  rw [if_neg (by omega), show (2 * g + 1) / 2 = g by omega] at hb
  exact (ok.inj hb).symm

lemma root (hk : k < P.layout.rootBlocks) : I.dirAt (P.layout.firstDataBlock + k) =
      some (buildDirBlock es P.layout.blockSize none objectRoot objectRoot k) := by
  have := h.bounds
  have hb := hI.block (P.layout.firstDataBlock + k) (by omega)
  rw [blockAt_of_journal_le h (by omega) (by omega), if_neg (by omega), if_neg (by omega),
    if_pos (by omega), Nat.add_sub_cancel_left] at hb
  rw [Image.dirAt, ← ok.inj hb]
  exact if_pos rfl

lemma data (hlo : P.layout.firstDataBlock + P.layout.rootBlocks ≤ b) (hhi : b < P.layout.dataEnd) :
    dataBlock es P.layout.blockSize P.nodes b = .ok (I.block b) := by
  have := h.bounds
  have hend := lt_of_lt_of_le hhi h.dataEnd_le
  have hb := hI.block b hend
  rw [blockAt_of_journal_le h (by omega) hend, if_neg (by omega), if_neg (by omega),
    if_neg (by omega), if_pos hhi] at hb
  exact hb

end Emits

def superOf (L : Layout) : Super := (buildSuper L 0).value

abbrev Plan.super (P : Plan) : Super := superOf P.layout

def rootObject (L : Layout) : Object :=
  (buildObject objectRoot .dir false (L.rootBlocks * L.blockSize) 2 L.firstDataBlock L.rootBlocks
    (fun _ => 0)).value

def entryObject (bs : ℕ) (e : Entry) (n : Node) : Object :=
  (buildObject n.objectId (if e.isDir then .dir else .file) n.inlineData
    (if e.isDir then n.blockCount * bs else e.size.toNat)
    (if e.isDir then 2 + n.childCount else 1) n.firstBlock n.blockCount
    (fun i => if n.inlineData && decide (i < e.size.toNat) then e.content i else 0)).value

def runStart (es : List Entry) (P : Plan) (i : ℕ) : ℕ :=
  P.layout.firstDataBlock + P.layout.rootBlocks +
    ((es.zipIdx.take i).map (need es P.layout.blockSize)).sum

def nodeAt (es : List Entry) (P : Plan) (x : Entry × ℕ) : Node :=
  nodeOf es P.layout.blockSize x (runStart es P x.2)

section Placed

variable {bs next i k : ℕ} {xs : List (Entry × ℕ)} {x : Entry × ℕ}

lemma placed_getElem? : (placed es bs xs next)[i]? =
    (xs[i]?).map fun x => nodeOf es bs x (next + ((xs.take i).map (need es bs)).sum) := by
  induction xs generalizing next i with
  | nil => rfl
  | cons y ys ih =>
    cases i with
    | zero => rfl
    | succ i =>
      rw [placed, getElem?_cons_succ, getElem?_cons_succ, ih]
      simp [add_assoc]

lemma find?_placed (hx : xs[i]? = some x) (hk : k < need es bs x) :
    ((xs.zip (placed es bs xs next)).find? fun y =>
      decide (y.2.blockCount ≠ 0) &&
        decide (y.2.firstBlock ≤ next + ((xs.take i).map (need es bs)).sum + k) &&
        decide (next + ((xs.take i).map (need es bs)).sum + k < y.2.firstBlock + y.2.blockCount)) =
      some (x, nodeOf es bs x (next + ((xs.take i).map (need es bs)).sum)) := by
  induction xs generalizing next i with
  | nil => cases hx
  | cons y ys ih =>
    rw [placed, zip_cons_cons]
    cases i with
    | zero =>
      cases hx
      refine find?_cons_of_pos ?_
      simp only [take_zero, map_nil, sum_nil, add_zero, Bool.and_eq_true, decide_eq_true_eq]
      dsimp only [nodeOf]
      omega
    | succ i =>
      rw [take_succ_cons, map_cons, sum_cons, ← add_assoc]
      rw [find?_cons_of_neg]
      · exact ih hx
      simp only [Bool.and_eq_true, decide_eq_true_eq]
      dsimp only [nodeOf]
      omega

lemma sum_take_le (hx : xs[i]? = some x) :
    ((xs.take i).map (need es bs)).sum + need es bs x ≤ (xs.map (need es bs)).sum := by
  induction xs generalizing i with
  | nil => cases hx
  | cons y ys ih =>
    cases i with
    | zero =>
      cases hx
      simp
    | succ i =>
      have := ih hx
      rw [take_succ_cons, map_cons, map_cons, sum_cons, sum_cons]
      omega

end Placed

section Entries

variable {x : Entry × ℕ} {k id g : ℕ}

lemma zipIdx_getElem? (hx : x ∈ es.zipIdx) : es.zipIdx[x.2]? = some x := by
  rw [getElem?_zipIdx, mem_zipIdx_iff.mp hx, Option.map_some, zero_add]

namespace Laid

variable (h : Laid es P) (hx : x ∈ es.zipIdx)
include h hx

lemma nodes_getElem? : P.nodes[x.2]? = some (nodeAt es P x) := by
  rw [h.nodes_eq, placed_getElem?, zipIdx_getElem? hx]
  rfl

lemma owner_eq (hk : k < need es P.layout.blockSize x) :
    owner es P.nodes (runStart es P x.2 + k) = some (x, nodeAt es P x) := by
  rw [h.nodes_eq]
  exact find?_placed (zipIdx_getElem? hx) hk

lemma runStart_le : runStart es P x.2 + need es P.layout.blockSize x ≤ P.layout.dataEnd := by
  have hsum : ((es.zipIdx.take x.2).map (need es P.layout.blockSize)).sum +
      need es P.layout.blockSize x ≤ _ := sum_take_le (zipIdx_getElem? hx)
  have := h.used_eq
  unfold runStart Layout.dataEnd
  omega

end Laid

namespace Emits

variable (hI : Emits es P I) (h : Laid es P)
include hI h

section

variable (hg : g < P.layout.groupCount)
include hg

lemma descSlot : I.descSlot (P.super.groupTableStart + g / P.super.groupDescsPerBlock)
      (g % P.super.groupDescsPerBlock) = buildDesc P.layout es.length g := by
  have hbs := h.regular.blockSize_mem
  have hdiv := div_add_mod' g (P.layout.blockSize / 64)
  have hmod : g % (P.layout.blockSize / 64) < P.layout.blockSize / 64 := mod_lt _ (by omega)
  have hblock := hI.groups h (h.descBlock_lt hg)
  rw [Image.descSlot, show P.super.groupTableStart = 1 from h.regular.groupTableStart_eq,
    show P.super.groupDescsPerBlock = P.layout.blockSize / 64 from rfl, hblock]
  dsimp only
  rw [hdiv, if_pos ⟨hmod, hg⟩]
  rfl

lemma desc : I.desc P.super g = (buildDesc P.layout es.length g).value := by
  rw [Image.desc, hI.descSlot h hg]

lemma blockBit (i : ℕ) :
    I.blockBit P.super g i = (decide (i < P.layout.blocksPerGroup) && taken P.layout g i) := by
  rw [Image.blockBit, hI.desc h hg, Image.bitAt]
  dsimp only [buildDesc]
  rw [hI.blockBitmap h hg]

lemma objectBit (i : ℕ) : I.objectBit P.super g i =
      (g == 0 && decide (i < objectFirst + es.length) && decide (i < 8 * P.layout.blockSize)) := by
  rw [Image.objectBit, hI.desc h hg, Image.bitAt]
  dsimp only [buildDesc]
  rw [hI.objectBitmap h hg]

end

lemma record (hid : id < P.layout.totalObjects) :
    ∃ r, recordSlot es P id = .ok r ∧ I.record P.super id = r.bind (·.verify id) := by
  have hpos := h.perBlock_pos
  have hdiv := div_add_mod' id (P.layout.blockSize / 256)
  have hmod : id % (P.layout.blockSize / 256) < P.layout.blockSize / 256 := mod_lt _ hpos
  have hblock := hI.objects h (h.recordBlock_lt hid)
  unfold recordBlock at hblock
  dsimp only at hblock
  split at hblock
  · cases hblock
  next hnone =>
  rw [findSome?_eq_none_iff] at hnone
  have hslot := hnone _ (mem_range.mpr hmod)
  rw [hdiv] at hslot
  cases hr : recordSlot es P id with
  | error e =>
    rw [hr] at hslot
    cases hslot
  | ok r =>
    refine ⟨r, rfl, ?_⟩
    rw [Image.record, Image.recordAt,
      show P.super.objectTableStart = P.layout.objectTableStart from rfl,
      show P.super.objectsPerBlock = P.layout.blockSize / 256 from rfl, ← ok.inj hblock]
    dsimp only
    rw [if_pos hmod, hdiv, hr]
    rfl

lemma rootRecord : I.record P.super objectRoot = some (rootObject P.layout) := by
  have hcount := h.count_le
  have hid : objectRoot < P.layout.totalObjects := by
    unfold objectRoot objectFirst at *
    omega
  obtain ⟨r, hr, hrec⟩ := hI.record h hid
  rw [hrec, ← ok.inj hr]
  rfl

lemma entryRecord (hx : x ∈ es.zipIdx) : I.record P.super (objectFirst + x.2) =
      some (entryObject P.layout.blockSize x.1 (nodeAt es P x)) := by
  have hcount := h.count_le
  have hlt := index_lt hx
  have hid : objectFirst + x.2 < P.layout.totalObjects := by omega
  obtain ⟨r, hr, hrec⟩ := hI.record h hid
  rw [recordSlot, if_neg (by unfold objectFirst objectRoot; omega), if_pos (by omega),
    Nat.add_sub_cancel_left, mem_zipIdx_iff.mp hx, h.nodes_getElem? hx] at hr
  dsimp only [Mkfs.entryRecord] at hr
  split at hr
  · cases hr
  · rw [hrec, ← ok.inj hr]
    exact if_pos rfl

lemma entryDir (hx : x ∈ es.zipIdx) (hd : x.1.isDir = true)
    (hk : k < need es P.layout.blockSize x) :
    I.dirAt (runStart es P x.2 + k) = some (buildDirBlock es P.layout.blockSize (some x.2)
      (objectFirst + x.2) (parentId x.1.parent) k) := by
  have hend := h.runStart_le hx
  have hb := hI.data h (b := runStart es P x.2 + k) (by unfold runStart; omega) (by omega)
  rw [dataBlock, h.owner_eq hx hk] at hb
  dsimp only at hb
  rw [if_pos hd] at hb
  rw [Image.dirAt, ← ok.inj hb]
  dsimp only [nodeAt, nodeOf]
  rw [Nat.add_sub_cancel_left]
  exact if_pos rfl

end Emits

end Entries

end Mkfs

end Wfs
