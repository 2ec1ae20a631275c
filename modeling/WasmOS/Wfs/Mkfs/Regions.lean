import Mathlib.Order.Interval.Finset.Nat
import WasmOS.Packing.NextFit
import WasmOS.Wfs.Volume.Session

/-! # Planning and emitting a volume

Where the formatter puts every region and entry, in words of 32 bits that wrap, and every block as
it serializes it. When no sum wraps, the regions tile the volume and the runs of the entries follow
one another.
-/

open List Except

namespace Wfs.Mkfs

structure Params where
  sizeBytes : UInt64
  blockSize : UInt32
  bytesPerObject : UInt32
  journalBlocks : UInt32

/-- One entry to place; `refuses` says at which offsets the read of its content fails. -/
structure Entry where
  name : Name
  parent : Option ℕ
  isDir : Bool
  size : UInt64
  content : Bytes
  refuses : ℕ → Bool

structure Node where
  objectId : ℕ
  firstBlock : ℕ
  blockCount : ℕ
  childCount : ℕ
  inlineData : Bool

structure Layout where
  blockSize : ℕ
  blocksPerGroup : ℕ
  totalBlocks : ℕ
  groupCount : ℕ
  totalObjects : ℕ
  objectsPerGroup : ℕ
  objectTableBlocksPerGroup : ℕ
  groupTableStart : ℕ
  groupTableBlocks : ℕ
  journalStart : ℕ
  journalBlocks : ℕ
  objectTableStart : ℕ
  objectTableBlocks : ℕ
  bitmapStart : ℕ
  bitmapBlocks : ℕ
  firstDataBlock : ℕ
  rootBlocks : ℕ
  usedBlocks : ℕ
  freeBlocks : ℕ
  freeObjects : ℕ

def sub32 (a b : ℕ) : ℕ := if b ≤ a then a - b else a + 2 ^ 32 - b

def divUp (a b : ℕ) : ℕ := u32 (a + b - 1) / b
def roundUp (a m : ℕ) : ℕ := u32 (divUp a m * m)

variable (p : Params)

def objectsTarget : ℕ :=
  let ratio := if p.bytesPerObject = 0 then 16384 else p.bytesPerObject.toNat
  min (max (p.sizeBytes.toNat / ratio) (objectFirst + 1)) (2 ^ 32 - 1)

def journalLength (total : ℕ) : ℕ :=
  if p.journalBlocks = 0 then min (max (total / 64) 64) 32768 else p.journalBlocks.toNat

def backupCount (groups : ℕ) : ℕ := ((List.range groups).filter Journal.groupHasBackup).length

/-- The arithmetic of `wfs_mkfs_plan` at a block size. -/
def layout (bs : ℕ) : Layout :=
  let total := p.sizeBytes.toNat / bs
  let groups := divUp total (8 * bs)
  let perGroup := min (roundUp (divUp (objectsTarget p) groups) (bs / 256)) (8 * bs)
  let tablePerGroup := perGroup / (bs / 256)
  let groupTableBlocks := divUp groups (bs / 64)
  let journalStart := u32 (1 + groupTableBlocks)
  let objectTableStart := u32 (journalStart + journalLength p total)
  let objectTableBlocks := u32 (tablePerGroup * groups)
  let bitmapStart := u32 (objectTableStart + objectTableBlocks)
  let bitmapBlocks := u32 (2 * groups)
  let firstDataBlock := u32 (bitmapStart + bitmapBlocks)
  let totalObjects := u32 (perGroup * groups)
  { blockSize := bs, blocksPerGroup := 8 * bs, totalBlocks := total, groupCount := groups
    totalObjects, objectsPerGroup := perGroup, objectTableBlocksPerGroup := tablePerGroup
    groupTableStart := 1, groupTableBlocks, journalStart, journalBlocks := journalLength p total
    objectTableStart, objectTableBlocks, bitmapStart, bitmapBlocks, firstDataBlock
    rootBlocks := 1, usedBlocks := 0
    freeBlocks := sub32 (sub32 total (u32 (firstDataBlock + 1))) (backupCount groups)
    freeObjects := sub32 totalObjects objectFirst }

def blockSizeOf : ℕ := if p.blockSize = 0 then 4096 else p.blockSize.toNat

/-- `wfs_mkfs_plan`: the layout of an empty volume. -/
def plan : Except Err Layout :=
  let bs := blockSizeOf p
  if bs ≠ 4096 ∧ bs ≠ 8192 ∧ bs ≠ 16384 then .error .geometry
  else if 2 ^ 32 - 1 < p.sizeBytes.toNat / bs then .error .volumeTooLarge
  else if p.sizeBytes.toNat / bs < 16 then .error .noSpace
  else if (layout p bs).totalBlocks < u32 ((layout p bs).firstDataBlock + 1) then .error .noSpace
  else .ok (layout p bs)

def nameOk (name : Name) : Bool :=
  name != [] && decide (name.length ≤ nameMax) && name.all (fun c => c != 47 && c != 0) &&
    name != dotName && name != dotDotName

variable (es : List Entry)

def parentOk (i : ℕ) : Option ℕ → Bool
  | none => true
  | some k => decide (k < i) && ((es[k]?).map Entry.isDir).getD false

def checkEntries (es : List Entry) : List (Entry × ℕ) → Except Err Unit
  | [] => .ok ()
  | (e, i) :: rest =>
    if !nameOk e.name then .error .name
    else if !parentOk es i e.parent then .error .corrupt
    else checkEntries es rest

def children (parent : Option ℕ) : List (Entry × ℕ) := es.zipIdx.filter fun x => x.1.parent = parent

def recordSize (x : Entry × ℕ) : ℕ := dirRecordLength x.1.name.length

def dotsLength : ℕ := dirRecordLength 1 + dirRecordLength 2

def dirBlocksFor (parent : Option ℕ) (bs : ℕ) : ℕ :=
  Packing.countLoop recordSize (dirUsableBytes bs) 0 dotsLength (children es parent)

def blocksOf (bs : ℕ) (x : Entry × ℕ) : Except Err (ℕ × Bool) :=
  if x.1.isDir then .ok (dirBlocksFor es (some x.2) bs, false)
  else if x.1.size.toNat ≤ inlineDataMax then .ok (0, true)
  else
    -- the sum is one of 64-bit words
    let blocks := (x.1.size.toNat + bs - 1) % 2 ^ 64 / bs
    if 2 ^ 32 - 1 < blocks then .error .noSpace else .ok (blocks, false)

def place (es : List Entry) (bs total : ℕ) : List (Entry × ℕ) → (next : ℕ) →
    Except Err (List Node × ℕ)
  | [], next => .ok ([], next)
  | x :: rest, next => do
    let (count, inline) ← blocksOf es bs x
    if sub32 total next < count then .error .noSpace
    else do
      let (nodes, stop) ← place es bs total rest (u32 (next + count))
      .ok (⟨objectFirst + x.2, next, count, (children es (some x.2)).length, inline⟩ :: nodes, stop)

structure Plan where
  layout : Layout
  nodes : List Node

def planTree : Except Err Plan := do
  let L ← plan p
  if u32 (sub32 L.totalObjects objectFirst + 1) < u32 (es.length + 1) then .error .noSpace
  else do
    checkEntries es es.zipIdx
    let root := dirBlocksFor es none L.blockSize
    let (nodes, next) ← place es L.blockSize L.totalBlocks es.zipIdx (u32 (L.firstDataBlock + root))
    if (List.range L.groupCount).any (fun g =>
        Journal.groupHasBackup g && decide (u32 (g * L.blocksPerGroup) < next)) then .error .noSpace
    else if L.totalBlocks < next then .error .noSpace
    else
      let usedBlocks := sub32 next (u32 (L.firstDataBlock + root))
      .ok ⟨{ L with rootBlocks := root, usedBlocks }, nodes⟩

variable (L : Layout)

def buildSuper (location : ℕ) : Sealed Super :=
  ⟨location,
    { blockSize := L.blockSize, blocksPerGroup := L.blocksPerGroup, totalBlocks := L.totalBlocks
      totalObjects := L.totalObjects, freeBlocks := L.freeBlocks, freeObjects := L.freeObjects
      rootObjectId := objectRoot, groupTableStart := L.groupTableStart
      groupTableBlocks := L.groupTableBlocks, objectTableStart := L.objectTableStart
      objectTableBlocks := L.objectTableBlocks, bitmapStart := L.bitmapStart
      bitmapBlocks := L.bitmapBlocks, journalStart := L.journalStart
      journalBlocks := L.journalBlocks, generation := 1, state := .clean }⟩

/-- `group_mark_used`: whether bit `i` of group `g` is set. -/
def taken (g i : ℕ) : Bool :=
  let block := g * L.blocksPerGroup + i
  decide (L.totalBlocks ≤ block) ||
    decide (block < u32 (L.firstDataBlock + L.rootBlocks + L.usedBlocks)) ||
    (Journal.groupHasBackup g && i == 0)

/-- What `group_mark_used` returns: the bits set for blocks of the volume. -/
def usedIn (g : ℕ) : ℕ := ((List.range L.blocksPerGroup).filter fun i =>
    taken L g i && decide (g * L.blocksPerGroup + i < L.totalBlocks)).length

def buildDesc (count g : ℕ) : Sealed GroupDesc :=
  let blocks := if g = L.groupCount - 1 then L.totalBlocks - g * L.blocksPerGroup
    else L.blocksPerGroup
  ⟨g,
    { blockBitmap := L.bitmapStart + 2 * g
      objectBitmap := L.bitmapStart + 2 * g + 1
      objectTable := L.objectTableStart + g * L.objectTableBlocksPerGroup
      freeBlocks := sub32 blocks (usedIn L g)
      freeObjects := if g = 0 then sub32 (sub32 L.objectsPerGroup objectFirst) count
        else L.objectsPerGroup
      hasBackup := Journal.groupHasBackup g }⟩

def buildObject (id : ℕ) (type : ObjectType) (inline : Bool) (size linkCount first count : ℕ)
    (data : Bytes) : Sealed Object :=
  ⟨id,
    { type, inlineFlag := inline, size, linkCount
      extentCount := if count ≠ 0 then 1 else 0
      treeBlock := 0
      extents := if count ≠ 0 then [⟨0, first, count⟩] else []
      inlineData := data }⟩

/-- The record of an entry. The callback fills the inline bytes; it is not asked for none. -/
def entryRecord (bs : ℕ) (e : Entry) (n : Node) : Except Err (Sealed Object) :=
  let links := if e.isDir then 2 + n.childCount else 1
  let size := if e.isDir then n.blockCount * bs else e.size.toNat
  if n.inlineData && e.size != 0 && e.refuses 0 then .error .io
  else .ok (buildObject n.objectId (if e.isDir then .dir else .file) n.inlineData size links
    n.firstBlock n.blockCount
    (fun i => if n.inlineData && decide (i < e.size.toNat) then e.content i else 0))

/-- `close_dir_block`: the last record is stretched to the tail; zeroes become a free record. -/
def closeDirBlock (usable : ℕ) (records : List Dirent) : List Dirent :=
  match records.getLast? with
  | none => [⟨0, usable, []⟩]
  | some r =>
    records.dropLast ++ [{ r with length := usable - (records.dropLast.map Dirent.length).sum }]

def entryDirent (x : Entry × ℕ) : Dirent := ⟨objectFirst + x.2, recordSize x, x.1.name⟩

variable (es : List Entry)

def buildDirBlock (bs : ℕ) (parent : Option ℕ) (selfId parentId index : ℕ) : List Dirent :=
  let dots := if index = 0 then
    [⟨selfId, dirRecordLength 1, dotName⟩, ⟨parentId, dirRecordLength 2, dotDotName⟩] else []
  let picked := Packing.pickLoop recordSize (dirUsableBytes bs) index 0 dotsLength
    (children es parent)
  closeDirBlock (dirUsableBytes bs) (dots ++ picked.map entryDirent)

def owner (nodes : List Node) (block : ℕ) : Option ((Entry × ℕ) × Node) :=
  (es.zipIdx.zip nodes).find? fun x =>
    decide (x.2.blockCount ≠ 0) && decide (x.2.firstBlock ≤ block) &&
      decide (block < x.2.firstBlock + x.2.blockCount)

def parentId : Option ℕ → ℕ
  | none => objectRoot
  | some k => objectFirst + k

def dataBlock (bs : ℕ) (nodes : List Node) (block : ℕ) : Except Err DiskBlock :=
  match owner es nodes block with
  | none => .error .corrupt
  | some ((e, i), n) =>
    let index := block - n.firstBlock
    if e.isDir then
      .ok (.dir ⟨block, buildDirBlock es bs (some i) n.objectId (parentId e.parent) index⟩)
    else if e.refuses (index * bs) then .error .io
    else .ok (.bytes fun k =>
      if k < min bs (e.size.toNat - index * bs) then e.content (index * bs + k) else 0)

def recordSlot (P : Plan) (id : ℕ) : Except Err (Option (Sealed Object)) :=
  if id = objectRoot then
    .ok (some (buildObject id .dir false (P.layout.rootBlocks * P.layout.blockSize) 2
      P.layout.firstDataBlock P.layout.rootBlocks (fun _ => 0)))
  else if objectFirst ≤ id ∧ id < objectFirst + es.length then
    match es[id - objectFirst]?, P.nodes[id - objectFirst]? with
    | some e, some n => (entryRecord P.layout.blockSize e n).map some
    | _, _ => .ok none
  else .ok none

def recordBlock (P : Plan) (firstId : ℕ) : Except Err DiskBlock :=
  let perBlock := P.layout.blockSize / 256
  match (List.range perBlock).findSome? fun i =>
      match recordSlot es P (firstId + i) with
      | .error e => some e
      | .ok _ => none with
  | some e => .error e
  | none => .ok (.records fun i =>
      if i < perBlock then (recordSlot es P (firstId + i)).toOption.join else none)

/-- `wfs_mkfs_block_at`: the regions are told apart in the order of the source. -/
def blockAt (P : Plan) (block : ℕ) : Except Err DiskBlock :=
  let L := P.layout
  if L.totalBlocks ≤ block then .error .badArgs
  else if block = 0 then .ok (.super (buildSuper L 0))
  else if L.groupTableStart ≤ block ∧ block < L.groupTableStart + L.groupTableBlocks then
    let first := (block - L.groupTableStart) * (L.blockSize / 64)
    .ok (.groups fun i =>
      if i < L.blockSize / 64 ∧ first + i < L.groupCount then
        some (buildDesc L es.length (first + i)) else none)
  else if L.journalStart ≤ block ∧ block < u32 (L.journalStart + L.journalBlocks) then
    if block = L.journalStart then .ok (.journal ⟨block, L.blockSize, L.journalBlocks, 1, 1⟩)
    else .ok (.bytes fun _ => 0)
  else if L.objectTableStart ≤ block ∧ block < u32 (L.objectTableStart + L.objectTableBlocks) then
    recordBlock es P ((block - L.objectTableStart) * (L.blockSize / 256))
  else if L.bitmapStart ≤ block ∧ block < u32 (L.bitmapStart + 2 * L.groupCount) then
    let g := (block - L.bitmapStart) / 2
    if (block - L.bitmapStart) % 2 = 0 then
      .ok (.bitmap fun i => decide (i < L.blocksPerGroup) && taken L g i)
    else .ok (.bitmap fun i =>
      g == 0 && decide (i < objectFirst + es.length) && decide (i < 8 * L.blockSize))
  else if block < u32 (L.firstDataBlock + L.rootBlocks) then
    .ok (.dir ⟨block,
      buildDirBlock es L.blockSize none objectRoot objectRoot (block - L.firstDataBlock)⟩)
  else if block < u32 (L.firstDataBlock + L.rootBlocks + L.usedBlocks) then
    dataBlock es L.blockSize P.nodes block
  else if block % L.blocksPerGroup = 0 ∧
      Journal.groupHasBackup (block / L.blocksPerGroup) = true then
    .ok (.super (buildSuper L block))
  else .ok (.bytes fun _ => 0)

/-- `wfs_mkfs_format_tree`: the blocks in ascending order, up to the first that fails. -/
def formatTree (p : Params) (es : List Entry) : Except Err Image :=
  match planTree p es with
  | .error e => .error e
  | .ok P =>
    match (List.range P.layout.totalBlocks).findSome? fun b =>
        match blockAt es P b with
        | .error e => some e
        | .ok _ => none with
    | some e => .error e
    | none => .ok ⟨P.layout.blockSize, fun b => (blockAt es P b).toOption.getD (.bytes fun _ => 0)⟩

namespace Params

variable (p : Params)

def total : ℕ := p.sizeBytes.toNat / blockSizeOf p
def groups : ℕ := (p.total + 8 * blockSizeOf p - 1) / (8 * blockSizeOf p)

def share : ℕ := (objectsTarget p + p.groups - 1) / p.groups

/-- Objects of a group: the target's share in whole blocks of records, or what a bitmap holds. -/
def perGroup : ℕ :=
  let perBlock := blockSizeOf p / 256
  min ((p.share + perBlock - 1) / perBlock * perBlock) (8 * blockSizeOf p)

def metadata : ℕ :=
  1 + (p.groups + blockSizeOf p / 64 - 1) / (blockSizeOf p / 64) + journalLength p p.total +
    p.perGroup / (blockSizeOf p / 256) * p.groups + 2 * p.groups

end Params

def need (es : List Entry) (bs : ℕ) (x : Entry × ℕ) : ℕ :=
  if x.1.isDir then dirBlocksFor es (some x.2) bs
  else if x.1.size.toNat ≤ inlineDataMax then 0
  else (x.1.size.toNat + bs - 1) / bs

def demand (es : List Entry) (bs : ℕ) : ℕ :=
  dirBlocksFor es none bs + (es.zipIdx.map (need es bs)).sum

/-- No sum of the plan leaves its word: each clause is one sum of `wfs_mkfs_plan_tree`, the first
block behind the last run being the largest of those the regions start at. -/
@[mk_iff]
structure Fits (p : Params) (es : List Entry) : Prop where
  blocks : p.total + 8 * blockSizeOf p ≤ 2 ^ 32
  objects : objectsTarget p + p.groups ≤ 2 ^ 32
  records : p.share + blockSizeOf p / 256 ≤ 2 ^ 32
  regions : p.metadata + demand es (blockSizeOf p) < 2 ^ 32
  sizes : ∀ e ∈ es, e.isDir = false → e.size.toNat + blockSizeOf p ≤ 2 ^ 64
  count : es.length + 1 < 2 ^ 32

instance (p : Params) (es : List Entry) : Decidable (Fits p es) :=
  decidable_of_iff' _ (fits_iff p es)

structure Regular (L : Layout) : Prop where
  blockSize_mem : L.blockSize = 4096 ∨ L.blockSize = 8192 ∨ L.blockSize = 16384
  blocksPerGroup_eq : L.blocksPerGroup = 8 * L.blockSize
  total_ge : 16 ≤ L.totalBlocks
  total_le : L.totalBlocks + L.blocksPerGroup ≤ 2 ^ 32
  groupCount_eq : L.groupCount = (L.totalBlocks + L.blocksPerGroup - 1) / L.blocksPerGroup
  perGroup_pos : 0 < L.objectsPerGroup
  perGroup_le : L.objectsPerGroup ≤ L.blocksPerGroup
  perGroup_dvd : L.blockSize / 256 ∣ L.objectsPerGroup
  tablePerGroup_eq : L.objectTableBlocksPerGroup = L.objectsPerGroup / (L.blockSize / 256)
  groupTableStart_eq : L.groupTableStart = 1
  groupTableBlocks_eq : L.groupTableBlocks =
    (L.groupCount + L.blockSize / 64 - 1) / (L.blockSize / 64)
  journalStart_eq : L.journalStart = 1 + L.groupTableBlocks
  journal_pos : 0 < L.journalBlocks
  objectTableStart_eq : L.objectTableStart = L.journalStart + L.journalBlocks
  objectTableBlocks_eq : L.objectTableBlocks = L.objectTableBlocksPerGroup * L.groupCount
  bitmapStart_eq : L.bitmapStart = L.objectTableStart + L.objectTableBlocks
  bitmapBlocks_eq : L.bitmapBlocks = 2 * L.groupCount
  firstDataBlock_eq : L.firstDataBlock = L.bitmapStart + L.bitmapBlocks

variable {p : Params} {es : List Entry} {L : Layout} {P : Plan} {a b : ℕ}

lemma divUp_eq (h : a + b ≤ 2 ^ 32) : divUp a b = (a + b - 1) / b := by
  rw [divUp, u32_of_lt (by omega)]

lemma divUp_le (hb : 0 < b) : (a + b - 1) / b ≤ a := by
  rcases Nat.eq_zero_or_pos a with rfl | ha
  · rw [zero_add, Nat.div_eq_of_lt (by omega)]
  rw [Nat.div_le_iff_le_mul hb]
  have := Nat.le_mul_of_pos_right a hb
  omega

lemma le_divUp_mul (hb : 0 < b) : a ≤ (a + b - 1) / b * b := by
  have := Nat.div_add_mod' (a + b - 1) b
  have := Nat.mod_lt (a + b - 1) hb
  omega

lemma divUp_mul_lt (hb : 0 < b) : (a + b - 1) / b * b < a + b := by
  have := Nat.div_mul_le_self (a + b - 1) b
  omega

lemma perGroup_eq (hpos : 0 < blockSizeOf p / 256) (hobjects : objectsTarget p + p.groups ≤ 2 ^ 32)
    (hrecords : p.share + blockSizeOf p / 256 ≤ 2 ^ 32) :
    min (roundUp (divUp (objectsTarget p) p.groups) (blockSizeOf p / 256)) (8 * blockSizeOf p) =
      p.perGroup := by
  have hround := divUp_mul_lt (a := p.share) hpos
  have hshare : divUp (objectsTarget p) p.groups = p.share := divUp_eq hobjects
  rw [hshare, roundUp, divUp_eq hrecords, u32_of_lt (by omega)]
  rfl

lemma plan_ok (h : plan p = .ok L) :
    (blockSizeOf p = 4096 ∨ blockSizeOf p = 8192 ∨ blockSizeOf p = 16384) ∧
      p.total < 2 ^ 32 ∧ 16 ≤ p.total ∧ L = layout p (blockSizeOf p) ∧
      u32 (L.firstDataBlock + 1) ≤ L.totalBlocks := by
  unfold plan at h
  dsimp only at h
  split_ifs at h with hbs hlarge hsmall hroom
  cases h
  rw [not_lt] at hroom hlarge hsmall
  refine ⟨by tauto, ?_, hsmall, rfl, hroom⟩
  unfold Params.total
  omega

structure InRange (p : Params) : Prop where
  blockSize_mem : blockSizeOf p = 4096 ∨ blockSizeOf p = 8192 ∨ blockSizeOf p = 16384
  total_ge : 16 ≤ p.total
  blocks : p.total + 8 * blockSizeOf p ≤ 2 ^ 32
  objects : objectsTarget p + p.groups ≤ 2 ^ 32
  records : p.share + blockSizeOf p / 256 ≤ 2 ^ 32
  metadata_lt : p.metadata < 2 ^ 32

lemma Fits.inRange (hf : Fits p es) (h : plan p = .ok L) : InRange p := by
  obtain ⟨hbs, -, hge, -, -⟩ := plan_ok h
  have := hf.regions
  exact ⟨hbs, hge, hf.blocks, hf.objects, hf.records, by omega⟩

namespace InRange

variable (h : InRange p)
include h

lemma perBlock_pos : 0 < blockSizeOf p / 256 := by
  have := h.blockSize_mem
  omega

lemma groups_pos : 0 < p.groups := by
  have := h.total_ge
  have := h.blockSize_mem
  exact Nat.div_pos (by omega) (by omega)

lemma groups_le : p.groups ≤ p.total := divUp_le (by have := h.blockSize_mem; omega)

lemma share_pos : 0 < p.share := by
  have hpos := h.groups_pos
  have : 17 ≤ objectsTarget p := by
    unfold objectsTarget objectFirst
    dsimp only
    omega
  exact Nat.div_pos (by omega) hpos

lemma perGroup_pos : 0 < p.perGroup := by
  have hper := h.perBlock_pos
  have hshare := le_divUp_mul (a := p.share) hper
  have := h.share_pos
  unfold Params.perGroup
  dsimp only
  omega

lemma perGroup_dvd : blockSizeOf p / 256 ∣ p.perGroup := by
  unfold Params.perGroup
  rcases min_choice ((p.share + blockSizeOf p / 256 - 1) / (blockSizeOf p / 256) *
    (blockSizeOf p / 256)) (8 * blockSizeOf p) with hm | hm
  · rw [hm]
    exact dvd_mul_left _ _
  · rw [hm]
    rcases h.blockSize_mem with hb | hb | hb <;> rw [hb] <;> decide

lemma divUp_groups : divUp p.total (8 * blockSizeOf p) = p.groups := divUp_eq h.blocks

lemma layout_eq : layout p (blockSizeOf p) =
      { blockSize := blockSizeOf p, blocksPerGroup := 8 * blockSizeOf p, totalBlocks := p.total
        groupCount := p.groups, totalObjects := u32 (p.perGroup * p.groups)
        objectsPerGroup := p.perGroup
        objectTableBlocksPerGroup := p.perGroup / (blockSizeOf p / 256)
        groupTableStart := 1
        groupTableBlocks := (p.groups + blockSizeOf p / 64 - 1) / (blockSizeOf p / 64)
        journalStart := 1 + (p.groups + blockSizeOf p / 64 - 1) / (blockSizeOf p / 64)
        journalBlocks := journalLength p p.total
        objectTableStart := 1 + (p.groups + blockSizeOf p / 64 - 1) / (blockSizeOf p / 64) +
          journalLength p p.total
        objectTableBlocks := p.perGroup / (blockSizeOf p / 256) * p.groups
        bitmapStart := 1 + (p.groups + blockSizeOf p / 64 - 1) / (blockSizeOf p / 64) +
          journalLength p p.total + p.perGroup / (blockSizeOf p / 256) * p.groups
        bitmapBlocks := 2 * p.groups
        firstDataBlock := p.metadata
        rootBlocks := 1, usedBlocks := 0
        freeBlocks := sub32 (sub32 p.total (u32 (p.metadata + 1))) (backupCount p.groups)
        freeObjects := sub32 (u32 (p.perGroup * p.groups)) objectFirst } := by
  have hmeta := h.metadata_lt
  have hgroups := h.groups_le
  have hblocks := h.blocks
  have hg := h.divUp_groups
  have hper := perGroup_eq h.perBlock_pos h.objects h.records
  have htable : divUp p.groups (blockSizeOf p / 64) =
      (p.groups + blockSizeOf p / 64 - 1) / (blockSizeOf p / 64) := divUp_eq (by omega)
  unfold Params.metadata at hmeta ⊢
  unfold layout
  dsimp only
  rw [show p.sizeBytes.toNat / blockSizeOf p = p.total from rfl, hg, hper, htable]
  simp (disch := omega) only [u32_of_lt]

lemma regular : Regular (layout p (blockSizeOf p)) := by
  rw [h.layout_eq]
  constructor
  case blockSize_mem => exact h.blockSize_mem
  case total_ge => exact h.total_ge
  case total_le => exact h.blocks
  case perGroup_pos => exact h.perGroup_pos
  case perGroup_le => exact min_le_right _ _
  case perGroup_dvd => exact h.perGroup_dvd
  case journal_pos =>
    change 0 < journalLength p p.total
    unfold journalLength
    split
    · omega
    · next hj => exact pos_of_ne_zero fun h0 => hj (UInt32.toNat_inj.mp h0)
  all_goals rfl

end InRange

def nodeOf (es : List Entry) (bs : ℕ) (x : Entry × ℕ) (next : ℕ) : Node :=
  ⟨objectFirst + x.2, next, need es bs x, (children es (some x.2)).length,
    !x.1.isDir && decide (x.1.size.toNat ≤ inlineDataMax)⟩

def placed (es : List Entry) (bs : ℕ) : List (Entry × ℕ) → (next : ℕ) → List Node
  | [], _ => []
  | x :: rest, next => nodeOf es bs x next :: placed es bs rest (next + need es bs x)

lemma blocksOf_ok {bs : ℕ} {x : Entry × ℕ} {r : ℕ × Bool} (h : blocksOf es bs x = .ok r)
    (hs : x.1.isDir = false → x.1.size.toNat + bs ≤ 2 ^ 64) :
    r = (need es bs x, !x.1.isDir && decide (x.1.size.toNat ≤ inlineDataMax)) := by
  unfold blocksOf at h
  unfold need
  cases hd : x.1.isDir with
  | true =>
    rw [hd, if_pos rfl] at h
    exact (ok.inj h).symm
  | false =>
    rw [hd, if_neg Bool.false_ne_true] at h
    by_cases hi : x.1.size.toNat ≤ inlineDataMax
    · rw [if_pos hi] at h
      rw [if_pos hi, decide_eq_true hi]
      exact (ok.inj h).symm
    have := hs hd
    rw [if_neg hi, Nat.mod_eq_of_lt (by omega)] at h
    rw [if_neg hi, decide_eq_false hi]
    dsimp only at h
    split at h
    · cases h
    · exact (ok.inj h).symm

lemma place_ok {bs total next stop : ℕ} {xs : List (Entry × ℕ)}
    {nodes : List Node} (h : place es bs total xs next = .ok (nodes, stop))
    (hs : ∀ x ∈ xs, x.1.isDir = false → x.1.size.toNat + bs ≤ 2 ^ 64)
    (hlt : next + (xs.map (need es bs)).sum < 2 ^ 32) :
    nodes = placed es bs xs next ∧ stop = next + (xs.map (need es bs)).sum := by
  induction xs generalizing next nodes stop with
  | nil =>
    cases h
    exact ⟨rfl, rfl⟩
  | cons x xs ih =>
    rw [map_cons, sum_cons] at hlt ⊢
    unfold place at h
    cases hb : blocksOf es bs x with
    | error e =>
      rw [hb] at h
      cases h
    | ok r =>
      have hr := blocksOf_ok hb (hs x mem_cons_self)
      subst hr
      rw [hb] at h
      have hnext : u32 (next + need es bs x) = next + need es bs x := u32_of_lt (by omega)
      simp only [bind, Except.bind, hnext] at h
      split at h
      · cases h
      cases hp : place es bs total xs (next + need es bs x) with
      | error e =>
        rw [hp] at h
        cases h
      | ok r =>
        rw [hp] at h
        obtain ⟨rfl, rfl⟩ := Prod.mk.inj (ok.inj h)
        obtain ⟨hnodes, hstop⟩ := ih hp (fun y hy => hs y (.tail _ hy)) (by omega)
        rw [hnodes, hstop]
        exact ⟨rfl, add_assoc _ _ _⟩

structure Planned (p : Params) (es : List Entry) (P : Plan) : Prop where
  inRange : InRange p
  layout_eq : P.layout = { layout p (blockSizeOf p) with
    rootBlocks := dirBlocksFor es none (blockSizeOf p)
    usedBlocks := (es.zipIdx.map (need es (blockSizeOf p))).sum }
  nodes_eq : P.nodes = placed es (blockSizeOf p) es.zipIdx
    (p.metadata + dirBlocksFor es none (blockSizeOf p))
  entries : checkEntries es es.zipIdx = .ok ()
  count_le : objectFirst + es.length ≤ p.perGroup * p.groups
  fits : p.metadata + demand es (blockSizeOf p) ≤ p.total
  before_backups : ∀ g < p.groups, Journal.groupHasBackup g = true →
    p.metadata + demand es (blockSizeOf p) ≤ g * (8 * blockSizeOf p)

lemma sub32_of_le {a b : ℕ} (h : b ≤ a) : sub32 a b = a - b := if_pos h

lemma InRange.objectFirst_le (h : InRange p) : objectFirst ≤ p.perGroup * p.groups := by
  have hper := Nat.le_of_dvd h.perGroup_pos h.perGroup_dvd
  have hmul := Nat.le_mul_of_pos_right p.perGroup h.groups_pos
  have := h.blockSize_mem
  unfold objectFirst
  omega

lemma InRange.objects_lt (h : InRange p)
    (hb : ∀ g < p.groups, Journal.groupHasBackup g = true → p.metadata ≤ g * (8 * blockSizeOf p)) :
    p.perGroup * p.groups < 2 ^ 32 := by
  have hbs := h.blockSize_mem
  rcases lt_or_ge 1 p.groups with hg | hg
  · have hmeta := hb 1 hg rfl
    have htable : p.perGroup / (blockSizeOf p / 256) * p.groups ≤ 8 * blockSizeOf p := by
      unfold Params.metadata at hmeta
      generalize (p.groups + blockSizeOf p / 64 - 1) / (blockSizeOf p / 64) = t at hmeta
      omega
    calc p.perGroup * p.groups
        = p.perGroup / (blockSizeOf p / 256) * p.groups * (blockSizeOf p / 256) := by
          rw [Nat.mul_right_comm, Nat.div_mul_cancel h.perGroup_dvd]
      _ ≤ 8 * blockSizeOf p * (blockSizeOf p / 256) := Nat.mul_le_mul_right _ htable
      _ < 2 ^ 32 := by rcases hbs with hb | hb | hb <;> rw [hb] <;> decide
  · have hone : p.groups = 1 := le_antisymm hg h.groups_pos
    have : p.perGroup ≤ 8 * blockSizeOf p := min_le_right _ _
    rw [hone, mul_one]
    omega

lemma groups_mul_lt {total per g : ℕ} (h : g < (total + per - 1) / per) : g * per < total := by
  have hper : 0 < per := by
    rcases eq_zero_or_pos per with rfl | h'
    · simp at h
    · exact h'
  have := (Nat.le_div_iff_mul_le hper).mp (Nat.succ_le_of_lt h)
  rw [Nat.succ_mul] at this
  omega

lemma planTree_ok (h : planTree p es = .ok P) (hf : Fits p es) : Planned p es P := by
  unfold planTree at h
  cases hp : plan p with
  | error e =>
    rw [hp] at h
    cases h
  | ok L =>
    have hr := hf.inRange hp
    obtain ⟨-, -, -, rfl, -⟩ := plan_ok hp
    have hreg := hf.regions
    have hL := hr.layout_eq
    unfold demand at hreg
    have hstart : u32 (p.metadata + dirBlocksFor es none (blockSizeOf p)) =
        p.metadata + dirBlocksFor es none (blockSizeOf p) := u32_of_lt (by omega)
    rw [hp] at h
    simp only [bind, Except.bind, hL, hstart] at h
    split at h
    · cases h
    next hcount =>
    cases hc : checkEntries es es.zipIdx with
    | error e =>
      rw [hc] at h
      cases h
    | ok u =>
      rw [hc] at h
      cases hpl : place es (blockSizeOf p) p.total es.zipIdx
          (p.metadata + dirBlocksFor es none (blockSizeOf p)) with
      | error e =>
        rw [hpl] at h
        cases h
      | ok r =>
        obtain ⟨nodes, stop⟩ := r
        obtain ⟨rfl, rfl⟩ := place_ok hpl
          (fun x hx => hf.sizes x.1 (fst_mem_of_mem_zipIdx hx)) (by omega)
        rw [hpl] at h
        dsimp only at h
        split at h
        · cases h
        next hback =>
        split at h
        · cases h
        next hfits =>
        have hbackups : ∀ g < p.groups, Journal.groupHasBackup g = true →
            p.metadata + demand es (blockSizeOf p) ≤ g * (8 * blockSizeOf p) := by
          intro g hg hb
          rw [any_eq_true] at hback
          push Not at hback
          have hlt := groups_mul_lt hg
          have hle := hback g (mem_range.mpr hg)
          have hblocks := hr.blocks
          rw [hb, Bool.true_and, u32_of_lt (by omega), ne_eq, decide_eq_true_eq, not_lt] at hle
          unfold demand
          omega
        have hobjects := hr.objects_lt fun g hg hb => by
          have := hbackups g hg hb
          omega
        have hfirst16 := hr.objectFirst_le
        have hcountLe : objectFirst + es.length ≤ p.perGroup * p.groups := by
          have := hf.count
          rw [u32_of_lt hobjects, sub32_of_le hfirst16] at hcount
          unfold objectFirst at *
          generalize p.perGroup * p.groups = objects at *
          rw [u32_of_lt (by omega), u32_of_lt (by omega)] at hcount
          omega
        rw [sub32_of_le (Nat.le_add_right _ _), Nat.add_sub_cancel_left] at h
        refine ⟨hr, ?_, ?_, hc, hcountLe, ?_, hbackups⟩
        · rw [← ok.inj h, hL]
        · rw [← ok.inj h]
        · unfold demand
          omega

/-- No sum of the plan leaves 32 bits, and no backup superblock falls into the metadata. -/
structure Unwrapped (p : Params) : Prop where
  blocks : p.total + 8 * blockSizeOf p ≤ 2 ^ 32
  objects : objectsTarget p + p.groups ≤ 2 ^ 32
  records : p.share + blockSizeOf p / 256 ≤ 2 ^ 32
  metadata : p.metadata + 1 < 2 ^ 32
  backups : ∀ g < p.groups, Journal.groupHasBackup g = true → p.metadata < g * (8 * blockSizeOf p)

def supported (bs : ℕ) : Prop := bs = 4096 ∨ bs = 8192 ∨ bs = 16384

namespace Layout

def regions (L : Layout) : List (ℕ × ℕ) :=
  [(0, 1), (L.groupTableStart, L.groupTableBlocks), (L.journalStart, L.journalBlocks),
    (L.objectTableStart, L.objectTableBlocks), (L.bitmapStart, L.bitmapBlocks),
    (L.firstDataBlock, L.totalBlocks - L.firstDataBlock)]

def backups (L : Layout) : Finset ℕ :=
  ((range L.groupCount).filter Journal.groupHasBackup).toFinset.image (· * L.blocksPerGroup)

/-- The data blocks behind the root directory's that hold no backup. -/
def leftOver (L : Layout) : Finset ℕ :=
  Finset.Ico (L.firstDataBlock + 1) L.totalBlocks \ L.backups

structure Exact (L : Layout) : Prop where
  groupCount_eq : L.groupCount = (L.totalBlocks + L.blocksPerGroup - 1) / L.blocksPerGroup
  disjoint : L.regions.Pairwise fun r s => r.1 + r.2 ≤ s.1
  inside : ∀ r ∈ L.regions, r.1 + r.2 ≤ L.totalBlocks
  freeBlocks_eq : L.freeBlocks = L.leftOver.card
  freeObjects_eq : L.freeObjects + objectFirst = L.objectsPerGroup * L.groupCount

end Layout

lemma Regular.card_leftOver_iff (hreg : Regular L) :
    L.leftOver.card + backupCount L.groupCount = L.totalBlocks - (L.firstDataBlock + 1) ↔
      ∀ g < L.groupCount, Journal.groupHasBackup g = true →
        L.firstDataBlock < g * L.blocksPerGroup := by
  have hper : 0 < L.blocksPerGroup := by
    have := hreg.blocksPerGroup_eq
    have := hreg.blockSize_mem
    omega
  have hbackups : L.backups.card = backupCount L.groupCount := by
    rw [Layout.backups, Finset.card_image_of_injective _ fun a b hab =>
      Nat.eq_of_mul_eq_mul_right hper hab, toFinset_card_of_nodup (nodup_range.filter _)]
    rfl
  have hall : (Finset.Ico (L.firstDataBlock + 1) L.totalBlocks ∩ L.backups).card =
      backupCount L.groupCount ↔ L.backups ⊆ Finset.Ico (L.firstDataBlock + 1) L.totalBlocks := by
    rw [← hbackups, ← Finset.inter_eq_right]
    exact ⟨fun he => Finset.eq_of_subset_of_card_le Finset.inter_subset_right he.ge,
      congrArg Finset.card⟩
  have hcard := Finset.card_sdiff_add_card_inter
    (Finset.Ico (L.firstDataBlock + 1) L.totalBlocks) L.backups
  rw [Nat.card_Ico] at hcard
  rw [← hcard, Layout.leftOver, Nat.add_left_cancel_iff, eq_comm, hall]
  constructor
  · intro hsub g hg hb
    exact (Finset.mem_Ico.mp (hsub (Finset.mem_image_of_mem _
      (mem_toFinset.mpr (mem_filter.mpr ⟨mem_range.mpr hg, hb⟩))))).1
  · intro hb b hmem
    obtain ⟨g, hg, rfl⟩ := Finset.mem_image.mp hmem
    obtain ⟨hlt, hbackup⟩ := mem_filter.mp (mem_toFinset.mp hg)
    rw [mem_range] at hlt
    exact Finset.mem_Ico.mpr ⟨hb g hlt hbackup, groups_mul_lt (hreg.groupCount_eq ▸ hlt)⟩

namespace Unwrapped

variable (h : Unwrapped p)
include h

lemma inRange (hbs : supported (blockSizeOf p)) (hge : 16 ≤ p.total) : InRange p :=
  ⟨hbs, hge, h.blocks, h.objects, h.records, Nat.lt_of_succ_lt h.metadata⟩

lemma exact (hL : plan p = .ok L) : L.Exact := by
  obtain ⟨hbs, -, hge, rfl, hroom⟩ := plan_ok hL
  have hr := h.inRange hbs hge
  have hreg := hr.regular
  have heq := hr.layout_eq
  have hfirst : (layout p (blockSizeOf p)).firstDataBlock = p.metadata := by rw [heq]
  have htotal : (layout p (blockSizeOf p)).totalBlocks = p.total := rfl
  rw [hfirst, htotal, u32_of_lt h.metadata] at hroom
  constructor
  case groupCount_eq => exact hreg.groupCount_eq
  case disjoint =>
    simp [Layout.regions, hreg.groupTableStart_eq, hreg.journalStart_eq, hreg.objectTableStart_eq,
      hreg.bitmapStart_eq, hreg.firstDataBlock_eq]
    omega
  case inside =>
    have := hreg.firstDataBlock_eq
    have := hreg.bitmapStart_eq
    have := hreg.objectTableStart_eq
    have := hreg.journalStart_eq
    have := hreg.groupTableStart_eq
    simp [Layout.regions]
    omega
  case freeBlocks_eq =>
    have hcard := hreg.card_leftOver_iff.mpr (by rw [heq]; exact h.backups)
    have hfree : (layout p (blockSizeOf p)).freeBlocks = sub32 (sub32 p.total
      (u32 (p.metadata + 1))) (backupCount (layout p (blockSizeOf p)).groupCount) := by rw [heq]
    rw [hfirst, htotal] at hcard
    rw [hfree, u32_of_lt h.metadata, sub32_of_le hroom, sub32_of_le (by omega)]
    omega
  case freeObjects_eq =>
    have hobjects := hr.objects_lt fun g hg hb => (h.backups g hg hb).le
    rw [heq]
    dsimp only
    rw [u32_of_lt hobjects, sub32_of_le hr.objectFirst_le, Nat.sub_add_cancel hr.objectFirst_le]

end Unwrapped

lemma divUp_pos_iff (ha : 0 < a) (hlt : a < 2 ^ 32) (hb : 0 < b) (hb' : b ≤ 2 ^ 32) :
    0 < divUp a b ↔ a + b ≤ 2 ^ 32 := by
  refine ⟨fun hpos => ?_, fun hle => ?_⟩
  · by_contra hwrap
    have hsum : u32 (a + b - 1) = a + b - 1 - 2 ^ 32 := by
      unfold u32
      omega
    rw [divUp, hsum, Nat.div_eq_of_lt (by omega)] at hpos
    exact absurd hpos (lt_irrefl 0)
  · rw [divUp_eq hle]
    exact Nat.div_pos (by omega) hb

namespace Layout.Exact

lemma apart (hE : L.Exact) : L.journalStart + L.journalBlocks ≤ L.objectTableStart ∧
    L.objectTableStart + L.objectTableBlocks ≤ L.bitmapStart ∧
    L.bitmapStart + L.bitmapBlocks ≤ L.firstDataBlock ∧ L.firstDataBlock ≤ L.totalBlocks := by
  have hdisjoint := hE.disjoint
  have hinside := hE.inside (L.firstDataBlock, L.totalBlocks - L.firstDataBlock) (by simp [regions])
  simp only [regions, pairwise_cons, forall_mem_cons] at hdisjoint
  dsimp only at hinside
  omega

/-- A wrapped share of the objects leaves none to a group, so the reserved ids are not there. -/
lemma perGroup_pos (hE : (layout p (blockSizeOf p)).Exact) :
    0 < (layout p (blockSizeOf p)).objectsPerGroup := by
  by_contra hzero
  rw [Nat.pos_iff_ne_zero, not_not] at hzero
  have hfree : (layout p (blockSizeOf p)).freeObjects = sub32 (u32
      ((layout p (blockSizeOf p)).objectsPerGroup * (layout p (blockSizeOf p)).groupCount))
      objectFirst := rfl
  have hobjects := hE.freeObjects_eq
  rw [hfree, hzero, zero_mul] at hobjects
  exact absurd hobjects (by decide)

variable (hbs : supported (blockSizeOf p)) (hge : 16 ≤ p.total) (hlt : p.total < 2 ^ 32)
  (hE : (layout p (blockSizeOf p)).Exact)
include hbs hge hlt hE

lemma blocks : p.total + 8 * blockSizeOf p ≤ 2 ^ 32 := by
  unfold supported at hbs
  refine (divUp_pos_iff (by omega) hlt (by omega) (by omega)).mp ?_
  have hcount : divUp p.total (8 * blockSizeOf p) = p.groups := hE.groupCount_eq
  rw [hcount]
  exact Nat.div_pos (by omega) (by omega)

lemma objects : objectsTarget p + p.groups ≤ 2 ^ 32 ∧ p.share + blockSizeOf p / 256 ≤ 2 ^ 32 := by
  have hblocks := hE.blocks hbs hge hlt
  have hpos := hE.perGroup_pos
  unfold supported at hbs
  have hgroups : divUp p.total (8 * blockSizeOf p) = p.groups := divUp_eq hblocks
  have hgpos : 0 < p.groups := Nat.div_pos (by omega) (by omega)
  have hgle : p.groups ≤ p.total := divUp_le (by omega)
  have htarget : 0 < objectsTarget p ∧ objectsTarget p < 2 ^ 32 := by
    unfold objectsTarget objectFirst
    dsimp only
    omega
  change 0 < min (roundUp (divUp (objectsTarget p) (divUp p.total (8 * blockSizeOf p)))
    (blockSizeOf p / 256)) (8 * blockSizeOf p) at hpos
  rw [hgroups, lt_min_iff, roundUp] at hpos
  have hrecords : 0 < divUp (divUp (objectsTarget p) p.groups) (blockSizeOf p / 256) := by
    refine Nat.pos_of_ne_zero fun hzero => ?_
    rw [hzero, zero_mul] at hpos
    exact absurd hpos.1 (by decide)
  have hshare : 0 < divUp (objectsTarget p) p.groups := by
    refine Nat.pos_of_ne_zero fun hzero => ?_
    rw [hzero, divUp, u32_of_lt (by omega), Nat.div_eq_of_lt (by omega)] at hrecords
    exact absurd hrecords (lt_irrefl 0)
  have hsum := (divUp_pos_iff htarget.1 htarget.2 hgpos (by omega)).mp hshare
  have heq : divUp (objectsTarget p) p.groups = p.share := divUp_eq hsum
  have hle : p.share ≤ objectsTarget p := divUp_le hgpos
  rw [heq] at hshare hrecords
  exact ⟨hsum, (divUp_pos_iff hshare (by omega) (by omega) (by omega)).mp hrecords⟩

lemma inRange : InRange p := by
  have hblocks := hE.blocks hbs hge hlt
  obtain ⟨hobjects, hrecords⟩ := hE.objects hbs hge hlt
  refine ⟨hbs, hge, hblocks, hobjects, hrecords, ?_⟩
  obtain ⟨htable, hbitmaps, hfirst, -⟩ := hE.apart
  unfold supported at hbs
  have hgroups : divUp p.total (8 * blockSizeOf p) = p.groups := divUp_eq hblocks
  have hper := perGroup_eq (by omega) hobjects hrecords
  have hcover : p.groups * (8 * blockSizeOf p) < p.total + 8 * blockSizeOf p :=
    divUp_mul_lt (by omega)
  have hmany := Nat.mul_le_mul_left p.groups (show 32768 ≤ 8 * blockSizeOf p by omega)
  have hdesc : divUp p.groups (blockSizeOf p / 64) =
      (p.groups + blockSizeOf p / 64 - 1) / (blockSizeOf p / 64) := divUp_eq (by omega)
  have hdescs : (p.groups + blockSizeOf p / 64 - 1) / (blockSizeOf p / 64) ≤ p.groups :=
    divUp_le (by omega)
  have hshare : p.perGroup / (blockSizeOf p / 256) ≤ 2048 := by
    have hle : p.perGroup ≤ 8 * blockSizeOf p := min_le_right _ _
    exact Nat.div_le_of_le_mul (by omega)
  have hrows := Nat.mul_le_mul_right p.groups hshare
  unfold layout at htable hbitmaps hfirst
  dsimp only at htable hbitmaps hfirst
  simp only [show p.sizeBytes.toNat / blockSizeOf p = p.total from rfl, hgroups, hper, hdesc]
    at htable hbitmaps hfirst
  unfold Params.metadata
  unfold u32 at htable hbitmaps hfirst
  omega

/-- A backup inside the metadata is subtracted from the free blocks and is not one of them. -/
lemma unwrapped (hroom : u32 ((layout p (blockSizeOf p)).firstDataBlock + 1) ≤
    (layout p (blockSizeOf p)).totalBlocks) : Unwrapped p := by
  have hr := hE.inRange hbs hge hlt
  have heq := hr.layout_eq
  have hlast := hE.apart.2.2.2
  have hblocks := hr.blocks
  have hfree := hE.freeBlocks_eq
  have hleft := hr.regular.card_leftOver_iff
  have hfirst : (layout p (blockSizeOf p)).firstDataBlock = p.metadata := by rw [heq]
  have htotal : (layout p (blockSizeOf p)).totalBlocks = p.total := rfl
  have hgroups : (layout p (blockSizeOf p)).groupCount = p.groups := by rw [heq]
  have hper : (layout p (blockSizeOf p)).blocksPerGroup = 8 * blockSizeOf p := rfl
  have hfrees : (layout p (blockSizeOf p)).freeBlocks =
    sub32 (sub32 p.total (u32 (p.metadata + 1))) (backupCount p.groups) := by rw [heq]
  have hle : (layout p (blockSizeOf p)).leftOver.card ≤ p.total - (p.metadata + 1) := by
    rw [← htotal, ← hfirst, ← Nat.card_Ico]
    exact Finset.card_le_card Finset.sdiff_subset
  have hcount : backupCount p.groups ≤ p.groups := (length_filter_le _ _).trans_eq length_range
  have hgle := hr.groups_le
  unfold supported at hbs
  have hmeta : p.metadata + 1 < 2 ^ 32 := by omega
  rw [hfirst, htotal, u32_of_lt hmeta] at hroom
  rw [hfrees, u32_of_lt hmeta, sub32_of_le hroom] at hfree
  rw [hfirst, htotal, hgroups, hper] at hleft
  refine ⟨hblocks, hr.objects, hr.records, hmeta, hleft.mp ?_⟩
  unfold sub32 at hfree
  split_ifs at hfree <;> omega

end Layout.Exact

/-- The divisor of the plan is not zero exactly when the sum it is rounded up from stays in 32 bits.
A plan that succeeds has its groups cover the volume, its regions apart and inside it, and its
counters what is left over, exactly when no sum wraps and no backup lies in the metadata. -/
theorem plan_exact (p : Params) : (supported (blockSizeOf p) → 16 ≤ p.total → p.total < 2 ^ 32 →
      (0 < divUp p.total (8 * blockSizeOf p) ↔ p.total + 8 * blockSizeOf p ≤ 2 ^ 32)) ∧
      ∀ L, plan p = .ok L → (L.Exact ↔ Unwrapped p) := by
  refine ⟨fun hbs hge hlt => ?_, fun L hL => ⟨fun hE => ?_, fun h => h.exact hL⟩⟩
  · unfold supported at hbs
    exact divUp_pos_iff (by omega) hlt (by omega) (by omega)
  · obtain ⟨hbs, hlt, hge, rfl, hroom⟩ := plan_ok hL
    exact hE.unwrapped hbs hge hlt hroom

theorem plan_exact_gigabyte : ∃ L, plan ⟨0x40000000, 0, 0, 0⟩ = .ok L ∧ L.Exact :=
  ⟨_, rfl, ((plan_exact ⟨0x40000000, 0, 0, 0⟩).2 _ rfl).mpr ⟨by decide +kernel, by decide +kernel,
    by decide +kernel, by decide +kernel, by decide +kernel⟩⟩

/-- A volume of 2³² − 1 blocks is planned with a division by no groups, and a journal of
2³² − 2 blocks puts the object table over the superblock. -/
theorem plan_wraps : divUp (Params.total ⟨0xFFFFFFFF000, 0, 0, 0⟩) (8 * 4096) = 0 ∧
      ∃ L, plan ⟨0x40000000, 0, 0, 0xFFFFFFFE⟩ = .ok L ∧ L.objectTableStart = 0 ∧
        0 < L.objectTableBlocks := by
  refine ⟨by decide +kernel, _, rfl, ?_⟩
  decide +kernel

end Wfs.Mkfs
