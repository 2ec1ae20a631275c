import Mathlib.Algebra.Order.Floor.Div
import Mathlib.Data.Nat.Bitwise
import WasmOS.ByteImage.Fields
import WasmOS.Wfs.Journal.CrashAtomic
import WasmOS.Wfs.Volume.Session

/-! # The superblock and the log records, byte by byte

A CRC-32C seeded with the volume's identity and the place of a structure seals it. What
`wfs_super_parse` accepts is a sound geometry, as long as the group count stays inside 32 bits.
Recovery decodes from the log what `wfs_txn_commit_task` encoded.
-/

namespace Wfs.OnDisk

open ByteImage Journal List

/-- One round of `build_table`. -/
def crcRound (crc : ℕ) : ℕ := crc >>> 1 ^^^ if crc % 2 = 1 then 0x82F63B78 else 0

def crcTable (i : ℕ) : ℕ := crcRound^[8] i

/-- `wfs_crc32c_update`. -/
def crcUpdate (crc : ℕ) (data : List UInt8) : ℕ :=
  data.foldl (fun crc b => crcTable ((crc ^^^ b.toNat) &&& 0xFF) ^^^ crc >>> 8) crc

def crcInit : ℕ := 0xFFFFFFFF

def crcFinish (crc : ℕ) : ℕ := crc ^^^ 0xFFFFFFFF

-- the check value of CRC-32C, over the text "123456789"
example : crcFinish (crcUpdate crcInit [49, 50, 51, 52, 53, 54, 55, 56, 57]) = 0xE3069283 := by
  decide +kernel

/-- `wfs_crc32c_seed`; the location is serialised little-endian. -/
def crcSeed (uuid : List UInt8) (location : ℕ) : ℕ :=
  crcUpdate (crcUpdate crcInit uuid) (bytes (put (fun _ => 0) 0 8 location) 0 8)

/-- `wfs_checksum_struct` of the `size` bytes of `p`, whose checksum stands at `offset`. -/
def checksumStruct (uuid : List UInt8) (location : ℕ) (p : Bytes) (size offset : ℕ) : ℕ :=
  if size < offset + 4 then 0
  else crcFinish (crcUpdate (crcUpdate (crcUpdate (crcSeed uuid location) (bytes p 0 offset))
    [0, 0, 0, 0]) (bytes p (offset + 4) (size - offset - 4)))

def rd32 (p : Bytes) (off : ℕ) : ℕ := field p off 4

lemma crcRound_lt {crc : ℕ} (h : crc < 2 ^ 32) : crcRound crc < 2 ^ 32 := by
  apply Nat.xor_lt_two_pow
  · rw [Nat.shiftRight_eq_div_pow]
    omega
  · split <;> decide

lemma crcUpdate_lt {crc : ℕ} (h : crc < 2 ^ 32) (data : List UInt8) :
    crcUpdate crc data < 2 ^ 32 := by
  have htable : ∀ k i, i < 2 ^ 32 → crcRound^[k] i < 2 ^ 32 := by
    intro k
    induction k with
    | zero => exact fun i hi => hi
    | succ k ih => exact fun i hi => ih _ (crcRound_lt hi)
  induction data generalizing crc with
  | nil => exact h
  | cons b data ih =>
    apply ih
    apply Nat.xor_lt_two_pow
    · apply htable
      exact lt_of_le_of_lt Nat.and_le_right (by decide)
    · rw [Nat.shiftRight_eq_div_pow]
      omega

variable {uuid : List UInt8} {location size offset : ℕ} {p q : Bytes}

lemma checksumStruct_lt : checksumStruct uuid location p size offset < 2 ^ 32 := by
  unfold checksumStruct
  split
  · decide
  apply Nat.xor_lt_two_pow
  · apply crcUpdate_lt
    apply crcUpdate_lt
    apply crcUpdate_lt
    apply crcUpdate_lt
    exact crcUpdate_lt (by decide) _
  · decide

lemma checksumStruct_congr (hlo : AgreeOn 0 offset p q) (hhi : AgreeOn (offset + 4) size p q) :
    checksumStruct uuid location p size offset = checksumStruct uuid location q size offset := by
  unfold checksumStruct
  split
  · rfl
  next hsize =>
  rw [bytes_congr (hlo.mono le_rfl (by omega)), bytes_congr (hhi.mono (le_rfl) (by omega))]

def sealStruct (uuid : List UInt8) (location : ℕ) (p : Bytes) (size offset : ℕ) : Bytes :=
  put p offset 4 (checksumStruct uuid location p size offset)

lemma checksumStruct_sealStruct :
    checksumStruct uuid location (sealStruct uuid location p size offset) size offset =
      rd32 (sealStruct uuid location p size offset) offset := by
  have hfield : rd32 (sealStruct uuid location p size offset) offset =
      checksumStruct uuid location p size offset := by
    rw [rd32, sealStruct, field_put]
    exact Nat.mod_eq_of_lt checksumStruct_lt
  rw [hfield]
  exact checksumStruct_congr (agreeOn_put (.inl (le_rfl))) (agreeOn_put (.inr (le_rfl)))

def superSize : ℕ := 1024
def superMagic : ℕ := 0x31534657
def featureIncompatSupported : ℕ := 7
def checksumOffset : ℕ := 160

variable (p : Bytes)

def rd64 (off : ℕ) : ℕ := field p off 8

structure Region where
  start : ℕ
  blocks : ℕ
  deriving DecidableEq, Repr

/-- `wfs_super_t`. -/
structure Superblock where
  blockSize : ℕ
  blocksPerGroup : ℕ
  groupCount : ℕ
  totalBlocks : ℕ
  totalObjects : ℕ
  freeBlocks : ℕ
  freeObjects : ℕ
  rootObjectId : ℕ
  groupTable : Region
  objectTable : Region
  bitmap : Region
  journal : Region
  generation : ℕ
  featureCompat : ℕ
  featureRoCompat : ℕ
  featureIncompat : ℕ
  state : ℕ
  uuid : List UInt8
  readOnly : Bool
  needsReplay : Bool
  deriving DecidableEq, Repr

def check (c : Prop) [Decidable c] (e : Err) : Except Err Unit := if c then .ok () else .error e

/-- `fits_u32`, with the refusal its callers make of it. -/
def fitsU32 (v : ℕ) : Except Err ℕ := if 0xFFFFFFFF < v then .error .volumeTooLarge else .ok v

def fitsRegion (off : ℕ) : Except Err Region := do
  let start ← fitsU32 (rd64 p off)
  let blocks ← fitsU32 (rd64 p (off + 8))
  pure ⟨start, blocks⟩

def groupCount (totalBlocks blocksPerGroup : ℕ) : ℕ :=
  (totalBlocks + blocksPerGroup - 1) % 2 ^ 32 / blocksPerGroup

/-- `wfs_super_parse`; `location` seeds the checksum. -/
def superParse (len location : ℕ) : Except Err Superblock := do
  check (superSize ≤ len) .badArgs
  check (rd32 p 0 = superMagic) .badMagic
  check (rd32 p 4 = 1) .version
  let uuid := bytes p 144 16
  check (checksumStruct uuid location p superSize checksumOffset = rd32 p checksumOffset) .checksum
  let featureRoCompat := rd32 p 132
  let featureIncompat := rd32 p 136
  check (featureIncompat &&& (0xFFFFFFFF ^^^ featureIncompatSupported) = 0) .featureIncompat
  let blockSize := rd32 p 8
  check (blockSize = 4096 ∨ blockSize = 8192 ∨ blockSize = 16384) .geometry
  let blocksPerGroup := rd32 p 12
  check (blocksPerGroup = blockSize * 8) .geometry
  let totalBlocks ← fitsU32 (rd64 p 16)
  let totalObjects ← fitsU32 (rd64 p 24)
  check (totalBlocks ≠ 0) .corrupt
  let rootObjectId ← fitsU32 (rd64 p 48)
  let groupTable ← fitsRegion p 56
  let objectTable ← fitsRegion p 72
  let bitmap ← fitsRegion p 88
  let journal ← fitsRegion p 104
  let freeBlocks ← fitsU32 (rd64 p 32)
  let freeObjects ← fitsU32 (rd64 p 40)
  check (groupTable.start < totalBlocks ∧ objectTable.start < totalBlocks ∧
    bitmap.start < totalBlocks ∧ journal.start < totalBlocks) .corrupt
  check (groupTable.blocks ≤ totalBlocks - groupTable.start ∧
    objectTable.blocks ≤ totalBlocks - objectTable.start ∧
    bitmap.blocks ≤ totalBlocks - bitmap.start ∧
    journal.blocks ≤ totalBlocks - journal.start) .corrupt
  check (rootObjectId = objectRoot) .corrupt
  let groups := groupCount totalBlocks blocksPerGroup
  check (groups ≤ groupTable.blocks * (blockSize / 64) % 2 ^ 32) .corrupt
  let state := rd32 p 140
  check (state = 1 ∨ state = 2 ∨ state = 3) .corrupt
  pure
    { blockSize, blocksPerGroup, groupCount := groups, totalBlocks, totalObjects, freeBlocks
      freeObjects, rootObjectId, groupTable, objectTable, bitmap, journal
      generation := rd64 p 120, featureCompat := rd32 p 128, featureRoCompat, featureIncompat
      state, uuid
      readOnly := featureRoCompat != 0 || state == 3
      needsReplay := state == 2 }

/-- The call on the caller's record: the error, and what the record holds afterwards. -/
def superParseInto (len location : ℕ) (out : Superblock) : Option Err × Superblock :=
  match superParse p len location with
  | .ok sb => (none, sb)
  | .error e => (some e, out)

section Accepted

variable {α : Type} {e : Err} {x : α}

@[simp] lemma check_bind_ok {c : Prop} [Decidable c] {f : Unit → Except Err α} :
    (check c e >>= f) = .ok x ↔ c ∧ f () = .ok x := by
  unfold check
  split
  · next h => exact ⟨fun hf => ⟨h, hf⟩, fun hf => hf.2⟩
  · next h => exact ⟨fun hf => (by cases hf), fun hf => absurd hf.1 h⟩

@[simp] lemma fitsU32_bind_ok {v : ℕ} {f : ℕ → Except Err α} :
    (fitsU32 v >>= f) = .ok x ↔ v < 2 ^ 32 ∧ f v = .ok x := by
  unfold fitsU32
  split
  · next h => exact ⟨fun hf => (by cases hf), fun hf => by omega⟩
  · next h => exact ⟨fun hf => ⟨by omega, hf⟩, fun hf => hf.2⟩

@[simp] lemma fitsRegion_bind_ok {p : Bytes} {off : ℕ} {f : Region → Except Err α} :
    (fitsRegion p off >>= f) = .ok x ↔ rd64 p off < 2 ^ 32 ∧ rd64 p (off + 8) < 2 ^ 32 ∧
      f ⟨rd64 p off, rd64 p (off + 8)⟩ = .ok x := by
  simp [fitsRegion, fitsU32_bind_ok]

end Accepted

def Region.Inside (r : Region) (totalBlocks : ℕ) : Prop :=
  r.start < totalBlocks ∧ r.start + r.blocks ≤ totalBlocks

namespace Superblock

def narrowed (sb : Superblock) : List (ℕ × ℕ) :=
  [(sb.totalBlocks, 16), (sb.totalObjects, 24), (sb.freeBlocks, 32), (sb.freeObjects, 40),
    (sb.rootObjectId, 48), (sb.groupTable.start, 56), (sb.groupTable.blocks, 64),
    (sb.objectTable.start, 72), (sb.objectTable.blocks, 80), (sb.bitmap.start, 88),
    (sb.bitmap.blocks, 96), (sb.journal.start, 104), (sb.journal.blocks, 112)]

structure Sound (sb : Superblock) (p : Bytes) : Prop where
  groupCount : sb.groupCount = sb.totalBlocks ⌈/⌉ sb.blocksPerGroup
  groupCount_pos : 1 ≤ sb.groupCount
  described : sb.groupCount ≤ sb.groupTable.blocks * (sb.blockSize / 64)
  inside : ∀ r ∈ [sb.groupTable, sb.objectTable, sb.bitmap, sb.journal], r.Inside sb.totalBlocks
  narrowed : ∀ f ∈ sb.narrowed, f.1 = rd64 p f.2

end Superblock

variable {p : Bytes} {len location : ℕ} {sb out : Superblock}

lemma groupCount_eq {n k : ℕ} (h : n + k ≤ 2 ^ 32) : groupCount n k = n ⌈/⌉ k := by
  have hlt : n + k - 1 < 2 ^ 32 := by omega
  rw [groupCount, Nat.ceilDiv_eq_add_pred_div, Nat.mod_eq_of_lt hlt]

/-- A sum cut off by 32 bits gives too few groups. -/
lemma groupCount_lt {n k : ℕ} (hk : 0 < k) (hkw : k ≤ 2 ^ 32) (h : 2 ^ 32 < n + k)
    (hn : n < 2 ^ 32) : groupCount n k < n ⌈/⌉ k := by
  rw [groupCount, Nat.ceilDiv_eq_add_pred_div]
  have hcut : (n + k - 1) % 2 ^ 32 + k ≤ n + k - 1 := by omega
  calc (n + k - 1) % 2 ^ 32 / k < ((n + k - 1) % 2 ^ 32 + k) / k := by
        rw [Nat.add_div_right _ hk]
        exact Nat.lt_succ_self _
    _ ≤ (n + k - 1) / k := Nat.div_le_div_right hcut

/-- What is accepted is sound exactly if the block count leaves room for the rounding. -/
lemma superParse_sound_iff (h : superParse p len location = .ok sb) :
    sb.Sound p ↔ rd64 p 16 + rd32 p 12 ≤ 2 ^ 32 := by
  simp only [superParse, check_bind_ok, fitsU32_bind_ok, fitsRegion_bind_ok] at h
  obtain ⟨-, -, -, -, -, hsize, hgroup, hfit, -, hpos, -, -, -, -, -, -, -, -, -, -, -, hstart,
    hblocks, -, htable, -, hsb⟩ := h
  cases hsb
  have hk : 0 < rd32 p 12 := by omega
  constructor
  · intro hs
    by_contra hwrap
    have := field_lt p 12 4
    exact (groupCount_lt hk (by unfold rd32; omega) (by omega) (by omega)).ne hs.groupCount
  intro hroom
  have hcount := groupCount_eq hroom
  constructor
  · exact hcount
  · rw [hcount, Nat.one_le_iff_ne_zero, Nat.ceilDiv_eq_add_pred_div, Nat.ne_zero_iff_zero_lt]
    exact Nat.div_pos (by omega) hk
  · exact htable.trans (Nat.mod_le _ _)
  · clear hcount htable
    simp only [List.forall_mem_cons, Region.Inside, List.not_mem_nil, false_implies,
      implies_true, and_true]
    omega
  · simp [Superblock.narrowed]

/-- An accepted geometry is sound exactly if the block count leaves room for the rounding, and a
refusal leaves the caller's record alone. -/
theorem superParseInto_spec (p : Bytes) (len location : ℕ) (out : Superblock) :
    ((superParseInto p len location out).1 = none →
      ((superParseInto p len location out).2.Sound p ↔ rd64 p 16 + rd32 p 12 ≤ 2 ^ 32)) ∧
    ((superParseInto p len location out).1 ≠ none →
      (superParseInto p len location out).2 = out) := by
  unfold superParseInto
  split
  · next sb h => exact ⟨fun _ => superParse_sound_iff h, fun hne => absurd rfl hne⟩
  constructor
  · intro h
    cases h
  · exact fun _ => rfl

def formatSuper (totalBlocks : ℕ) : Bytes :=
  let fields := [(0, superMagic), (4, 1), (8, 4096), (12, 32768), (16, totalBlocks), (48, 1),
    (56, 1), (64, 2), (72, 3), (80, 1), (88, 4), (96, 1), (104, 5), (112, 28), (140, 1)]
  let image := fields.foldl (fun n f => n + f.2 <<< (8 * f.1)) 0
  sealStruct (List.replicate 16 0) 0 (fun i => UInt8.ofNat (image >>> (8 * i))) superSize
    checksumOffset

def blankSuper : Superblock :=
  ⟨0, 0, 0, 0, 0, 0, 0, 0, ⟨0, 0⟩, ⟨0, 0⟩, ⟨0, 0⟩, ⟨0, 0⟩, 0, 0, 0, 0, 0, [], false, false⟩

/-- A volume of 2³² − 1 blocks is accepted as one of no groups. -/
theorem superParseInto_wraps :
    (superParseInto (formatSuper (2 ^ 32 - 1)) 1024 0 blankSuper).1 = none ∧
      (superParseInto (formatSuper (2 ^ 32 - 1)) 1024 0 blankSuper).2.totalBlocks = 2 ^ 32 - 1 ∧
      (superParseInto (formatSuper (2 ^ 32 - 1)) 1024 0 blankSuper).2.groupCount = 0 := by
  decide +kernel

theorem superParseInto_spec_formatSuper :
    rd64 (formatSuper 40000) 16 + rd32 (formatSuper 40000) 12 ≤ 2 ^ 32 ∧
      (superParseInto (formatSuper 40000) 1024 0 blankSuper).1 = none ∧
      (superParseInto (formatSuper 40000) 1024 0 blankSuper).2.Sound (formatSuper 40000) := by
  have hroom : rd64 (formatSuper 40000) 16 + rd32 (formatSuper 40000) 12 ≤ 2 ^ 32 := by
    decide +kernel
  have hok : (superParseInto (formatSuper 40000) 1024 0 blankSuper).1 = none := by
    decide +kernel
  exact ⟨hroom, hok, ((superParseInto_spec _ _ _ _).1 hok).mpr hroom⟩

def journalMagic : ℕ := 0x4A534657

variable (d : Bytes)

def beginLogBlock (blockSize type sequence : ℕ) : Bytes :=
  put (put (put (zeroFill d 0 blockSize) 0 4 journalMagic) 4 4 type) 8 8 sequence

def journalSeal (uuid : List UInt8) (block : ℕ) (d : Bytes) (blockSize : ℕ) : Bytes :=
  sealStruct uuid block (put d 16 4 0) blockSize 16

def journalVerify (uuid : List UInt8) (block : ℕ) (d : Bytes) (blockSize : ℕ) : Bool :=
  rd32 d 0 == journalMagic && rd32 d 16 == checksumStruct uuid block d blockSize 16

def putEach {α : Type} (write : Bytes → ℕ → Bool → α → Bytes) (stride : ℕ) :
    Bytes → (off : ℕ) → List α → Bytes
  | d, _, [] => d
  | d, off, a :: as => putEach write stride (write d off as.isEmpty a) (off + stride) as

def putTarget (off : ℕ) (last : Bool) (t : TxnTarget) : Bytes :=
  put (put (put d off 8 t.target) (off + 8) 4 (if last then 1 else 0)) (off + 12) 4 t.checksum

def putRevoke (off : ℕ) (_ : Bool) (block : ℕ) : Bytes := put d off 8 block

section Encode

variable (uuid : List UInt8) (blockSize : ℕ) (j : Log) (d : Bytes)

def descriptorImage : Bytes := journalSeal uuid j.descriptorBlock
    (putEach putTarget 16 (beginLogBlock d blockSize 1 j.sequence) 24 j.targets) blockSize

def revokeImage : Bytes := journalSeal uuid j.revokeBlock (putEach putRevoke 8
    (put (beginLogBlock d blockSize 3 j.sequence) 24 4 j.revokes.length) 32 j.revokes) blockSize

def commitImage : Bytes := journalSeal uuid j.commitBlock
    (put (beginLogBlock d blockSize 2 j.sequence) 24 4 j.targets.length) blockSize

end Encode

/-- `record_is_live`, for a record of the given type. -/
def recordIsLive (uuid : List UInt8) (blockSize : ℕ) (d : Bytes) (block sequence type : ℕ) : Bool :=
  journalVerify uuid block d blockSize && rd64 d 8 == sequence && rd32 d 4 == type

variable (g : Geometry)

/-- The target record at `off` and whether it is the last one; none at a zero target. -/
def takeTarget (d : Bytes) (off : ℕ) : Except Err (Option ((ℕ × ℕ) × Bool)) :=
  if g.blockSize < off + 16 then .error .journal
  else if rd64 d off = 0 then .ok none
  else if !g.targetIsLegal (rd64 d off) then .error .corrupt
  else .ok (some ((rd64 d off % 2 ^ 32, rd32 d (off + 12)), rd32 d (off + 8) % 2 == 1))

def parseTargets (g : Geometry) (d : Bytes) : (left off : ℕ) → Except Err (List (ℕ × ℕ))
  | 0, off => do
    match ← takeTarget g d off with
    | none => .ok []
    | some _ => .error .journal
  | left + 1, off => do
    match ← takeTarget g d off with
    | none => .ok []
    | some (taken, true) => .ok [taken]
    | some (taken, false) => do
      let rest ← parseTargets g d left (off + 16)
      .ok (taken :: rest)

def parseDescriptor (d : Bytes) : Except Err (List (ℕ × ℕ)) := parseTargets g d txnMaxTargets 24

def parseBlocks (g : Geometry) (d : Bytes) : (count off : ℕ) → Except Err (List ℕ)
  | 0, _ => .ok []
  | count + 1, off =>
    if !g.targetIsLegal (rd64 d off) then .error .corrupt
    else do
      let rest ← parseBlocks g d count (off + 8)
      .ok (rd64 d off % 2 ^ 32 :: rest)

def parseRevoke (d : Bytes) : Except Err (List ℕ) :=
  let count := rd32 d 24
  if txnMaxRevokes < count ∨ g.blockSize < 32 + count * 8 then .error .journal
  else parseBlocks g d count 32

variable {uuid : List UInt8} {block blockSize type sequence off n off' n' v : ℕ} {d p q : Bytes}

lemma field_put_ne (h : off' + n' ≤ off ∨ off + n ≤ off') :
    field (put p off n v) off' n' = field p off' n' := field_congr (agreeOn_put h)

lemma journalSeal_live (hp : AgreeOn 0 16 p (beginLogBlock d blockSize type sequence))
    (hseq : sequence < 2 ^ 64) (htype : type < 2 ^ 32) :
    recordIsLive uuid blockSize (journalSeal uuid block p blockSize)
      block sequence type = true := by
  have hkeep : AgreeOn 0 16 (journalSeal uuid block p blockSize) p :=
    (agreeOn_put (.inl le_rfl)).trans (agreeOn_put (.inl le_rfl))
  have hhead := hkeep.trans hp
  have hmagic : rd32 (journalSeal uuid block p blockSize) 0 = journalMagic := by
    rw [rd32, field_congr (hhead.mono le_rfl (by omega)), beginLogBlock,
      field_put_ne (by omega), field_put_ne (by omega), field_put]
    rfl
  have htype' : rd32 (journalSeal uuid block p blockSize) 4 = type := by
    rw [rd32, field_congr (hhead.mono (by omega) (by omega)), beginLogBlock,
      field_put_ne (by omega), field_put]
    exact Nat.mod_eq_of_lt htype
  have hseq' : rd64 (journalSeal uuid block p blockSize) 8 = sequence := by
    rw [rd64, field_congr (hhead.mono (by omega) (by omega)), beginLogBlock, field_put]
    exact Nat.mod_eq_of_lt hseq
  rw [recordIsLive, journalVerify, hmagic, htype', hseq']
  simp [journalSeal, checksumStruct_sealStruct]

lemma journalSeal_body {hi : ℕ} : AgreeOn 24 hi (journalSeal uuid block p blockSize) p :=
  (agreeOn_put (.inr (by omega))).trans (agreeOn_put (.inr (by omega)))

lemma putEach_agree {α : Type} {write : Bytes → ℕ → Bool → α → Bytes} {stride : ℕ}
    (hw : ∀ d off last a, AgreeOn 0 off (write d off last a) d) (as : List α) :
    ∀ d off, AgreeOn 0 off (putEach write stride d off as) d := by
  induction as with
  | nil => exact fun _ _ => .refl
  | cons a as ih =>
    intro d off
    exact ((ih _ (off + stride)).mono le_rfl (by omega)).trans (hw d off as.isEmpty a)

lemma putTarget_agree (d : Bytes) (off : ℕ) (last : Bool) (t : TxnTarget) :
    AgreeOn 0 off (putTarget d off last t) d :=
  ((agreeOn_put (.inl (by omega))).trans (agreeOn_put (.inl (by omega)))).trans
    (agreeOn_put (.inl le_rfl))

lemma putRevoke_agree (d : Bytes) (off : ℕ) (last : Bool) (b : ℕ) :
    AgreeOn 0 off (putRevoke d off last b) d := agreeOn_put (.inl le_rfl)

section Decode

variable {g : Geometry} (h32 : g.totalBlocks ≤ 2 ^ 32)
include h32

lemma legal_bounds {b : ℕ} (h : g.targetIsLegal b = true) : b ≠ 0 ∧ b < 2 ^ 32 := by
  rw [Geometry.targetIsLegal_iff] at h
  omega

lemma parseTargets_putEach {ts : List TxnTarget} (hne : ts ≠ [])
    (hlegal : ∀ u ∈ ts, g.targetIsLegal u.target = true) (hcrc : ∀ u ∈ ts, u.checksum < 2 ^ 32) :
    ∀ {left off d}, ts.length ≤ left → off + ts.length * 16 ≤ g.blockSize →
      AgreeOn off (off + ts.length * 16) p (putEach putTarget 16 d off ts) →
      parseTargets g p left off = .ok (ts.map fun u => (u.target, u.checksum)) := by
  induction ts with
  | nil => exact absurd rfl hne
  | cons t ts ih =>
    intro left off d hleft hroom hp
    rw [length_cons] at hleft hroom hp
    rw [putEach] at hp
    obtain ⟨left, rfl⟩ : ∃ l, left = l + 1 := ⟨left - 1, by omega⟩
    have hrec : AgreeOn off (off + 16) p (putTarget d off ts.isEmpty t) :=
      (hp.mono le_rfl (by omega)).trans
        ((putEach_agree putTarget_agree ts _ (off + 16)).mono (by omega) le_rfl)
    have ht := hlegal t (.head _)
    obtain ⟨h0, hlt⟩ := legal_bounds h32 ht
    have htarget : rd64 p off = t.target := by
      rw [rd64, field_congr (hrec.mono le_rfl (by omega)), putTarget, field_put_ne (by omega),
        field_put_ne (by omega), field_put]
      exact Nat.mod_eq_of_lt (hlt.trans (by decide))
    have hflags : rd32 p (off + 8) = if ts.isEmpty then 1 else 0 := by
      rw [rd32, field_congr (hrec.mono (by omega) (by omega)), putTarget, field_put_ne (by omega),
        field_put]
      exact Nat.mod_eq_of_lt (by split <;> decide)
    have hsum : rd32 p (off + 12) = t.checksum := by
      rw [rd32, field_congr (hrec.mono (by omega) (by omega)), putTarget, field_put]
      exact Nat.mod_eq_of_lt (hcrc t (.head _))
    have htake : takeTarget g p off = .ok (some ((t.target, t.checksum), ts.isEmpty)) := by
      rw [takeTarget, if_neg (by omega), htarget, if_neg h0, ht, if_neg (by simp), hsum, hflags,
        Nat.mod_eq_of_lt hlt]
      cases ts <;> rfl
    rw [parseTargets, htake]
    cases ts with
    | nil => rfl
    | cons u us =>
      have hrest := ih (cons_ne_nil u us) (fun x hx => hlegal x (.tail _ hx))
        (fun x hx => hcrc x (.tail _ hx)) (Nat.le_of_succ_le_succ hleft)
        (by omega) (hp.mono (by omega) (by omega))
      simp only [isEmpty_cons, bind, Except.bind, hrest]
      rfl

lemma parseBlocks_putEach {bs : List ℕ} (hlegal : ∀ b ∈ bs, g.targetIsLegal b = true) :
    ∀ {off d}, AgreeOn off (off + bs.length * 8) p (putEach putRevoke 8 d off bs) →
      parseBlocks g p bs.length off = .ok bs := by
  induction bs with
  | nil => exact fun _ => rfl
  | cons b bs ih =>
    intro off d hp
    rw [length_cons, putEach] at hp
    have hrec : AgreeOn off (off + 8) p (putRevoke d off bs.isEmpty b) :=
      (hp.mono le_rfl (by omega)).trans
        ((putEach_agree putRevoke_agree bs _ (off + 8)).mono (by omega) le_rfl)
    have hb := hlegal b (.head _)
    have hlt := (legal_bounds h32 hb).2
    have hblock : rd64 p off = b := by
      rw [rd64, field_congr hrec, putRevoke, field_put]
      exact Nat.mod_eq_of_lt (hlt.trans (by decide))
    have hrest := ih (fun x hx => hlegal x (.tail _ hx)) (hp.mono (by omega) (by omega))
    rw [length_cons, parseBlocks, hblock, hb, hrest, Nat.mod_eq_of_lt hlt]
    rfl

end Decode

def replayBlock (start index : ℕ) : ℕ := start + 1 + 1 + index

/-- Recovery reads from the blocks of a commit what it wrote, and each image from where it was
staged. -/
theorem log_records_decode {β : Type} {F : Format β} {t : Txn β} {j : Log}
    {dev : Disk β} (h : OpenTxn F t j dev) (hstart : j.start = F.journalStart)
    (h32 : F.totalBlocks ≤ 2 ^ 32) (hseq : j.sequence < 2 ^ 64)
    (hcrc : ∀ u ∈ j.targets, u.checksum < 2 ^ 32) (uuid : List UInt8) (d d' d'' : Bytes) :
    let desc := descriptorImage uuid F.blockSize j d
    let rev := revokeImage uuid F.blockSize j d'
    let commit := commitImage uuid F.blockSize j d''
    (recordIsLive uuid F.blockSize desc (j.start + 1) j.sequence 1 = true ∧
      parseDescriptor F.toGeometry desc = .ok (j.targets.map fun u => (u.target, u.checksum))) ∧
    (j.revokes ≠ [] →
      recordIsLive uuid F.blockSize rev (replayBlock j.start j.targets.length) j.sequence 3 = true ∧
      parseRevoke F.toGeometry rev = .ok j.revokes) ∧
    (recordIsLive uuid F.blockSize commit (replayBlock j.start j.targets.length +
        if j.revokes.length = 0 then 0 else 1) j.sequence 2 = true ∧
      rd32 commit 24 = j.targets.length) ∧
    ∀ i u, j.targets[i]? = some u → t.image u.target = some (dev.read (replayBlock j.start i)) := by
  intro desc rev commit
  have hbs := F.toGeometry.blockSize_ge
  have hlen : j.targets.length ≤ 24 := h.targets_len
  have hrlen : j.revokes.length ≤ 24 := h.revokes_len
  refine ⟨⟨?_, ?_⟩, fun _ => ⟨?_, ?_⟩, ⟨?_, ?_⟩, fun i u hu => ?_⟩
  · exact journalSeal_live ((putEach_agree putTarget_agree _ _ 24).mono le_rfl (by omega)) hseq
      (by decide)
  · by_cases hne : j.targets = []
    · -- no record carries the flag, and the first one reads as zero
      have hzero : rd64 desc 24 = 0 := by
        refine (field_congr journalSeal_body).trans ?_
        rw [hne, putEach, beginLogBlock, field_put_ne (by omega), field_put_ne (by omega),
          field_put_ne (by omega)]
        exact field_eq_zero fun i _ hi => if_pos ⟨by omega, by omega⟩
      have htake : takeTarget F.toGeometry desc 24 = .ok none := by
        rw [takeTarget, if_neg (by omega), if_pos hzero]
      rw [parseDescriptor, txnMaxTargets, parseTargets, htake, hne]
      rfl
    · exact parseTargets_putEach h32 hne h.targets_legal hcrc hlen (by omega) journalSeal_body
  · refine journalSeal_live (((putEach_agree putRevoke_agree _ _ 32).mono le_rfl (by omega)).trans
      (agreeOn_put (.inl (by omega)))) hseq (by decide)
  · have hcount : rd32 rev 24 = j.revokes.length := by
      refine (field_congr (journalSeal_body.trans
        ((putEach_agree putRevoke_agree _ _ 32).mono (by omega) (by omega)))).trans ?_
      rw [field_put]
      exact Nat.mod_eq_of_lt (by omega)
    rw [parseRevoke, hcount, if_neg (by rw [txnMaxRevokes]; omega)]
    exact parseBlocks_putEach h32 h.revokes_legal (journalSeal_body.mono (by omega) le_rfl)
  · exact journalSeal_live (agreeOn_put (.inl (by omega))) hseq (by decide)
  · refine (field_congr journalSeal_body).trans ?_
    rw [field_put]
    exact Nat.mod_eq_of_lt (by omega)
  · rw [(h.slot i u hu).2.1, replayBlock, hstart]
    congr 2
    omega

theorem log_records_decode_revoking :
    let j : Log := ⟨true, 2, 28, 1, true, 1, [⟨100, 4, 7⟩, ⟨101, 5, 8⟩], [102], false⟩
    parseDescriptor twoGroups.toGeometry (descriptorImage [] 4096 j fun _ => 0) =
        .ok [(100, 7), (101, 8)] ∧
      parseRevoke twoGroups.toGeometry (revokeImage [] 4096 j fun _ => 0) = .ok [102] := by
  have hone : OpenTxn twoGroups _ _ _ :=
    (OpenTxn.begin (j := ⟨true, 2, 28, 1, false, 0, [], [], false⟩)
      (d := ⟨true, twoGroupsDisk, []⟩)).stage (b := 100) (v := .data 7) (by decide) (by decide)
  have htwo := hone.stage (b := 101) (v := .data 8) (by decide) (by decide)
  have h := htwo.revoke (b := 102) (by decide) (by decide)
  obtain ⟨⟨-, hdesc⟩, hrev, -, -⟩ := log_records_decode h rfl (by decide) (by decide) (by decide) []
    (fun _ => 0) (fun _ => 0) fun _ => 0
  exact ⟨hdesc, (hrev (by decide)).2⟩

end Wfs.OnDisk
