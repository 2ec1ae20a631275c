import Mathlib.Data.Finset.Card
import WasmOS.Extent.Map
import WasmOS.Procedure.Basic
import WasmOS.Wfs.Journal.System

/-! # A WFS volume and one operation on it

The volume by what its blocks mean, and the image that holds them sealed. Every change runs as one
transaction: a read inside it sees the staged metadata, the close brings it home, an abort drops it.
File data is written at home at once and stays there.
-/

open Function Nat List

namespace Wfs

open Journal

def inlineExtents : ℕ := 6
def inlineDataMax : ℕ := 144
def extentMaxDepth : ℕ := 5
def objectRoot : ℕ := 1
def objectFirst : ℕ := 16
def nameMax : ℕ := 255

abbrev Bytes := ℕ → UInt8
abbrev Name := List UInt8

namespace Dims

variable (d : Dims)

def leafCapacity : ℕ := (d.blockSize - 16) / 24
def interiorCapacity : ℕ := (d.blockSize - 16) / 16

end Dims

namespace Journal.Geometry

variable (g : Geometry)

def objectsPerBlock : ℕ := g.blockSize / 256
def groupDescsPerBlock : ℕ := g.blockSize / 64
def groupTableBlocks : ℕ := (g.groupCount + g.groupDescsPerBlock - 1) / g.groupDescsPerBlock

end Journal.Geometry

/-- Superblock, group descriptors, journal, object table, bitmaps, then the data area with the
root's directory block first. -/
structure Layout extends Journal.Geometry where
  journalStart_eq : journalStart = 1 + toGeometry.groupTableBlocks
  objectsPerGroup : ℕ
  objectsPerGroup_ge : objectFirst ≤ objectsPerGroup
  objectsPerGroup_dvd : toGeometry.objectsPerBlock ∣ objectsPerGroup
  bitmapStart : ℕ
  bitmapStart_eq : bitmapStart = journalStart + journalBlocks +
    objectsPerGroup / toGeometry.objectsPerBlock * toGeometry.groupCount
  firstDataBlock : ℕ
  firstDataBlock_eq : firstDataBlock = bitmapStart + 2 * toGeometry.groupCount
  root_fits : firstDataBlock < totalBlocks
  root_not_backup : ¬ (Journal.groupHasBackup (firstDataBlock / toGeometry.blocksPerGroup) = true ∧
    firstDataBlock % toGeometry.blocksPerGroup = 0)

namespace Layout

instance : Coe Layout Dims := ⟨fun L => L.toDims⟩

variable (L : Layout)

def totalObjects : ℕ := L.objectsPerGroup * L.groupCount
def groupTableStart : ℕ := 1
def objectTableStart : ℕ := L.journalStart + L.journalBlocks

variable (group : ℕ)

def blockBitmap : ℕ := L.bitmapStart + 2 * group
def objectBitmap : ℕ := L.bitmapStart + 2 * group + 1
def descBlock : ℕ := groupTableStart + group / L.groupDescsPerBlock
def recordBlock (id : ℕ) : ℕ := L.objectTableStart + id / L.objectsPerBlock

/-- A block the format fixes: metadata before the data area, or a backup superblock. -/
def isFixed (b : ℕ) : Bool := decide (b < L.firstDataBlock) ||
    (Journal.groupHasBackup (b / L.blocksPerGroup) && b % L.blocksPerGroup == 0)

def IsData (b : ℕ) : Prop := b < L.totalBlocks ∧ L.isFixed b = false

instance (b : ℕ) : Decidable (L.IsData b) := by unfold IsData; infer_instance

variable {L} {g id b : ℕ}

lemma not_isData (h : b < L.firstDataBlock) : ¬ L.IsData b := by
  simp [IsData, isFixed, h]

lemma blockSize_pos (L : Layout) : 0 < L.blockSize := by
  have := L.blockSize_ge
  omega

lemma blocksPerGroup_pos : 0 < L.blocksPerGroup := by
  have := L.blockSize_ge
  unfold Journal.Geometry.blocksPerGroup
  omega

lemma groupCount_pos : 0 < L.groupCount := by
  have := L.root_fits
  exact div_pos (by omega) blocksPerGroup_pos

lemma group_lt (h : b < L.totalBlocks) : b / L.blocksPerGroup < L.groupCount := by
  have hp := L.blocksPerGroup_pos
  have hle : L.totalBlocks ≤ L.groupCount * L.blocksPerGroup := by
    have := div_add_mod (L.totalBlocks + L.blocksPerGroup - 1) L.blocksPerGroup
    have := mod_lt (L.totalBlocks + L.blocksPerGroup - 1) hp
    unfold Journal.Geometry.groupCount
    rw [mul_comm]
    omega
  exact (div_lt_iff_lt_mul hp).mpr (lt_of_lt_of_le h hle)

lemma IsData.ne_zero (h : L.IsData b) : b ≠ 0 := by
  rintro rfl
  have := L.firstDataBlock_eq
  have := L.groupCount_pos
  exact not_isData (by omega) h

lemma journal_le : L.journalStart + L.journalBlocks ≤ L.bitmapStart := by
  rw [L.bitmapStart_eq]
  exact le_add_right _ _

lemma IsData.not_journal (h : L.IsData b) :
    ¬ (L.journalStart ≤ b ∧ b < L.journalStart + L.journalBlocks) := by
  rintro ⟨-, hb⟩
  have := L.journal_le
  have := L.firstDataBlock_eq
  exact not_isData (by omega) h

section

variable (h : g < L.groupCount)
include h

lemma blockBitmap_lt : L.blockBitmap g < L.firstDataBlock := by
  rw [L.firstDataBlock_eq, blockBitmap]; omega

lemma objectBitmap_lt : L.objectBitmap g < L.firstDataBlock := by
  rw [L.firstDataBlock_eq, objectBitmap]; omega

lemma descBlock_lt_journal : L.descBlock g < L.journalStart := by
  have hs := L.blockSize_ge
  have hp : 0 < L.groupDescsPerBlock := div_pos (by omega) (by decide)
  have hg : g / L.groupDescsPerBlock < L.groupTableBlocks := by
    rw [div_lt_iff_lt_mul hp]
    have := div_add_mod (L.groupCount + L.groupDescsPerBlock - 1) L.groupDescsPerBlock
    have := mod_lt (L.groupCount + L.groupDescsPerBlock - 1) hp
    unfold Journal.Geometry.groupTableBlocks
    rw [mul_comm]
    omega
  have := L.journalStart_eq
  rw [descBlock, groupTableStart]
  omega

lemma descBlock_lt : L.descBlock g < L.firstDataBlock := by
  have := descBlock_lt_journal h
  have := L.journal_le
  rw [L.firstDataBlock_eq]
  omega

end

lemma recordBlock_lt (h : id < L.totalObjects) : L.recordBlock id < L.firstDataBlock := by
  have hs := L.blockSize_ge
  have hp : 0 < L.objectsPerBlock := div_pos (by omega) (by decide)
  have hr : id / L.objectsPerBlock < L.objectsPerGroup / L.objectsPerBlock * L.groupCount := by
    rwa [Nat.div_lt_iff_lt_mul hp, mul_right_comm, Nat.div_mul_cancel L.objectsPerGroup_dvd]
  have := L.bitmapStart_eq
  rw [L.firstDataBlock_eq, recordBlock, objectTableStart]
  omega

end Layout

inductive ObjectType | file | dir
  deriving DecidableEq, Repr

/-- An object record. The extents and the inline bytes share one region of it. -/
structure Object where
  type : ObjectType
  inlineFlag : Bool
  size : ℕ
  linkCount : ℕ
  extentCount : ℕ
  treeBlock : ℕ
  extents : List Extent
  inlineData : Bytes

/-- A node of an extent tree: a leaf, or `depth` levels above the leaves. -/
inductive Node
  | leaf (records : List Extent)
  | interior (depth : ℕ) (records : List (ℕ × ℕ))

/-- A directory record: a stride, and in it an entry or, with no object, free room. -/
structure Dirent where
  object : ℕ
  length : ℕ
  name : Name
  deriving DecidableEq, Repr

inductive Content
  | bytes (d : Bytes)
  | node (n : Node)
  | dir (records : List Dirent)

def Content.data : Content → Bytes
  | .bytes d => d
  | _ => fun _ => 0

structure Volume where
  blockUsed : ℕ → Bool
  objectUsed : ℕ → Bool
  freeBlocks : ℕ → UInt32
  freeObjects : ℕ → UInt32
  object : ℕ → Option Object
  block : ℕ → Content

namespace Volume

variable (V : Volume)

def setBlock (b : ℕ) (c : Content) : Volume := { V with block := update V.block b c }

def setObject (id : ℕ) (o : Object) : Volume := { V with object := update V.object id (some o) }

def markBlocks (first length : ℕ) (used : Bool) : Volume :=
  { V with blockUsed := fun b => if first ≤ b ∧ b < first + length then used else V.blockUsed b }

def markObject (id : ℕ) (used : Bool) : Volume :=
  { V with objectUsed := update V.objectUsed id used }

def addFreeBlocks (group : ℕ) (n : UInt32) : Volume :=
  { V with freeBlocks := update V.freeBlocks group (V.freeBlocks group + n) }

def addFreeObjects (group : ℕ) (n : UInt32) : Volume :=
  { V with freeObjects := update V.freeObjects group (V.freeObjects group + n) }

@[simp] lemma setBlock_block {c : Content} {b : ℕ} :
    (V.setBlock b c).block = update V.block b c := rfl

end Volume

def dirRecordLength (n : ℕ) : ℕ := (12 + n + 7) / 8 * 8

def dirUsableBytes (blockSize : ℕ) : ℕ := blockSize - 16

def dotName : Name := [46]
def dotDotName : Name := [46, 46]

variable (L : Layout)

def emptyDirectory (self parent : ℕ) : List Dirent :=
  [⟨self, dirRecordLength 1, dotName⟩,
    ⟨parent, dirUsableBytes L.blockSize - dirRecordLength 1, dotDotName⟩]

def formattedRoot : Object :=
  { type := .dir, inlineFlag := false, size := L.blockSize, linkCount := 2, extentCount := 1,
    treeBlock := 0, extents := [⟨0, L.firstDataBlock, 1⟩], inlineData := fun _ => 0 }

def formattedUsed (b : ℕ) : Bool :=
  decide (L.totalBlocks ≤ b) || decide (b < L.firstDataBlock + 1) || L.isFixed b

def format (stale : ℕ → Content) : Volume where
  blockUsed := formattedUsed L
  objectUsed id := decide (id < objectFirst)
  freeBlocks g := UInt32.ofNat
    ((List.range' (g * L.blocksPerGroup) L.blocksPerGroup).filter (!formattedUsed L ·)).length
  freeObjects g :=
    UInt32.ofNat (if g = 0 then L.objectsPerGroup - objectFirst else L.objectsPerGroup)
  object id := if id = objectRoot then some (formattedRoot L) else none
  block := update stale L.firstDataBlock (.dir (emptyDirectory L objectRoot objectRoot))

structure Session where
  home : Volume
  view : Volume
  isOpen : Bool
  targets : List ℕ
  revokes : List ℕ

abbrev Task := Procedure Session Err

variable {t : Session}

namespace Session

variable (s : Session)

def abort : Session := { s with view := s.home, isOpen := false, targets := [], revokes := [] }

def staged (target : ℕ) (image : Volume → Volume) : Session := { s with
    view := image s.view
    targets := if target ∈ s.targets then s.targets else s.targets ++ [target] }

def written (b : ℕ) (d : Bytes) : Session := { s with
    home := s.home.setBlock b (.bytes d)
    view := if b ∈ s.targets then s.view else s.view.setBlock b (.bytes d) }

variable {f : Volume → Volume}

@[simp] lemma staged_view {t : ℕ} : (s.staged t f).view = f s.view := rfl
lemma mem_staged_targets {t u : ℕ} : u ∈ (s.staged t f).targets ↔ u = t ∨ u ∈ s.targets := by
  unfold staged
  dsimp only
  split
  · next h =>
    constructor
    · exact .inr
    · rintro (rfl | hu)
      exacts [h, hu]
  · simp [or_comm]

structure Bounded : Prop where
  nodup : s.targets.Nodup
  length_le : s.targets.length ≤ txnMaxTargets

lemma Bounded.staged {s : Session} (h : s.Bounded) {t : ℕ}
    (ht : t ∈ s.targets ∨ s.targets.length < txnMaxTargets) : (s.staged t f).Bounded := by
  unfold Session.staged
  by_cases hm : t ∈ s.targets
  · exact ⟨by simpa [hm] using h.nodup, by simpa [hm] using h.length_le⟩
  refine ⟨by simpa [hm, nodup_append'] using h.nodup, ?_⟩
  have := ht.resolve_left hm
  simp only [hm, if_false, length_append, length_singleton]
  omega

/-- The transaction can still stage the blocks `bs` and `n` more. -/
structure Room (bs : List ℕ) (n : ℕ) : Prop where
  isOpen : s.isOpen = true
  nodup : s.targets.Nodup
  card_le : (s.targets ++ bs).toFinset.card + n ≤ txnMaxTargets

namespace Room

variable {s} {bs cs : List ℕ} {n b : ℕ}

lemma mono (h : s.Room cs n) (hs : bs ⊆ cs) : s.Room bs n := by
  refine ⟨h.isOpen, h.nodup, (Nat.add_le_add_right (Finset.card_le_card ?_) n).trans h.card_le⟩
  intro b
  simp only [mem_toFinset, mem_append]
  exact Or.imp_right fun hb => hs hb

lemma cons (h : s.Room bs (n + 1)) (b : ℕ) : s.Room (b :: bs) n := by
  refine ⟨h.isOpen, h.nodup, ?_⟩
  have hins : (s.targets ++ b :: bs).toFinset = insert b (s.targets ++ bs).toFinset := by
    ext c
    simp only [mem_toFinset, mem_append, mem_cons, Finset.mem_insert]
    tauto
  have hcard := Finset.card_insert_le b (s.targets ++ bs).toFinset
  have := h.card_le
  rw [hins]
  omega

lemma not_of_refused (h : ∀ cs n, b ∈ cs → ¬ s.Room cs n) : ¬ s.Room bs (n + 1) :=
  fun hr => h _ _ (.head _) (hr.cons b)

lemma bounded (h : s.Room bs n) : s.Bounded := by
  refine ⟨h.nodup, ?_⟩
  have hsub : s.targets.toFinset.card ≤ (s.targets ++ bs).toFinset.card := by
    apply Finset.card_le_card
    intro c
    simp only [mem_toFinset, mem_append]
    exact .inl
  rw [toFinset_card_of_nodup h.nodup] at hsub
  have := h.card_le
  omega

lemma stages (h : s.Room bs n) (hb : b ∈ bs) :
    b ∈ s.targets ∨ s.targets.length < txnMaxTargets := by
  by_cases hm : b ∈ s.targets
  · exact .inl hm
  right
  have hss : s.targets.toFinset ⊂ (s.targets ++ bs).toFinset := by
    rw [Finset.ssubset_iff]
    refine ⟨b, by simpa using hm, ?_⟩
    intro c
    simp only [Finset.mem_insert, mem_toFinset, mem_append]
    rintro (rfl | hc)
    exacts [.inr hb, .inl hc]
  have hlt := Finset.card_lt_card hss
  rw [toFinset_card_of_nodup h.nodup] at hlt
  have := h.card_le
  omega

lemma of_targets (h : s.Room cs n) (ho : t.isOpen = true) (hnd : t.targets.Nodup)
    (ht : ∀ u ∈ t.targets, u ∈ s.targets ∨ u ∈ cs) : t.Room cs n := by
  refine ⟨ho, hnd, (Nat.add_le_add_right (Finset.card_le_card ?_) n).trans h.card_le⟩
  intro c
  simp only [mem_toFinset, mem_append]
  rintro (hc | hc)
  exacts [ht c hc, .inr hc]

lemma staged (h : s.Room bs n) (hb : b ∈ bs) : (s.staged b f).Room bs n := by
  refine h.of_targets h.isOpen (h.bounded.staged (h.stages hb)).nodup fun u hu => ?_
  rcases s.mem_staged_targets.mp hu with rfl | hu
  exacts [.inr hb, .inl hu]

end Room

end Session

open Procedure

variable (L : Layout)

/-- `wfs_txn_stage_begin` and its take; a refusal aborts the transaction. -/
def stage (target : ℕ) (image : Volume → Volume) : Task Unit := fun s =>
  if !s.isOpen then (.error .badArgs, s.abort)
  else if L.journalStart ≤ target ∧ target < L.journalStart + L.journalBlocks then
    (.error .badArgs, s.abort)
  else if target ∉ s.targets ∧ txnMaxTargets ≤ s.targets.length then
    (.error .txnFull, s.abort)
  else (.ok (), s.staged target image)

/-- `wfs_txn_revoke`; a refusal leaves the transaction open. -/
def revoke (b : ℕ) : Task Unit := fun s =>
  if !s.isOpen then (.error .badArgs, s)
  else if b ∈ s.revokes then (.ok (), s)
  else if txnMaxRevokes ≤ s.revokes.length then (.error .txnFull, s)
  else (.ok (), { s with revokes := s.revokes ++ [b] })

def writeData (b : ℕ) (d : Bytes) : Task Unit := modify (·.written b d)

def reading {α : Type} (f : Volume → Except Err α) : Task α := fun s => (f s.view, s)

def Volume.session (V : Volume) : Session := ⟨V, V, true, [], []⟩

variable {L} {α : Type} {Q : α → Session → Prop} {E : Session → Prop} {s : Session}

lemma stage_cases (s : Session) (target : ℕ) (image : Volume → Volume) :
    (stage L target image s = (.ok (), s.staged target image) ∧ s.isOpen = true ∧
      (target ∈ s.targets ∨ s.targets.length < txnMaxTargets)) ∨
    ∃ e, stage L target image s = (.error e, s.abort) := by
  unfold stage
  split_ifs with ho hj hf
  iterate 3 · exact .inr ⟨_, rfl⟩
  refine .inl ⟨rfl, by simpa using ho, ?_⟩
  by_contra hcon
  exact hf ⟨fun hm => hcon (.inl hm), not_lt.mp fun hlt => hcon (.inr hlt)⟩

lemma wp_reading {f : Volume → Except Err α} :
    wp (reading f) Q E s ↔ match f s.view with | .ok a => Q a s | .error _ => E s := by
  unfold wp reading
  cases f s.view <;> rfl

variable {Q : Unit → Session → Prop} {image : Volume → Volume} {target : ℕ}

lemma wp_stage
    (hQ : s.isOpen = true → (target ∈ s.targets ∨ s.targets.length < txnMaxTargets) →
      Q () (s.staged target image)) (hE : E s.abort) :
    wp (stage L target image) Q E s := by
  unfold wp
  rcases stage_cases s target image with ⟨h, ho, hr⟩ | ⟨e, h⟩
  · rw [h]; exact hQ ho hr
  · rw [h]; exact hE

lemma wp_stage_room (hj : ¬ (L.journalStart ≤ target ∧ target < L.journalStart + L.journalBlocks))
    (hQ : s.isOpen = true → (target ∈ s.targets ∨ s.targets.length < txnMaxTargets) →
      Q () (s.staged target image))
    (hE : (∀ cs n, target ∈ cs → ¬ s.Room cs n) → E s.abort) :
    wp (stage L target image) Q E s := by
  by_cases hr : s.isOpen = true ∧ (target ∈ s.targets ∨ s.targets.length < txnMaxTargets)
  · obtain ⟨ho, hr⟩ := hr
    have hok : stage L target image s = (.ok (), s.staged target image) := by
      unfold stage
      rw [if_neg (by simp [ho]), if_neg hj, if_neg]
      rintro ⟨hm, hlen⟩
      exact hr.elim hm (by omega)
    rw [wp, hok]
    exact hQ ho hr
  have hnone : ∀ cs n, target ∈ cs → ¬ s.Room cs n := fun cs n hm h =>
    hr ⟨h.isOpen, h.stages hm⟩
  rcases stage_cases s target image with ⟨_, ho, hr'⟩ | ⟨e, h⟩
  · exact absurd ⟨ho, hr'⟩ hr
  · rw [wp, h]
    exact hE hnone

structure Puts (s t : Session) (bs : List ℕ) : Prop where
  home : t.home = s.home
  isOpen : t.isOpen = true
  revokes : t.revokes = s.revokes
  blockUsed : t.view.blockUsed = s.view.blockUsed
  object : t.view.object = s.view.object
  objectUsed : t.view.objectUsed = s.view.objectUsed
  block : ∀ b, b ∉ bs → t.view.block b = s.view.block b
  targets : ∀ u ∈ t.targets, u ∈ s.targets ∨ u ∈ bs
  keeps : s.targets ⊆ t.targets
  bounded : s.Bounded → t.Bounded

variable {bs cs : List ℕ}

lemma Puts.trans {t u : Session} (h : Puts s t bs) (h' : Puts t u cs) : Puts s u (bs ++ cs) where
  home := h'.home.trans h.home
  isOpen := h'.isOpen
  revokes := h'.revokes.trans h.revokes
  blockUsed := h'.blockUsed.trans h.blockUsed
  object := h'.object.trans h.object
  objectUsed := h'.objectUsed.trans h.objectUsed
  block b hb := by
    rw [mem_append, not_or] at hb
    rw [h'.block b hb.2, h.block b hb.1]
  targets b hb := by
    rcases h'.targets b hb with hb | hb
    · exact (h.targets b hb).imp_right fun hb => mem_append_left _ hb
    · exact .inr (mem_append_right _ hb)
  keeps _ hb := h'.keeps (h.keeps hb)
  bounded hb := h'.bounded (h.bounded hb)

lemma Puts.mono (h : Puts s t bs) (hs : bs ⊆ cs) : Puts s t cs := { h with
    block := fun b hb => h.block b fun hm => hb (hs hm)
    targets := fun u hu => (h.targets u hu).imp_right fun hm => hs hm }

lemma Puts.room {n : ℕ} (h : Puts s t bs) (hs : bs ⊆ cs) (hr : s.Room cs n) : t.Room cs n :=
  hr.of_targets h.isOpen (h.bounded hr.bounded).nodup fun u hu =>
    (h.targets u hu).imp_right fun hm => hs hm

lemma Puts.room_one {b n : ℕ} {cs : List ℕ} (h : Puts s t [b])
    (hr : s.Room cs (n + 1)) : t.Room cs n := by
  have hsub : [b] ⊆ b :: cs := by simp
  exact (h.room hsub (hr.cons b)).mono (subset_cons_self b cs)

lemma wp_put {b : ℕ} {c : Content} (hb : L.IsData b)
    (hQ : ∀ t, Puts s t [b] → t.view.block b = c → b ∈ t.targets → Q () t)
    (hE : (∀ cs n, b ∈ cs → ¬ s.Room cs n) → E s.abort) :
    wp (stage L b (·.setBlock b c)) Q E s := by
  apply wp_stage_room hb.not_journal _ hE
  intro ho hr
  apply hQ
  · constructor
    case block =>
      intro d hd
      exact Function.update_of_ne (by simpa using hd) _ _
    case targets =>
      intro u hu
      rcases s.mem_staged_targets.mp hu with rfl | hu
      · exact .inr (by simp)
      · exact .inl hu
    case keeps => exact fun u hu => s.mem_staged_targets.mpr (.inr hu)
    case bounded => exact fun h => h.staged hr
    case isOpen => exact ho
    all_goals rfl
  · exact Function.update_self _ _ _
  · exact s.mem_staged_targets.mpr (.inl rfl)

structure Sealed (α : Type) where
  seed : ℕ
  value : α

def Sealed.verify {α : Type} (s : Sealed α) (seed : ℕ) : Option α :=
  if s.seed = seed then some s.value else none

/-- The superblock fields that a parse reads, the constants apart. -/
structure Super where
  blockSize : ℕ
  blocksPerGroup : ℕ
  totalBlocks : ℕ
  totalObjects : ℕ
  freeBlocks : ℕ
  freeObjects : ℕ
  rootObjectId : ℕ
  groupTableStart : ℕ
  groupTableBlocks : ℕ
  objectTableStart : ℕ
  objectTableBlocks : ℕ
  bitmapStart : ℕ
  bitmapBlocks : ℕ
  journalStart : ℕ
  journalBlocks : ℕ
  generation : ℕ
  state : State

structure GroupDesc where
  blockBitmap : ℕ
  objectBitmap : ℕ
  objectTable : ℕ
  freeBlocks : ℕ
  freeObjects : ℕ
  hasBackup : Bool

/-- What a block holds. Tables are given by slot; a zeroed slot holds nothing. -/
inductive DiskBlock
  | super (s : Sealed Super)
  | groups (descs : ℕ → Option (Sealed GroupDesc))
  | journal (s : Journal.JournalSuper)
  | records (slots : ℕ → Option (Sealed Object))
  | bitmap (bits : ℕ → Bool)
  | dir (s : Sealed (List Dirent))
  | node (s : Sealed Node)
  | bytes (d : Bytes)

structure Image where
  blockSize : ℕ
  block : ℕ → DiskBlock

def u32 (n : ℕ) : ℕ := n % 2 ^ 32

lemma u32_of_lt {n : ℕ} (h : n < 2 ^ 32) : u32 n = n := Nat.mod_eq_of_lt h

namespace Super

variable (sb : Super)

def objectsPerBlock : ℕ := sb.blockSize / 256
def groupDescsPerBlock : ℕ := sb.blockSize / 64
def groupCount : ℕ := u32 (sb.totalBlocks + sb.blocksPerGroup - 1) / sb.blocksPerGroup
def dims : Dims := ⟨sb.blockSize, sb.totalBlocks⟩

def words : List ℕ :=
  [sb.rootObjectId, sb.groupTableStart, sb.groupTableBlocks, sb.objectTableStart,
    sb.objectTableBlocks, sb.bitmapStart, sb.bitmapBlocks, sb.journalStart, sb.journalBlocks,
    sb.freeBlocks, sb.freeObjects]

end Super

/-- `wfs_super_parse`, past the constants. -/
def superParse (s : Sealed Super) (location : ℕ) : Except Err Super :=
  match s.verify location with
  | none => .error .checksum
  | some sb =>
    if sb.blockSize ≠ 4096 ∧ sb.blockSize ≠ 8192 ∧ sb.blockSize ≠ 16384 then .error .geometry
    else if sb.blocksPerGroup ≠ 8 * sb.blockSize then .error .geometry
    else if 2 ^ 32 ≤ sb.totalBlocks ∨ 2 ^ 32 ≤ sb.totalObjects then .error .volumeTooLarge
    else if sb.totalBlocks = 0 then .error .corrupt
    else if ∃ w ∈ sb.words, 2 ^ 32 ≤ w then .error .volumeTooLarge
    else if sb.totalBlocks ≤ sb.groupTableStart ∨ sb.totalBlocks ≤ sb.objectTableStart ∨
        sb.totalBlocks ≤ sb.bitmapStart ∨ sb.totalBlocks ≤ sb.journalStart then .error .corrupt
    else if sb.totalBlocks - sb.groupTableStart < sb.groupTableBlocks ∨
        sb.totalBlocks - sb.objectTableStart < sb.objectTableBlocks ∨
        sb.totalBlocks - sb.bitmapStart < sb.bitmapBlocks ∨
        sb.totalBlocks - sb.journalStart < sb.journalBlocks then .error .corrupt
    else if sb.rootObjectId ≠ objectRoot then .error .corrupt
    else if u32 (sb.groupTableBlocks * sb.groupDescsPerBlock) < sb.groupCount then .error .corrupt
    else .ok sb

namespace Image

variable (I : Image) (block : ℕ)

def superAt : Option Super :=
  match I.block block with
  | .super s => (superParse s block).toOption
  | _ => none

/-- A slot of the group table as it stands, checked or not; a zeroed one names block 0. -/
def descSlot (block slot : ℕ) : Sealed GroupDesc :=
  match I.block block with
  | .groups descs => (descs slot).getD ⟨2 ^ 32, 0, 0, 0, 0, 0, false⟩
  | _ => ⟨2 ^ 32, 0, 0, 0, 0, 0, false⟩

def recordAt (block slot id : ℕ) : Option Object :=
  match I.block block with
  | .records slots => (slots slot).bind (·.verify id)
  | _ => none

def bitAt (block i : ℕ) : Bool :=
  match I.block block with
  | .bitmap bits => bits i
  | _ => false

def dirAt : Option (List Dirent) :=
  match I.block block with
  | .dir s => s.verify block
  | _ => none

def nodeAt : Option Node :=
  match I.block block with
  | .node s => s.verify block
  | _ => none

variable (sb : Super)

def desc (group : ℕ) : GroupDesc := (I.descSlot (sb.groupTableStart + group / sb.groupDescsPerBlock)
    (group % sb.groupDescsPerBlock)).value

def record (id : ℕ) : Option Object :=
  I.recordAt (sb.objectTableStart + id / sb.objectsPerBlock) (id % sb.objectsPerBlock) id

def blockBit (group i : ℕ) : Bool := I.bitAt (I.desc sb group).blockBitmap i
def objectBit (group i : ℕ) : Bool := I.bitAt (I.desc sb group).objectBitmap i

end Image

end Wfs
