import WasmOS.Wfs.Journal.Faults
import WasmOS.Wfs.OnDisk.LogRecords

/-! # Writing the superblock copies

`wfs_super_write_task` over the bytes of the copies, on a device whose requests may
fail. Each copy is read, patched in place and sealed again, whatever it held.
-/

namespace Wfs.OnDisk

open ByteImage Procedure List Function
open Journal (Outcome superScanGroups groupHasBackup)

def superOffset : ℕ := 1024

/-- The mounted superblock, the blocks of the device and the outcomes of the requests to come. -/
structure SuperIO where
  mounted : Bool
  super : Superblock
  disk : ℕ → Bytes
  outcomes : List Outcome

structure SuperWrite where
  state : ℕ
  setCounters : Bool
  refreshBackups : Bool
  force : Bool

abbrev SuperJob := Procedure SuperIO Err

def request (act : (ℕ → Bytes) → ℕ → Bytes) : SuperJob Unit := fun s =>
  match s.outcomes with
  | .failed took :: rest =>
    (.error .io, { s with disk := if took then act s.disk else s.disk, outcomes := rest })
  | outcomes => (.ok (), { s with disk := act s.disk, outcomes := outcomes.tail })

def readBlock (block : ℕ) : SuperJob Bytes := do
  request id
  let s ← get
  pure (s.disk block)

def writeBlock (block : ℕ) (content : Bytes) : SuperJob Unit :=
  request fun disk => update disk block content

def Superblock.backupBlocks (sb : Superblock) : List ℕ :=
  (((List.range sb.groupCount).filter groupHasBackup).take superScanGroups).map
    (· * sb.blocksPerGroup)

def copy (disk : ℕ → Bytes) (block : ℕ) : Bytes :=
  fun i => disk block ((if block = 0 then superOffset else 0) + i)

variable {disk : ℕ → Bytes} {block : ℕ}

def Passes (disk : ℕ → Bytes) (block : ℕ) (sb : Superblock) : Prop :=
  superParse (copy disk block) superSize block = .ok sb

def Superblock.geometry (sb : Superblock) : List ℕ × List Region × List UInt8 :=
  ([sb.blockSize, sb.totalBlocks, sb.totalObjects],
    [sb.groupTable, sb.objectTable, sb.bitmap, sb.journal], sb.uuid)

def storedGeometry (p : Bytes) : List ℕ × List Region × List UInt8 :=
  ([rd32 p 8, rd64 p 16, rd64 p 24],
    [⟨rd64 p 56, rd64 p 64⟩, ⟨rd64 p 72, rd64 p 80⟩, ⟨rd64 p 88, rd64 p 96⟩,
      ⟨rd64 p 104, rd64 p 112⟩], bytes p 144 16)

variable {sb : Superblock}

structure Patched (generation : ℕ) (p q : Bytes) : Prop where
  geometry : storedGeometry q = storedGeometry p
  generation : rd64 q 120 = generation

section Patch

variable {base generation lo hi : ℕ} {d d' : Bytes} {sb : Superblock} {w : SuperWrite}

end Patch

def SuperWrite.touches (w : SuperWrite) (sb : Superblock) : List ℕ :=
  0 :: if w.refreshBackups then sb.backupBlocks else []

/-- Each block is as it was, or is rewritten with its geometry and the generation `generation`. -/
def Rewritten (touched : List ℕ) (generation : ℕ) (disk disk' : ℕ → Bytes) : Prop :=
  ∀ b, disk' b = disk b ∨ b ∈ touched ∧ Patched generation (copy disk b) (copy disk' b)

variable {touched : List ℕ}

lemma Rewritten.update {generation block : ℕ} {disk disk' : ℕ → Bytes}
    {content : Bytes} (h : Rewritten touched generation disk disk') (hb : block ∈ touched)
    (hp : Patched generation (copy disk' block)
      (copy (update disk' block content) block)) :
    Rewritten touched generation disk (update disk' block content) := by
  intro b
  by_cases hbb : b = block
  · subst hbb
    refine .inr ⟨hb, ?_, hp.generation⟩
    rw [hp.geometry]
    rcases h b with heq | ⟨-, hpatched⟩
    · unfold copy
      rw [heq]
    · exact hpatched.geometry
  have hcopy : copy (Function.update disk' block content) b = copy disk' b := by
    unfold copy
    rw [Function.update_of_ne hbb]
  rw [Function.update_of_ne hbb, hcopy]
  exact h b

section Run

variable {s : SuperIO} {w : SuperWrite}

lemma wp_request {act : (ℕ → Bytes) → ℕ → Bytes} {Q : Unit → SuperIO → Prop} {E : SuperIO → Prop}
    (hQ : (∀ took, s.outcomes.head? ≠ some (.failed took)) →
      Q () { s with disk := act s.disk, outcomes := s.outcomes.tail })
    (hE : ∀ took rest, s.outcomes = .failed took :: rest →
      E { s with disk := if took then act s.disk else s.disk, outcomes := rest }) :
    wp (request act) Q E s := by
  unfold wp request
  rcases h : s.outcomes with _ | ⟨_ | took, rest⟩
  · rw [h] at hQ
    exact hQ (by simp)
  · rw [h] at hQ
    exact hQ (by simp)
  · exact hE took rest h

end Run

end Wfs.OnDisk
