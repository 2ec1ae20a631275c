import Mathlib.Tactic.Linarith
import WasmOS.BlockDevice.Program

/-! # The journaled volume

Block contents are typed by what verifies at them. The images of a transaction go to the log as they
are staged; the commit seals, checkpoints and retires them. A run mixes calls, power loss at any
stopping point and remounts; `histories` lists which transactions may have taken effect.
-/

open List

namespace Wfs

inductive Err
  | badArgs | badMagic | busy | checksum | corrupt | exists | featureIncompat | geometry | io
  | isDir | journal | name | needBlock | noFd | noSpace | notAbsolute | notDir | notEmpty
  | notFound | notReady | pathTooLong | range | readOnly | replay | txnFull | unsupported
  | version | volumeTooLarge
  deriving DecidableEq, Repr

/-- The superblock's `state`. -/
inductive State | clean | dirty | error
  deriving DecidableEq, Repr

structure Dims where
  blockSize : ℕ
  totalBlocks : ℕ

namespace Journal

/-- The superblock fields the driver rewrites; the geometry in it never changes. -/
structure SuperImage where
  location : ℕ
  state : State
  generation : ℕ
  freeBlocks : ℕ
  freeObjects : ℕ
  deriving DecidableEq, Repr

structure JournalSuper where
  sealedAt : ℕ
  blockSize : ℕ
  blocks : ℕ
  firstSequence : ℕ
  firstBlock : ℕ
  deriving DecidableEq, Repr

structure TargetRecord where
  target : ℕ
  last : Bool
  checksum : ℕ
  deriving DecidableEq, Repr

/-- A log record; `unknown` is a sealed record of a type the driver does not write. -/
inductive Record
  | descriptor (targets : List TargetRecord)
  | commit (targetCount : ℕ)
  | revoke (blocks : List ℕ)
  | unknown (type : ℕ)
  deriving DecidableEq, Repr

structure LogBlock where
  sealedAt : ℕ
  sequence : ℕ
  record : Record
  deriving DecidableEq, Repr

/-- A block's content; `stamped` is superblock fields written over other content. -/
inductive Block (β : Type)
  | data (v : β)
  | super (s : SuperImage)
  | stamped (location : ℕ) (state : State) (generation : ℕ) (old : Block β)
  | journalSuper (s : JournalSuper)
  | log (l : LogBlock)
  deriving DecidableEq, Repr

abbrev Disk (β : Type) := BlockDevice.Device (Block β)

def txnMaxTargets : ℕ := 24
def txnMaxRevokes : ℕ := 24
def superScanGroups : ℕ := 4

def groupHasBackup (group : ℕ) : Bool := group != 0 && group % 2 != 0

def txnLogBlocks (targets revokes : ℕ) : ℕ := 1 + targets + (if revokes = 0 then 0 else 1) + 1

/-- The volume geometry the superblock records, with what parsing and formatting ensure. -/
structure Geometry extends Dims where
  journalStart : ℕ
  journalBlocks : ℕ
  blockSize_mem : blockSize = 4096 ∨ blockSize = 8192 ∨ blockSize = 16384
  journalStart_pos : 0 < journalStart
  journal_fits : journalStart + journalBlocks ≤ totalBlocks
  journal_room : 1 + txnLogBlocks txnMaxTargets 1 ≤ journalBlocks
  journal_before_backups : totalBlocks ≤ 8 * blockSize ∨
    journalStart + journalBlocks ≤ 8 * blockSize

namespace Geometry

variable (g : Geometry)

def blocksPerGroup : ℕ := 8 * g.blockSize

def groupCount : ℕ := (g.totalBlocks + g.blocksPerGroup - 1) / g.blocksPerGroup

def backupGroups : List ℕ := ((List.range g.groupCount).filter groupHasBackup).take superScanGroups

def backupBlocks : List ℕ := g.backupGroups.map (· * g.blocksPerGroup)

def targetIsLegal (block : ℕ) : Bool := !(block == 0 || decide (g.totalBlocks ≤ block)) &&
    !(decide (g.journalStart ≤ block) && decide (block < g.journalStart + g.journalBlocks))

variable {g} {b c : ℕ}

lemma blockSize_ge : 4096 ≤ g.blockSize := by
  have := g.blockSize_mem; omega

lemma journalBlocks_ge : 28 ≤ g.journalBlocks := g.journal_room

lemma targetIsLegal_iff : g.targetIsLegal b = true ↔
    b ≠ 0 ∧ b < g.totalBlocks ∧ (b < g.journalStart ∨ g.journalStart + g.journalBlocks ≤ b) := by
  simp [targetIsLegal]
  omega

lemma ne_log_of_legal (h : g.targetIsLegal b = true) (hc : c < g.journalBlocks) :
    b ≠ g.journalStart + c := by
  rw [targetIsLegal_iff] at h; omega

lemma backupBlock_ge (h : b ∈ g.backupBlocks) : g.journalStart + g.journalBlocks ≤ b ∧ b ≠ 0 := by
  simp only [backupBlocks, backupGroups, mem_map] at h
  obtain ⟨k, hk, rfl⟩ := h
  have hf := mem_of_mem_take hk
  simp only [mem_filter, mem_range, groupHasBackup, Bool.and_eq_true, bne_iff_ne, ne_eq] at hf
  obtain ⟨hlt, h0, -⟩ := hf
  have hs := g.blockSize_ge
  have hbpg : 0 < g.blocksPerGroup := by unfold blocksPerGroup; omega
  have hmul : g.blocksPerGroup ≤ k * g.blocksPerGroup :=
    Nat.le_mul_of_pos_left _ (pos_of_ne_zero h0)
  have hgroup : g.blocksPerGroup < g.totalBlocks := by
    unfold groupCount at hlt
    have h2 : 2 ≤ (g.totalBlocks + g.blocksPerGroup - 1) / g.blocksPerGroup := by omega
    rw [Nat.le_div_iff_mul_le hbpg] at h2
    omega
  have hpos := g.journalBlocks_ge
  rcases g.journal_before_backups with h | h
  · exact absurd h (by unfold blocksPerGroup at hgroup; omega)
  · unfold blocksPerGroup at hmul hbpg ⊢; omega

lemma backupBlock_ne_log (h : b ∈ g.backupBlocks) (hc : c < g.journalBlocks) :
    b ≠ g.journalStart + c := by
  have := (backupBlock_ge h).1; omega

end Geometry

/-- A volume's geometry and the checksum taken of whole block images. -/
structure Format (β : Type) extends Geometry where
  crc32c : Block β → ℕ

namespace Block

variable {β : Type}

/-- Write the superblock fields of `apply_super` into a block and seal it for `location`. -/
def stamp (location : ℕ) (state : State) (generation : ℕ) (counters : Option (ℕ × ℕ)) :
    Block β → Block β
  | super s => super ⟨location, state, generation,
      (counters.map Prod.fst).getD s.freeBlocks, (counters.map Prod.snd).getD s.freeObjects⟩
  | b => stamped location state generation b

def generation : Block β → ℕ
  | super s => s.generation
  | stamped _ _ n _ => n
  | _ => 0

def unstamp : Block β → Block β
  | super s => super ⟨0, .clean, 0, s.freeBlocks, s.freeObjects⟩
  | stamped _ _ _ old => old.unstamp
  | b => b

@[simp] lemma unstamp_stamp (location : ℕ) (state : State) (n : ℕ) (b : Block β) :
    (b.stamp location state n none).unstamp = b.unstamp := by
  cases b <;> rfl

def recordIsLive (block sequence : ℕ) : Block β → Option Record
  | log l => if l.sealedAt = block ∧ l.sequence = sequence then some l.record else none
  | _ => none

lemma recordIsLive_eq_some {block sequence : ℕ} {b : Block β} {r : Record} :
    b.recordIsLive block sequence = some r ↔ b = log ⟨block, sequence, r⟩ := by
  constructor
  · intro h
    unfold recordIsLive at h
    split at h
    · rename_i l
      split at h
      · rename_i hl
        obtain ⟨s, q, rec⟩ := l
        obtain ⟨rfl, rfl⟩ := hl
        cases h; rfl
      · cases h
    · cases h
  · rintro rfl
    simp [recordIsLive]

end Block

open BlockDevice BlockDevice.Prog

/-- One journaled block: where it belongs, where its image is, and the image's checksum. -/
structure TxnTarget where
  target : ℕ
  journalBlock : ℕ
  checksum : ℕ
  deriving DecidableEq, Repr

structure Log where
  loaded : Bool
  start : ℕ
  blocks : ℕ
  nextSequence : ℕ
  isOpen : Bool
  sequence : ℕ
  targets : List TxnTarget
  revokes : List ℕ
  countersDirty : Bool
  deriving DecidableEq, Repr

structure Volume where
  state : State
  generation : ℕ
  freeBlocks : ℕ
  freeObjects : ℕ
  readOnly : Bool
  needsReplay : Bool
  mounted : Bool
  dirtyMarked : Bool
  journal : Log
  deriving DecidableEq, Repr

abbrev Result := Except Err Unit × Volume

namespace Log

variable (j : Log)

def redirect (block : ℕ) : ℕ :=
  if j.isOpen then
    match j.targets.find? (fun t => t.target == block) with
    | some t => t.journalBlock
    | none => block
  else block

def descriptorBlock : ℕ := j.start + 1

def imageBlock (index : ℕ) : ℕ := j.start + 1 + 1 + index

def revokeBlock : ℕ := j.imageBlock j.targets.length

def commitBlock : ℕ := j.imageBlock j.targets.length + (if j.revokes.length = 0 then 0 else 1)

def begin : Log := { j with
    sequence := j.nextSequence, targets := [], revokes := [], countersDirty := false
    isOpen := true }

def abort : Log :=
  if j.isOpen then
    { j with isOpen := false, targets := [], revokes := [], countersDirty := false }
  else j

def replaceTarget (t : TxnTarget) : List TxnTarget → List TxnTarget
  | [] => [t]
  | u :: us => if u.target = t.target then t :: us else u :: replaceTarget t us

def slot (target : ℕ) (ts : List TxnTarget) : ℕ := ts.findIdx fun t => t.target == target

end Log

namespace Volume

variable (vol : Volume)

def txnAbort : Volume := { vol with journal := vol.journal.abort }

def txnNoteCounters (freeBlocks freeObjects : ℕ) : Volume :=
  if vol.journal.isOpen then
    { vol with
      freeBlocks := freeBlocks, freeObjects := freeObjects
      journal := { vol.journal with countersDirty := true } }
  else vol

def txnBegin : Result :=
  if !vol.mounted then (.error .badArgs, vol)
  else if !vol.journal.loaded then (.error .journal, vol)
  else if vol.readOnly then (.error .readOnly, vol)
  else if vol.journal.isOpen then (.error .busy, vol)
  else (.ok (), { vol with journal := vol.journal.begin })

def txnRevoke (block : ℕ) : Result :=
  if !vol.journal.isOpen then (.error .badArgs, vol)
  else if block ∈ vol.journal.revokes then (.ok (), vol)
  else if txnMaxRevokes ≤ vol.journal.revokes.length then (.error .txnFull, vol)
  else (.ok (), { vol with
    journal := { vol.journal with revokes := vol.journal.revokes ++ [block] } })

end Volume

variable {β : Type} (F : Format β)

def journalSuper (sequence : ℕ) : Block β :=
  .journalSuper ⟨F.journalStart, F.blockSize, F.journalBlocks, sequence, 1⟩

variable (vol : Volume)

def readThrough (block : ℕ) : Prog (Block β) (Block β) := readBlock (vol.journal.redirect block)

variable (state : State)

def refreshBackup (generation block : ℕ) : Prog (Block β) Unit := do
  let b ← readThrough vol block
  writeBlock block (b.stamp block state generation none)

/-- `wfs_super_write_task`: the primary, then on a state transition its backups. -/
def superWrite (setCounters refreshBackups force : Bool) : Prog (Block β) Result :=
  if !vol.mounted then pure (.error .badArgs, vol)
  else if vol.readOnly && !force then pure (.error .readOnly, vol)
  else do
    let b ← readThrough vol 0
    let generation := b.generation + 1
    let counters := if setCounters then some (vol.freeBlocks, vol.freeObjects) else none
    writeBlock 0 (b.stamp 0 state generation counters)
    let vol : Volume := { vol with state := state, generation := generation }
    if refreshBackups then do
      forEach (refreshBackup vol state generation) F.backupBlocks
      pure (.ok (), vol)
    else pure (.ok (), vol)

/-- `wfs_mark_dirty_task`: once per mount. -/
def markDirty : Prog (Block β) Result :=
  if !vol.mounted then pure (.error .badArgs, vol)
  else if vol.dirtyMarked then pure (.ok (), vol)
  else if vol.readOnly then pure (.error .readOnly, vol)
  else do
    let (r, vol) ← superWrite F vol .dirty false true false
    match r with
    | .error e => pure (.error e, vol)
    | .ok () => pure (.ok (), { vol with dirtyMarked := true })

def txnOpen : Prog (Block β) Result := do
  let (r, vol) ← markDirty F vol
  match r with
  | .error e => pure (.error e, vol)
  | .ok () => pure vol.txnBegin

/-- `wfs_txn_stage_begin` and its take: the image of `target` goes to the log. -/
def txnStage (target : ℕ) (image : Block β) : Prog (Block β) Result :=
  let j := vol.journal
  let slot := Log.slot target j.targets
  if !j.isOpen then pure (.error .badArgs, vol.txnAbort)
  else if !vol.dirtyMarked then pure (.error .notReady, vol.txnAbort)
  else if j.start ≤ target ∧ target < j.start + j.blocks then pure (.error .badArgs, vol.txnAbort)
  else if txnMaxTargets ≤ slot then pure (.error .txnFull, vol.txnAbort)
  else do
    let t : TxnTarget := ⟨target, j.imageBlock slot, F.crc32c image⟩
    writeBlock t.journalBlock image
    pure (.ok (), { vol with journal := { j with targets := Log.replaceTarget t j.targets } })

def descriptorRecords : List TxnTarget → List TargetRecord
  | [] => []
  | [t] => [⟨t.target, true, t.checksum⟩]
  | t :: ts => ⟨t.target, false, t.checksum⟩ :: descriptorRecords ts

def sealRecord (block sequence : ℕ) (r : Record) : Block β := .log ⟨block, sequence, r⟩

def checkpointImage (t : TxnTarget) : Prog (Block β) Unit := do
  let d ← readThrough vol t.journalBlock
  writeBlock t.target d

def Volume.retired : Volume := { vol with
    journal := { vol.journal with
      nextSequence := vol.journal.sequence + 1, isOpen := false, targets := [], revokes := [] } }

def txnSeal : Prog (Block β) Result := do
  let j := vol.journal
  flushBlocks
  writeBlock j.commitBlock (sealRecord j.commitBlock j.sequence (.commit j.targets.length))
  flushBlocks
  forEach (checkpointImage vol) j.targets
  flushBlocks
  writeBlock j.start (journalSuper F (j.sequence + 1))
  pure (.ok (), vol.retired)

/-- `wfs_txn_commit_task`. -/
def txnClose : Prog (Block β) Result :=
  let j := vol.journal
  if !j.isOpen then pure (.error .badArgs, vol)
  else if j.targets.length = 0 ∧ j.revokes.length = 0 then pure (.ok (), vol.txnAbort)
  else if j.blocks ≤ txnLogBlocks j.targets.length j.revokes.length then
    pure (.error .txnFull, vol.txnAbort)
  else if F.blockSize < 24 + j.targets.length * 16 then pure (.error .txnFull, vol.txnAbort)
  else do
    writeBlock j.descriptorBlock
      (sealRecord j.descriptorBlock j.sequence (.descriptor (descriptorRecords j.targets)))
    if j.revokes.length = 0 then txnSeal F vol
    else if F.blockSize < 32 + j.revokes.length * 8 then pure (.error .txnFull, vol.txnAbort)
    else do
      writeBlock j.revokeBlock (sealRecord j.revokeBlock j.sequence (.revoke j.revokes))
      txnSeal F vol

/-- `wfs_sync_task`: record the mount state and barrier it. -/
def syncState : Prog (Block β) Result :=
  if !vol.mounted then pure (.error .badArgs, vol)
  else if state ≠ .clean ∧ state ≠ .dirty then pure (.error .badArgs, vol)
  else if vol.readOnly then pure (.error .readOnly, vol)
  else if !vol.journal.countersDirty && state == vol.state then pure (.ok (), vol)
  else do
    let (r, vol') ← superWrite F vol state true (state != vol.state) false
    match r with
    | .error e => pure (.error e, vol')
    | .ok () => do
      flushBlocks
      pure (.ok (), { vol' with
        dirtyMarked := state == .dirty
        journal := { vol'.journal with countersDirty := false } })

def parseTargets (g : Geometry) : List (ℕ × ℕ) → List TargetRecord → Except Err (List (ℕ × ℕ))
  | acc, rest =>
    if g.blockSize < 24 + acc.length * 16 + 16 then .error .journal
    else
      match rest with
      -- the records behind the list are zero, and target 0 terminates it
      | [] => .ok acc
      | r :: rs =>
        if r.target = 0 then .ok acc
        else if !g.targetIsLegal r.target then .error .corrupt
        else if txnMaxTargets ≤ acc.length then .error .journal
        else if r.last then .ok (acc ++ [(r.target, r.checksum)])
        else parseTargets g (acc ++ [(r.target, r.checksum)]) rs

def parseDescriptor (g : Geometry) (d : List TargetRecord) : Except Err (List (ℕ × ℕ)) :=
  parseTargets g [] d

def parseRevoke (g : Geometry) (blocks : List ℕ) : Except Err (List ℕ) :=
  if txnMaxRevokes < blocks.length ∨ g.blockSize < 32 + blocks.length * 8 then .error .journal
  else if blocks.all g.targetIsLegal then .ok blocks
  else .error .corrupt

def Log.load (j : Log) (start : ℕ) (s : JournalSuper) : Log := { j with
    start := start, blocks := s.blocks, nextSequence := s.firstSequence
    isOpen := false, targets := [], revokes := [], loaded := true }

def journalLoad : Prog (Block β) (Except Err Volume) :=
  if F.journalBlocks = 0 then pure (.error .journal)
  else do
    let d ← readThrough vol F.journalStart
    match d with
    | .journalSuper s =>
      if s.sealedAt ≠ F.journalStart then pure (.error .journal)
      else if s.blockSize ≠ F.blockSize then pure (.error .journal)
      else if s.blocks ≠ F.journalBlocks then pure (.error .journal)
      else if s.blocks < 1 + txnLogBlocks txnMaxTargets 1 then pure (.error .journal)
      else if s.firstBlock ≠ 1 then pure (.error .journal)
      else pure (.ok { vol with journal := vol.journal.load F.journalStart s })
    | _ => pure (.error .journal)

/-- The records behind the images: revokes up to the COMMIT, if there is one. The first argument
counts the log blocks left. -/
def scanCommit (g : Geometry) (j : Log) (targetCount : ℕ) :
    ℕ → ℕ → List ℕ → Prog (Block β) (Except Err (Option (List ℕ)))
  | 0, _, _ => pure (.ok none)
  | left + 1, cursor, revokes => do
    let d ← readBlock (j.start + cursor)
    match d.recordIsLive (j.start + cursor) j.nextSequence with
    | none => pure (.ok none)
    | some (.revoke blocks) =>
      match parseRevoke g blocks with
      | .error e => pure (.error e)
      | .ok rs => scanCommit g j targetCount left (cursor + 1) rs
    | some (.descriptor _) => pure (.error .journal)
    | some (.unknown _) => pure (.error .journal)
    | some (.commit n) =>
      if n ≠ targetCount then pure (.error .journal) else pure (.ok (some revokes))

def replayImages (j : Log) (revokes : List ℕ) : ℕ → ℕ → List (ℕ × ℕ) → Prog (Block β) (Except Err ℕ)
  | _, applied, [] => pure (.ok applied)
  | index, applied, (target, checksum) :: rest =>
    if target ∈ revokes then replayImages j revokes (index + 1) applied rest
    else do
      let d ← readBlock (j.imageBlock index)
      if F.crc32c d ≠ checksum then pure (.error .replay)
      else do
        writeBlock target d
        replayImages j revokes (index + 1) (applied + 1) rest

def Volume.atSequence (sequence : ℕ) : Volume :=
  { vol with journal := { vol.journal with nextSequence := sequence } }

def replayRetire (applied : ℕ) : Prog (Block β) (Except Err (Volume × ℕ)) := do
  flushBlocks
  writeBlock vol.journal.start (journalSuper F (vol.journal.nextSequence + 1))
  pure (.ok (vol.atSequence (vol.journal.nextSequence + 1), applied))

/-- `wfs_journal_replay_task` over a loaded log. -/
def journalReplay : Prog (Block β) (Except Err (Volume × ℕ)) := do
  let j := vol.journal
  let d ← readBlock j.descriptorBlock
  match d.recordIsLive j.descriptorBlock j.nextSequence with
  | none => pure (.ok (vol, 0))
  | some (.commit _) => pure (.error .journal)
  | some (.revoke _) => pure (.error .journal)
  | some (.unknown _) => pure (.error .journal)
  | some (.descriptor records) =>
    match parseDescriptor F.toGeometry records with
    | .error e => pure (.error e)
    | .ok targets => do
      let r ← scanCommit F.toGeometry j targets.length (j.blocks - (2 + targets.length))
        (2 + targets.length) []
      match r with
      | .error e => pure (.error e)
      | .ok none => pure (.ok (vol, 0))
      | .ok (some revokes) => do
        let r ← replayImages F j revokes 0 0 targets
        match r with
        | .error e => pure (.error e)
        | .ok applied => replayRetire F vol applied

def loadAndReplay : Prog (Block β) (Except Err (Volume × ℕ)) := do
  let r ← journalLoad F vol
  match r with
  | .error e => pure (.error e)
  | .ok vol => journalReplay F vol

def Volume.unmounted : Volume :=
  ⟨.clean, 0, 0, 0, false, false, false, false, ⟨false, 0, 0, 0, false, 0, [], [], false⟩⟩

/-- `wfs_super_parse` of a block sealed for `location`. -/
def superParse (location : ℕ) : Block β → Except Err Volume
  | .super s =>
    if s.location ≠ location then .error .checksum
    else .ok { Volume.unmounted with
      state := s.state, generation := s.generation, freeBlocks := s.freeBlocks
      freeObjects := s.freeObjects, needsReplay := s.state == .dirty
      readOnly := s.state == .error }
  | _ => .error .badMagic

/-- The backup scan: the valid copy with the highest generation, the first one on a tie. -/
def backupScan : Option Volume → List ℕ → Prog (Block β) (Option Volume)
  | best, [] => pure best
  | best, block :: rest => do
    let d ← readBlock block
    match superParse block d, best with
    | .ok cand, none => backupScan (some cand) rest
    | .ok cand, some cur =>
      backupScan (some (if cur.generation < cand.generation then cand else cur)) rest
    | .error _, _ => backupScan best rest

structure Mounted where
  vol : Volume
  journalErr : Option Err
  replayed : ℕ

def mountLog (fromBackup : Bool) : Prog (Block β) Mounted := do
  let r ← journalLoad F vol
  match r with
  | .error e => pure ⟨{ vol with readOnly := true, mounted := true }, some e, 0⟩
  | .ok vol =>
    if !vol.needsReplay then pure ⟨{ vol with mounted := true }, none, 0⟩
    else do
      let r ← journalReplay F vol
      match r with
      | .ok (vol, applied) =>
        pure ⟨{ vol with needsReplay := false, mounted := true }, none, applied⟩
      | .error e =>
        let vol : Volume := { vol with readOnly := true, mounted := true }
        if fromBackup then pure ⟨vol, some e, 0⟩
        else do
          let (_, vol) ← superWrite F vol .error false true true
          pure ⟨vol, some e, 0⟩

def mount : Prog (Block β) (Except Err Mounted) := do
  let d ← readBlock 0
  match superParse 0 d with
  | .ok vol => do
    let m ← mountLog F vol false
    pure (.ok m)
  | .error e => do
    let best ← backupScan none F.backupBlocks
    match best with
    | none => pure (.error e)
    | some vol => do
      let m ← mountLog F { vol with readOnly := true, needsReplay := true } true
      pure (.ok m)

inductive Call (β : Type)
  | txnOpen
  | txnStage (target : ℕ) (image : Block β)
  | txnRevoke (block : ℕ)
  | txnNoteCounters (freeBlocks freeObjects : ℕ)
  | txnClose
  | txnAbort
  | sync (state : State)
  deriving DecidableEq, Repr

structure Txn (β : Type) where
  staged : List (ℕ × Block β)
  revoked : List ℕ

namespace Txn

def empty : Txn β := ⟨[], []⟩

def image (t : Txn β) (block : ℕ) : Option (Block β) :=
  (t.staged.find? fun w => w.1 == block).map Prod.snd

def apply (t : Txn β) (content : ℕ → Option (Block β)) (block : ℕ) : Option (Block β) :=
  match t.image block with
  | none => content block
  | some v => if block ∈ t.revoked then none else some v

def after (t : Txn β) : Call β → Txn β
  | .txnOpen => empty
  | .txnStage b v => { t with staged := (b, v) :: t.staged }
  | .txnRevoke b => { t with revoked := b :: t.revoked }
  | _ => t

end Txn

def contentAfter (disk : ℕ → Block β) (h : List (Txn β)) : ℕ → Option (Block β) :=
  h.foldl (fun c t => t.apply c) fun b => some (disk b)

/-- A volume switched off, mounted, or refused by its mount. -/
inductive System (β : Type)
  | off (disk : ℕ → Block β)
  | on (dev : Disk β) (m : Mounted)
  | stalled (dev : Disk β) (e : Err)

structure Machine (β : Type) where
  sys : System β
  txn : Txn β

inductive Event (β : Type)
  | call (c : Call β)
  | stopIn (c : Call β) (point : ℕ) (keep : List Bool)
  | mount
  | stopInMount (point : ℕ) (keep : List Bool)
  | settle
  deriving DecidableEq, Repr

def Call.prog (vol : Volume) : Call β → Prog (Block β) Result
  | .txnOpen => Journal.txnOpen F vol
  | .txnStage target image => Journal.txnStage F vol target image
  | .txnRevoke block => pure (vol.txnRevoke block)
  | .txnNoteCounters blocks objects => pure (.ok (), vol.txnNoteCounters blocks objects)
  | .txnClose => Journal.txnClose F vol
  | .txnAbort => pure (.ok (), vol.txnAbort)
  | .sync state => syncState F vol state

/-- The driver runs one operation at a time, so a sync never meets an open transaction. -/
def Call.served (vol : Volume) : Call β → Bool
  | .sync _ => !vol.journal.isOpen
  | _ => true

def stopAt {α : Type} (p : Prog (Block β) α) (dev : Disk β) (point : ℕ)
    (keep : List Bool) : ℕ → Block β := (((p.points dev)[point]?).getD dev).crash keep

def succeeded (r : Except Err Unit) : Bool :=
  match r with
  | .ok () => true
  | .error _ => false

variable (writeThrough : Bool)

def exec (s : Machine β) : Event β → Machine β
  | .call c =>
    match s.sys with
    | .on dev m =>
      if c.served m.vol then
        let out := (c.prog F m.vol).run dev
        ⟨.on out.2 { m with vol := out.1.2 }, if succeeded out.1.1 then s.txn.after c else s.txn⟩
      else s
    | _ => s
  | .stopIn c point keep =>
    match s.sys with
    | .on dev m =>
      if c.served m.vol then ⟨.off (stopAt (c.prog F m.vol) dev point keep), .empty⟩ else s
    | _ => s
  | .mount =>
    match s.sys with
    | .off disk =>
      let out := (mount F).run (Device.fresh writeThrough disk)
      match out.1 with
      | .ok m => ⟨.on out.2 m, .empty⟩
      | .error e => ⟨.stalled out.2 e, .empty⟩
    | _ => s
  | .stopInMount point keep =>
    match s.sys with
    | .off disk => ⟨.off (stopAt (mount F) (Device.fresh writeThrough disk) point keep), .empty⟩
    | _ => s
  | .settle =>
    match s.sys with
    | .on dev m => ⟨.on dev.flush m, s.txn⟩
    | _ => s

def run (s : Machine β) (es : List (Event β)) : Machine β := es.foldl (exec F writeThrough) s

def outcomes (s : Machine β) : Event β → List (List (Txn β))
  | .call .txnClose =>
    match s.sys with
    | .on dev m => if succeeded ((txnClose F m.vol).run dev).1.1 then [[s.txn]] else [[]]
    | _ => [[]]
  | .stopIn .txnClose _ _ =>
    match s.sys with
    | .on _ m => if m.vol.journal.isOpen then [[], [s.txn]] else [[]]
    | _ => [[]]
  | _ => [[]]

def histories (s : Machine β) : List (Event β) → List (List (Txn β))
  | [] => [[]]
  | e :: es =>
    (outcomes F s e).flatMap fun o =>
      (histories (exec F writeThrough s e) es).map fun h => o ++ h

structure Formatted (disk : ℕ → Block β) : Prop where
  super : ∃ n blocks objects, disk 0 = .super ⟨0, .clean, n, blocks, objects⟩
  tail : disk F.journalStart = journalSuper F 1
  log : ∀ c, 1 ≤ c → c < F.journalBlocks → ∀ l, disk (F.journalStart + c) ≠ .log l

/-- A call on legal targets; an image does not verify as a log record. -/
def Call.Legal : Call β → Prop
  | .txnStage target image => F.targetIsLegal target = true ∧ ∀ l, image ≠ .log l
  | .txnRevoke block => F.targetIsLegal block = true
  | _ => True

def Event.Legal : Event β → Prop
  | .call c => c.Legal F
  | .stopIn c _ _ => c.Legal F
  | _ => True

/-- Exact agreement, except that a backup superblock may carry other mount-state fields. -/
def Agrees (block : ℕ) (have_ want : Block β) : Prop :=
  if block ∈ F.backupBlocks then have_.unstamp = want.unstamp else have_ = want

def Matches (disk : ℕ → Block β) (content : ℕ → Option (Block β)) : Prop :=
  ∀ b v, b ≠ 0 → (b < F.journalStart ∨ F.journalStart + F.journalBlocks ≤ b) →
    content b = some v → Agrees F b (disk b) v

end Journal

end Wfs
