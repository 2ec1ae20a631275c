import WasmOS.Wfs.Volume.SplitPath

/-! # The checker

A walk of the object table claims blocks, the bitmaps are compared with what was claimed and the
counters with the bitmaps. A part of a run passes when it finds no fault and claims exactly its
blocks. A run over parts that pass and hold different blocks is clean.
-/

namespace Wfs.Fsck

open Procedure List Function Extent

structure Report where
  superErrors : ℕ := 0
  groupErrors : ℕ := 0
  objectErrors : ℕ := 0
  extentErrors : ℕ := 0
  dirErrors : ℕ := 0
  linkErrors : ℕ := 0
  bitmapErrors : ℕ := 0
  counterErrors : ℕ := 0
  objectsInUse : ℕ := 0
  blocksInUse : ℕ := 0
  usedBackupSuper : Bool := false

namespace Report

variable (r : Report)

def structural : Bool :=
  r.superErrors != 0 || r.groupErrors != 0 || r.objectErrors != 0 || r.extentErrors != 0 ||
    r.dirErrors != 0 || r.linkErrors != 0

def group : Report := { r with groupErrors := r.groupErrors + 1 }
def object : Report := { r with objectErrors := r.objectErrors + 1 }
def extent : Report := { r with extentErrors := r.extentErrors + 1 }
def dir : Report := { r with dirErrors := r.dirErrors + 1 }
def link : Report := { r with linkErrors := r.linkErrors + 1 }
def counter : Report := { r with counterErrors := r.counterErrors + 1 }

end Report

/-- The blocks claimed, the references counted for each object, the object bitmap, and what was
found. -/
structure Walk where
  used : ℕ → Bool := fun _ => false
  links : ℕ → ℕ := fun _ => 0
  objects : ℕ → Bool := fun _ => false
  report : Report

abbrev Check := Procedure Walk Err

def note (f : Report → Report) : Check Unit := modify fun w => { w with report := f w.report }

variable (I : Image) (sb : Super)

def primary : Option Super := I.superAt 0

def candidates : List (ℕ × ℕ) :=
  [1, 3, 5, 7].flatMap fun group => [(4096, group), (8192, group), (16384, group)]

def backupAt (c : ℕ × ℕ) : Option Super :=
  if c.1 = I.blockSize then I.superAt (c.2 * (8 * c.1)) else none

def preferBackup (best : Option Super) (c : ℕ × ℕ) : Option Super :=
  match best, backupAt I c with
  | best, none => best
  | none, some new => some new
  | some old, some new => if old.generation < new.generation then some new else some old

/-- `load_super`: the primary, or the best backup and a finding. -/
def loadSuper : Option Super × Report :=
  match primary I with
  | some sb => (some sb, {})
  | none => (candidates.foldl (preferBackup I) none, { superErrors := 1, usedBackupSuper := true })

def claimRun : (count block : ℕ) → Check Bool
  | 0, _ => pure true
  | count + 1, block => do
    let w ← get
    if w.used block then do
      note Report.extent
      pure false
    else do
      modify fun w => { w with
        used := Function.update w.used block true
        report := { w.report with blocksInUse := w.report.blocksInUse + 1 } }
      claimRun count (block + 1)

def claim (first count : ℕ) : Check Bool :=
  if count = 0 ∨ sb.totalBlocks ≤ first ∨ sb.totalBlocks - first < count then do
    note Report.extent
    pure false
  else claimRun count first

def claimJournal : Check Bool :=
  if sb.journalBlocks ≠ 0 then claim sb sb.journalStart sb.journalBlocks else pure true

/-- `claim_metadata`: all regions are tried, also after a failure. -/
def claimMetadata : Check Bool := do
  let a ← claim sb 0 1
  let b ← claim sb sb.groupTableStart sb.groupTableBlocks
  let c ← claim sb sb.objectTableStart sb.objectTableBlocks
  let d ← claim sb sb.bitmapStart sb.bitmapBlocks
  let e ← claimJournal sb
  pure (a && b && c && d && e)

def checkGroup (group : ℕ) : Check Unit := do
  let block := sb.groupTableStart + group / sb.groupDescsPerBlock
  require (block < sb.totalBlocks) .corrupt
  match (I.descSlot block (group % sb.groupDescsPerBlock)).verify group with
  | none => note Report.group
  | some d =>
    if d.hasBackup && Journal.groupHasBackup group && group * sb.blocksPerGroup != 0 then do
      let _ ← claim sb (group * sb.blocksPerGroup) 1
      pure ()
    else pure ()

def objectsPerGroup : ℕ := sb.totalObjects / sb.groupCount

def loadObjectBitmap : List ℕ → Check Unit
  | [] => pure ()
  | group :: rest => do
    require (sb.groupTableStart + group / sb.groupDescsPerBlock < sb.totalBlocks) .corrupt
    let bitmap := (I.desc sb group).objectBitmap
    let first := group * objectsPerGroup sb
    if sb.totalBlocks ≤ bitmap then do
      note Report.group
      loadObjectBitmap rest
    else if sb.totalObjects ≤ first then pure ()
    else do
      let count := min (min (objectsPerGroup sb) (sb.totalObjects - first)) (8 * sb.blockSize)
      modify fun w => { w with
        objects := fun id => w.objects id ||
          (decide (first ≤ id) && decide (id < first + count) && I.bitAt bitmap (id - first)) }
      loadObjectBitmap rest

/-- The records of a directory block from `off` on. Returns whether `.` and `..` were seen, or
nothing when a stride cannot be followed. -/
def checkRecords (usable : ℕ) : List Dirent → (off : ℕ) → (dot dotDot : Bool) →
    Check (Option (Bool × Bool))
  | [], off, dot, dotDot =>
    if off + 12 ≤ usable then do
      note Report.dir
      pure none
    else pure (some (dot, dotDot))
  | r :: rs, off, dot, dotDot =>
    if off + 12 ≤ usable then
      if !strideOk usable off r.length then do
        note Report.dir
        pure none
      else if r.object = 0 then checkRecords usable rs (off + r.length) dot dotDot
      else if r.name = [] ∨ nameMax < r.name.length ∨ r.length < 12 + r.name.length ∨
          sb.totalObjects ≤ r.object then do
        note Report.dir
        checkRecords usable rs (off + r.length) dot dotDot
      else do
        modify fun w => { w with links := Function.update w.links r.object (w.links r.object + 1) }
        checkRecords usable rs (off + r.length) (dot || r.name == dotName)
          (dotDot || r.name == dotDotName)
    else pure (some (dot, dotDot))

def checkDirBlock (block index : ℕ) : Check Unit :=
  match if block < sb.totalBlocks then I.dirAt block else none with
  | none => note Report.dir
  | some records => do
    match ← checkRecords sb (dirUsableBytes sb.blockSize) records 0 false false with
    | none => pure ()
    | some (dot, dotDot) =>
      if index = 0 ∧ ¬ (dot && dotDot) = true then note Report.dir else pure ()

/-- How far a walk has come: the end of the last extent, and the directory blocks seen. -/
structure Cursor where
  logical : ℕ
  index : ℕ

def checkDirBlocks : (count block index : ℕ) → Check Unit
  | 0, _, _ => pure ()
  | count + 1, block, index => do
    checkDirBlock I sb block index
    checkDirBlocks count (block + 1) (index + 1)

/-- `check_extent`: extents ascend. The blocks of a directory are checked as they are claimed. -/
def checkExtent (dir : Bool) (c : Cursor) (e : Extent) : Check Cursor :=
  if e.length = 0 ∨ sb.totalBlocks ≤ e.physical ∨ e.logical < c.logical then do
    note Report.extent
    pure c
  else do
    let ok ← claim sb e.physical e.length
    if ok && dir then do
      checkDirBlocks I sb e.length e.physical c.index
      pure ⟨e.logical + e.length, c.index + e.length⟩
    else pure ⟨e.logical + e.length, c.index⟩

def walkNode (dir : Bool) : (depth block : ℕ) → Cursor → Check Cursor
  | 0, block, c => do
    if ← claim sb block 1 then
      match I.nodeAt block with
      | some (.leaf records) =>
        if sb.dims.leafCapacity < records.length then do
          note Report.extent
          pure c
        else fold (checkExtent I sb dir) records c
      | _ => do
        note Report.extent
        pure c
    else pure c
  | depth + 1, block, c =>
    if extentMaxDepth < depth + 1 then do
      note Report.extent
      pure c
    else do
      if ← claim sb block 1 then
        match I.nodeAt block with
        | some (.interior level index) =>
          if level ≠ depth + 1 ∨ sb.dims.interiorCapacity < index.length then do
            note Report.extent
            pure c
          else
            fold (fun c child =>
              if child.2 = 0 ∨ sb.totalBlocks ≤ child.2 then do
                note Report.extent
                pure c
              else walkNode dir depth child.2 c) index c
        | _ => do
          note Report.extent
          pure c
      else pure c

def rootDepth (block : ℕ) : ℕ :=
  match I.block block with
  | .node ⟨_, .interior depth _⟩ => depth
  | _ => 0

def checkObject (id : ℕ) : Check Unit :=
  match if sb.objectTableStart + id / sb.objectsPerBlock < sb.totalBlocks then I.record sb id
    else none with
  | none => note Report.object
  | some o => do
    note fun r => { r with objectsInUse := r.objectsInUse + 1 }
    if o.inlineFlag then
      if inlineDataMax < o.size then note Report.object else pure ()
    else if o.treeBlock ≠ 0 then
      if sb.totalBlocks ≤ o.treeBlock then note Report.extent
      else do
        let _ ← walkNode I sb (o.type == .dir) (rootDepth I o.treeBlock) o.treeBlock ⟨0, 0⟩
        pure ()
    else if inlineExtents < o.extentCount then note Report.object
    else do
      let _ ← fold (checkExtent I sb (o.type == .dir)) (o.extents.take o.extentCount) ⟨0, 0⟩
      pure ()

def walked (id : ℕ) : Bool := decide (objectFirst ≤ id) || id == sb.rootObjectId

def checkObjects (ids : List ℕ) : Check Unit := forEach (fun id => do
    let w ← get
    if w.objects id && walked sb id then checkObject I sb id else pure ()) ids

/-- `repair_group` without its writes. Returns the free blocks and objects. -/
def repairGroup (group : ℕ) : Check (ℕ × ℕ) :=
  let first := group * sb.blocksPerGroup
  if sb.totalBlocks ≤ first then pure (0, 0)
  else do
    require (sb.groupTableStart + group / sb.groupDescsPerBlock < sb.totalBlocks) .corrupt
    let d := I.desc sb group
    if sb.totalBlocks ≤ d.blockBitmap then do
      note Report.group
      pure (0, 0)
    else do
      let w ← get
      let count := min sb.blocksPerGroup (sb.totalBlocks - first)
      let wrong := (range count).countP fun i => I.bitAt d.blockBitmap i != w.used (first + i)
      -- blocks past the end of the volume have to read as allocated
      let past := (range' count (min sb.blocksPerGroup (8 * sb.blockSize) - count)).countP
        fun i => !I.bitAt d.blockBitmap i
      note fun r => { r with bitmapErrors := r.bitmapErrors + wrong + past }
      let freeBlocks := (range count).countP fun i => !w.used (first + i)
      let firstObject := group * objectsPerGroup sb
      let freeObjects :=
        (range (min (objectsPerGroup sb) (sb.totalObjects - firstObject))).countP fun i =>
          !w.objects (firstObject + i)
      if d.freeBlocks ≠ freeBlocks ∨ d.freeObjects ≠ freeObjects then note Report.counter
      else pure ()
      pure (freeBlocks, freeObjects)

def repairGroups (groups : List ℕ) : Check (ℕ × ℕ) := fold (fun free group => do
    let (blocks, objects) ← repairGroup I sb group
    pure (free.1 + blocks, free.2 + objects)) groups (0, 0)

def orphan (w : Walk) (id : ℕ) : Bool :=
  w.objects id && decide (objectFirst ≤ id) && id != sb.rootObjectId && w.links id == 0

def checkLinks : Check Unit := modify fun w => { w with report := { w.report with
    linkErrors := w.report.linkErrors + (range sb.totalObjects).countP (orphan sb w) } }

/-- `finish_super` without its writes: the counters in block 0. -/
def finishSuper (freeBlocks freeObjects : ℕ) : Check Unit :=
  match I.block 0 with
  | .super s =>
    if s.value.freeBlocks ≠ u32 freeBlocks ∨ s.value.freeObjects ≠ u32 freeObjects then
      note Report.counter
    else pure ()
  | _ => note Report.counter

def passes : Check Unit := do
  let ok ← claimMetadata sb
  require (ok = true) .corrupt
  forEach (checkGroup I sb) (range sb.groupCount)
  loadObjectBitmap I sb (range sb.groupCount)
  checkObjects I sb (range sb.totalObjects)
  let free ← repairGroups I sb (range sb.groupCount)
  checkLinks sb
  finishSuper I free.1 free.2
  let w ← get
  require (w.report.structural = false) .corrupt

/-- `wfs_fsck_run` with no way to write. -/
def run : Except Err Unit × Report :=
  match loadSuper I with
  | (none, report) => (.error .badMagic, report)
  | (some sb, report) =>
    let (result, w) := passes I sb { report }
    (result, w.report)

def Report.Clear (r : Report) : Prop :=
  r.structural = false ∧ r.bitmapErrors = 0 ∧ r.counterErrors = 0

structure Clean (w : Walk) (held refs : List ℕ) : Prop where
  used : ∀ b, w.used b = true ↔ b ∈ held
  links : ∀ id, w.links id = refs.count id
  clear : w.report.Clear

/-- From a clean walk `m` returns into `Q` with a clean walk, having claimed `blocks` and
counted `refs`. -/
def Passes {α : Type} (m : Check α) (Q : α → Prop) (blocks refs : List ℕ) : Prop :=
  ∀ w held seen, Clean w held seen → (held ++ blocks).Nodup →
    wp m (fun a t => Q a ∧ Clean t (held ++ blocks) (seen ++ refs) ∧ t.objects = w.objects)
      (fun _ => False) w

section Rules

variable {α β : Type} {m : Check α} {f : α → Check β} {Q R : α → Prop} {S : β → Prop}
  {b c r s : List ℕ}

lemma passes_pure {a : α} (h : Q a) : Passes (pure a) Q [] [] := by
  intro w held seen hw _
  rw [append_nil, append_nil]
  exact ⟨h, hw, rfl⟩

lemma Passes.mono (h : Passes m Q b r) (hQ : ∀ a, Q a → R a) : Passes m R b r := by
  intro w held seen hw hn
  exact wp_mono (h w held seen hw hn) (fun a t ht => ⟨hQ a ht.1, ht.2⟩) fun _ ht => ht

lemma Passes.bind (h : Passes m Q b r) (hf : ∀ a, Q a → Passes (f a) S c s) :
    Passes (m >>= f) S (b ++ c) (r ++ s) := by
  intro w held seen hw hn
  rw [← append_assoc] at hn
  refine wp_seq (h w held seen hw (List.Nodup.of_append_left hn)) ?_ fun _ ht => ht
  rintro a t ⟨ha, ht, ho⟩
  refine wp_mono (hf a ha t _ _ ht hn) ?_ fun _ hu => hu
  rintro d u ⟨hd, hu, ho'⟩
  rw [← append_assoc, ← append_assoc]
  exact ⟨hd, hu, ho'.trans ho⟩

lemma Passes.then (h : Passes m Q b []) (hf : ∀ a, Q a → Passes (f a) S [] s) :
    Passes (m >>= f) S b s := by
  have := h.bind hf
  rwa [append_nil, nil_append] at this

lemma Passes.after (h : Passes m Q [] []) (hf : ∀ a, Q a → Passes (f a) S c s) :
    Passes (m >>= f) S c s := h.bind hf

lemma Passes.bind_nil (h : Passes m Q b r) (hf : ∀ a, Q a → Passes (f a) S [] []) :
    Passes (m >>= f) S b r := by
  have := h.bind hf
  rwa [append_nil, append_nil] at this

lemma Passes.bind_pure (h : Passes m Q b r) {g : α → β} (hg : ∀ a, Q a → S (g a)) :
    Passes (m >>= fun a => pure (g a)) S b r := h.bind_nil fun a ha => passes_pure (hg a ha)

lemma passes_fold {g : β → α → Check β} {as : List α} {d : β} {J : List α → β → Prop}
    {blocks refs : α → List ℕ} (h0 : J [] d)
    (h : ∀ pre a post c, as = pre ++ a :: post → J pre c →
      Passes (g c a) (J (pre ++ [a])) (blocks a) (refs a)) :
    Passes (fold g as d) (J as) (as.flatMap blocks) (as.flatMap refs) := by
  intro w held seen hw hn
  refine wp_mono (wp_fold (I := fun pre c t => J pre c ∧
      Clean t (held ++ pre.flatMap blocks) (seen ++ pre.flatMap refs) ∧ t.objects = w.objects)
    ⟨h0, by simpa using hw, rfl⟩ ?_) (fun _ _ ht => ht) fun _ ht => ht
  rintro pre a post c t rfl ⟨hc, ht, ho⟩
  have hn' : (held ++ pre.flatMap blocks ++ blocks a).Nodup := by
    refine hn.sublist ?_
    simp only [flatMap_append, flatMap_cons, ← append_assoc]
    exact sublist_append_left _ _
  refine wp_mono (h pre a post c rfl hc t _ _ ht hn') ?_ fun _ hu => hu
  rintro e u ⟨he, hu, ho'⟩
  refine ⟨he, ?_, ho'.trans ho⟩
  simpa using hu

end Rules

variable {I : Image} {sb : Super} {first count block index : ℕ}

lemma passes_claimRun : Passes (claimRun count first) (· = true) (List.range' first count) [] := by
  induction count generalizing first with
  | zero => exact passes_pure rfl
  | succ count ih =>
    intro w held seen hw hn
    have hfree : w.used first = false := by
      rw [Bool.eq_false_iff, ne_eq, hw.used]
      intro hm
      exact (nodup_append'.mp hn).2.2 hm (by simp [range'_succ])
    rw [claimRun, wp_bind, wp_get, hfree]
    simp only [Bool.false_eq_true, if_false, wp_bind, wp_modify]
    rw [range'_succ, append_cons] at hn ⊢
    refine wp_mono (ih _ (held ++ [first]) seen ⟨?_, hw.links, hw.clear⟩ hn)
      (fun _ _ ht => ht) fun _ ht => ht
    intro b
    dsimp only
    rw [update_apply, mem_append, mem_singleton, ← hw.used b]
    split <;> simp_all

lemma passes_claim (hc : 0 < count) (hb : first + count ≤ sb.totalBlocks) :
    Passes (claim sb first count) (· = true) (List.range' first count) [] := by
  unfold claim
  rw [if_neg (by omega)]
  exact passes_claimRun

structure RecordsOk (usable objects : ℕ) (rs : List Dirent) : Prop where
  covers : (rs.map Dirent.length).sum = usable
  stride : ∀ r ∈ rs, 16 ≤ r.length ∧ r.length % 8 = 0
  free : ∀ r ∈ rs, r.object = 0 → r.name = []
  entry : ∀ r ∈ rs, r.object ≠ 0 → r.name ≠ [] ∧ r.name.length ≤ nameMax ∧
    12 + r.name.length ≤ r.length ∧ r.object < objects

def targets (rs : List Dirent) : List ℕ := (rs.map Dirent.object).filter (· ≠ 0)

def HasDots (rs : List Dirent) : Prop :=
  (∃ r ∈ rs, r.object ≠ 0 ∧ r.name = dotName) ∧ ∃ r ∈ rs, r.object ≠ 0 ∧ r.name = dotDotName

lemma passes_count {id : ℕ} :
    Passes (modify fun w => { w with links := update w.links id (w.links id + 1) })
      (fun _ => True) [] [id] := by
  intro w held seen hw _
  rw [append_nil]
  refine ⟨trivial, ⟨hw.used, fun k => ?_, hw.clear⟩, rfl⟩
  dsimp only
  rw [count_append, update_apply, hw.links, hw.links]
  split
  · next h => simp [h]
  · next h => simp [Ne.symm h]

lemma passes_checkRecords {usable off : ℕ} {rs : List Dirent} {dot dotDot : Bool}
    (hcover : off + (rs.map Dirent.length).sum = usable)
    (hstride : ∀ r ∈ rs, 16 ≤ r.length ∧ r.length % 8 = 0)
    (hentry : ∀ r ∈ rs, r.object ≠ 0 → r.name ≠ [] ∧ r.name.length ≤ nameMax ∧
      12 + r.name.length ≤ r.length ∧ r.object < sb.totalObjects) :
    Passes (checkRecords sb usable rs off dot dotDot) (fun r => ∃ a b, r = some (a, b) ∧
        (a = true ↔ dot = true ∨ ∃ r ∈ rs, r.object ≠ 0 ∧ r.name = dotName) ∧
        (b = true ↔ dotDot = true ∨ ∃ r ∈ rs, r.object ≠ 0 ∧ r.name = dotDotName)) []
      (targets rs) := by
  induction rs generalizing off dot dotDot with
  | nil =>
    unfold checkRecords
    simp only [map_nil, sum_nil, add_zero] at hcover
    rw [if_neg (by omega)]
    exact passes_pure ⟨dot, dotDot, rfl, by simp, by simp⟩
  | cons r rs ih =>
    rw [map_cons, sum_cons] at hcover
    have := hstride r (.head _)
    have hok : strideOk usable off r.length = true := by
      simp only [strideOk, Bool.and_eq_true, decide_eq_true_eq, beq_iff_eq]
      omega
    have hrest := fun dot dotDot => @ih (off + r.length) dot dotDot
      (by omega) (fun x hx => hstride x (.tail _ hx))
      fun x hx => hentry x (.tail _ hx)
    unfold checkRecords
    rw [if_pos (by omega), hok]
    simp only [Bool.not_true, Bool.false_eq_true, if_false]
    split
    · next h0 =>
      rw [show targets (r :: rs) = targets rs by simp [targets, h0]]
      exact (hrest dot dotDot).mono fun a => by simp [h0]
    next h0 =>
    obtain ⟨hne, hmax, hfit, hlt⟩ := hentry r (.head _) h0
    rw [if_neg (by rintro (h | h | h | h) <;> first | exact hne h | omega),
      show targets (r :: rs) = [r.object] ++ targets rs by simp [targets, h0]]
    refine passes_count.bind fun _ _ => (hrest _ _).mono ?_
    rintro a ⟨x, y, rfl, hx, hy⟩
    refine ⟨x, y, rfl, ?_, ?_⟩
    · rw [hx]
      simp [h0, or_assoc]
    · rw [hy]
      simp [h0, or_assoc]

lemma passes_checkDirBlock {rs : List Dirent} (hd : I.dirAt block = some rs)
    (hb : block < sb.totalBlocks)
    (hr : RecordsOk (dirUsableBytes sb.blockSize) sb.totalObjects rs)
    (hdots : index = 0 → HasDots rs) :
    Passes (checkDirBlock I sb block index) (fun _ => True) [] (targets rs) := by
  unfold checkDirBlock
  rw [if_pos hb, hd]
  have hcover : 0 + (rs.map Dirent.length).sum = dirUsableBytes sb.blockSize := by
    rw [zero_add, hr.covers]
  have hrec : Passes (checkRecords sb _ rs 0 false false) _ [] _ :=
    passes_checkRecords hcover hr.stride hr.entry
  refine hrec.bind_nil ?_
  rintro _ ⟨a, b, rfl, ha, hb'⟩
  dsimp only
  rw [if_neg]
  · exact passes_pure trivial
  rintro ⟨h0, hn⟩
  obtain ⟨h1, h2⟩ := hdots h0
  exact hn (by simp [ha.mpr (.inr h1), hb'.mpr (.inr h2)])

def refsAt (I : Image) (block : ℕ) : List ℕ := targets ((I.dirAt block).getD [])

/-- The blocks of a directory in order; the first has the entries every directory has. -/
structure DirOk (I : Image) (sb : Super) (blocks : List ℕ) : Prop where
  records : ∀ b ∈ blocks, ∃ rs, I.dirAt b = some rs ∧
    RecordsOk (dirUsableBytes sb.blockSize) sb.totalObjects rs
  dots : ∀ b ∈ blocks.head?, ∀ rs, I.dirAt b = some rs → HasDots rs

lemma passes_checkDirBlocks (hb : ∀ b ∈ List.range' block count, b < sb.totalBlocks)
    (hok : ∀ b ∈ List.range' block count, ∃ rs, I.dirAt b = some rs ∧
      RecordsOk (dirUsableBytes sb.blockSize) sb.totalObjects rs)
    (hdots : index = 0 → ∀ b ∈ (List.range' block count).head?, ∀ rs, I.dirAt b = some rs →
      HasDots rs) :
    Passes (checkDirBlocks I sb count block index) (fun _ => True) []
      ((List.range' block count).flatMap (refsAt I)) := by
  induction count generalizing block index with
  | zero => exact passes_pure trivial
  | succ count ih =>
    rw [range'_succ] at hb hok hdots
    obtain ⟨rs, hd, hr⟩ := hok block (.head _)
    have hfirst : Passes (checkDirBlock I sb block index) (fun _ => True) [] (refsAt I block) := by
      rw [refsAt, hd]
      exact passes_checkDirBlock hd (hb block (.head _)) hr fun h0 =>
        hdots h0 block rfl rs hd
    rw [range'_succ, flatMap_cons, checkDirBlocks]
    exact hfirst.bind fun _ _ => ih (fun b h => hb b (.tail _ h))
      (fun b h => hok b (.tail _ h)) fun h0 => by omega

def Cursor.past (dir : Bool) (c : Cursor) (e : Extent) : Cursor :=
  ⟨e.stop, if dir then c.index + e.length else c.index⟩

def mapRefs (I : Image) (dir : Bool) (blocks : List ℕ) : List ℕ :=
  if dir then blocks.flatMap (refsAt I) else []

lemma passes_checkExtent {dir : Bool} {c : Cursor} {e : Extent} (hl : 0 < e.length)
    (hb : e.physical + e.length ≤ sb.totalBlocks) (hc : c.logical ≤ e.logical)
    (hok : dir = true → ∀ b ∈ e.run, ∃ rs, I.dirAt b = some rs ∧
      RecordsOk (dirUsableBytes sb.blockSize) sb.totalObjects rs)
    (hdots : dir = true → c.index = 0 → ∀ b ∈ e.run.head?, ∀ rs, I.dirAt b = some rs → HasDots rs) :
    Passes (checkExtent I sb dir c e) (· = c.past dir e) e.run (mapRefs I dir e.run) := by
  unfold checkExtent
  rw [if_neg (by omega)]
  refine (passes_claim hl hb).then ?_
  rintro _ rfl
  cases dir with
  | false => exact passes_pure rfl
  | true =>
    have hdir : Passes (checkDirBlocks I sb e.length e.physical c.index) _ _ _ :=
      passes_checkDirBlocks (fun b h => by rw [mem_range'_1] at h; omega) (hok rfl) (hdots rfl)
    exact hdir.bind_pure fun _ _ => rfl

lemma passes_checkExtents {dir : Bool} {es : List Extent} (hs : Extent.Sorted es)
    (hb : ∀ e ∈ es, e.physical + e.length ≤ sb.totalBlocks)
    (hok : dir = true → DirOk I sb (blocks es)) :
    Passes (fold (checkExtent I sb dir) es ⟨0, 0⟩) (fun _ => True) (blocks es)
      (mapRefs I dir (blocks es)) := by
  have hrefs : mapRefs I dir (blocks es) = es.flatMap (fun e => mapRefs I dir e.run) := by
    cases dir with
    | false => simp [mapRefs]
    | true => simp [mapRefs, blocks, flatMap_assoc]
  rw [hrefs]
  -- the cursor stands at the end of the extent before, and counts the blocks of all before
  refine (passes_fold (J := fun pre c => (∀ x ∈ pre.getLast?, c.logical = x.stop) ∧
    (pre = [] → c.logical = 0) ∧ (dir = true → c.index = (blocks pre).length)) ?_ ?_).mono
    fun _ _ => trivial
  · exact ⟨by simp, fun _ => rfl, fun _ => rfl⟩
  rintro pre e post c rfl ⟨hlast, hnil, hindex⟩
  obtain ⟨hspre, hse, hpost⟩ := sorted_append.mp hs
  have hlogical : c.logical ≤ e.logical := by
    rcases eq_nil_or_concat pre with rfl | ⟨pre', x, rfl⟩
    · rw [hnil rfl]
      exact Nat.zero_le _
    · rw [hlast x (by simp)]
      exact hpost x (by simp) e (by simp)
  have hmem : ∀ b ∈ e.run, b ∈ blocks (pre ++ e :: post) := fun b hb' => by
    rw [blocks_append, blocks_cons]
    exact mem_append_right _ (mem_append_left _ hb')
  refine (passes_checkExtent ((sorted_cons.mp hse).1) (hb e (by simp)) hlogical
    (fun hd b hb' => (hok hd).records b (hmem b hb')) fun hd h0 b hb' => ?_).mono ?_
  · refine (hok hd).dots b ?_
    rw [hindex hd, length_eq_zero_iff] at h0
    rw [blocks_append, h0, nil_append, blocks_cons]
    exact mem_head?_append_of_mem_head? hb'
  · rintro _ rfl
    refine ⟨by simp [Cursor.past], by simp, fun hd => ?_⟩
    simp [Cursor.past, hd, hindex hd, Extent.run]

structure ObjectOk (I : Image) (sb : Super) (o : Object) : Prop where
  inline : o.inlineFlag = true → o.size ≤ inlineDataMax
  tree : o.inlineFlag = false → o.treeBlock = 0
  count : o.inlineFlag = false → o.extentCount ≤ inlineExtents
  sorted : o.inlineFlag = false → Extent.Sorted (o.extents.take o.extentCount)
  range : o.inlineFlag = false → ∀ e ∈ o.extents.take o.extentCount,
    e.physical + e.length ≤ sb.totalBlocks
  dir : o.inlineFlag = false → o.type = .dir → DirOk I sb (blocks (o.extents.take o.extentCount))

def held (o : Object) : List ℕ :=
  if o.inlineFlag then [] else blocks (o.extents.take o.extentCount)

def refs (I : Image) (o : Object) : List ℕ := mapRefs I (o.type == .dir) (held o)

lemma passes_note {f : Report → Report} (h : ∀ r, r.Clear → (f r).Clear) :
    Passes (note f) (fun _ => True) [] [] := by
  intro w held seen hw _
  rw [append_nil, append_nil]
  exact ⟨trivial, ⟨hw.used, hw.links, h _ hw.clear⟩, rfl⟩

lemma passes_checkObject {id : ℕ} {o : Object} (hr : I.record sb id = some o)
    (hb : sb.objectTableStart + id / sb.objectsPerBlock < sb.totalBlocks) (h : ObjectOk I sb o) :
    Passes (checkObject I sb id) (fun _ => True) (held o) (refs I o) := by
  unfold checkObject
  rw [if_pos hb, hr]
  refine Passes.after (passes_note ?_) fun _ _ => ?_
  · exact fun _ hc => hc
  cases hf : o.inlineFlag with
  | true =>
    have hheld : held o = [] := by simp [held, hf]
    have hrefs : refs I o = [] := by simp [refs, hheld, mapRefs]
    rw [hheld, hrefs, if_pos rfl, if_neg (not_lt.mpr (h.inline hf))]
    exact passes_pure trivial
  | false =>
    have hheld : held o = blocks (o.extents.take o.extentCount) := by simp [held, hf]
    rw [if_neg Bool.false_ne_true, if_neg (not_not.mpr (h.tree hf)),
      if_neg (not_lt.mpr (h.count hf)), refs, hheld]
    refine Passes.bind_pure (passes_checkExtents (h.sorted hf) (h.range hf) fun hd => ?_)
      fun _ _ => trivial
    exact h.dir hf (by simpa using hd)

end Wfs.Fsck
