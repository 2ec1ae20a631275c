import Mathlib.Data.List.Sort
import WasmOS.Wfs.Volume.Alloc

/-! # Extent maps and files

The map of an object is a short list of extents, one leaf, or leaves under one interior node; the
driver's lookup is the lookup of its extents. `Junk` stands for what the file operations read
without having written it.
-/

namespace Wfs

section

open Procedure

variable (d : Dims) (L : Layout)

def chooseChild (index : List (ℕ × ℕ)) (logical : ℕ) : Option (ℕ × ℕ) :=
  (index.takeWhile (fun c => decide (c.1 ≤ logical))).getLast?

variable (records : List Extent)

def leafLookup (logical : ℕ) : Except Err (Option ℕ) :=
  if d.leafCapacity < records.length then .error .corrupt
  else
    match records.find? (·.covers logical) with
    | none => .ok none
    | some e =>
      if d.totalBlocks ≤ e.physical ∨ d.totalBlocks < e.physical + e.length then .error .corrupt
      else .ok (some (e.image logical))

def extentDescend (V : Volume) (logical : ℕ) : (guard block : ℕ) → Except Err (Option ℕ)
  | guard, block =>
    match V.block block with
    | .node (.leaf records) => leafLookup d records logical
    | .node (.interior depth index) =>
      if d.interiorCapacity < index.length ∨ index = [] then .error .corrupt
      else if extentMaxDepth < depth then .error .corrupt
      else
        match guard with
        | 0 => .error .corrupt
        | guard + 1 =>
          match chooseChild index logical with
          | none => .ok none
          | some (_, child) =>
            if child = 0 ∨ d.totalBlocks ≤ child then .error .corrupt
            else extentDescend V logical guard child
    | _ => .error .corrupt

/-- `wfs_extent_task`: the physical block of a logical one, or none for a hole. -/
def extentLookup (V : Volume) (o : Object) (logical : ℕ) : Except Err (Option ℕ) :=
  if o.treeBlock = 0 then
    if inlineExtents < o.extentCount then .error .corrupt
    else .ok (Extent.lookup (o.extents.take o.extentCount) logical)
  else if d.totalBlocks ≤ o.treeBlock then .error .corrupt
  else extentDescend d V logical extentMaxDepth o.treeBlock

variable (x : Extent)

def recordsBefore : List Extent := records.takeWhile fun e => decide (e.logical ≤ x.logical)

def recordsFrom : List Extent := records.dropWhile fun e => decide (e.logical ≤ x.logical)

def coalesce : Option (List Extent) :=
  match (recordsBefore records x).getLast? with
  | none => none
  | some p =>
    if p.logical + p.length = x.logical ∧ p.physical + p.length = x.physical then
      some ((recordsBefore records x).dropLast ++
        { p with length := p.length + x.length } :: recordsFrom records x)
    else none

def insertRecord : List Extent := recordsBefore records x ++ x :: recordsFrom records x

def splitPoint : ℕ :=
  if records.length / 2 ≤ (recordsBefore records x).length then records.length / 2
  else records.length / 2 + 1

variable (o : Object)

def fillPromotedLeaf (x : Extent) : List Extent :=
  ((o.extents.take inlineExtents).filter (fun e => decide (e.length ≠ 0)) ++ [x]).insertionSort
    fun a b => a.logical ≤ b.logical

variable (block : ℕ)

def putLeaf (records : List Extent) : Task Unit :=
  stage L block (·.setBlock block (.node (.leaf records)))

def putInterior (block depth : ℕ) (index : List (ℕ × ℕ)) : Task Unit :=
  stage L block (·.setBlock block (.node (.interior depth index)))

/-- The leaf an extent belongs in, with the interior root and the child's place in it. -/
def locateLeaf (logical : ℕ) (V : Volume) : Except Err (Option (ℕ × ℕ) × ℕ) :=
  match V.block o.treeBlock with
  | .node (.leaf _) => .ok (none, o.treeBlock)
  | .node (.interior depth index) =>
    if 1 < depth then .error .unsupported
    else if L.interiorCapacity < index.length then .error .corrupt
    else
      let child := (index.takeWhile (fun c => decide (c.1 ≤ logical))).length - 1
      match index[child]? with
      | none => .error .corrupt
      | some (_, block) =>
        if block = 0 ∨ L.totalBlocks ≤ block then .error .corrupt
        else .ok (some (o.treeBlock, child), block)
  | _ => .error .corrupt

def readLeaf (V : Volume) : Except Err (List Extent) :=
  match V.block block with
  | .node (.leaf records) =>
    if L.leafCapacity < records.length then .error .corrupt else .ok records
  | _ => .error .corrupt

def readInterior (V : Volume) : Except Err (ℕ × List (ℕ × ℕ)) :=
  match V.block block with
  | .node (.interior depth index) => .ok (depth, index)
  | _ => .error .corrupt

/-- The upper half of a split goes to `leafBlock`, under the root there is or a new one. -/
def splitLeaf (x : Extent) (leafBlock rootSpare : ℕ) (root : Option (ℕ × ℕ))
    (block : ℕ) (records : List Extent) : Task Object := do
  let m := splitPoint records x
  let upper := (insertRecord records x).drop m
  let splitLogical := (upper.head?.map Extent.logical).getD 0
  putLeaf L block ((insertRecord records x).take m)
  putLeaf L leafBlock upper
  match root with
  | none => do
    putInterior L rootSpare 1 [(0, block), (splitLogical, leafBlock)]
    pure { o with treeBlock := rootSpare, extentCount := o.extentCount + 1 }
  | some (rootBlock, child) => do
    let (depth, index) ← reading (readInterior rootBlock)
    require (index.length < L.interiorCapacity) .unsupported
    putInterior L rootBlock depth (index.insertIdx (child + 1) (splitLogical, leafBlock))
    pure { o with extentCount := o.extentCount + 1 }

/-- The extent joins the leaf at `block`; none when the leaf is full and the blocks for a split were
not supplied. -/
def addToLeaf (x : Extent) (leafBlock rootSpare : ℕ) (root : Option (ℕ × ℕ))
    (block : ℕ) : Task (Option Object) := do
  let records ← reading (readLeaf L block)
  require (records ≠ []) .corrupt
  match coalesce records x with
  | some records' => do
    putLeaf L block records'
    pure (some o)
  | none =>
    if records.length = L.leafCapacity then
      if leafBlock = 0 ∨ L.totalBlocks ≤ leafBlock ∨
          root = none ∧ (rootSpare = 0 ∨ L.totalBlocks ≤ rootSpare) then pure none
      else do
        let o' ← splitLeaf L o x leafBlock rootSpare root block records
        pure (some o')
    else do
      putLeaf L block (insertRecord records x)
      pure (some { o with extentCount := o.extentCount + 1 })

def extentAdd (x : Extent) (leafBlock rootSpare : ℕ) : Task (Option Object) := do
  require (x.length ≠ 0 ∧ x.physical ≠ 0 ∧ x.physical + x.length ≤ L.totalBlocks) .badArgs
  if o.treeBlock = 0 then do
    require (o.extentCount = inlineExtents ∧ leafBlock ≠ 0 ∧ leafBlock < L.totalBlocks) .badArgs
    let records := fillPromotedLeaf o x
    putLeaf L leafBlock records
    pure (some { o with treeBlock := leafBlock, extents := [], extentCount := records.length })
  else do
    require (o.treeBlock < L.totalBlocks) .corrupt
    let (root, block) ← reading (locateLeaf L o x.logical)
    addToLeaf L o x leafBlock rootSpare root block

structure Trim where
  freedFirst : ℕ
  freedLength : ℕ
  freedNode : ℕ
  removed : ℕ
  remaining : ℕ

def splitLast {α : Type} (p : α → Bool) : List α → Option (List α × α)
  | [] => none
  | x :: xs =>
    match splitLast p xs with
    | some (before, v) => some (x :: before, v)
    | none => if p x then some ([], x) else none

/-- No record of the leaf at `block` reaches past the bound; an empty leaf leaves its root. -/
def trimNothing (root : Option ℕ) (block : ℕ) (records : List Extent) : Task Trim :=
  match root with
  | none => pure ⟨0, 0, 0, 0, records.length⟩
  | some rootBlock =>
    if records = [] then do
      let (depth, index) ← reading (readInterior rootBlock)
      require (index ≠ []) .corrupt
      putInterior L rootBlock depth index.dropLast
      pure ⟨0, 0, block, 0, index.length - 1⟩
    else pure ⟨0, 0, 0, 0, records.length + 1⟩

def trimLeaf (keep : ℕ) (root : Option ℕ) (block : ℕ) (records : List Extent) : Task Trim :=
  match splitLast (fun e => decide (keep < e.stop)) records with
  | none => trimNothing L root block records
  | some (before, v) =>
    let left (n : ℕ) := if root.isSome then n + 1 else n
    if keep ≤ v.logical then do
      putLeaf L block before
      pure ⟨v.physical, v.length, 0, 1, left before.length⟩
    else do
      let survivors := keep - v.logical
      putLeaf L block (before ++ [{ v with length := survivors }])
      pure ⟨v.physical + survivors, v.length - survivors, 0, 0, left (before.length + 1)⟩

/-- `wfs_extent_trim_task`: one run past `keep`, or one emptied leaf, from the end of the map. -/
def extentTrim (node keep : ℕ) : Task Trim := do
  require (node ≠ 0 ∧ node < L.totalBlocks) .badArgs
  let s ← get
  match s.view.block node with
  | .node (.leaf _) => do
    let records ← reading (readLeaf L node)
    trimLeaf L keep none node records
  | .node (.interior _ index) =>
    if L.interiorCapacity < index.length then fail .corrupt
    else
      match index.getLast? with
      | none => pure ⟨0, 0, 0, 0, 0⟩
      | some (_, child) => do
        require (child ≠ 0 ∧ child < L.totalBlocks) .corrupt
        let records ← reading (readLeaf L child)
        trimLeaf L keep (some node) child records
  | _ => fail .corrupt

structure Junk where
  prefer : ℕ → ℕ
  status : ℕ → Bool

def patch (d : Bytes) (start n : ℕ) (src : Bytes) : Bytes := fun i =>
  if start ≤ i ∧ i < start + n then src (i - start) else d i

def chunkLength (offset done len : ℕ) : ℕ :=
  min (d.blockSize - (offset + done) % d.blockSize) (len - done)

def chunkBytes (V : Volume) (start n : ℕ) : Option ℕ → List UInt8
  | none => List.replicate n 0
  | some p => (List.range' start n).map (V.block p).data

def readLoop (V : Volume) (o : Object) (offset len : ℕ) : (fuel done : ℕ) → Except Err (List UInt8)
  | 0, _ => .ok []
  | fuel + 1, done =>
    if len ≤ done then .ok []
    else do
      let start := (offset + done) % d.blockSize
      let chunk := chunkLength d offset done len
      let found ← extentLookup d V o ((offset + done) / d.blockSize)
      let rest ← readLoop V o offset len fuel (done + chunk)
      .ok (chunkBytes V start chunk found ++ rest)

def readTask (V : Volume) (o : Object) (offset len : ℕ) : Except Err (List UInt8) :=
  if o.type = .dir then .error .isDir
  else if o.size ≤ offset then .ok []
  else
    let len := min len (o.size - offset)
    if len = 0 then .ok []
    else if o.inlineFlag then
      if inlineDataMax < offset + len then .error .corrupt
      else .ok ((List.range' offset len).map o.inlineData)
    else readLoop d V o offset len len 0

variable (o : Object)

/-- `record_extent`: grow the last extent of the record or append one; none when it is full. -/
def recordExtent (x : Extent) : Option Object :=
  let extents := o.extents.take o.extentCount
  let append : Option Object := if inlineExtents ≤ o.extentCount then none
    else some { o with extents := extents ++ [x], extentCount := o.extentCount + 1 }
  match extents.getLast? with
  | none => append
  | some last =>
    if o.extentCount ≤ inlineExtents ∧ last.logical + last.length = x.logical ∧
        last.physical + last.length = x.physical then
      some { o with extents := extents.dropLast ++
        [{ last with length := last.length + x.length }] }
    else append

def preferGroup (junk : ℕ) : ℕ :=
  if o.extentCount = 0 then 0
  else if o.extentCount ≤ inlineExtents then
    ((o.extents[o.extentCount - 1]?).map Extent.physical).getD 0 / L.blocksPerGroup
  else junk

def allocOne (prefer : ℕ) : Task ℕ := do
  let (first, length) ← allocBlocks L 1 prefer
  require (length ≠ 0) .noSpace
  pure first

def publishExtent (o : Object) (x : Extent) :
    (tries splitLeaf splitRoot leafBlock rootSpare : ℕ) → Task Object
  | 0, _, _, leafBlock, rootSpare => do
    let r ← extentAdd L o x leafBlock rootSpare
    match r with
    | some o' => pure o'
    | none => fail .needBlock
  | tries + 1, splitLeaf, splitRoot, leafBlock, rootSpare => do
    let r ← extentAdd L o x leafBlock rootSpare
    match r with
    | some o' => pure o'
    | none =>
      if splitLeaf = 0 then do
        let b ← allocOne L (x.physical / L.blocksPerGroup)
        publishExtent o x tries b splitRoot b splitRoot
      else if splitRoot = 0 ∧ o.treeBlock ≠ 0 then do
        let b ← allocOne L (x.physical / L.blocksPerGroup)
        publishExtent o x tries splitLeaf b splitLeaf b
      else fail .needBlock

/-- The extent of a block whose data is on disk: with no tree yet a leaf is allocated first. -/
def publishPending (x : Extent) : Task Object :=
  if o.treeBlock = 0 then do
    let b ← allocOne L (x.physical / L.blocksPerGroup)
    publishExtent L o x 2 0 0 b 0
  else publishExtent L o x 2 0 0 0 0

def writeChunk (offset done chunk : ℕ) (src : Bytes) (junk : Junk) : Task Object := do
  let logical := (offset + done) / L.blockSize
  let start := (offset + done) % L.blockSize
  let found ← reading (fun V => extentLookup L V o logical)
  match found with
  | some p => do
    let s ← get
    writeData p (patch (s.view.block p).data start chunk (fun i => src (done + i)))
    pure o
  | none => do
    let p ← allocOne L (preferGroup L o (junk.prefer done))
    let x : Extent := ⟨logical, p, 1⟩
    let recorded := if o.treeBlock = 0 then recordExtent o x else none
    writeData p (patch (fun _ => 0) start chunk (fun i => src (done + i)))
    match recorded with
    | some o' => pure o'
    | none => publishPending L o x

def writeLoop (offset len : ℕ) (src : Bytes) (junk : Junk) :
    (fuel : ℕ) → Object → (done : ℕ) → Task Object
  | 0, o, _ => pure o
  | fuel + 1, o, done =>
    if len ≤ done then pure o
    else do
      let chunk := chunkLength L offset done len
      let o ← writeChunk L o offset done chunk src junk
      writeLoop offset len src junk fuel o (done + chunk)

def promoteInline : Task Object := do
  let b ← allocOne L 0
  writeData b (fun i => if i < inlineDataMax ∧ i < o.size then o.inlineData i else 0)
  pure { o with
    inlineFlag := false, extents := [⟨0, b, 1⟩], extentCount := 1, inlineData := fun _ => 0 }

def putRecord (id : ℕ) (o : Object) : Task Unit := do
  require (id ≠ 0 ∧ id < L.totalObjects) .notFound
  stage L (L.recordBlock id) fun V =>
    match V.object id with
    | none => V
    | some r => V.setObject id { o with type := r.type, linkCount := r.linkCount }

def writeTask (id : ℕ) (o : Object) (offset : ℕ) (src : List UInt8) (junk : Junk) : Task Unit := do
  let len := src.length
  let bytes : Bytes := fun i => src.getD i 0
  require (o.type ≠ .dir) .isDir
  if len = 0 then pure ()
  else do
    require (offset + len < 2 ^ 64) .range
    let size := max o.size (offset + len)
    if o.inlineFlag = true ∧ offset + len ≤ inlineDataMax then
      putRecord L id { o with inlineData := patch o.inlineData offset len bytes, size := size }
    else do
      let o ← (if o.inlineFlag then promoteInline L o else pure o)
      let o ← writeLoop L offset len bytes junk len o 0
      putRecord L id { o with size := size }

/-- `note_free`: an empty run is not noted. One slot per extent, so the slots never run out. -/
def noteFree (first length : ℕ) (freed : List (ℕ × ℕ)) : List (ℕ × ℕ) :=
  if length = 0 then freed else (first, length) :: freed

/-- `trim_extents`: what the record keeps, and the runs it gives up. -/
def trimExtents (keep : ℕ) : List Extent → List Extent × List (ℕ × ℕ)
  | [] => ([], [])
  | e :: es =>
    let (kept, freed) := trimExtents keep es
    if keep ≤ e.logical then (kept, noteFree e.physical e.length freed)
    else if keep < e.stop then
      let survivors := keep - e.logical
      ({ e with length := survivors } :: kept,
        noteFree (e.physical + survivors) (e.length - survivors) freed)
    else (e :: kept, freed)

/-- `physical_of`: zero when nothing maps the block. -/
def physicalOf (extents : List Extent) (logical : ℕ) : ℕ := (Extent.lookup extents logical).getD 0

def zeroTail (b newSize : ℕ) : Task Unit := do
  let s ← get
  writeData b fun i =>
    if newSize % L.blockSize ≤ i ∧ i < L.blockSize then 0 else (s.view.block b).data i

def freeRuns : List (ℕ × ℕ) → Task Unit
  | [] => pure ()
  | (first, length) :: rest => do
    freeBlocks L first length false
    freeRuns rest

/-- How the release of a run or a leaf is joined. The status of a task that failed is dropped; the
variable compared in its place was last set before the coroutine yielded. -/
def freeUnchecked (first length : ℕ) (metadata stale : Bool) : Task Unit := do
  attempt (freeBlocks L first length metadata)
  require (stale = false) .corrupt

def trimTree (root keep : ℕ) (junk : Junk) : (fuel : ℕ) → Object → Task (Object × ℕ)
  | 0, _ => fail .corrupt
  | fuel + 1, o => do
    let r ← extentTrim L root keep
    let o :=
  if r.removed ≠ 0 ∧ r.removed ≤ o.extentCount then
      { o with extentCount := o.extentCount - r.removed } else o
    if r.freedNode ≠ 0 then do
      freeUnchecked L r.freedNode 1 true (junk.status fuel)
      trimTree root keep junk fuel o
    else if r.freedLength ≠ 0 then do
      freeUnchecked L r.freedFirst r.freedLength false (junk.status fuel)
      trimTree root keep junk fuel o
    else pure (o, r.remaining)

def trimFuel : ℕ := L.interiorCapacity * (L.leafCapacity + 1) + 2

def truncateTree (newSize : ℕ) (junk : Junk) : Task Object := do
  let root := o.treeBlock
  let keep := (newSize + L.blockSize - 1) % 2 ^ 64 / L.blockSize
  let (o, remaining) ← trimTree L root keep junk (trimFuel L) o
  if remaining = 0 then do
    freeUnchecked L root 1 true (junk.status (trimFuel L))
    pure { o with extentCount := 0, treeBlock := 0 }
  else if newSize % L.blockSize ≠ 0 then do
    let found ← reading (fun V => extentLookup L V o (newSize / L.blockSize))
    match found with
    | none => pure o
    | some b => do
      zeroTail L b newSize
      pure o
  else pure o

/-- A shrink of an object whose extents are in its record, before anything is released. -/
def truncateExtents (newSize : ℕ) : Task (Object × List (ℕ × ℕ)) := do
  let keep := (newSize + L.blockSize - 1) % 2 ^ 64 / L.blockSize
  let (kept, freed) := trimExtents keep (o.extents.take (min o.extentCount inlineExtents))
  let tailBlock := if newSize % L.blockSize ≠ 0 then physicalOf kept (newSize / L.blockSize) else 0
  (if tailBlock ≠ 0 then zeroTail L tailBlock newSize else pure ())
  pure ({ o with extents := kept, extentCount := kept.length }, freed)

def truncateTask (id : ℕ) (o : Object) (newSize : ℕ) (junk : Junk) : Task Unit := do
  require (o.type ≠ .dir) .isDir
  if newSize = o.size then pure ()
  else if o.treeBlock ≠ 0 then do
    let o' ← (if o.size < newSize then pure o else truncateTree L o newSize junk)
    putRecord L id { o' with size := newSize }
  else if o.inlineFlag then do
    let o' ← (if inlineDataMax < newSize then promoteInline L o
      else if newSize < o.size then
        pure { o with
          inlineData := fun i =>
            if newSize ≤ i ∧ i < inlineDataMax then 0 else o.inlineData i }
      else pure o)
    putRecord L id { o' with size := newSize }
  else if o.size < newSize then putRecord L id { o with size := newSize }
  else do
    let (o', freed) ← truncateExtents L o newSize
    putRecord L id { o' with size := newSize }
    freeRuns L freed

end

open List Extent

open Volume

namespace Volume

variable (V : Volume)

def leafRecords (b : ℕ) : List Extent :=
  match V.block b with
  | .node (.leaf records) => records
  | _ => []

def indexRuns (index : List (ℕ × ℕ)) : List Extent := index.flatMap fun c => V.leafRecords c.2

def treeRuns (tree : ℕ) : List Extent :=
  match V.block tree with
  | .node (.leaf records) => records
  | .node (.interior _ index) => V.indexRuns index
  | _ => []

def treeNodes (tree : ℕ) : List ℕ :=
  match V.block tree with
  | .node (.interior _ index) => tree :: index.map Prod.snd
  | _ => [tree]

end Volume

namespace Object

variable (V : Volume) (o : Object)

def runs : List Extent :=
  if o.treeBlock = 0 then o.extents.take o.extentCount else V.treeRuns o.treeBlock

def nodes : List ℕ := if o.treeBlock = 0 then [] else V.treeNodes o.treeBlock

def blocks : List ℕ := Extent.blocks (o.runs V) ++ o.nodes V

end Object

variable (L : Layout) (V : Volume)

structure IndexOk (index : List (ℕ × ℕ)) : Prop where
  leaf : ∀ c ∈ index, V.block c.2 = .node (.leaf (V.leafRecords c.2))
  sorted : ∀ c ∈ index, Extent.Sorted (V.leafRecords c.2)
  length_le : ∀ c ∈ index, (V.leafRecords c.2).length ≤ L.leafCapacity
  above : ∀ c ∈ index, ∀ e ∈ V.leafRecords c.2, c.1 ≤ e.logical
  ordered : index.Pairwise fun a b => a.1 ≤ b.1 ∧ ∀ e ∈ V.leafRecords a.2, e.stop ≤ b.1

/-- A tree as the driver writes it: one leaf, or leaves under one interior node. -/
inductive TreeOk (tree : ℕ) : Prop
  | leaf (records : List Extent) (block : V.block tree = .node (.leaf records))
      (nonempty : records ≠ []) (sorted : Extent.Sorted records)
      (length_le : records.length ≤ L.leafCapacity)
  | interior (index : List (ℕ × ℕ)) (block : V.block tree = .node (.interior 1 index))
      (nonempty : index ≠ []) (length_le : index.length ≤ L.interiorCapacity)
      (first : ∀ c ∈ index.head?, c.1 = 0) (ok : IndexOk L V index)
      (full : ∀ c ∈ index, V.leafRecords c.2 ≠ [])

/-- The map of an object is in its record or in a tree, never in both. -/
inductive MapOk (o : Object) : Prop
  | inRecord (tree : o.treeBlock = 0) (count : o.extents.length = o.extentCount)
      (count_le : o.extentCount ≤ inlineExtents) (map : Extent.Map o.extents)
  | inTree (tree : o.treeBlock ≠ 0) (extents : o.extents = []) (ok : TreeOk L V o.treeBlock)

variable {L V} {index pre post : List (ℕ × ℕ)} {o : Object} {tree k key child : ℕ}

variable {records : List Extent}

lemma leafRecords_eq {b : ℕ} (h : V.block b = .node (.leaf records)) :
    V.leafRecords b = records := by
  rw [leafRecords, h]

lemma runs_inRecord (ht : o.treeBlock = 0) (hc : o.extents.length = o.extentCount) :
    o.runs V = o.extents := by
  rw [Object.runs, if_pos ht, ← hc, take_length]

lemma runs_inTree (ht : o.treeBlock ≠ 0) : o.runs V = V.treeRuns o.treeBlock := if_neg ht

lemma nodes_inRecord (ht : o.treeBlock = 0) : o.nodes V = [] := if_pos ht

lemma nodes_inTree (ht : o.treeBlock ≠ 0) : o.nodes V = V.treeNodes o.treeBlock := if_neg ht

lemma treeRuns_leaf (h : V.block tree = .node (.leaf records)) : V.treeRuns tree = records := by
  rw [treeRuns, h]

lemma treeNodes_leaf (h : V.block tree = .node (.leaf records)) : V.treeNodes tree = [tree] := by
  rw [treeNodes, h]

lemma treeRuns_interior {d : ℕ} (h : V.block tree = .node (.interior d index)) :
    V.treeRuns tree = V.indexRuns index := by
  rw [treeRuns, h]

lemma treeNodes_interior {d : ℕ} (h : V.block tree = .node (.interior d index)) :
    V.treeNodes tree = tree :: index.map Prod.snd := by
  rw [treeNodes, h]

lemma tree_mem_nodes (V : Volume) (tree : ℕ) : tree ∈ V.treeNodes tree := by
  unfold treeNodes
  split <;> simp

@[simp] lemma indexRuns_append :
    V.indexRuns (pre ++ post) = V.indexRuns pre ++ V.indexRuns post := by
  simp [indexRuns]

@[simp] lemma indexRuns_cons {c : ℕ × ℕ} :
    V.indexRuns (c :: index) = V.leafRecords c.2 ++ V.indexRuns index := rfl

namespace IndexOk

lemma sublist (h : IndexOk L V index) (hs : pre.Sublist index) : IndexOk L V pre :=
  ⟨fun c hc => h.leaf c (hs.subset hc), fun c hc => h.sorted c (hs.subset hc),
    fun c hc => h.length_le c (hs.subset hc), fun c hc => h.above c (hs.subset hc),
    h.ordered.sublist hs⟩

lemma congr {V' : Volume} (h : IndexOk L V index)
    (hb : ∀ c ∈ index, V'.block c.2 = V.block c.2) : IndexOk L V' index := by
  have hl : ∀ c ∈ index, V'.leafRecords c.2 = V.leafRecords c.2 := fun c hc => by
    unfold leafRecords; rw [hb c hc]
  constructor
  · intro c hc; rw [hb c hc, hl c hc]; exact h.leaf c hc
  · intro c hc; rw [hl c hc]; exact h.sorted c hc
  · intro c hc; rw [hl c hc]; exact h.length_le c hc
  · intro c hc; rw [hl c hc]; exact h.above c hc
  refine h.ordered.imp_of_mem fun {a b} ha _ hab => ?_
  rwa [hl a ha]

lemma append (h : IndexOk L V pre) (h' : IndexOk L V post)
    (hab : ∀ a ∈ pre, ∀ b ∈ post, a.1 ≤ b.1 ∧ ∀ e ∈ V.leafRecords a.2, e.stop ≤ b.1) :
    IndexOk L V (pre ++ post) := by
  constructor
  · intro c hc; exact (mem_append.mp hc).elim (h.leaf c) (h'.leaf c)
  · intro c hc; exact (mem_append.mp hc).elim (h.sorted c) (h'.sorted c)
  · intro c hc; exact (mem_append.mp hc).elim (h.length_le c) (h'.length_le c)
  · intro c hc; exact (mem_append.mp hc).elim (h.above c) (h'.above c)
  · exact pairwise_append.mpr ⟨h.ordered, h'.ordered, hab⟩

lemma singleton {c : ℕ × ℕ} (hb : V.block c.2 = .node (.leaf records))
    (hs : Extent.Sorted records) (hl : records.length ≤ L.leafCapacity)
    (ha : ∀ e ∈ records, c.1 ≤ e.logical) : IndexOk L V [c] := by
  have hr := leafRecords_eq hb
  constructor
  · intro d hd; rw [mem_singleton.mp hd, hr]; exact hb
  · intro d hd; rw [mem_singleton.mp hd, hr]; exact hs
  · intro d hd; rw [mem_singleton.mp hd, hr]; exact hl
  · intro d hd; rw [mem_singleton.mp hd, hr]; exact ha
  · exact pairwise_singleton _ _

lemma runs_sorted (h : IndexOk L V index) : Extent.Sorted (V.indexRuns index) := by
  induction index with
  | nil => exact sorted_nil
  | cons c cs ih =>
    rw [indexRuns_cons]
    refine sorted_append.mpr
      ⟨h.sorted c (.head _), ih (h.sublist (sublist_cons_self c cs)), ?_⟩
    intro a ha b hb
    obtain ⟨d, hd, hbd⟩ := mem_flatMap.mp hb
    have hle := ((pairwise_cons.mp h.ordered).1 d hd).2 a ha
    have := h.above d (.tail _ hd) b hbd
    omega

end IndexOk

lemma TreeOk.runs_sorted (h : TreeOk L V tree) : Extent.Sorted (V.treeRuns tree) := by
  cases h with
  | leaf records hb _ hs _ => rwa [treeRuns_leaf hb]
  | interior index hb _ _ _ hok _ => rw [treeRuns_interior hb]; exact hok.runs_sorted

lemma index_split (hne : index ≠ []) (hfirst : ∀ c ∈ index.head?, c.1 = 0)
    (hord : index.Pairwise (fun a b => a.1 ≤ b.1)) (k : ℕ) :
    ∃ pre key child post, index = pre ++ (key, child) :: post ∧
      index.takeWhile (fun c => decide (c.1 ≤ k)) = pre ++ [(key, child)] ∧ key ≤ k ∧
      ∀ c ∈ post, k < c.1 := by
  set kept := index.takeWhile (fun c => decide (c.1 ≤ k)) with hkept
  have hkne : kept ≠ [] := by
    cases index with
    | nil => exact absurd rfl hne
    | cons c cs =>
      have : c.1 = 0 := hfirst c rfl
      simp [hkept, this]
  have hlast := dropLast_concat_getLast hkne
  refine ⟨kept.dropLast, (kept.getLast hkne).1, (kept.getLast hkne).2,
    index.dropWhile (fun c => decide (c.1 ≤ k)), ?_, hlast.symm, ?_, ?_⟩
  · rw [Prod.mk.eta, ← singleton_append, ← append_assoc, hlast]
    exact takeWhile_append_dropWhile.symm
  · have hmem := getLast_mem hkne
    exact le_of_mem_takeWhile hmem
  · exact fun c hc => lt_of_mem_dropWhile hord hc

lemma IndexOk.lookup_split (h : IndexOk L V (pre ++ (key, child) :: post)) (hk : key ≤ k)
    (hpost : ∀ c ∈ post, k < c.1) :
    lookup (V.indexRuns (pre ++ (key, child) :: post)) k = lookup (V.leafRecords child) k := by
  have hpre : lookup (V.indexRuns pre) k = none := by
    have hstop : ∀ e ∈ V.indexRuns pre, e.stop ≤ key := fun e he => ?_
    · exact lookup_eq_none_of_stop_le hstop hk
    obtain ⟨c, hc, hec⟩ := mem_flatMap.mp he
    exact ((pairwise_append.mp h.ordered).2.2 c hc (key, child) mem_cons_self).2 e hec
  have hpost' : lookup (V.indexRuns post) k = none := by
    refine lookup_eq_none.mpr fun e he hc => ?_
    obtain ⟨c, hc', hec⟩ := mem_flatMap.mp he
    have := h.above c (by simp [hc']) e hec
    have := hpost c hc'
    rw [covers_iff] at hc
    omega
  rw [indexRuns_append, indexRuns_cons, lookup_append, lookup_append, hpre, hpost',
    Option.none_or, Option.or_none]

lemma leafLookup_eq (hl : records.length ≤ L.leafCapacity)
    (hd : ∀ b ∈ blocks records, b < L.totalBlocks) (hpos : ∀ e ∈ records, 0 < e.length) :
    leafLookup L records k = .ok (Extent.lookup records k) := by
  rw [leafLookup, if_neg (not_lt.mpr hl), Extent.lookup]
  cases hf : records.find? (·.covers k) with
  | none => rfl
  | some e =>
    have he := mem_of_find?_eq_some hf
    have hlast : e.physical + (e.length - 1) < L.totalBlocks := by
      refine hd _ (mem_flatMap.mpr ⟨e, he, ?_⟩)
      have := hpos e he
      rw [mem_run]; omega
    have := hpos e he
    rw [Option.map_some]
    exact if_neg (by omega)

lemma extentLookup_eq (h : MapOk L V o) (hd : ∀ b ∈ o.blocks V, L.IsData b) (k : ℕ) :
    extentLookup L V o k = .ok (lookup (o.runs V) k) := by
  unfold Object.blocks at hd
  have hruns : ∀ b ∈ blocks (o.runs V), b < L.totalBlocks := fun b hb =>
    (hd b (mem_append_left _ hb)).1
  have hnodes : ∀ b ∈ o.nodes V, b ≠ 0 ∧ b < L.totalBlocks := by
    intro b hb
    have hdata := hd b (mem_append_right _ hb)
    exact ⟨hdata.ne_zero, hdata.1⟩
  cases h with
  | inRecord ht hc hle hm =>
    rw [extentLookup, if_pos ht, if_neg (not_lt.mpr hle), Object.runs, if_pos ht]
  | inTree ht he hok =>
    rw [runs_inTree ht] at hruns ⊢
    rw [nodes_inTree ht] at hnodes
    rw [extentLookup, if_neg ht, if_neg (not_le.mpr (hnodes _ (tree_mem_nodes _ _)).2)]
    cases hok with
    | leaf records hb hne hs hl =>
      rw [treeRuns_leaf hb] at hruns ⊢
      simp only [extentMaxDepth, extentDescend, hb]
      exact leafLookup_eq hl hruns hs.length_pos
    | interior index hb hne hl hfirst hok hfull =>
      rw [treeRuns_interior hb] at hruns ⊢
      rw [treeNodes_interior hb] at hnodes
      obtain ⟨pre, key, child, post, rfl, htake, hkey, hpost⟩ :=
        index_split hne hfirst (hok.ordered.imp fun h => h.1) k
      have hchild := hnodes child (by simp)
      simp only [extentMaxDepth, extentDescend, hb, chooseChild, htake]
      have hfits : ¬ (L.interiorCapacity < (pre ++ (key, child) :: post).length ∨
          pre ++ (key, child) :: post = []) := fun h => h.elim (by omega) hne
      rw [if_neg hfits, if_neg (by decide), getLast?_concat]
      dsimp only
      rw [if_neg (by omega), hok.leaf (key, child) (by simp), hok.lookup_split hkey hpost]
      refine leafLookup_eq (hok.length_le (key, child) (by simp)) (fun b hb => hruns b ?_)
        (hok.sorted (key, child) (by simp)).length_pos
      simp only [indexRuns_append, indexRuns_cons, blocks_append]
      exact mem_append_right _ (mem_append_left _ hb)

end Wfs
