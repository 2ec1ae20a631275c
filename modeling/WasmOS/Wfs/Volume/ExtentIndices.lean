import WasmOS.Wfs.Volume.ExtentTask

/-! # The indices a write uses into the record's extents

The extent count of an object is the length of its array of six extents while the map is in the
record, and the number of records of its tree otherwise. Here the write notes every index it uses
into that array.
-/

namespace Wfs

open Procedure List

variable (L : Layout)

/-- A task that notes the indices it uses into the extents of the object at hand. -/
abbrev Noted := Procedure (Session × List ℕ) Err

def InBounds (indices : List ℕ) : Prop := ∀ i ∈ indices, i < inlineExtents

variable (o : Object)

/-- What `wfs_object_task` demands of a record it hands out. -/
def Object.accepted : Bool :=
  if o.inlineFlag then
    decide (o.size ≤ inlineDataMax) && decide (o.extentCount = 0) && decide (o.treeBlock = 0)
  else decide (o.extentCount ≤ inlineExtents) || decide (o.treeBlock ≠ 0)

/-- `wfs_extent_task` goes through the array up to the extent that covers the block. -/
def lookupIndices (logical : ℕ) : List ℕ :=
  if o.treeBlock = 0 ∧ o.extentCount ≤ inlineExtents then
    List.range (min o.extentCount
      ((o.extents.take o.extentCount).findIdx (fun e => e.covers logical) + 1))
  else []

def preferIndices : List ℕ := if o.extentCount = 0 then [] else [o.extentCount - 1]

variable (x : Extent)

/-- `record_extent` looks at the last extent, then grows it or fills the next one. -/
def recordIndices : List ℕ :=
  let last : List ℕ :=
    if 0 < o.extentCount ∧ o.extentCount ≤ inlineExtents then [o.extentCount - 1] else []
  match recordExtent o x with
  | none => last
  | some o' => if o'.extentCount = o.extentCount then last else last ++ [o.extentCount]

def lookupNoted (logical : ℕ) : Noted (Option ℕ) := do
  note (lookupIndices o logical)
  quietly (reading fun V => extentLookup L V o logical)

def extentAddNoted (leafBlock rootSpare : ℕ) : Noted (Option Object) := do
  note (if o.treeBlock = 0 ∧ o.extentCount = inlineExtents then List.range inlineExtents else [])
  let r ← quietly (extentAdd L o x leafBlock rootSpare)
  note (if o.treeBlock = 0 then List.range inlineExtents else [])
  pure r

def publishExtentNoted (o : Object) (x : Extent) :
    (tries splitLeaf splitRoot leafBlock rootSpare : ℕ) → Noted Object
  | 0, _, _, leafBlock, rootSpare => do
    let r ← extentAddNoted L o x leafBlock rootSpare
    match r with
    | some o' => pure o'
    | none => fail .needBlock
  | tries + 1, splitLeaf, splitRoot, leafBlock, rootSpare => do
    let r ← extentAddNoted L o x leafBlock rootSpare
    match r with
    | some o' => pure o'
    | none =>
      if splitLeaf = 0 then do
        let b ← quietly (allocOne L (x.physical / L.blocksPerGroup))
        publishExtentNoted o x tries b splitRoot b splitRoot
      else if splitRoot = 0 ∧ o.treeBlock ≠ 0 then do
        let b ← quietly (allocOne L (x.physical / L.blocksPerGroup))
        publishExtentNoted o x tries splitLeaf b splitLeaf b
      else fail .needBlock

def publishPendingNoted : Noted Object :=
  if o.treeBlock = 0 then do
    let b ← quietly (allocOne L (x.physical / L.blocksPerGroup))
    publishExtentNoted L o x 2 0 0 b 0
  else publishExtentNoted L o x 2 0 0 0 0

def writeChunkNoted (offset done chunk : ℕ) (src : Bytes) (junk : Junk) : Noted Object := do
  let logical := (offset + done) / L.blockSize
  let start := (offset + done) % L.blockSize
  let found ← lookupNoted L o logical
  match found with
  | some p => quietly do
    let s ← get
    writeData p (patch (s.view.block p).data start chunk (fun i => src (done + i)))
    pure o
  | none => do
    note (preferIndices o)
    let p ← quietly (allocOne L (preferGroup L o (junk.prefer done)))
    let x : Extent := ⟨logical, p, 1⟩
    let recorded := if o.treeBlock = 0 then recordExtent o x else none
    note (if o.treeBlock = 0 then recordIndices o x else [])
    quietly (writeData p (patch (fun _ => 0) start chunk (fun i => src (done + i))))
    match recorded with
    | some o' => pure o'
    | none => publishPendingNoted L o x

def writeLoopNoted (offset len : ℕ) (src : Bytes) (junk : Junk) :
    (fuel : ℕ) → Object → (done : ℕ) → Noted Object
  | 0, o, _ => pure o
  | fuel + 1, o, done =>
    if len ≤ done then pure o
    else do
      let chunk := chunkLength L offset done len
      let o ← writeChunkNoted L o offset done chunk src junk
      writeLoopNoted offset len src junk fuel o (done + chunk)

def promoteInlineNoted : Noted Object := do
  let o' ← quietly (promoteInline L o)
  note [0]
  pure o'

def putRecordNoted (id : ℕ) (o : Object) : Noted Unit := do
  note (if (id ≠ 0 ∧ id < L.totalObjects) ∧ o.inlineFlag = false then
    (List.range inlineExtents).filter (fun i => decide (i < o.extentCount)) else [])
  quietly (putRecord L id o)

/-- `wfs_write_task` with the indices it uses. -/
def writeTaskNoted (id : ℕ) (o : Object) (offset : ℕ) (src : List UInt8) (junk : Junk) :
    Noted Unit := do
  let len := src.length
  let bytes : Bytes := fun i => src.getD i 0
  quietly (require (o.type ≠ .dir) .isDir)
  if len = 0 then pure ()
  else do
    quietly (require (offset + len < 2 ^ 64) .range)
    let size := max o.size (offset + len)
    if o.inlineFlag = true ∧ offset + len ≤ inlineDataMax then
      putRecordNoted L id { o with inlineData := patch o.inlineData offset len bytes, size := size }
    else do
      let o ← (if o.inlineFlag then promoteInlineNoted L o else pure o)
      let o ← writeLoopNoted L offset len bytes junk len o 0
      putRecordNoted L id { o with size := size }

variable {L} {o : Object} {x : Extent} {id offset done chunk len : ℕ} {src : Bytes} {junk : Junk}

lemma extentAddNoted_erases {leafBlock rootSpare : ℕ} :
    Erases (extentAddNoted L o x leafBlock rootSpare) (extentAdd L o x leafBlock rootSpare) := by
  apply Erases.note_bind
  intro p
  have h := (erases_quietly (extentAdd L o x leafBlock rootSpare)).bind
    (fun r => Erases.note_bind (if o.treeBlock = 0 then List.range inlineExtents else [])
      (erases_pure r)) p
  rcases hm : extentAdd L o x leafBlock rootSpare p.1 with ⟨r, s⟩
  cases r with
  | ok a => rw [bind_of_ok hm] at h; exact h
  | error e => rw [bind_of_error hm] at h; exact h

lemma publishExtentNoted_erases {tries splitLeaf splitRoot leafBlock rootSpare : ℕ} :
    Erases (publishExtentNoted L o x tries splitLeaf splitRoot leafBlock rootSpare)
      (publishExtent L o x tries splitLeaf splitRoot leafBlock rootSpare) := by
  induction tries generalizing splitLeaf splitRoot leafBlock rootSpare with
  | zero =>
    apply extentAddNoted_erases.bind
    rintro (_ | o')
    exacts [erases_fail _, erases_pure _]
  | succ tries ih =>
    apply extentAddNoted_erases.bind
    rintro (_ | o')
    · apply Erases.ite
      · exact fun _ => (erases_quietly _).bind fun b => ih
      intro _
      apply Erases.ite
      · exact fun _ => (erases_quietly _).bind fun b => ih
      · exact fun _ => erases_fail _
    · exact erases_pure _

lemma publishPendingNoted_erases : Erases (publishPendingNoted L o x) (publishPending L o x) := by
  apply Erases.ite
  · exact fun _ => (erases_quietly _).bind fun b => publishExtentNoted_erases
  · exact fun _ => publishExtentNoted_erases

lemma writeChunkNoted_erases : Erases (writeChunkNoted L o offset done chunk src junk)
      (writeChunk L o offset done chunk src junk) := by
  apply Erases.bind
  · exact Erases.note_bind _ (erases_quietly _)
  rintro (_ | p)
  · apply Erases.note_bind
    apply (erases_quietly _).bind
    intro p
    apply Erases.note_bind
    apply (erases_quietly _).bind
    intro _
    generalize (if o.treeBlock = 0 then
      recordExtent o ⟨(offset + done) / L.blockSize, p, 1⟩ else none) = recorded
    cases recorded with
    | some o' => exact erases_pure _
    | none => exact publishPendingNoted_erases
  · exact erases_quietly _

lemma writeLoopNoted_erases {fuel : ℕ} : Erases (writeLoopNoted L offset len src junk fuel o done)
      (writeLoop L offset len src junk fuel o done) := by
  induction fuel generalizing o done with
  | zero => exact erases_pure _
  | succ fuel ih =>
    apply Erases.ite
    · exact fun _ => erases_pure _
    · exact fun _ => writeChunkNoted_erases.bind fun o' => ih

lemma promoteInlineNoted_erases : Erases (promoteInlineNoted L o) (promoteInline L o) := by
  intro p
  have h := (erases_quietly (promoteInline L o)).bind
    (fun r => Erases.note_bind [0] (erases_pure r)) p
  rcases hm : promoteInline L o p.1 with ⟨r, s⟩
  cases r with
  | ok a => rw [bind_of_ok hm] at h; exact h
  | error e => rw [bind_of_error hm] at h; exact h

lemma writeTaskNoted_erases {bytes : List UInt8} :
    Erases (writeTaskNoted L id o offset bytes junk) (writeTask L id o offset bytes junk) := by
  apply (erases_quietly _).bind
  intro _
  apply Erases.ite
  · exact fun _ => erases_pure _
  intro _
  apply (erases_quietly _).bind
  intro _
  apply Erases.ite
  · exact fun _ => Erases.note_bind _ (erases_quietly _)
  intro _
  apply Erases.bind
  · exact Erases.ite (fun _ => promoteInlineNoted_erases) fun _ => erases_pure _
  · intro o'
    exact writeLoopNoted_erases.bind fun o'' => Erases.note_bind _ (erases_quietly _)

variable {l : List ℕ} {s : Session} {p : Session × List ℕ}

lemma InBounds.append {k : List ℕ} (h : InBounds l) (hk : InBounds k) : InBounds (l ++ k) :=
  forall_mem_append.mpr ⟨h, hk⟩

lemma inBounds_nil : InBounds [] := by
  intro i hi
  cases hi

lemma inBounds_range {n : ℕ} (h : n ≤ inlineExtents) : InBounds (List.range n) := by
  intro i hi
  have := mem_range.mp hi
  omega

lemma inBounds_singleton {i : ℕ} (h : i < inlineExtents) : InBounds [i] := by
  intro j hj
  rwa [mem_singleton.mp hj]

lemma lookupIndices_inBounds (k : ℕ) : InBounds (lookupIndices o k) := by
  unfold lookupIndices
  split
  · next h => exact inBounds_range (by omega)
  · exact inBounds_nil

lemma recordIndices_inBounds : InBounds (recordIndices o x) := by
  have hlast : InBounds
      (if 0 < o.extentCount ∧ o.extentCount ≤ inlineExtents then [o.extentCount - 1] else []) := by
    split
    · exact inBounds_singleton (by omega)
    · exact inBounds_nil
  unfold recordIndices
  dsimp only
  split
  · exact hlast
  next o' hrec =>
  split
  · exact hlast
  next hne =>
  refine hlast.append (inBounds_singleton ?_)
  -- an extent was appended, so the array was not full
  by_contra hfull
  unfold recordExtent at hrec
  dsimp only at hrec
  rw [if_pos (not_lt.mp hfull)] at hrec
  split at hrec
  · cases hrec
  split at hrec
  · cases hrec
    exact hne rfl
  · cases hrec

def KeepsBounds {α : Type} (m : Noted α) : Prop :=
  ∀ p, InBounds p.2 → wp m (fun _ q => InBounds q.2) (fun q => InBounds q.2) p

namespace KeepsBounds

variable {α β : Type} {m : Noted α}

lemma quietly (m' : Task α) : KeepsBounds (quietly m') := by
  intro p hp
  rw [wp_quietly]
  unfold wp
  split <;> exact hp

lemma bind {f : α → Noted β} (h : KeepsBounds m) (hf : ∀ a, KeepsBounds (f a)) :
    KeepsBounds (m >>= f) := fun p hp => wp_seq (h p hp) (fun a q hq => hf a q hq) fun _ h => h

lemma note {k : List ℕ} (hk : InBounds k) : KeepsBounds (note k) := fun _ hp => hp.append hk

lemma pure (a : α) : KeepsBounds (pure a) := fun _ hp => hp

lemma fail (e : Err) : KeepsBounds (fail e : Noted α) := fun _ hp => hp

lemma ite {c : Prop} [Decidable c] {n : Noted α} (h : KeepsBounds m) (hn : KeepsBounds n) :
    KeepsBounds (if c then m else n) := by
  split
  exacts [h, hn]

end KeepsBounds

lemma extentAddNoted_keeps {leafBlock rootSpare : ℕ} :
    KeepsBounds (extentAddNoted L o x leafBlock rootSpare) := by
  have hall : ∀ c : Prop, [Decidable c] →
      InBounds (if c then List.range inlineExtents else []) := by
    intro c _
    split
    exacts [inBounds_range le_rfl, inBounds_nil]
  apply (KeepsBounds.note (hall _)).bind
  intro _
  apply (KeepsBounds.quietly _).bind
  intro r
  exact (KeepsBounds.note (hall _)).bind fun _ => .pure r

lemma publishExtentNoted_keeps {tries splitLeaf splitRoot leafBlock rootSpare : ℕ} :
    KeepsBounds (publishExtentNoted L o x tries splitLeaf splitRoot leafBlock rootSpare) := by
  induction tries generalizing splitLeaf splitRoot leafBlock rootSpare with
  | zero =>
    apply extentAddNoted_keeps.bind
    rintro (_ | o')
    exacts [.fail _, .pure _]
  | succ tries ih =>
    apply extentAddNoted_keeps.bind
    rintro (_ | o')
    · apply KeepsBounds.ite
      · exact (KeepsBounds.quietly _).bind fun b => ih
      · exact .ite ((KeepsBounds.quietly _).bind fun b => ih) (.fail _)
    · exact .pure _

lemma publishPendingNoted_keeps : KeepsBounds (publishPendingNoted L o x) :=
  .ite ((KeepsBounds.quietly _).bind fun _ => publishExtentNoted_keeps) publishExtentNoted_keeps

lemma putRecordNoted_keeps : KeepsBounds (putRecordNoted L id o) := by
  refine (KeepsBounds.note ?_).bind fun _ => .quietly _
  split
  · intro i hi
    exact mem_range.mp (mem_filter.mp hi).1
  · exact inBounds_nil

variable (L) in
def holeFits (V : Volume) (o : Object) (logical : ℕ) : Bool :=
  match extentLookup L V o logical with
  | .ok none => decide (o.extentCount ≤ inlineExtents)
  | _ => true

lemma writeChunkNoted_keeps
    (h : holeFits L p.1.view o ((offset + done) / L.blockSize) = true) (hp : InBounds p.2) :
    wp (writeChunkNoted L o offset done chunk src junk) (fun _ q => InBounds q.2)
      (fun q => InBounds q.2) p := by
  have hlookup := hp.append (lookupIndices_inBounds (o := o) ((offset + done) / L.blockSize))
  unfold writeChunkNoted lookupNoted
  simp only [wp_bind, wp_note, wp_quietly, wp_reading]
  unfold holeFits at h
  cases hl : extentLookup L p.1.view o ((offset + done) / L.blockSize) with
  | error e => exact hlookup
  | ok found =>
    cases found with
    | some b => exact KeepsBounds.quietly _ (p.1, _) hlookup
    | none =>
      rw [hl] at h
      have hcount : o.extentCount ≤ inlineExtents := by simpa using h
      have hprefer : InBounds (preferIndices o) := by
        unfold preferIndices
        split
        · exact inBounds_nil
        · exact inBounds_singleton (by omega)
      have hrecord : ∀ y, InBounds (if o.treeBlock = 0 then recordIndices o y else []) := by
        intro y
        split
        exacts [recordIndices_inBounds, inBounds_nil]
      have hrest : KeepsBounds (do
          note (preferIndices o)
          let b ← quietly (allocOne L (preferGroup L o (junk.prefer done)))
          let x : Extent := ⟨(offset + done) / L.blockSize, b, 1⟩
          let recorded := if o.treeBlock = 0 then recordExtent o x else none
          note (if o.treeBlock = 0 then recordIndices o x else [])
          quietly (writeData b (patch (fun _ => 0) ((offset + done) % L.blockSize) chunk
            (fun i => src (done + i))))
          match recorded with
          | some o' => pure o'
          | none => publishPendingNoted L o x) := by
        apply (KeepsBounds.note hprefer).bind
        intro _
        apply (KeepsBounds.quietly _).bind
        intro b
        apply (KeepsBounds.note (hrecord _)).bind
        intro _
        apply (KeepsBounds.quietly _).bind
        intro _
        split
        · exact .pure _
        · exact publishPendingNoted_keeps
      have := hrest (p.1, p.2 ++ lookupIndices o ((offset + done) / L.blockSize)) hlookup
      simpa only [wp_bind, wp_note, wp_quietly] using this

variable (L) in
/-- Every chunk of the write that falls into a hole does so while the count is at most six. -/
def loopHolesFit (offset len : ℕ) (src : Bytes) (junk : Junk) :
    (fuel : ℕ) → Session → Object → (done : ℕ) → Bool
  | 0, _, _, _ => true
  | fuel + 1, s, o, done =>
    if len ≤ done then true
    else
      let chunk := chunkLength L offset done len
      holeFits L s.view o ((offset + done) / L.blockSize) &&
        match writeChunk L o offset done chunk src junk s with
        | (.ok o', t) => loopHolesFit offset len src junk fuel t o' (done + chunk)
        | (.error _, _) => true

lemma writeLoopNoted_keeps {fuel : ℕ} (hp : InBounds p.2)
    (h : loopHolesFit L offset len src junk fuel p.1 o done = true) :
    wp (writeLoopNoted L offset len src junk fuel o done) (fun _ q => InBounds q.2)
      (fun q => InBounds q.2) p := by
  induction fuel generalizing p o done with
  | zero => exact hp
  | succ fuel ih =>
    rw [writeLoopNoted]
    rw [loopHolesFit] at h
    split
    · exact hp
    next hlt =>
    rw [if_neg hlt, Bool.and_eq_true] at h
    have hrun := writeChunkNoted_erases.wp
      (wp_run (writeChunk L o offset done (chunkLength L offset done len) src junk) p.1)
    refine wp_seq (wp_and (writeChunkNoted_keeps h.1 hp) hrun) ?_ fun _ h => h.1
    rintro o' q ⟨hq, heq⟩
    rw [heq] at h
    exact ih hq h.2

variable (L) in
def writeHolesFit (o : Object) (offset : ℕ) (src : List UInt8) (junk : Junk) (s : Session) : Bool :=
  if o.inlineFlag = true ∧ offset + src.length ≤ inlineDataMax then true
  else
    match (if o.inlineFlag then promoteInline L o else pure o) s with
    | (.ok o', t) => loopHolesFit L offset src.length (fun i => src.getD i 0) junk src.length t o' 0
    | (.error _, _) => true

/-- A write uses only indices below six into the record's extents, as long as it fills holes while
the extent count is at most six. -/
theorem write_extent_indices_in_bounds (id : ℕ) (o : Object) (offset : ℕ) (src : List UInt8)
    (junk : Junk) (s : Session) (h : writeHolesFit L o offset src junk s = true) :
    InBounds (writeTaskNoted L id o offset src junk (s, [])).2.2 ∧
      (writeTaskNoted L id o offset src junk (s, [])).1 = (writeTask L id o offset src junk s).1 ∧
      (writeTaskNoted L id o offset src junk (s, [])).2.1 =
        (writeTask L id o offset src junk s).2 := by
  refine ⟨?_, writeTaskNoted_erases (s, [])⟩
  suffices hw : wp (writeTaskNoted L id o offset src junk) (fun _ q => InBounds q.2)
      (fun q => InBounds q.2) (s, []) by
    unfold wp at hw
    split at hw
    · next heq => rw [heq]; exact hw
    · next heq => rw [heq]; exact hw
  unfold writeTaskNoted
  simp only [wp_bind, wp_quietly, wp_require]
  unfold writeHolesFit at h
  split
  · split
    · exact inBounds_nil
    simp only [wp_bind, wp_quietly, wp_require]
    split
    · split
      · exact putRecordNoted_keeps _ inBounds_nil
      next hbig =>
      rw [if_neg hbig] at h
      have hpromote : KeepsBounds (if o.inlineFlag then promoteInlineNoted L o else pure o) := by
        apply KeepsBounds.ite
        · apply (KeepsBounds.quietly _).bind
          intro o'
          exact (KeepsBounds.note (inBounds_singleton (by decide))).bind fun _ => .pure o'
        · exact .pure o
      have herases : Erases (if o.inlineFlag then promoteInlineNoted L o else pure o)
          (if o.inlineFlag then promoteInline L o else pure o) :=
        Erases.ite (fun _ => promoteInlineNoted_erases) fun _ => erases_pure _
      have hrun := herases.wp (p := (s, []))
        (wp_run (if o.inlineFlag then promoteInline L o else pure o) s)
      rw [wp_bind]
      refine wp_mono (wp_and (hpromote (s, []) inBounds_nil) hrun) ?_ fun _ h => h.1
      rintro o' q ⟨hq, heq⟩
      rw [heq] at h
      refine wp_seq (writeLoopNoted_keeps hq h) ?_ fun _ h => h
      exact fun o'' r hr => putRecordNoted_keeps r hr
    · exact inBounds_nil
  · exact inBounds_nil

def sevenRecords : List Extent := (List.range 7).map fun i => ⟨2 * i, 42 + i, 1⟩

def quiet : Junk := ⟨fun _ => 0, fun _ => false⟩

theorem write_extent_indices_in_bounds_two :
    (rootedFile 2).accepted = true ∧ writeHolesFit oneGroup (rootedFile 2) 8192 [1] quiet
      (rootedVolume [⟨0, 42, 1⟩, ⟨5, 43, 2⟩]).session = true ∧
    InBounds (writeTaskNoted oneGroup 16 (rootedFile 2) 8192 [1] quiet
      ((rootedVolume [⟨0, 42, 1⟩, ⟨5, 43, 2⟩]).session, [])).2.2 := by
  have h : writeHolesFit oneGroup (rootedFile 2) 8192 [1] quiet
      (rootedVolume [⟨0, 42, 1⟩, ⟨5, 43, 2⟩]).session = true := by decide +kernel
  exact ⟨rfl, h, (write_extent_indices_in_bounds 16 (rootedFile 2) 8192 [1] quiet _ h).1⟩

/-- One byte in a hole of a file with seven records in its tree: the hint reads past the array. -/
theorem write_hint_past_the_array : (rootedFile 7).accepted = true ∧
    extentLookup oneGroup (rootedVolume sevenRecords) (rootedFile 7) 1 = .ok none ∧
    (writeTaskNoted oneGroup 16 (rootedFile 7) 4096 [1] quiet
      ((rootedVolume sevenRecords).session, [])).2.2 = [6, 0, 1, 2, 3, 4, 5] ∧
    ¬ InBounds (writeTaskNoted oneGroup 16 (rootedFile 7) 4096 [1] quiet
      ((rootedVolume sevenRecords).session, [])).2.2 := by
  have hnotes : (writeTaskNoted oneGroup 16 (rootedFile 7) 4096 [1] quiet
      ((rootedVolume sevenRecords).session, [])).2.2 = [6, 0, 1, 2, 3, 4, 5] := by decide +kernel
  refine ⟨rfl, rfl, hnotes, fun h => ?_⟩
  rw [hnotes] at h
  exact absurd (h 6 (by simp)) (by decide)

end Wfs
