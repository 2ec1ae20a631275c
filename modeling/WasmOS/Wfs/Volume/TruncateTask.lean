import Mathlib.Algebra.Order.BigOperators.Group.List
import WasmOS.Stackless.Basic
import WasmOS.Wfs.Volume.ExtentTrim

/-! # Truncation as a resumable task

`wfs_truncate_task` is called again from its start and finds its place by `pc`. Its context survives
an await; its locals do not. The driver checks the release of a trimmed run through the local `jr`,
which that place does not set.
-/

namespace Wfs

open Procedure Stackless List Volume

def Err.number : Err → ℕ
  | .badArgs => 1 | .pathTooLong => 2 | .notFound => 5 | .isDir => 6 | .notDir => 7
  | .exists => 8 | .notEmpty => 9 | .noFd => 10 | .busy => 11 | .io => 13 | .notReady => 14
  | .noSpace => 15 | .name => 16 | .range => 18 | .unsupported => 19 | .corrupt => 21
  | .notAbsolute => 24 | .badMagic => 30 | .checksum => 31 | .featureIncompat => 32
  | .geometry => 33 | .volumeTooLarge => 34 | .version => 35 | .readOnly => 36 | .journal => 37
  | .txnFull => 38 | .replay => 39 | .needBlock => 41

/-- `WASMOS_ERR_MAKE` with the file system's domain. -/
def Err.code (e : Err) : ℤ := -(4 * 2 ^ 16 + (e.number : ℤ))

lemma Err.code_neg (e : Err) : e.code < 0 := by
  unfold Err.code
  omega

def status {α : Type} : Except Err α → ℤ
  | .ok _ => 0
  | .error e => e.code

/-- The resume points of `wfs_truncate_task`. -/
inductive TruncPc
  | start | prepared | treePrepared | inlineAllocJoined | inlineWritten | tailRead | tailWritten
  | recordRead | recordPatch | recordWritten | trimJoined | tailLookupJoined | trimFreeJoined
  | freeJoined
  deriving DecidableEq

/-- `wfs_trunc_ctx_t`, with the volume and the status the last child settled with. -/
structure TruncCtx where
  pc : TruncPc
  objectId : ℕ
  obj : Object
  newSize : ℕ
  freeRuns : List (ℕ × ℕ)
  tailBlock : ℕ
  tailNeeded : Bool
  freeStarted : Bool
  trimStarted : Bool
  promoteInline : Bool
  promoteBlock : ℕ
  trimKeep : ℕ
  trimRoot : ℕ
  alloc : ℕ × ℕ
  trim : Trim
  extent : Except Err (Option ℕ)
  staged : Except Err Unit
  child : ℤ
  session : Session

structure TruncLocals where
  blockSize : ℕ
  keep : ℕ
  joined : ℤ
  jr : ℤ

def truncateInit (id : ℕ) (o : Object) (newSize : ℕ) (s : Session) : TruncCtx where
  pc := .start
  objectId := id
  obj := o
  newSize := newSize
  freeRuns := []
  tailBlock := 0
  tailNeeded := false
  freeStarted := false
  trimStarted := false
  promoteInline := false
  promoteBlock := 0
  trimKeep := 0
  trimRoot := 0
  alloc := (0, 0)
  trim := ⟨0, 0, 0, 0, 0⟩
  extent := .ok none
  staged := .ok ()
  child := 0
  session := s

namespace TruncCtx

variable (c : TruncCtx)

/-- The child runs to its end before its join returns, on a volume nothing else touches meanwhile.
-/
def spawn {α : Type} (t : Task α) (keep : TruncCtx → α → TruncCtx) : TruncCtx :=
  let r := t c.session
  let c := { c with session := r.2, child := status r.1 }
  match r.1 with
  | .ok a => keep c a
  | .error _ => c

/-- A return. The runtime takes the value of `WASMOS_WASM_TASK_YIELDED` for a yield. -/
def leave (value : ℤ) : Outcome TruncCtx TruncLocals (ℤ × Session) :=
  if value = 1 then .requeue c else .done (value, c.session)

/-- The release of a run or a node, joined at `WFS_TRUNC_PC_TRIM_FREE_JOINED`. -/
def spawnFree (L : Layout) (first length : ℕ) (metadata : Bool) : TruncCtx :=
  ({ c with freeStarted := true, pc := .trimFreeJoined }).spawn
    (freeBlocks L first length metadata) fun c _ => c

end TruncCtx

def TruncLocals.join (l : TruncLocals) (c : TruncCtx) : TruncLocals :=
  { l with joined := 0, jr := c.child }

def TruncLocals.failure (l : TruncLocals) : Option ℤ :=
  if l.jr ≠ 0 ∨ l.joined ≠ 0 then some (if l.joined ≠ 0 then l.joined else l.jr) else none

variable (L : Layout)

/-- `WFS_TRUNC_PC_PREPARED`. -/
def truncatePrepared (c : TruncCtx) (l : TruncLocals) :
    Outcome TruncCtx TruncLocals (ℤ × Session) :=
  if c.promoteInline then
    .await (({ c with pc := .inlineAllocJoined }).spawn (allocBlocks L 1 0)
      fun c r => { c with alloc := r }) l
  else if c.obj.inlineFlag then
    let data := if c.newSize < c.obj.size then
      fun i => if c.newSize ≤ i ∧ i < inlineDataMax then 0 else c.obj.inlineData i
      else c.obj.inlineData
    .goto { c with pc := .recordRead, obj := { c.obj with inlineData := data } } l
  else
    let l := { l with blockSize := L.blockSize }
    if c.obj.size < c.newSize then .goto { c with pc := .recordRead } l
    else
      let l := { l with keep := (c.newSize + l.blockSize - 1) % 2 ^ 64 / l.blockSize }
      let (kept, freed) :=
        trimExtents l.keep (c.obj.extents.take (min c.obj.extentCount inlineExtents))
      let c := { c with
        obj := { c.obj with extents := kept, extentCount := kept.length }, freeRuns := freed }
      if c.newSize % l.blockSize ≠ 0 ∧ physicalOf kept (c.newSize / l.blockSize) ≠ 0 then
        .goto { c with
          pc := .tailRead
          tailBlock := physicalOf kept (c.newSize / l.blockSize)
          tailNeeded := true } l
      else .goto { c with pc := .recordRead } l

/-- `WFS_TRUNC_PC_INLINE_ALLOC_JOINED`. -/
def truncateInlineAlloc (c : TruncCtx) (l : TruncLocals) :
    Outcome TruncCtx TruncLocals (ℤ × Session) :=
  let l := l.join c
  match l.failure with
  | some v => c.leave v
  | none =>
    if c.alloc.2 = 0 then .done (Err.noSpace.code, c.session)
    else
      let bytes : Bytes := fun i =>
        if i < inlineDataMax ∧ i < c.obj.size then c.obj.inlineData i else 0
      .await { c with
        pc := .inlineWritten
        promoteBlock := c.alloc.1
        session := c.session.written c.alloc.1 bytes } { l with blockSize := L.blockSize }

/-- The end of `WFS_TRUNC_PC_TRIM_JOINED`: what the step released is freed. -/
def truncateReleased (c : TruncCtx) (l : TruncLocals) :
    Outcome TruncCtx TruncLocals (ℤ × Session) :=
  if c.trim.freedNode ≠ 0 then .await (c.spawnFree L c.trim.freedNode 1 true) l
  else if c.trim.freedLength ≠ 0 then
    .await (c.spawnFree L c.trim.freedFirst c.trim.freedLength false) l
  else if c.trim.remaining = 0 then
    let root := c.trimRoot
    let c := { c with obj := { c.obj with extentCount := 0, treeBlock := 0 }, trimRoot := 0 }
    .await (c.spawnFree L root 1 true) l
  else if c.newSize % L.blockSize ≠ 0 then
    let found := extentLookup L c.session.view c.obj (c.newSize / L.blockSize)
    .await { c with pc := .tailLookupJoined, extent := found, child := status found } l
  else .goto { c with pc := .recordRead } l

def Object.uncount (o : Object) (removed : ℕ) : Object :=
  if removed ≠ 0 ∧ removed ≤ o.extentCount then
    { o with extentCount := o.extentCount - removed } else o

def truncateTrimmed (c : TruncCtx) (l : TruncLocals) :
    Outcome TruncCtx TruncLocals (ℤ × Session) :=
  let l := l.join c
  let c := { c with trimStarted := false }
  match l.failure with
  | some v => c.leave v
  | none => truncateReleased L { c with obj := c.obj.uncount c.trim.removed } l

/-- One place of `wfs_truncate_task`, from its label to the next jump or await. -/
def truncateStep (c : TruncCtx) (l : TruncLocals) : Outcome TruncCtx TruncLocals (ℤ × Session) :=
  match c.pc with
  | .start =>
    if c.obj.type = .dir then .done (Err.isDir.code, c.session)
    else if c.newSize = c.obj.size then .done (0, c.session)
    else if c.obj.treeBlock ≠ 0 then .goto { c with pc := .treePrepared } l
    else .goto { c with
      pc := .prepared
      promoteInline := c.obj.inlineFlag && decide (inlineDataMax < c.newSize) } l
  | .treePrepared =>
    if c.obj.size < c.newSize then
      .goto { c with pc := .recordRead, obj := { c.obj with size := c.newSize } } l
    else .goto { c with
      pc := .trimJoined
      trimRoot := c.obj.treeBlock
      trimKeep := (c.newSize + L.blockSize - 1) % 2 ^ 64 / L.blockSize
      obj := { c.obj with size := c.newSize } } l
  | .prepared => truncatePrepared L c l
  | .inlineAllocJoined => truncateInlineAlloc L c l
  | .inlineWritten =>
    .goto { c with
      pc := .recordRead
      obj := { c.obj with
        inlineFlag := false, extents := [⟨0, c.promoteBlock, 1⟩], extentCount := 1
        inlineData := fun _ => 0 }
      promoteInline := false } l
  | .tailRead => .await { c with pc := .tailWritten } l
  | .tailWritten =>
    if c.tailNeeded then
      .await { c with
        session := (zeroTail L c.tailBlock c.newSize c.session).2
        tailNeeded := false } { l with blockSize := L.blockSize }
    else .goto { c with pc := .recordRead } l
  | .recordRead =>
    if c.objectId ≠ 0 ∧ c.objectId < L.totalObjects then .await { c with pc := .recordPatch } l
    else .done (Err.notFound.code, c.session)
  | .recordPatch =>
    let obj := { c.obj with size := c.newSize }
    let r := putRecord L c.objectId obj c.session
    .await { c with pc := .recordWritten, obj := obj, staged := r.1, session := r.2 } l
  | .recordWritten =>
    match c.staged with
    | .error e => .done (e.code, c.session)
    | .ok _ => .goto { c with pc := .freeJoined } l
  | .trimJoined =>
    if c.trimStarted then truncateTrimmed L c l
    else .await (({ c with trimStarted := true }).spawn (extentTrim L c.trimRoot c.trimKeep)
      fun c r => { c with trim := r }) l
  | .tailLookupJoined =>
    match c.extent with
    | .error e => .done (e.code, c.session)
    | .ok (some b) => .goto { c with pc := .tailRead, tailBlock := b, tailNeeded := true }
        (l.join c)
    | .ok none => .goto { c with pc := .recordRead } (l.join c)
  | .trimFreeJoined =>
    -- the join's result is compared with the pending value only, so `jr` is what it was
    let l := { l with joined := 0 }
    let c := { c with freeStarted := false }
    match l.failure with
    | some v => c.leave v
    | none =>
      if c.trimRoot = 0 then .goto { c with pc := .recordRead } l
      else .goto { c with pc := .trimJoined } l
  | .freeJoined =>
    if c.freeStarted then
      let l := l.join c
      let c := { c with freeStarted := false }
      match l.failure with
      | some v => c.leave v
      | none => .goto { c with freeRuns := c.freeRuns.tail } l
    else
      match c.freeRuns with
      | [] => .done (0, c.session)
      | (first, length) :: _ =>
        .await (({ c with freeStarted := true }).spawn (freeBlocks L first length false)
          fun c _ => c) l

variable {L}

def SlotClear (c : TruncCtx) (l : TruncLocals) : Prop := c.pc = .trimFreeJoined → l.jr = 0

lemma failure_join (l : TruncLocals) (c : TruncCtx) :
    (l.join c).failure = if c.child = 0 then none else some c.child := by
  simp [TruncLocals.join, TruncLocals.failure, ite_not]

variable {l : TruncLocals}

lemma failure_slot (h : l.jr = 0) : ({ l with joined := 0 } : TruncLocals).failure = none := by
  simp [TruncLocals.failure, h]

lemma truncate_blind : Blind (truncateStep L) SlotClear := by
  intro c x y hx hy
  cases hpc : c.pc with
  | trimFreeJoined =>
    simp only [truncateStep, hpc, failure_slot (hx hpc), failure_slot (hy hpc)]
    split <;> rfl
  | prepared =>
    simp only [truncateStep, hpc, truncatePrepared]
    split_ifs <;> rfl
  | inlineAllocJoined =>
    simp only [truncateStep, hpc, truncateInlineAlloc, failure_join]
    split
    · rfl
    · split <;> rfl
  | trimJoined =>
    simp only [truncateStep, hpc, truncateTrimmed, truncateReleased, failure_join]
    split
    · split
      · rfl
      · split_ifs <;> rfl
    · rfl
  | tailLookupJoined | recordWritten =>
    simp only [truncateStep, hpc]
    split <;> rfl
  | freeJoined =>
    simp only [truncateStep, hpc, failure_join]
    split
    · split <;> rfl
    · split <;> rfl
  | start | treePrepared | tailWritten | recordRead =>
    simp only [truncateStep, hpc]
    split_ifs <;> rfl
  | inlineWritten | tailRead | recordPatch =>
    simp only [truncateStep, hpc]
    rfl

/-! ## The run whose children all finish before they are joined -/

def outcome {α : Type} (p : Except Err α × Session) : ℤ × Session := (status p.1, p.2)

lemma leave_code (c : TruncCtx) (e : Err) : c.leave e.code = .done (e.code, c.session) := by
  have := e.code_neg
  exact if_neg (by omega)

variable {c : TruncCtx} {r : ℤ × Session}

lemma ends_step (hpc : c.pc ≠ .trimFreeJoined)
    (h : (truncateStep L c l).Settles (fun c' l' => Ends (truncateStep L) SlotClear c' l' r) r) :
    Ends (truncateStep L) SlotClear c l r := .of_settles (fun hc => absurd hc hpc) h

lemma ends_freeRuns (runs : List (ℕ × ℕ)) (l : TruncLocals)
    (hpc : c.pc = .freeJoined) (hf : c.freeStarted = false) (hr : c.freeRuns = runs) :
    Ends (truncateStep L) SlotClear c l (outcome (freeRuns L runs c.session)) := by
  induction runs generalizing c l with
  | nil =>
    apply ends_step (by simp [hpc])
    simp only [truncateStep, hpc, hf, hr]
    rfl
  | cons run rest ih =>
    obtain ⟨first, length⟩ := run
    rw [freeRuns]
    apply ends_step (by simp [hpc])
    rcases hb : freeBlocks L first length false c.session with ⟨r, s⟩
    simp only [truncateStep, hpc, hf, hr, TruncCtx.spawn, hb]
    cases r with
    | error e =>
      rw [bind_of_error hb]
      apply ends_step (by simp)
      simp only [truncateStep, status, failure_join, if_true, if_neg e.code_neg.ne, leave_code]
      rfl
    | ok u =>
      rw [bind_of_ok hb]
      apply ends_step (by simp)
      exact ih _ rfl rfl rfl

def TruncCtx.finish (L : Layout) (c : TruncCtx) : Task Unit := do
  putRecord L c.objectId { c.obj with size := c.newSize }
  Wfs.freeRuns L c.freeRuns

lemma ends_record (l : TruncLocals) (hpc : c.pc = .recordRead)
    (hf : c.freeStarted = false) (hres : r = outcome (c.finish L c.session)) :
    Ends (truncateStep L) SlotClear c l r := by
  rw [hres, TruncCtx.finish]
  apply ends_step (by simp [hpc])
  by_cases hid : c.objectId ≠ 0 ∧ c.objectId < L.totalObjects
  · simp only [truncateStep, hpc, if_pos hid]
    rcases hp : putRecord L c.objectId { c.obj with size := c.newSize } c.session with ⟨r, s⟩
    apply ends_step (by simp)
    simp only [truncateStep, hp]
    apply ends_step (by simp)
    cases r with
    | error e =>
      rw [bind_of_error hp]
      rfl
    | ok u =>
      rw [bind_of_ok hp]
      exact ends_freeRuns _ l rfl hf rfl
  · have hno : putRecord L c.objectId { c.obj with size := c.newSize } c.session =
        (.error .notFound, c.session) := by
      rw [putRecord, require, if_neg hid]
      rfl
    rw [bind_of_error hno]
    simp only [truncateStep, hpc, if_neg hid]
    rfl

def leafLoad (L : Layout) (keep : ℕ) (V : Volume) (b : ℕ) : ℕ :=
  min ((V.leafRecords b).countP fun e => decide (keep < e.stop)) L.leafCapacity

def trimLoad (L : Layout) (V : Volume) (root keep : ℕ) : ℕ :=
  match V.block root with
  | .node (.leaf _) => leafLoad L keep V root
  | .node (.interior _ index) =>
    if index.length ≤ L.interiorCapacity then
      (index.map fun c => leafLoad L keep V c.2 + 1).sum
    else 0
  | _ => 0

section Load

variable {V : Volume} {keep : ℕ} {s : Session}

lemma leafLoad_le (b : ℕ) : leafLoad L keep V b ≤ L.leafCapacity := min_le_right _ _

lemma trimLoad_le (root : ℕ) :
    trimLoad L V root keep ≤ L.interiorCapacity * (L.leafCapacity + 1) := by
  unfold trimLoad
  split
  · have hcap : 1 ≤ L.interiorCapacity := by
      have := L.blockSize_ge
      unfold Dims.interiorCapacity
      omega
    have hle : leafLoad L keep V root ≤ L.leafCapacity := leafLoad_le root
    calc leafLoad L keep V root ≤ 1 * (L.leafCapacity + 1) := by omega
      _ ≤ L.interiorCapacity * (L.leafCapacity + 1) := Nat.mul_le_mul_right _ hcap
  · next depth index _ =>
    split
    · next hlen =>
      have hsum := sum_le_card_nsmul (index.map fun c => leafLoad L keep V c.2 + 1)
        (L.leafCapacity + 1) (by
          intro n hn
          obtain ⟨c, -, rfl⟩ := mem_map.mp hn
          exact Nat.succ_le_succ (leafLoad_le c.2))
      rw [length_map, nsmul_eq_mul, Nat.cast_id] at hsum
      exact hsum.trans (Nat.mul_le_mul_right _ hlen)
    · exact Nat.zero_le _
  · exact Nat.zero_le _

lemma leafLoad_cut {b : ℕ} {before es' : List Extent} {v : Extent}
    (hl : (V.leafRecords b).length ≤ L.leafCapacity)
    (h : splitLast (fun e => decide (keep < e.stop)) (V.leafRecords b) = some (before, v))
    (hes : es' = before ∨ ∃ w, es' = before ++ [w] ∧ w.stop ≤ keep) (c : ℕ) :
    leafLoad L keep (V.setBlock b (.node (.leaf es'))) c ≤ leafLoad L keep V c ∧
      (c = b → leafLoad L keep (V.setBlock b (.node (.leaf es'))) c < leafLoad L keep V c) := by
  by_cases hc : c = b
  · subst hc
    have hnew : (V.setBlock c (.node (.leaf es'))).leafRecords c = es' := by
      simp [leafRecords]
    have hcount : es'.countP (fun e => decide (keep < e.stop)) = before.countP
        fun e => decide (keep < e.stop) := by
      rcases hes with rfl | ⟨w, rfl, hw⟩
      · rfl
      · simp [countP_append, hw]
    have hle := countP_le_length (p := fun e : Extent => decide (keep < e.stop))
      (l := V.leafRecords c)
    obtain ⟨after, heq, hv, -⟩ := splitLast_some h
    have hlt : before.countP (fun e => decide (keep < e.stop)) <
        (V.leafRecords c).countP fun e => decide (keep < e.stop) := by
      rw [heq, countP_append, countP_cons, if_pos hv]
      omega
    have : leafLoad L keep (V.setBlock c (.node (.leaf es'))) c < leafLoad L keep V c := by
      unfold leafLoad
      rw [hnew, hcount]
      omega
    exact ⟨this.le, fun _ => this⟩
  · have hsame : (V.setBlock b (.node (.leaf es'))).leafRecords c = V.leafRecords c := by
      simp [leafRecords, hc]
    exact ⟨by rw [leafLoad, hsame, leafLoad], fun h => absurd h hc⟩

lemma leafLoad_index {root depth depth' : ℕ} {index index' : List (ℕ × ℕ)}
    (h : V.block root = .node (.interior depth index)) (c : ℕ) :
    leafLoad L keep (V.setBlock root (.node (.interior depth' index'))) c =
      leafLoad L keep V c := by
  have hsame : (V.setBlock root (.node (.interior depth' index'))).leafRecords c =
      V.leafRecords c := by
    by_cases hc : c = root
    · subst hc
      simp [leafRecords, h]
    · simp [leafRecords, hc]
  rw [leafLoad, hsame, leafLoad]

/-- A step that releases something had a transaction to stage in and left less to do. -/
def Progress (L : Layout) (s t : Session) (root keep : ℕ) (r : Trim) : Prop :=
  r.freedNode ≠ 0 ∨ r.freedLength ≠ 0 →
    s.isOpen = true ∧ trimLoad L t.view root keep < trimLoad L s.view root keep

variable {records : List Extent}

lemma trimLeaf_progress {root : Option ℕ} {top child : ℕ}
    (hcut : ∀ {before v} es', splitLast (fun e => decide (keep < e.stop)) records =
      some (before, v) → (es' = before ∨ ∃ w, es' = before ++ [w] ∧ w.stop ≤ keep) →
      trimLoad L (s.view.setBlock child (.node (.leaf es'))) top keep < trimLoad L s.view top keep)
    (hnothing : wp (trimNothing L root child records) (fun r t => Progress L s t top keep r)
      (fun _ => True) s) :
    wp (trimLeaf L keep root child records) (fun r t => Progress L s t top keep r)
      (fun _ => True) s := by
  unfold trimLeaf
  split
  · exact hnothing
  next before v hs =>
  by_cases hk : keep ≤ v.logical
  · simp only [if_pos hk, wp_bind]
    exact wp_stage (fun ho _ _ => ⟨ho, hcut _ hs (.inl rfl)⟩) trivial
  simp only [if_neg hk, wp_bind]
  refine wp_stage (fun ho _ _ => ⟨ho, hcut _ hs (.inr ⟨_, rfl, ?_⟩)⟩) trivial
  simp only [Extent.stop]
  omega

lemma trimLeaf_root_progress {root : ℕ}
    (hb : s.view.block root = .node (.leaf records)) (hl : records.length ≤ L.leafCapacity) :
    wp (trimLeaf L keep none root records) (fun r t => Progress L s t root keep r)
      (fun _ => True) s := by
  have hrec : s.view.leafRecords root = records := by simp [leafRecords, hb]
  apply trimLeaf_progress
  · intro before v es' h hes
    have := (leafLoad_cut (hrec ▸ hl) (hrec ▸ h) hes root).2 rfl
    simpa [trimLoad, hb] using this
  · rintro (h | h) <;> exact absurd rfl h

lemma trimLeaf_index_progress {root depth key child : ℕ} {pre : List (ℕ × ℕ)}
    (hroot : s.view.block root = .node (.interior depth (pre ++ [(key, child)])))
    (hcap : (pre ++ [(key, child)]).length ≤ L.interiorCapacity)
    (hb : s.view.block child = .node (.leaf records)) (hl : records.length ≤ L.leafCapacity) :
    wp (trimLeaf L keep (some root) child records) (fun r t => Progress L s t root keep r)
      (fun _ => True) s := by
  have hrec : s.view.leafRecords child = records := by simp [leafRecords, hb]
  have hne : root ≠ child := by
    rintro rfl
    cases hb.symm.trans hroot
  apply trimLeaf_progress
  · intro before v es' h hes
    have hload := leafLoad_cut (hrec ▸ hl) (hrec ▸ h) hes
    have hpre : (pre.map fun c => leafLoad L keep
        (s.view.setBlock child (.node (.leaf es'))) c.2 + 1).sum ≤
        (pre.map fun c => leafLoad L keep s.view c.2 + 1).sum :=
      sum_le_sum fun c _ => Nat.succ_le_succ (hload c.2).1
    have hlast := (hload child).2 rfl
    have hroot' : (s.view.setBlock child (.node (.leaf es'))).block root =
        .node (.interior depth (pre ++ [(key, child)])) := by
      rw [← hroot]
      exact Function.update_of_ne hne _ _
    simp only [trimLoad, hroot, hroot', if_pos hcap, map_append, sum_append,
      map_cons, map_nil, sum_cons, sum_nil]
    omega
  · unfold trimNothing
    dsimp only
    split
    · simp only [wp_bind, wp_reading, readInterior, hroot, wp_require]
      split
      · refine wp_stage (fun ho _ _ => ⟨ho, ?_⟩) trivial
        have hpre : pre.length ≤ L.interiorCapacity := by
          rw [length_append] at hcap
          omega
        simp only [Session.staged_view, trimLoad, setBlock_block, Function.update_self,
          dropLast_concat, hroot, if_pos hcap, if_pos hpre, leafLoad_index hroot,
          map_append, sum_append, map_cons, map_nil, sum_cons, sum_nil]
        omega
      · trivial
    · rintro (h | h) <;> exact absurd rfl h

lemma extentTrim_progress (root : ℕ) :
    wp (extentTrim L root keep) (fun r t => Progress L s t root keep r) (fun _ => True) s := by
  rw [extentTrim, wp_bind, wp_require]
  split
  · rw [wp_bind, wp_get]
    split
    · next records hb =>
      rw [wp_bind, wp_reading]
      simp only [readLeaf, hb]
      split
      · next hr =>
        split at hr
        · cases hr
        next hl =>
        cases hr
        exact trimLeaf_root_progress hb (not_lt.mp hl)
      · trivial
    · next depth index hroot =>
      split
      · trivial
      next hcap =>
      split
      · rintro (h | h) <;> exact absurd rfl h
      next key child hlast =>
      obtain ⟨pre, rfl⟩ := getLast?_eq_some_iff.mp hlast
      rw [wp_bind, wp_require]
      split
      · rw [wp_bind, wp_reading]
        split
        · next records hr =>
          unfold readLeaf at hr
          split at hr
          · next es hb =>
            split at hr
            · cases hr
            next hl =>
            cases hr
            exact trimLeaf_index_progress hroot (not_lt.mp hcap) hb (not_lt.mp hl)
          · cases hr
        · trivial
      · trivial
    · trivial
  · trivial

end Load

def SameNodes (s t : Session) : Prop :=
  t.isOpen = true → s.isOpen = true ∧ t.view.block = s.view.block

lemma SameNodes.trans {s t u : Session} (h : SameNodes s t) (h' : SameNodes t u) :
    SameNodes s u := fun ho => by
  obtain ⟨ht, hb⟩ := h' ho
  exact ⟨(h ht).1, hb.trans (h ht).2⟩

lemma sameNodes_abort (s : Session) : SameNodes s s.abort := nofun

lemma revokeRun_sameNodes (first n : ℕ) (s : Session) :
    wp (revokeRun first n) (fun _ t => SameNodes s t) (SameNodes s) s := by
  induction n generalizing first s with
  | zero => exact fun ho => ⟨ho, rfl⟩
  | succ n ih =>
    have hrev : wp (revoke first) (fun _ t => SameNodes s t) (SameNodes s) s := by
      unfold wp revoke
      split_ifs <;> exact fun ho => ⟨ho, rfl⟩
    exact wp_seq hrev (fun _ t ht => wp_mono (ih _ t) (fun _ _ => ht.trans) fun _ => ht.trans)
      fun _ => id

lemma freeBlocksFrom_sameNodes (fuel cursor stop : ℕ) (s : Session) :
    wp (freeBlocksFrom L fuel cursor stop) (fun _ t => SameNodes s t) (SameNodes s) s := by
  induction fuel generalizing cursor s with
  | zero => exact fun ho => ⟨ho, rfl⟩
  | succ fuel ih =>
    rw [freeBlocksFrom]
    split
    · exact fun ho => ⟨ho, rfl⟩
    simp only [wp_bind]
    refine wp_stage (fun ho _ => ?_) (sameNodes_abort s)
    refine wp_stage (fun _ _ => ?_) fun hclosed => absurd hclosed Bool.false_ne_true
    have h : SameNodes s _ := fun _ => ⟨ho, rfl⟩
    exact wp_mono (ih _ _) (fun _ _ => h.trans) fun _ => h.trans

lemma freeBlocks_sameNodes (first length : ℕ) (metadata : Bool) (s : Session) :
    SameNodes s (freeBlocks L first length metadata s).2 := by
  have h : wp (freeBlocks L first length metadata) (fun _ t => SameNodes s t) (SameNodes s) s := by
    unfold freeBlocks
    split
    · exact fun ho => ⟨ho, rfl⟩
    rw [wp_bind, wp_require]
    split
    · refine wp_seq (Q := fun _ t => SameNodes s t) (F := SameNodes s) ?_ ?_ fun _ => id
      · cases metadata with
        | true => exact revokeRun_sameNodes first length s
        | false => exact fun ho => ⟨ho, rfl⟩
      · intro _ t ht
        exact wp_mono (freeBlocksFrom_sameNodes _ _ _ t) (fun _ _ => ht.trans) fun _ => ht.trans
    · exact fun ho => ⟨ho, rfl⟩
  unfold wp at h
  split at h <;> next hr => rw [hr]; exact h

lemma trimLoad_congr {s t : Session} {root keep : ℕ} (h : t.view.block = s.view.block) :
    trimLoad L t.view root keep = trimLoad L s.view root keep := by
  simp only [trimLoad, leafLoad, leafRecords, h]

def treeEnd (L : Layout) (root newSize : ℕ) (p : Object × ℕ) : Task Object :=
  if p.2 = 0 then do
    attempt (freeBlocks L root 1 true)
    pure { p.1 with extentCount := 0, treeBlock := 0 }
  else if newSize % L.blockSize ≠ 0 then do
    let found ← reading (fun V => extentLookup L V p.1 (newSize / L.blockSize))
    match found with
    | none => pure p.1
    | some b => do
      zeroTail L b newSize
      pure p.1
  else pure p.1

lemma spawnFree_eq (c : TruncCtx) (first length : ℕ) (metadata : Bool) :
    c.spawnFree L first length metadata = { c with
        freeStarted := true, pc := .trimFreeJoined
        session := (freeBlocks L first length metadata c.session).2
        child := status (freeBlocks L first length metadata c.session).1 } := by
  simp only [TruncCtx.spawnFree, TruncCtx.spawn]
  split <;> rfl

lemma ends_release {first length : ℕ} {metadata : Bool} (hl : l.jr = 0)
    (h : Ends (truncateStep L) SlotClear { c with
      freeStarted := false, pc := if c.trimRoot = 0 then .recordRead else .trimJoined
      session := (freeBlocks L first length metadata c.session).2
      child := status (freeBlocks L first length metadata c.session).1 } { l with joined := 0 } r) :
    Ends (truncateStep L) SlotClear (c.spawnFree L first length metadata) l r := by
  rw [spawnFree_eq]
  apply Ends.of_settles fun _ => hl
  simp only [truncateStep, failure_slot hl]
  split at h
  · next h0 =>
    rwa [if_pos h0]
  next h0 =>
  rwa [if_neg h0]

lemma uncount_size (o : Object) (n removed : ℕ) :
    ({ o with size := n } : Object).uncount removed = { o.uncount removed with size := n } := by
  unfold Object.uncount
  split <;> rfl

lemma finish_nil (hr : c.freeRuns = []) :
    c.finish L = putRecord L c.objectId { c.obj with size := c.newSize } := by
  funext s
  rw [TruncCtx.finish, hr]
  rcases hp : putRecord L c.objectId { c.obj with size := c.newSize } s with ⟨r, t⟩
  cases r with
  | error e => exact bind_of_error hp
  | ok u => exact bind_of_ok hp

variable {o : Object}

lemma ends_record_nil (l : TruncLocals)
    (hpc : c.pc = .recordRead) (hf : c.freeStarted = false) (hr : c.freeRuns = [])
    (hobj : { c.obj with size := c.newSize } = o)
    (hres : r = outcome (putRecord L c.objectId o c.session)) :
    Ends (truncateStep L) SlotClear c l r := by
  subst hobj hres
  rw [← finish_nil hr]
  exact ends_record l hpc hf rfl

lemma ends_treeEnd (hf : c.freeStarted = false) (hr : c.freeRuns = [])
    (hobj : c.obj = { o with size := c.newSize }) (hl : l.jr = 0)
    (hnode : c.trim.freedNode = 0) (hlen : c.trim.freedLength = 0)
    (hres : r = outcome ((treeEnd L c.trimRoot c.newSize (o, c.trim.remaining) >>= fun o' =>
      putRecord L c.objectId { o' with size := c.newSize }) c.session)) :
    (truncateReleased L c l).Settles (fun c' l' => Ends (truncateStep L) SlotClear c' l' r) r := by
  simp only [truncateReleased, hnode, hlen, ne_eq, not_true_eq_false, if_false]
  subst hres
  by_cases hrem : c.trim.remaining = 0
  · simp only [treeEnd, if_pos hrem]
    apply ends_release hl
    exact ends_record_nil _ rfl rfl hr (by simp [hobj]) rfl
  simp only [treeEnd, if_neg hrem]
  by_cases hpart : c.newSize % L.blockSize = 0
  · simp only [hpart, ne_eq, not_true_eq_false, if_false]
    exact ends_record_nil _ rfl hf hr (by simp [hobj]) rfl
  have hsame : extentLookup L c.session.view c.obj (c.newSize / L.blockSize) =
      extentLookup L c.session.view o (c.newSize / L.blockSize) := by
    rw [hobj]
    rfl
  have hfound : (reading fun V => extentLookup L V o (c.newSize / L.blockSize)) c.session =
      (extentLookup L c.session.view o (c.newSize / L.blockSize), c.session) := rfl
  simp only [hpart, ne_eq, not_false_eq_true, if_true, hsame, bind_bind]
  apply ends_step (by simp)
  rcases hlook : extentLookup L c.session.view o (c.newSize / L.blockSize) with e | found
  all_goals rw [hlook] at hfound
  · rw [bind_of_error hfound]
    rfl
  rw [bind_of_ok hfound]
  cases found with
  | none => exact ends_record_nil _ rfl hf hr (by simp [hobj]) rfl
  | some b =>
    apply ends_step (by simp)
    apply ends_step (by simp)
    apply ends_step (by simp)
    exact ends_record_nil _ rfl hf hr (by simp [hobj]) rfl

variable {junk : Junk}

lemma trimTree_succ (hj : ∀ n, junk.status n = false) {root keep fuel : ℕ}
    {s t : Session} {r : Trim} (h : extentTrim L root keep s = (.ok r, t)) :
    trimTree L root keep junk (fuel + 1) o s = if r.freedNode ≠ 0 then
        trimTree L root keep junk fuel (o.uncount r.removed) (freeBlocks L r.freedNode 1 true t).2
      else if r.freedLength ≠ 0 then
        trimTree L root keep junk fuel (o.uncount r.removed)
          (freeBlocks L r.freedFirst r.freedLength false t).2
      else (.ok (o.uncount r.removed, r.remaining), t) := by
  simp only [trimTree, bind_of_ok h, hj]
  split
  · rfl
  · split <;> rfl

lemma ends_trim (fuel : ℕ) (hj : ∀ n, junk.status n = false)
    (l : TruncLocals) (hpc : c.pc = .trimJoined) (hst : c.trimStarted = false)
    (hf : c.freeStarted = false) (hr : c.freeRuns = []) (hroot : c.trimRoot ≠ 0)
    (hobj : c.obj = { o with size := c.newSize }) (hpos : 0 < fuel)
    (hload : c.session.isOpen = true → trimLoad L c.session.view c.trimRoot c.trimKeep < fuel) :
    Ends (truncateStep L) SlotClear c l (outcome ((trimTree L c.trimRoot c.trimKeep junk fuel o >>=
      fun p => treeEnd L c.trimRoot c.newSize p >>= fun o' =>
        putRecord L c.objectId { o' with size := c.newSize }) c.session)) := by
  induction fuel generalizing c o l with
  | zero => omega
  | succ fuel ih =>
    apply ends_step (by simp [hpc])
    rcases ht : extentTrim L c.trimRoot c.trimKeep c.session with ⟨res, s⟩
    simp only [truncateStep, hpc, hst, TruncCtx.spawn, ht]
    cases res with
    | error e =>
      rw [trimTree, bind_of_error (bind_of_error ht)]
      apply ends_step (by simp)
      simp only [truncateStep, truncateTrimmed, status, failure_join, if_true,
        if_neg e.code_neg.ne, leave_code]
      rfl
    | ok r =>
      have hprog : Progress L c.session s c.trimRoot c.trimKeep r := by
        have h : wp (extentTrim L c.trimRoot c.trimKeep) _ _ c.session :=
          extentTrim_progress c.trimRoot
        rwa [wp, ht] at h
      apply ends_step (by simp)
      simp only [truncateStep, truncateTrimmed, status, failure_join, if_true]
      have hobj' : c.obj.uncount r.removed = { o.uncount r.removed with size := c.newSize } := by
        rw [hobj, uncount_size]
      -- the transaction the released run is freed in, and the loop's measure after it
      have hnext : ∀ first length metadata, (r.freedNode ≠ 0 ∨ r.freedLength ≠ 0) →
          0 < fuel ∧ ((freeBlocks L first length metadata s).2.isOpen = true →
            trimLoad L (freeBlocks L first length metadata s).2.view c.trimRoot c.trimKeep <
              fuel) := by
        intro first length metadata hrel
        obtain ⟨ho, hlt⟩ := hprog hrel
        have := hload ho
        refine ⟨by omega, fun ho' => ?_⟩
        rw [trimLoad_congr (freeBlocks_sameNodes first length metadata s ho').2]
        omega
      have hrun : ∀ first length metadata, (r.freedNode ≠ 0 ∨ r.freedLength ≠ 0) →
          Ends (truncateStep L) SlotClear (({ c with
            pc := .trimJoined, trimStarted := false, trim := r, session := s, child := 0
            obj := c.obj.uncount r.removed }).spawnFree L first length metadata)
            { l with joined := 0, jr := 0 }
            (outcome ((trimTree L c.trimRoot c.trimKeep junk fuel (o.uncount r.removed) >>=
              fun p => treeEnd L c.trimRoot c.newSize p >>= fun o' =>
                putRecord L c.objectId { o' with size := c.newSize })
              (freeBlocks L first length metadata s).2)) := by
        intro first length metadata hrel
        obtain ⟨hpos', hload'⟩ := hnext first length metadata hrel
        apply ends_release rfl
        simp only [if_neg hroot]
        exact ih _ rfl rfl rfl hr hroot hobj' hpos' hload'
      have hturn : trimTree L c.trimRoot c.trimKeep junk (fuel + 1) o c.session = _ :=
        trimTree_succ hj ht
      by_cases hnode : r.freedNode ≠ 0
      · rw [bind_run_congr (hturn.trans (if_pos hnode)), truncateReleased, if_pos hnode]
        exact hrun _ _ _ (.inl hnode)
      rw [if_neg hnode] at hturn
      by_cases hlen : r.freedLength ≠ 0
      · rw [bind_run_congr (hturn.trans (if_pos hlen)), truncateReleased, if_neg hnode, if_pos hlen]
        exact hrun _ _ _ (.inr hlen)
      · rw [bind_of_ok (hturn.trans (if_neg hlen))]
        exact ends_treeEnd hf hr hobj' rfl (not_not.mp hnode) (not_not.mp hlen) rfl

lemma truncateTree_eq (hj : ∀ n, junk.status n = false) (o : Object) (newSize : ℕ) :
    truncateTree L o newSize junk =
      trimTree L o.treeBlock ((newSize + L.blockSize - 1) % 2 ^ 64 / L.blockSize) junk
        (trimFuel L) o >>= treeEnd L o.treeBlock newSize := by
  have hfree : freeUnchecked L o.treeBlock 1 true (junk.status (trimFuel L)) =
      attempt (freeBlocks L o.treeBlock 1 true) := by
    rw [hj]
    rfl
  rw [truncateTree, hfree]
  rfl

lemma ends_tree (hj : ∀ n, junk.status n = false)
    (l : TruncLocals) (hpc : c.pc = .treePrepared) (hst : c.trimStarted = false)
    (hf : c.freeStarted = false) (hr : c.freeRuns = []) (ht : c.obj.treeBlock ≠ 0) :
    Ends (truncateStep L) SlotClear c l (outcome
      (((if c.obj.size < c.newSize then pure c.obj else truncateTree L c.obj c.newSize junk) >>=
        fun o' => putRecord L c.objectId { o' with size := c.newSize }) c.session)) := by
  apply ends_step (by simp [hpc])
  simp only [truncateStep, hpc]
  by_cases hlt : c.obj.size < c.newSize
  · simp only [if_pos hlt]
    exact ends_record_nil _ rfl hf hr rfl rfl
  simp only [if_neg hlt, truncateTree_eq hj, bind_bind]
  have hfuel : L.interiorCapacity * (L.leafCapacity + 1) < trimFuel L := by
    unfold trimFuel
    omega
  exact ends_trim (trimFuel L) hj _ rfl hst hf hr ht rfl (Nat.succ_pos _) fun _ =>
    (trimLoad_le _).trans_lt hfuel

lemma ends_extents (l : TruncLocals) (hpc : c.pc = .prepared)
    (hf : c.freeStarted = false) (hp : c.promoteInline = false) (hi : c.obj.inlineFlag = false)
    (hlt : ¬ c.obj.size < c.newSize) :
    Ends (truncateStep L) SlotClear c l (outcome ((truncateExtents L c.obj c.newSize >>= fun p =>
      putRecord L c.objectId { p.1 with size := c.newSize } >>= fun _ => freeRuns L p.2)
      c.session)) := by
  apply ends_step (by simp [hpc])
  simp only [truncateStep, hpc, truncatePrepared]
  rw [if_neg (by simp [hp]), if_neg (by simp [hi]), if_neg hlt]
  rcases hcut : trimExtents ((c.newSize + L.blockSize - 1) % 2 ^ 64 / L.blockSize)
    (c.obj.extents.take (min c.obj.extentCount inlineExtents)) with ⟨kept, freed⟩
  by_cases htail : c.newSize % L.blockSize ≠ 0 ∧ physicalOf kept (c.newSize / L.blockSize) ≠ 0
  · simp only [truncateExtents, hcut, if_pos htail, if_pos htail.1, if_pos htail.2]
    apply ends_step (by simp)
    apply ends_step (by simp)
    apply ends_step (by simp)
    exact ends_record _ rfl hf rfl
  simp only [truncateExtents, hcut, if_neg htail]
  refine ends_record _ rfl hf ?_
  by_cases hpart : c.newSize % L.blockSize ≠ 0
  · rw [if_pos hpart, if_neg fun h => htail ⟨hpart, h⟩]
    rfl
  · rw [if_neg hpart]
    rfl

lemma ends_promote (l : TruncLocals) (hpc : c.pc = .prepared)
    (hf : c.freeStarted = false) (hr : c.freeRuns = []) (hp : c.promoteInline = true) :
    Ends (truncateStep L) SlotClear c l (outcome ((promoteInline L c.obj >>= fun o' =>
      putRecord L c.objectId { o' with size := c.newSize }) c.session)) := by
  apply ends_step (by simp [hpc])
  rcases ha : allocBlocks L 1 0 c.session with ⟨res, s⟩
  simp only [truncateStep, hpc, truncatePrepared, hp, if_true, TruncCtx.spawn, ha]
  cases res with
  | error e =>
    rw [promoteInline, allocOne, bind_of_error (bind_of_error (bind_of_error ha))]
    apply ends_step (by simp)
    simp only [truncateStep, truncateInlineAlloc, status, failure_join, if_neg e.code_neg.ne,
      leave_code]
    rfl
  | ok r =>
    obtain ⟨first, length⟩ := r
    apply ends_step (by simp)
    simp only [truncateStep, truncateInlineAlloc, status, failure_join, if_true]
    by_cases h0 : length = 0
    · have hone : allocOne L 0 c.session = (.error .noSpace, s) := by
        rw [allocOne, bind_of_ok ha, h0]
        rfl
      rw [promoteInline, bind_of_error (bind_of_error hone)]
      simp only [h0, if_true]
      rfl
    have hone : allocOne L 0 c.session = (.ok first, s) := by
      simp only [allocOne, bind_of_ok ha, require, if_pos h0]
      rfl
    simp only [if_neg h0]
    apply ends_step (by simp)
    have hok : promoteInline L c.obj c.session = _ := bind_of_ok hone
    rw [bind_run_congr hok]
    exact ends_record_nil _ rfl hf hr rfl rfl

def truncateFlat (L : Layout) (id : ℕ) (o : Object) (newSize : ℕ) : Task Unit :=
  if o.inlineFlag then do
    let o' ← (if inlineDataMax < newSize then promoteInline L o
      else if newSize < o.size then
        pure { o with
          inlineData := fun i =>
            if newSize ≤ i ∧ i < inlineDataMax then 0 else o.inlineData i }
      else pure o)
    putRecord L id { o' with size := newSize }
  else if o.size < newSize then putRecord L id { o with size := newSize }
  else do
    let (o', freed) ← truncateExtents L o newSize
    putRecord L id { o' with size := newSize }
    freeRuns L freed

lemma ends_flat (l : TruncLocals) (hpc : c.pc = .prepared)
    (hf : c.freeStarted = false) (hr : c.freeRuns = [])
    (hp : c.promoteInline = (c.obj.inlineFlag && decide (inlineDataMax < c.newSize))) :
    Ends (truncateStep L) SlotClear c l
      (outcome (truncateFlat L c.objectId c.obj c.newSize c.session)) := by
  unfold truncateFlat
  by_cases hi : c.obj.inlineFlag = true
  · by_cases hbig : inlineDataMax < c.newSize
    · rw [if_pos hi, if_pos hbig]
      exact ends_promote l hpc hf hr (by simp [hp, hi, hbig])
    have hp' : ¬ c.promoteInline = true := by simp [hp, hbig]
    rw [if_pos hi, if_neg hbig]
    apply ends_step (by simp [hpc])
    simp only [truncateStep, hpc, truncatePrepared, if_neg hp', if_pos hi]
    split
    all_goals exact ends_record_nil _ rfl hf hr rfl rfl
  · have hp' : c.promoteInline = false := by simp [hp, hi]
    rw [if_neg hi]
    by_cases hlt : c.obj.size < c.newSize
    · rw [if_pos hlt]
      apply ends_step (by simp [hpc])
      simp only [truncateStep, hpc, truncatePrepared]
      rw [if_neg (by simp [hp']), if_neg hi, if_pos hlt]
      exact ends_record_nil _ rfl hf hr rfl rfl
    · rw [if_neg hlt]
      exact ends_extents l hpc hf hp' (by simpa using hi) hlt

lemma ends_truncateTask (hj : ∀ n, junk.status n = false) (id : ℕ) (o : Object)
    (newSize : ℕ) (s : Session) (l : TruncLocals) :
    Ends (truncateStep L) SlotClear (truncateInit id o newSize s) l
      (outcome (truncateTask L id o newSize junk s)) := by
  apply ends_step (by simp [truncateInit])
  by_cases hdir : o.type = .dir
  · simp only [truncateTask, require, truncateStep, truncateInit, hdir, ne_eq, not_true_eq_false,
      if_false, if_true]
    rfl
  have hfile : require (o.type ≠ .dir) Err.isDir s = (.ok (), s) := by
    rw [require, if_pos hdir]
    rfl
  rw [truncateTask, bind_of_ok hfile]
  by_cases hsize : newSize = o.size
  · simp only [truncateStep, truncateInit, hdir, hsize, if_false, if_true]
    rfl
  rw [if_neg hsize]
  by_cases htree : o.treeBlock = 0
  · have hstep : truncateStep L (truncateInit id o newSize s) l = .goto
        { truncateInit id o newSize s with
          pc := .prepared
          promoteInline := o.inlineFlag && decide (inlineDataMax < newSize) } l := by
      simp [truncateStep, truncateInit, hdir, hsize, htree]
      rfl
    rw [hstep, if_neg (not_not.mpr htree)]
    exact ends_flat l rfl rfl rfl rfl
  have hstep : truncateStep L (truncateInit id o newSize s) l = .goto
      { truncateInit id o newSize s with pc := .treePrepared } l := by
    simp [truncateStep, truncateInit, hdir, hsize, htree]
  rw [hstep, if_pos htree]
  exact ends_tree hj l rfl rfl rfl rfl htree

end Wfs
