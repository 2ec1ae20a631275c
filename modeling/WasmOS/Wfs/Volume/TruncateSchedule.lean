import WasmOS.Wfs.Volume.ExtentIndices
import WasmOS.Wfs.Volume.TruncateTask

/-! # Truncation under every schedule

The result depends on the schedule only through the stack slot of `jr`: a call that resumes at the
join of a trimmed run's release returns whatever the slot holds. A release that is refused is not
reported.
-/

namespace Wfs

open Procedure Stackless TruncCtx

def Layout.runTables (L : Layout) (first length : ℕ) : List ℕ :=
  (List.range' (first / L.blocksPerGroup)
    ((first + length - 1) / L.blocksPerGroup - first / L.blocksPerGroup + 1)).flatMap fun g =>
      [L.blockBitmap g, L.descBlock g]

structure Session.FreeFits (L : Layout) (s : Session) (first length : ℕ) (metadata : Bool) :
    Prop where
  range : first + length ≤ L.totalBlocks
  revokes : metadata = true → s.revokes.length + length ≤ Journal.txnMaxRevokes
  tables : s.Room (L.runTables first length) 0

section Fits

variable {L : Layout} {s : Session}

lemma mem_runTables {first length b : ℕ} (h : first ≤ b) (h' : b < first + length) :
    L.blockBitmap (b / L.blocksPerGroup) ∈ L.runTables first length ∧
      L.descBlock (b / L.blocksPerGroup) ∈ L.runTables first length := by
  have hlo : first / L.blocksPerGroup ≤ b / L.blocksPerGroup := Nat.div_le_div_right h
  have hhi : b / L.blocksPerGroup ≤ (first + length - 1) / L.blocksPerGroup :=
    Nat.div_le_div_right (by omega)
  have hmem : b / L.blocksPerGroup ∈ List.range' (first / L.blocksPerGroup)
      ((first + length - 1) / L.blocksPerGroup - first / L.blocksPerGroup + 1) := by
    rw [List.mem_range'_1]
    omega
  constructor <;> exact List.mem_flatMap.mpr ⟨_, hmem, by simp⟩

lemma freeBlocksFrom_returns {fuel cursor stop : ℕ} {bs : List ℕ} (hstop : stop ≤ L.totalBlocks)
    (hbs : ∀ b, cursor ≤ b → b < stop → L.blockBitmap (b / L.blocksPerGroup) ∈ bs ∧
      L.descBlock (b / L.blocksPerGroup) ∈ bs) (hr : s.Room bs 0) :
    wp (freeBlocksFrom L fuel cursor stop) (fun _ _ => True) (fun _ => False) s := by
  induction fuel generalizing cursor s with
  | zero => trivial
  | succ fuel ih =>
    rw [freeBlocksFrom]
    split
    · trivial
    next hlt =>
    obtain ⟨hbit, hdesc⟩ := hbs cursor le_rfl (by omega)
    have hg := Layout.group_lt (show cursor < L.totalBlocks by omega)
    have hlo := Layout.descBlock_lt_journal hg
    have hhi := L.journal_le
    simp only [wp_bind]
    refine wp_stage_room ?_ (fun _ _ => ?_) fun h => h _ _ hbit hr
    · rintro ⟨-, h⟩
      unfold Layout.blockBitmap at h
      omega
    have hr' := hr.staged (f := (·.markBlocks cursor (min ((cursor / L.blocksPerGroup + 1) *
      L.blocksPerGroup - cursor) (stop - cursor)) false)) hbit
    refine wp_stage_room (by omega) (fun _ _ => ?_) fun h => h _ _ hdesc hr'
    exact ih (fun b hb => hbs b (by omega)) (hr'.staged hdesc)

lemma revokeRun_returns {first n : ℕ} {bs : List ℕ} (hr : s.Room bs 0)
    (hn : s.revokes.length + n ≤ Journal.txnMaxRevokes) :
    wp (revokeRun first n) (fun _ t => t.Room bs 0) (fun _ => False) s := by
  induction n generalizing first s with
  | zero => exact hr
  | succ n ih =>
    rw [revokeRun, wp_bind]
    refine wp_revoke hr.isOpen (fun rs _ _ hlen => ?_) fun h => by omega
    exact ih ⟨hr.isOpen, hr.nodup, hr.card_le⟩ (by dsimp only; omega)

lemma Session.FreeFits.returns {first length : ℕ} {metadata : Bool}
    (h : s.FreeFits L first length metadata) :
    wp (freeBlocks L first length metadata) (fun _ _ => True) (fun _ => False) s := by
  unfold freeBlocks
  split
  · trivial
  rw [wp_bind, wp_require, if_pos h.range]
  refine wp_seq ?_
    (fun _ t ht => freeBlocksFrom_returns h.range (fun b => mem_runTables) ht) fun _ => id
  cases metadata with
  | true => exact revokeRun_returns h.tables (h.revokes rfl)
  | false => exact h.tables

lemma Session.FreeFits.status {first length : ℕ} {metadata : Bool}
    (h : s.FreeFits L first length metadata) :
    status (freeBlocks L first length metadata s).1 = 0 := by
  have := h.returns
  unfold wp at this
  split at this
  · next hr => rw [hr, Wfs.status]
  · exact this.elim

end Fits

variable (L : Layout) (c : TruncCtx)

def TruncCtx.ReleaseFits : Prop := c.pc = .trimJoined → c.trimStarted = true →
    if c.trim.freedNode ≠ 0 then c.session.FreeFits L c.trim.freedNode 1 true
    else if c.trim.freedLength ≠ 0 then
      c.session.FreeFits L c.trim.freedFirst c.trim.freedLength false
    else c.trim.remaining = 0 → c.session.FreeFits L c.trimRoot 1 true

/-- The slot of `jr` is clear where it is read, and no release is refused. -/
def Undisturbed (l : TruncLocals) : Prop := SlotClear c l ∧ c.ReleaseFits L

def TruncCtx.FreeFailed : Prop :=
  (c.pc = .trimFreeJoined ∨ c.pc = .freeJoined ∧ c.freeStarted = true) ∧ c.child ≠ 0

/-- A child's status is an error code or zero, and a release joined without a check was not
refused. -/
structure TruncCtx.Heard (c : TruncCtx) : Prop where
  child_le : c.child ≤ 0
  release : c.pc = .trimFreeJoined → c.child = 0

variable {L} {c : TruncCtx} {l : TruncLocals}

lemma status_le {α : Type} (r : Except Err α) : status r ≤ 0 := by
  cases r with
  | ok a => exact le_rfl
  | error e => exact e.code_neg.le

lemma heard_of_ne {c : TruncCtx} (hc : c.child ≤ 0) (hpc : c.pc ≠ .trimFreeJoined) : c.Heard :=
  ⟨hc, fun h => absurd h hpc⟩

lemma heard_spawn {α : Type} {t : Task α} {k : TruncCtx → α → TruncCtx}
    (hpc : c.pc ≠ .trimFreeJoined) (hk : ∀ d a, (k d a).child = d.child ∧ (k d a).pc = d.pc) :
    (c.spawn t k).Heard := by
  unfold spawn
  dsimp only
  split
  · next a _ =>
    exact heard_of_ne ((hk _ a).1.trans_le (status_le _)) (by rw [(hk _ a).2]; exact hpc)
  · exact heard_of_ne (status_le _) hpc

lemma heard_spawnFree {first length : ℕ} {metadata : Bool}
    (h : c.session.FreeFits L first length metadata) :
    (c.spawnFree L first length metadata).Heard := by
  rw [spawnFree_eq]
  exact ⟨h.status.le, fun _ => h.status⟩

variable {d : TruncCtx}

lemma heard_released (hc : c.child ≤ 0) (hpc : c.pc = .trimJoined)
    (hfit : ({ c with trimStarted := true } : TruncCtx).ReleaseFits L)
    (h : (truncateReleased L c l).next = .inl d) : d.Heard := by
  have hfit := hfit hpc rfl
  unfold truncateReleased at h
  split_ifs at h hfit with hnode hlen hrem hpart <;> cases h
  · exact heard_spawnFree hfit
  · exact heard_spawnFree hfit
  · exact heard_spawnFree (hfit hrem)
  · exact heard_of_ne (status_le _) (by simp)
  · exact heard_of_ne hc (by simp)

lemma leave_next {v : ℤ} (h : (c.leave v).next = .inl d) : d = c := by
  unfold leave at h
  split at h <;> cases h
  rfl

lemma heard_step (h : Undisturbed L c l) (hc : c.Heard)
    (hd : (truncateStep L c l).next = .inl d) : d.Heard := by
  have hle := hc.child_le
  cases hpc : c.pc with
  | trimFreeJoined =>
    simp only [truncateStep, hpc, failure_slot (h.1 hpc)] at hd
    split at hd <;> cases hd <;> exact heard_of_ne hle (by simp)
  | prepared =>
    simp only [truncateStep, hpc, truncatePrepared] at hd
    split at hd
    · cases hd
      exact heard_spawn (by simp) fun _ _ => ⟨rfl, rfl⟩
    · split_ifs at hd <;> cases hd <;> exact heard_of_ne hle (by simp)
  | inlineAllocJoined =>
    simp only [truncateStep, hpc, truncateInlineAlloc] at hd
    split at hd
    · rwa [leave_next hd]
    · split at hd <;> cases hd
      exact heard_of_ne hle (by simp)
  | trimJoined =>
    simp only [truncateStep, hpc] at hd
    split at hd
    · next hst =>
      unfold truncateTrimmed at hd
      dsimp only at hd
      split at hd
      · rw [leave_next hd]
        exact heard_of_ne hle (by simp [hpc])
      exact heard_released (c := { c with
        trimStarted := false, obj := c.obj.uncount c.trim.removed }) hle hpc
        (fun _ _ => h.2 hpc hst) hd
    · cases hd
      exact heard_spawn (by simp) fun _ _ => ⟨rfl, rfl⟩
  | tailLookupJoined | recordWritten =>
    simp only [truncateStep, hpc] at hd
    split at hd <;> cases hd <;> exact heard_of_ne hle (by simp)
  | freeJoined =>
    simp only [truncateStep, hpc] at hd
    split at hd
    · split at hd
      · rw [leave_next hd]
        exact heard_of_ne hle (by simp)
      · cases hd
        exact heard_of_ne hle (by simp)
    · split at hd <;> cases hd
      exact heard_spawn (by simp) fun _ _ => ⟨rfl, rfl⟩
  | start | treePrepared | tailWritten | recordRead =>
    simp only [truncateStep, hpc] at hd
    split_ifs at hd <;> cases hd <;> exact heard_of_ne hle (by simp)
  | inlineWritten | tailRead | recordPatch =>
    simp only [truncateStep, hpc] at hd
    cases hd
    exact heard_of_ne hle (by simp)

lemma freeFailed_done (hc : c.Heard) (hf : c.FreeFailed) :
    truncateStep L c l = .done (c.child, c.session) := by
  obtain ⟨hpc | ⟨hpc, hst⟩, hne⟩ := hf
  · exact absurd (hc.release hpc) hne
  have := hc.child_le
  simp only [truncateStep, hpc, hst, if_true, failure_join, if_neg hne, leave]
  exact if_neg (by omega)

/-- Under every schedule and every content of the stack, as long as the slot of `jr` is clear where
it is read and the transaction has room for every release, some run completes, all return the same
status and leave the same volume, and a release that fails is what the truncation returns. -/
theorem truncate_schedule_independent (L : Layout) (id : ℕ) (o : Object) (newSize : ℕ)
    (s : Session) :
    ∃ r, (∀ l, Ends (truncateStep L) SlotClear (truncateInit id o newSize s) l r) ∧
      (∀ l r', Ends (truncateStep L) (Undisturbed L) (truncateInit id o newSize s) l r' → r' = r) ∧
      ∀ l c x r', Reaches (truncateStep L) (Undisturbed L) (truncateInit id o newSize s, l) (c, x) →
        Ends (truncateStep L) (Undisturbed L) c x r' → c.FreeFailed →
          r' = (c.child, c.session) := by
  have hquiet : ∀ n, quiet.status n = false := fun _ => rfl
  have hrun := fun l => ends_truncateTask (L := L) hquiet id o newSize s l
  refine ⟨_, hrun, fun l r' h => ?_, fun l c x r' hreach hend hf => ?_⟩
  · exact truncate_blind.ends_unique (h.mono fun _ _ hu => hu.1) (hrun l)
  have hinit : (truncateInit id o newSize s).Heard := heard_of_ne le_rfl (by simp [truncateInit])
  have hc : c.Heard := hreach.invariant (I := TruncCtx.Heard)
    (fun a b hg hs ha => heard_step hg ha hs.next) hinit
  have hdone := freeFailed_done (L := L) (l := x) hc hf
  obtain ⟨d, y, hr, -, hd⟩ := hend
  rcases hr.cases_head with heq | ⟨b, hs, -⟩
  · cases heq
    cases hdone.symm.trans hd
    rfl
  · have := hs.2.next
    rw [hdone] at this
    cases this

section Released

variable {L : Layout} {l : TruncLocals}

def firstTrimmed (L : Layout) (id : ℕ) (o : Object) (newSize : ℕ) (r : Trim) (t : Session) :
    TruncCtx := { truncateInit id o newSize t with
    pc := .trimJoined
    trimRoot := o.treeBlock
    trimKeep := (newSize + L.blockSize - 1) % 2 ^ 64 / L.blockSize
    trim := r
    obj := ({ o with size := newSize } : Object).uncount r.removed }

lemma reaches_release (id newSize : ℕ) {o : Object} {s t : Session} {r : Trim}
    (hdir : o.type ≠ .dir) (hlt : newSize < o.size) (htree : o.treeBlock ≠ 0)
    (htrim : extentTrim L o.treeBlock ((newSize + L.blockSize - 1) % 2 ^ 64 / L.blockSize) s =
      (.ok r, t)) (hnode : r.freedNode = 0) (hlen : r.freedLength ≠ 0) :
    ∃ c, Reaches (truncateStep L) SlotClear (truncateInit id o newSize s, l) (c, l) ∧
      SlotClear c l ∧ truncateStep L c l = .await ((firstTrimmed L id o newSize r t).spawnFree L
        r.freedFirst r.freedLength false) { l with joined := 0, jr := 0 } := by
  have hstart : truncateStep L (truncateInit id o newSize s) l = .goto
      { truncateInit id o newSize s with pc := .treePrepared } l := by
    simp [truncateStep, truncateInit, hdir, hlt.ne, htree]
  have hprep : truncateStep L { truncateInit id o newSize s with pc := .treePrepared } l = .goto
      { truncateInit id o newSize s with
        pc := .trimJoined
        trimRoot := o.treeBlock
        trimKeep := (newSize + L.blockSize - 1) % 2 ^ 64 / L.blockSize
        obj := { o with size := newSize } } l := by
    simp [truncateStep, truncateInit, hlt.le.not_gt]
  have hspawn : truncateStep L { truncateInit id o newSize s with
        pc := .trimJoined
        trimRoot := o.treeBlock
        trimKeep := (newSize + L.blockSize - 1) % 2 ^ 64 / L.blockSize
        obj := { o with size := newSize } } l = .await { truncateInit id o newSize t with
        pc := .trimJoined
        trimStarted := true
        trimRoot := o.treeBlock
        trimKeep := (newSize + L.blockSize - 1) % 2 ^ 64 / L.blockSize
        trim := r
        obj := { o with size := newSize } } l := by
    simp only [truncateStep, truncateInit, spawn, htrim, status]
    rfl
  have hne : ∀ {c : TruncCtx}, c.pc ≠ .trimFreeJoined → SlotClear c l := fun h hc => absurd hc h
  refine ⟨_, .head ⟨hne ?_, .goto hstart⟩ (.head ⟨hne ?_, .goto hprep⟩
    (.head ⟨hne ?_, .settled hspawn⟩ .refl)), hne ?_, ?_⟩
  · simp [truncateInit]
  · simp
  · simp
  · simp
  simp only [truncateStep, truncateTrimmed, truncateInit, failure_join, if_true,
    truncateReleased, hnode, hlen, ne_eq, not_true_eq_false, not_false_eq_true, if_false]
  rfl

/-- A call resumed there with anything on the stack but the values of a completed or yielding
task returns it. -/
lemma ends_slot {c : TruncCtx} (hpc : c.pc = .trimFreeJoined) {v : ℤ} (hv : l.jr = v)
    (h0 : v ≠ 0) (h1 : v ≠ 1) :
    Ends (truncateStep L) (fun _ _ => True) c l (v, c.session) := by
  apply Ends.of_done trivial
  simp only [truncateStep, hpc, TruncLocals.failure, hv, ne_eq, h0, not_false_eq_true, true_or,
    if_true, not_true_eq_false, if_false, leave, if_neg h1]

lemma ends_firstTrimmed (id newSize : ℕ) {o : Object} (t : Session) (r : Trim) (l : TruncLocals)
    (hl : l.jr = 0) (htree : o.treeBlock ≠ 0) (first length : ℕ) :
    Ends (truncateStep L) SlotClear
      ((firstTrimmed L id o newSize r t).spawnFree L first length false) l
      (outcome ((trimTree L o.treeBlock ((newSize + L.blockSize - 1) % 2 ^ 64 / L.blockSize) quiet
        (trimFuel L) (o.uncount r.removed) >>= fun p => treeEnd L o.treeBlock newSize p >>=
          fun o' => putRecord L id { o' with size := newSize })
        (freeBlocks L first length false t).2)) := by
  have hfuel : L.interiorCapacity * (L.leafCapacity + 1) < trimFuel L := by
    unfold trimFuel
    omega
  apply ends_release hl
  have hpc : (if (firstTrimmed L id o newSize r t).trimRoot = 0 then TruncPc.recordRead
      else .trimJoined) = .trimJoined := if_neg htree
  rw [hpc]
  exact ends_trim (trimFuel L) (fun _ => rfl) _ rfl rfl rfl rfl htree (uncount_size _ _ _)
    (Nat.succ_pos _) fun _ => (trimLoad_le _).trans_lt hfuel

end Released

def slotLocals (v : ℤ) : TruncLocals := ⟨0, 0, 0, v⟩

/-- The run whose children finish first returns zero, the one that resumes at the join of the
release with a 7 on the stack returns 7. A release that fails is not returned. -/
theorem truncate_returns_stack_slot : Mapped oneGroup (rootedVolume [⟨5, 42, 1⟩]) (rootedFile 1) ∧
    (∃ t, Ends (truncateStep oneGroup) (fun _ _ => True)
      (truncateInit 16 (rootedFile 1) 0 (rootedVolume [⟨5, 42, 1⟩]).session)
      (slotLocals 0) (0, t)) ∧ (∃ t, Ends (truncateStep oneGroup) (fun _ _ => True)
      (truncateInit 16 (rootedFile 1) 0 (rootedVolume [⟨5, 42, 1⟩]).session)
      (slotLocals 0) (7, t)) ∧ ∃ c x t, Reaches (truncateStep oneGroup) (fun _ _ => True)
        (truncateInit 16 (rootedFile 1) 0 (rootedVolume [⟨5, 5000, 1⟩]).session, slotLocals 0)
        (c, x) ∧ c.FreeFailed ∧ c.child = Err.range.code ∧
      Ends (truncateStep oneGroup) (fun _ _ => True) c x (0, t) := by
  have hmapped : Mapped oneGroup (rootedVolume [⟨5, 42, 1⟩]) (rootedFile 1) := by
    have hs : Extent.Sorted [⟨5, 42, 1⟩] := by
      constructor
      · simp
      · simp
    exact rootedFile_mapped hs (by simp) (by decide) (by decide)
  have hany : ∀ c l, SlotClear c l → True := fun _ _ _ => trivial
  have hquiet : ∀ n, quiet.status n = false := fun _ => rfl
  have hfirst := (ends_truncateTask (L := oneGroup) hquiet 16 (rootedFile 1) 0
    (rootedVolume [⟨5, 42, 1⟩]).session (slotLocals 0)).mono hany
  have hcut : ∀ b, extentTrim oneGroup 40 0 (rootedVolume [⟨5, b, 1⟩]).session =
      (.ok ⟨b, 1, 0, 1, 1⟩, (extentTrim oneGroup 40 0 (rootedVolume [⟨5, b, 1⟩]).session).2) :=
    fun _ => rfl
  have hrelease := fun b => reaches_release (L := oneGroup) (l := slotLocals 0) 16 0
    (o := rootedFile 1) nofun (by decide) (by decide) (hcut b) rfl one_ne_zero
  refine ⟨hmapped, ⟨_, hfirst⟩, ?_, ?_⟩
  · obtain ⟨c, hreach, -, hawait⟩ := hrelease 42
    refine ⟨_, Ends.of_reaches (hreach.mono hany) (Ends.of_step trivial
      (.resumed (slotLocals 7) hawait) (ends_slot ?_ rfl (by decide) (by decide)))⟩
    rw [spawnFree_eq]
  obtain ⟨c, hreach, -, hawait⟩ := hrelease 5000
  have hend := (ends_firstTrimmed (L := oneGroup) 16 0 (o := rootedFile 1)
    (extentTrim oneGroup 40 0 (rootedVolume [⟨5, 5000, 1⟩]).session).2 ⟨5000, 1, 0, 1, 1⟩
    (slotLocals 0) rfl (by decide) 5000 1).mono hany
  refine ⟨_, _, _, (hreach.mono hany).tail ⟨trivial, .settled hawait⟩, ⟨?_, ?_⟩, ?_, hend⟩
  · exact .inl (by rw [spawnFree_eq])
  · decide
  · rfl

end Wfs
