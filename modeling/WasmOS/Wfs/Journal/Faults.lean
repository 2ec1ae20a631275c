import WasmOS.Procedure.Basic
import WasmOS.Wfs.Journal.CrashAtomic

/-! # Transactions on a device that fails

The calls of the log with every request free to fail. A failed write may have reached the device. A
commit that fails aborts as long as it takes itself for undone, and latches the volume read-only
from the checkpoint on.
-/

namespace Wfs.Journal

open BlockDevice Procedure List Volume Device Log

/-- How a request ends; a failed one may have been carried out. -/
inductive Outcome
  | done
  | failed (took : Bool)
  deriving DecidableEq, Repr

structure Faulty (β : Type) where
  vol : Volume
  dev : Disk β
  outcomes : List Outcome

abbrev Job (β : Type) := Procedure (Faulty β) Err

variable {β : Type}

def request (act : Disk β → Disk β) : Job β Unit := fun s =>
  match s.outcomes with
  | .failed took :: rest =>
    (.error .io, { s with dev := if took then act s.dev else s.dev, outcomes := rest })
  | outcomes => (.ok (), { s with dev := act s.dev, outcomes := outcomes.tail })

def ioWrite (block : ℕ) (v : Block β) : Job β Unit := request (·.write block v)

def ioFlush : Job β Unit := request flush

def ioRead (block : ℕ) : Job β (Block β) := do
  request id
  let s ← get
  pure (s.dev.read (s.vol.journal.redirect block))

variable (f : Volume → Volume)

def setVol : Job β Unit := modify fun s => { s with vol := f s.vol }

def onError {α : Type} (m : Job β α) : Job β α := fun s =>
  match m s with
  | (.error e, t) => (.error e, { t with vol := f t.vol })
  | r => r

def Volume.latched (vol : Volume) : Volume := { vol with readOnly := true }.txnAbort

variable (F : Format β) (state : State)

def refreshBackupJob (generation block : ℕ) : Job β Unit := attempt do
    let b ← ioRead block
    ioWrite block (b.stamp block state generation none)

def superWriteJob (setCounters refreshBackups : Bool) : Job β Unit := do
  let s ← get
  require (s.vol.mounted = true) .badArgs
  require (s.vol.readOnly = false) .readOnly
  let b ← ioRead 0
  let generation := b.generation + 1
  let counters := if setCounters then some (s.vol.freeBlocks, s.vol.freeObjects) else none
  ioWrite 0 (b.stamp 0 state generation counters)
  setVol fun vol => { vol with state := state, generation := generation }
  if refreshBackups then forEach (refreshBackupJob state generation) F.backupBlocks else pure ()

def markDirtyJob : Job β Unit := do
  let s ← get
  require (s.vol.mounted = true) .badArgs
  if s.vol.dirtyMarked then pure ()
  else do
    require (s.vol.readOnly = false) .readOnly
    superWriteJob F .dirty false true
    setVol fun vol => { vol with dirtyMarked := true }

def volumeJob (f : Volume → Result) : Job β Unit :=
  fun s => ((f s.vol).1, { s with vol := (f s.vol).2 })

def txnOpenJob : Job β Unit := do
  markDirtyJob F
  volumeJob txnBegin

def txnStageJob (target : ℕ) (image : Block β) : Job β Unit := do
  let s ← get
  let j := s.vol.journal
  let slot := slot target j.targets
  let t : TxnTarget := ⟨target, j.imageBlock slot, F.crc32c image⟩
  onError txnAbort do
    require (j.isOpen = true) .badArgs
    require (s.vol.dirtyMarked = true) .notReady
    require (¬ (j.start ≤ target ∧ target < j.start + j.blocks)) .badArgs
    require (slot < txnMaxTargets) .txnFull
    ioWrite t.journalBlock image
  setVol fun vol => { vol with
    journal := { vol.journal with targets := replaceTarget t vol.journal.targets } }

def checkpointJob (t : TxnTarget) : Job β Unit := do
  let d ← ioRead t.journalBlock
  ioWrite t.target d

def recordJob : Job β Unit := do
  let s ← get
  let j := s.vol.journal
  require (txnLogBlocks j.targets.length j.revokes.length < j.blocks) .txnFull
  require (24 + j.targets.length * 16 ≤ F.blockSize) .txnFull
  ioWrite j.descriptorBlock
    (sealRecord j.descriptorBlock j.sequence (.descriptor (descriptorRecords j.targets)))
  if j.revokes.length = 0 then pure ()
  else do
    require (32 + j.revokes.length * 8 ≤ F.blockSize) .txnFull
    ioWrite j.revokeBlock (sealRecord j.revokeBlock j.sequence (.revoke j.revokes))
  ioFlush

def commitJob : Job β Unit := do
  let s ← get
  let j := s.vol.journal
  ioWrite j.commitBlock (sealRecord j.commitBlock j.sequence (.commit j.targets.length))
  ioFlush

def retireJob : Job β Unit := do
  let s ← get
  let j := s.vol.journal
  forEach checkpointJob j.targets
  ioFlush
  ioWrite j.start (journalSuper F (j.sequence + 1))

/-- `wfs_txn_commit_task` with its failure exits. -/
def txnCloseJob : Job β Unit := do
  let s ← get
  let j := s.vol.journal
  require (j.isOpen = true) .badArgs
  if j.targets.length = 0 ∧ j.revokes.length = 0 then setVol txnAbort
  else do
    onError txnAbort (recordJob F)
    onError txnAbort commitJob
    onError latched (retireJob F)
    setVol retired

def syncJob : Job β Unit := do
  let s ← get
  require (s.vol.mounted = true) .badArgs
  require (state = .clean ∨ state = .dirty) .badArgs
  require (s.vol.readOnly = false) .readOnly
  if !s.vol.journal.countersDirty && state == s.vol.state then pure ()
  else do
    superWriteJob F state true (state != s.vol.state)
    setVol fun vol => { vol with journal := { vol.journal with countersDirty := false } }
    ioFlush
    setVol fun vol => { vol with dirtyMarked := state == .dirty }

def Call.job : Call β → Job β Unit
  | .txnOpen => txnOpenJob F
  | .txnStage target image => txnStageJob F target image
  | .txnRevoke block => volumeJob (·.txnRevoke block)
  | .txnNoteCounters blocks objects => setVol (·.txnNoteCounters blocks objects)
  | .txnClose => txnCloseJob F
  | .txnAbort => setVol Volume.txnAbort
  | .sync state => syncJob F state

structure Live (β : Type) where
  vol : Volume
  dev : Disk β

abbrev Served (β : Type) := Call β × List Outcome

variable (s : Live β) (e : Served β)

def serve : Except Err Unit × Live β :=
  match e.1.job F ⟨s.vol, s.dev, e.2⟩ with
  | (r, t) => (r, ⟨t.vol, t.dev⟩)

def runServed (es : List (Served β)) : Live β := es.foldl (fun s e => (serve F s e).2) s

def InLog (b : ℕ) : Prop := F.journalStart < b ∧ b < F.journalStart + F.journalBlocks

variable (d : Disk β)

def CommitMay (n : ℕ) : Prop := ∃ b k, InLog F b ∧ d.May b (.log ⟨b, n, .commit k⟩)

def TailMay (n : ℕ) : Prop :=
  ∃ s : JournalSuper, d.May F.journalStart (.journalSuper s) ∧ s.firstSequence = n

/-- The call opens a transaction under a sequence that recovery could read as committed. -/
def Overtakes : Prop := e.1 = .txnOpen ∧ (serve F s e).1 = .ok () ∧
    CommitMay F s.dev (serve F s e).2.vol.journal.sequence ∧
    TailMay F s.dev (serve F s e).2.vol.journal.sequence

/-- The requests of a commit before its COMMIT record: descriptor, revokes and barrier. -/
def commitRequest (j : Log) : ℕ := if j.revokes.length = 0 then 2 else 3

/-- A COMMIT write that fails has not reached the device, and behind one that succeeds the barrier
does. -/
def Lands : List Outcome → Bool
  | .failed took :: _ => !took
  | .done :: .failed _ :: _ => false
  | _ => true

/-- The requests of a close do not leave its COMMIT record in doubt. -/
def Spares : Bool :=
  match e.1 with
  | .txnClose => Lands (e.2.drop (commitRequest s.vol.journal))
  | _ => true

def runSpares : Live β → List (Served β) → Bool
  | _, [] => true
  | s, e :: es => Spares s e && runSpares (serve F s e).2 es

/-- A volume as a mount leaves it: no COMMIT of a sequence to come is in the log. -/
structure Started (s : Live β) : Prop where
  start : s.vol.journal.start = F.journalStart
  blocks : s.vol.journal.blocks = F.journalBlocks
  closed : s.vol.journal.isOpen = false
  commits : ∀ n, s.vol.journal.nextSequence ≤ n → ¬ CommitMay F s.dev n

/-! ## The log holds no COMMIT of a sequence to come -/

variable {F}

def Quiet (F : Format β) (act : Disk β → Disk β) : Prop :=
  ∀ d n, CommitMay F (act d) n → CommitMay F d n

lemma quiet_id : Quiet F id := fun _ _ h => h

lemma quiet_flush : Quiet F flush := by
  rintro d n ⟨b, k, hb, hm⟩
  rw [may_flush_iff] at hm
  exact ⟨b, k, hb, hm ▸ d.may_read b⟩

variable {d : Disk β} {v : Block β}

lemma commitMay_write {block n : ℕ} (h : CommitMay F (d.write block v) n) :
    CommitMay F d n ∨ InLog F block ∧ ∃ k, v = .log ⟨block, n, .commit k⟩ := by
  obtain ⟨b, k, hb, hm⟩ := h
  rcases may_write hm with hm | ⟨rfl, rfl⟩
  · exact .inl ⟨b, k, hb, hm⟩
  · exact .inr ⟨hb, k, rfl⟩

lemma quiet_write {block : ℕ}
    (h : InLog F block → ∀ n k, v ≠ .log ⟨block, n, .commit k⟩) : Quiet F (·.write block v) := by
  intro d n hm
  rcases commitMay_write hm with hm | ⟨hb, k, hv⟩
  · exact hm
  · exact absurd hv (h hb n k)

lemma stamp_ne_log (location : ℕ) (state : State) (n : ℕ) (counters : Option (ℕ × ℕ))
    (b : Block β) (l : LogBlock) : b.stamp location state n counters ≠ .log l := by
  cases b <;> simp [Block.stamp]

def Below (F : Format β) (d : Disk β) (n : ℕ) : Prop := ∀ m, n ≤ m → ¬ CommitMay F d m

variable {act : Disk β → Disk β}

lemma Below.quiet {n : ℕ} (h : Below F d n) (hact : Quiet F act) : Below F (act d) n :=
  fun m hm hc => h m hm (hact d m hc)

/-- While the volume can be written, the next sequence is above every COMMIT the log may hold. -/
structure Ahead (F : Format β) (vol : Volume) (dev : Disk β) : Prop where
  start : vol.journal.start = F.journalStart
  blocks : vol.journal.blocks = F.journalBlocks
  sequence : vol.journal.isOpen = true → vol.journal.sequence = vol.journal.nextSequence
  writable : vol.journal.isOpen = true → vol.readOnly = false
  targets : vol.journal.isOpen = true → ∀ t ∈ vol.journal.targets, ¬ InLog F t.target
  below : vol.readOnly = false → Below F dev vol.journal.nextSequence

namespace Ahead

variable {vol : Volume} {dev : Disk β}

lemma quiet (h : Ahead F vol dev) (hact : Quiet F act) : Ahead F vol (act dev) :=
  { h with below := fun hr => (h.below hr).quiet hact }

lemma congr {vol' : Volume} (hj : vol'.journal = vol.journal)
    (hr : vol'.readOnly = vol.readOnly) (h : Ahead F vol dev) : Ahead F vol' dev := by
  constructor
  · rw [hj]; exact h.start
  · rw [hj]; exact h.blocks
  · rw [hj]; exact h.sequence
  · rw [hj, hr]; exact h.writable
  · rw [hj]; exact h.targets
  · rw [hj, hr]; exact h.below

lemma txnAbort (h : Ahead F vol dev) : Ahead F vol.txnAbort dev := by
  unfold Volume.txnAbort abort
  split
  · exact ⟨h.start, h.blocks, nofun, nofun, nofun, h.below⟩
  · exact h

variable {dev' : Disk β}

section

variable (h : Ahead F vol dev)
include h

lemma latched : Ahead F vol.latched dev' := by
  unfold Volume.latched Volume.txnAbort abort
  split
  · exact ⟨h.start, h.blocks, nofun, nofun, nofun, nofun⟩
  · next ho => exact ⟨h.start, h.blocks, h.sequence, fun h => absurd h ho, h.targets, nofun⟩

lemma retired (hb : Below F dev' (vol.journal.sequence + 1)) : Ahead F vol.retired dev' :=
  ⟨h.start, h.blocks, nofun, nofun, nofun, fun _ => hb⟩

lemma txnBegin : Ahead F vol.txnBegin.2 dev := by
  unfold Volume.txnBegin
  split_ifs with _ _ hr
  iterate 4 exact h
  exact ⟨h.start, h.blocks, fun _ => rfl, fun _ => by simpa using hr, fun _ => nofun, h.below⟩

lemma txnRevoke (block : ℕ) : Ahead F (vol.txnRevoke block).2 dev := by
  unfold Volume.txnRevoke
  split_ifs
  iterate 3 exact h
  exact ⟨h.start, h.blocks, h.sequence, h.writable, h.targets, h.below⟩

lemma txnNoteCounters (blocks objects : ℕ) : Ahead F (vol.txnNoteCounters blocks objects) dev := by
  unfold Volume.txnNoteCounters
  split
  · exact ⟨h.start, h.blocks, h.sequence, h.writable, h.targets, h.below⟩
  · exact h

lemma cleared : Ahead F { vol with journal := { vol.journal with countersDirty := false } } dev :=
  ⟨h.start, h.blocks, h.sequence, h.writable, h.targets, h.below⟩

end

lemma mem_replaceTarget {t u : TxnTarget} {ts : List TxnTarget}
    (h : u ∈ replaceTarget t ts) : u = t ∨ u ∈ ts := by
  induction ts with
  | nil => exact .inl (mem_singleton.mp h)
  | cons v vs ih =>
    unfold replaceTarget at h
    split at h
    · exact (mem_cons.mp h).imp_right (mem_cons_of_mem v)
    rcases mem_cons.mp h with rfl | h
    · exact Or.inr (.head _)
    · exact (ih h).imp_right (mem_cons_of_mem v)

lemma staged {t : TxnTarget} (h : Ahead F vol dev) (ht : ¬ InLog F t.target) : Ahead F { vol with
      journal := { vol.journal with targets := replaceTarget t vol.journal.targets } } dev := by
  refine ⟨h.start, h.blocks, h.sequence, h.writable, fun ho u hu => ?_, h.below⟩
  rcases mem_replaceTarget hu with rfl | hu
  · exact ht
  · exact h.targets ho u hu

end Ahead

section Keeps

variable {α γ : Type} {s : Faulty β} {P : Volume → Disk β → Prop}

def Keeps (P : Volume → Disk β → Prop) (m : Job β α) : Prop :=
  ∀ s, P s.vol s.dev → wp m (fun _ t => P t.vol t.dev) (fun t => P t.vol t.dev) s

def Stable (F : Format β) (P : Volume → Disk β → Prop) : Prop :=
  ∀ vol dev act, P vol dev → Quiet F act → P vol (act dev)

lemma stable_ahead : Stable F (Ahead F) := fun _ _ _ h hact => h.quiet hact

lemma stable_below (vol : Volume) (n : ℕ) : Stable F fun v d => v = vol ∧ Below F d n :=
  fun _ _ _ h hact => ⟨h.1, h.2.quiet hact⟩

variable {E : Faulty β → Prop}

lemma wp_request {Q : Unit → Faulty β → Prop}
    (hok : (∀ took rest, s.outcomes ≠ .failed took :: rest) →
      Q () { s with dev := act s.dev, outcomes := s.outcomes.tail })
    (hfail : ∀ took rest, s.outcomes = .failed took :: rest →
      E { s with dev := if took then act s.dev else s.dev, outcomes := rest }) :
    wp (request act) Q E s := by
  unfold wp request
  cases ho : s.outcomes with
  | nil => rw [ho] at hok; exact hok nofun
  | cons o rest =>
    cases o with
    | done => rw [ho] at hok; exact hok nofun
    | failed took => exact hfail took rest ho

lemma wp_request_of_quiet (hP : Stable F P) (hact : Quiet F act) (hs : P s.vol s.dev) :
    wp (request act) (fun _ t => P t.vol t.dev ∧ t.vol = s.vol ∧ t.outcomes = s.outcomes.tail)
      (fun t => P t.vol t.dev) s := by
  apply wp_request fun _ => ⟨hP _ _ _ hs hact, rfl, rfl⟩
  rintro (_ | _) rest -
  · exact hs
  · exact hP _ _ _ hs hact

variable {m : Job β α} {f : Volume → Volume}

lemma wp_onError {Q : α → Faulty β → Prop} (h : wp m Q (fun t => E { t with vol := f t.vol }) s) :
    wp (onError f m) Q E s := by
  unfold wp onError at *
  rcases hm : m s with ⟨_ | _, t⟩ <;> rw [hm] at h <;> exact h

lemma Keeps.bind {f : α → Job β γ} (hm : Keeps P m) (hf : ∀ a, Keeps P (f a)) : Keeps P (m >>= f) :=
  fun s hs => wp_seq (hm s hs) (fun a t ht => hf a t ht) fun _ ht => ht

lemma keeps_pure (a : α) : Keeps P (pure a : Job β α) := fun _ hs => hs

lemma keeps_get : Keeps P (get : Job β (Faulty β)) := fun _ hs => hs

lemma keeps_require {c : Prop} [Decidable c] {e : Err} : Keeps P (require c e : Job β Unit) := by
  intro s hs
  rw [wp_require]
  split <;> exact hs

lemma Keeps.forEach {f : α → Job β Unit} {as : List α} (h : ∀ a ∈ as, Keeps P (f a)) :
    Keeps P (forEach f as) := by
  intro s hs
  let I : List α → Unit → Faulty β → Prop := fun _ _ t => P t.vol t.dev
  have hwp : wp (fold (fun _ a => f a) as ()) (fun c t => I as c t) (fun t => P t.vol t.dev) s := by
    apply wp_fold hs
    rintro pre a post c t rfl ht
    exact h a (by simp) t ht
  exact hwp

lemma Keeps.attempt (h : Keeps P m) : Keeps P (attempt m) := fun s hs => wp_attempt (h s hs)

section

variable (hP : Stable F P)
include hP

lemma Stable.request (hact : Quiet F act) : Keeps P (request act) :=
  fun _ hs => wp_mono (wp_request_of_quiet hP hact hs) (fun _ _ h => h.1) fun _ h => h

lemma Stable.flush : Keeps P (ioFlush : Job β Unit) := hP.request quiet_flush

lemma Stable.read (block : ℕ) : Keeps P (ioRead block : Job β (Block β)) :=
  (hP.request quiet_id).bind fun _ => keeps_get.bind fun _ => keeps_pure _

lemma Stable.write {block : ℕ} {v : Block β}
    (h : InLog F block → ∀ n k, v ≠ .log ⟨block, n, .commit k⟩) : Keeps P (ioWrite block v) :=
  hP.request (quiet_write h)

lemma Stable.stamp {location block : ℕ} {state : State} {n : ℕ}
    {counters : Option (ℕ × ℕ)} {b : Block β} :
    Keeps P (ioWrite block (b.stamp location state n counters)) :=
  hP.write fun _ _ _ => stamp_ne_log _ _ _ _ _ _

end

lemma keeps_setVol (h : ∀ vol dev, P vol dev → P (f vol) dev) : Keeps P (setVol f : Job β Unit) :=
  fun s hs => h s.vol s.dev hs

lemma keeps_volumeJob {f : Volume → Result} (h : ∀ vol dev, P vol dev → P (f vol).2 dev) :
    Keeps P (volumeJob f : Job β Unit) := by
  intro s hs
  unfold wp volumeJob
  rcases f s.vol |>.1 with _ | _ <;> exact h s.vol s.dev hs

end Keeps

def Framed (P : Volume → Disk β → Prop) : Prop :=
  ∀ vol vol' dev, vol'.journal = vol.journal → vol'.readOnly = vol.readOnly → P vol dev → P vol' dev

lemma framed_ahead : Framed (Ahead F) := fun _ _ _ hj hr h => h.congr hj hr

section Dirty

variable {P : Volume → Disk β → Prop}

lemma keeps_superWrite (hP : Stable F P) (hf : Framed P) {state : State}
    {setCounters refreshBackups : Bool} :
    Keeps P (superWriteJob F state setCounters refreshBackups) := by
  apply keeps_get.bind
  intro s
  apply keeps_require.bind
  intro _
  apply keeps_require.bind
  intro _
  apply (hP.read 0).bind
  intro b
  apply hP.stamp.bind
  intro _
  apply Keeps.bind
  · exact keeps_setVol fun vol dev h => hf vol _ dev rfl rfl h
  intro _
  split
  · apply Keeps.forEach
    intro block _
    exact ((hP.read block).bind fun b => hP.stamp).attempt
  · exact keeps_pure ()

lemma keeps_markDirty (hP : Stable F P) (hf : Framed P) : Keeps P (markDirtyJob F) := by
  apply keeps_get.bind
  intro s
  apply keeps_require.bind
  intro _
  split
  · exact keeps_pure ()
  apply keeps_require.bind
  intro _
  apply (keeps_superWrite hP hf).bind
  intro _
  exact keeps_setVol fun vol dev h => hf vol _ dev rfl rfl h

end Dirty

lemma keeps_txnOpen : Keeps (Ahead F) (txnOpenJob F) :=
  (keeps_markDirty stable_ahead framed_ahead).bind fun _ => keeps_volumeJob fun _ _ h => h.txnBegin

lemma txnOpen_spec (s : Faulty β) :
    wp (txnOpenJob F) (fun _ t => t.vol.journal.sequence = s.vol.journal.nextSequence ∧
      s.vol.readOnly = false) (fun _ => True) s := by
  let P : Volume → Disk β → Prop := fun v _ =>
    v.journal = s.vol.journal ∧ v.readOnly = s.vol.readOnly
  have hP : Stable F P := fun _ _ _ h _ => h
  have hf : Framed P := fun _ _ _ hj hr h => ⟨hj.trans h.1, hr.trans h.2⟩
  apply wp_seq (keeps_markDirty hP hf s ⟨rfl, rfl⟩)
  · rintro _ t ⟨hj, hr⟩
    unfold wp volumeJob txnBegin
    split_ifs with _ _ hro
    iterate 4 trivial
    exact ⟨congrArg nextSequence hj, by rw [← hr]; simpa using hro⟩
  · exact fun _ _ => trivial

lemma keeps_sync (state : State) : Keeps (Ahead F) (syncJob F state) := by
  apply keeps_get.bind
  intro s
  iterate 3
    apply keeps_require.bind
    intro _
  split
  · exact keeps_pure ()
  apply (keeps_superWrite stable_ahead framed_ahead).bind
  intro _
  apply Keeps.bind (keeps_setVol fun vol dev h => h.cleared)
  intro _
  apply stable_ahead.flush.bind
  intro _
  exact keeps_setVol fun vol dev h => framed_ahead vol _ dev rfl rfl h

lemma keeps_txnStage {target : ℕ} {image : Block β} (hi : ∀ l, image ≠ .log l) :
    Keeps (Ahead F) (txnStageJob F target image) := by
  intro s hs
  simp only [txnStageJob, wp_bind, wp_get]
  apply wp_onError
  simp only [wp_bind, wp_require]
  split_ifs with _ _ htarget
  · exact hs.txnAbort
  · have hout : ¬ InLog F target := by
      rw [hs.start, hs.blocks] at htarget
      rintro ⟨hlo, hhi⟩
      exact htarget ⟨hlo.le, hhi⟩
    exact wp_mono (stable_ahead.write (fun _ _ _ => hi _) s hs) (fun _ _ h => h.staged hout)
      fun _ h => h.txnAbort
  all_goals exact hs.txnAbort

section Close

variable {s : Faulty β}

lemma recordJob_spec (hs : Ahead F s.vol s.dev) :
    wp (recordJob F) (fun _ t => Ahead F t.vol t.dev ∧ t.vol = s.vol ∧
        t.outcomes = s.outcomes.drop (commitRequest s.vol.journal))
      (fun t => Ahead F t.vol t.dev) s := by
  have hflush : ∀ {u : Faulty β} {k}, Ahead F u.vol u.dev → u.vol = s.vol →
      u.outcomes = s.outcomes.drop k →
      wp ioFlush (fun _ t => Ahead F t.vol t.dev ∧ t.vol = s.vol ∧
        t.outcomes = s.outcomes.drop (k + 1)) (fun t => Ahead F t.vol t.dev) u := by
    intro u k hu hv ho
    refine wp_mono (wp_request_of_quiet stable_ahead quiet_flush hu) ?_ fun _ h => h
    rintro _ t ⟨ht, htv, hto⟩
    exact ⟨ht, htv.trans hv, by rw [hto, ho, tail_drop]⟩
  unfold commitRequest
  simp only [recordJob, wp_bind, wp_get, wp_require]
  split_ifs with _ _ hr
  · refine wp_mono (wp_request_of_quiet stable_ahead (quiet_write fun _ _ _ h => by cases h) hs) ?_
      fun _ h => h
    rintro _ t ⟨ht, htv, hto⟩
    exact hflush ht htv (hto.trans drop_one.symm)
  · refine wp_mono (wp_request_of_quiet stable_ahead (quiet_write fun _ _ _ h => by cases h) hs) ?_
      fun _ h => h
    rintro _ t ⟨ht, htv, hto⟩
    simp only [wp_bind, wp_require]
    split_ifs
    · refine wp_mono (wp_request_of_quiet stable_ahead (quiet_write fun _ _ _ h => by cases h) ht)
        ?_
        fun _ h => h
      rintro _ u ⟨hu, huv, huo⟩
      exact hflush hu (huv.trans htv) (by rw [huo, hto, ← drop_one, ← drop_one, drop_drop])
    · exact ht
  · exact hs
  · exact hs

lemma commitJob_spec (hs : Ahead F s.vol s.dev) (ho : s.vol.journal.isOpen = true)
    (hl : Lands s.outcomes = true) :
    wp commitJob (fun _ t => t.vol = s.vol ∧ Below F t.dev (s.vol.journal.sequence + 1))
      (fun t => Ahead F t.vol t.dev) s := by
  have hbelow : ∀ v, Below F (s.dev.write s.vol.journal.commitBlock
      (sealRecord v s.vol.journal.sequence (.commit s.vol.journal.targets.length)))
      (s.vol.journal.sequence + 1) := by
    intro v m hm hc
    rcases commitMay_write hc with hc | ⟨-, k, hv⟩
    · have := hs.sequence ho
      exact hs.below (hs.writable ho) m (by omega) hc
    · simp only [sealRecord, Block.log.injEq, LogBlock.mk.injEq] at hv
      omega
  simp only [commitJob, wp_bind, wp_get]
  apply wp_request
  · intro hdone
    apply wp_request
    · exact fun _ => ⟨rfl, (hbelow _).quiet quiet_flush⟩
    -- behind a COMMIT that was written the barrier does not fail
    intro took rest hrest
    rcases hos : s.outcomes with _ | ⟨_ | _, os⟩
    · simp [hos] at hrest
    · simp only [hos, tail_cons] at hrest
      simp [hos, hrest, Lands] at hl
    · exact absurd hos (hdone _ _)
  · intro took rest hrest
    rw [hrest] at hl
    obtain rfl : took = false := by simpa [Lands] using hl
    exact hs

lemma keeps_retire {vol : Volume} {n : ℕ} (ht : ∀ t ∈ vol.journal.targets, ¬ InLog F t.target)
    (hstart : vol.journal.start = F.journalStart) :
    Keeps (fun v d => v = vol ∧ Below F d n) (retireJob F) := by
  have hP := stable_below (F := F) vol n
  rintro s ⟨rfl, hb⟩
  have hj : Keeps (fun v d => v = s.vol ∧ Below F d n) (do
      forEach checkpointJob s.vol.journal.targets
      ioFlush
      ioWrite s.vol.journal.start (journalSuper F (s.vol.journal.sequence + 1))) := by
    apply Keeps.bind
    · apply Keeps.forEach
      intro t hmem
      apply (hP.read t.journalBlock).bind
      intro d
      exact hP.write fun hin => absurd hin (ht t hmem)
    · intro _
      exact hP.flush.bind fun _ => hP.write fun _ _ _ => nofun
  exact hj s ⟨rfl, hb⟩

lemma txnClose_spec (hs : Ahead F s.vol s.dev)
    (hl : Lands (s.outcomes.drop (commitRequest s.vol.journal)) = true) :
    wp (txnCloseJob F) (fun _ t => Ahead F t.vol t.dev) (fun t => Ahead F t.vol t.dev) s := by
  simp only [txnCloseJob, wp_bind, wp_get, wp_require]
  split_ifs with ho he
  · exact hs.txnAbort
  · simp only [wp_bind]
    refine wp_onError (wp_mono (recordJob_spec hs) ?_ fun _ h => h.txnAbort)
    rintro _ t ⟨ht, htv, hto⟩
    rw [← hto] at hl
    rw [← htv] at ho
    refine wp_onError (wp_mono (commitJob_spec ht ho hl) ?_ fun _ h => h.txnAbort)
    rintro _ u hu
    refine wp_onError (wp_mono (keeps_retire (ht.targets ho) ht.start u hu) ?_ ?_)
    · rintro _ w ⟨hw, hb⟩
      rw [← hw] at ht hb
      exact ht.retired hb
    rintro w ⟨hw, -⟩
    rw [← hw] at ht
    exact ht.latched
  · exact hs

end Close

def Call.Plain : Call β → Prop
  | .txnStage _ image => ∀ l, image ≠ .log l
  | _ => True

section Serve

variable {s t : Live β} {e : Served β} {P Q : Volume → Disk β → Prop}

lemma serve_keeps (h : wp (e.1.job F) (fun _ t => P t.vol t.dev) (fun t => P t.vol t.dev)
    ⟨s.vol, s.dev, e.2⟩) : P (serve F s e).2.vol (serve F s e).2.dev := by
  unfold serve
  unfold wp at h
  rcases hj : e.1.job F ⟨s.vol, s.dev, e.2⟩ with ⟨_ | _, t⟩ <;> rw [hj] at h <;> exact h

lemma serve_ok (hok : serve F s e = (.ok (), t))
    (h : wp (e.1.job F) (fun _ t => P t.vol t.dev) (fun t => Q t.vol t.dev)
      ⟨s.vol, s.dev, e.2⟩) : P t.vol t.dev := by
  unfold serve at hok
  unfold wp at h
  rcases hj : e.1.job F ⟨s.vol, s.dev, e.2⟩ with ⟨_ | _, t⟩ <;> rw [hj] at h hok <;> cases hok
  exact h

end Serve

variable {s : Live β}

lemma keeps_call {e : Served β} (hs : Ahead F s.vol s.dev) (hp : e.1.Plain)
    (hc : Spares s e = true) : Ahead F (serve F s e).2.vol (serve F s e).2.dev := by
  obtain ⟨c, outcomes⟩ := e
  have hwp : wp (c.job F) (fun _ t => Ahead F t.vol t.dev) (fun t => Ahead F t.vol t.dev)
      ⟨s.vol, s.dev, outcomes⟩ := by
    cases c with
    | txnOpen => exact keeps_txnOpen _ hs
    | txnStage target image => exact keeps_txnStage hp _ hs
    | txnRevoke block =>
      have hk : Keeps (Ahead F) (volumeJob (·.txnRevoke block)) :=
        keeps_volumeJob fun _ _ h => h.txnRevoke block
      exact hk _ hs
    | txnNoteCounters blocks objects => exact hs.txnNoteCounters blocks objects
    | txnClose => exact txnClose_spec hs hc
    | txnAbort => exact hs.txnAbort
    | sync state => exact keeps_sync state _ hs
  exact serve_keeps hwp

lemma ahead_runServed {es : List (Served β)} (hs : Ahead F s.vol s.dev)
    (hp : ∀ e ∈ es, e.1.Plain) (hc : runSpares F s es = true) :
    Ahead F (runServed F s es).vol (runServed F s es).dev := by
  induction es generalizing s with
  | nil => exact hs
  | cons e es ih =>
    simp only [runSpares, Bool.and_eq_true] at hc
    exact ih (keeps_call hs (hp e (.head _)) hc.1) (fun e' he => hp e' (mem_cons_of_mem e he)) hc.2

lemma runSpares_append {pre post : List (Served β)} :
    runSpares F s (pre ++ post) = (runSpares F s pre && runSpares F (runServed F s pre) post) := by
  induction pre generalizing s with
  | nil => rfl
  | cons e pre ih =>
    simp only [cons_append, runSpares, ih, Bool.and_assoc]
    rfl

lemma Started.ahead (h : Started F s) : Ahead F s.vol s.dev :=
  ⟨h.start, h.blocks, by simp [h.closed], by simp [h.closed], by simp [h.closed],
    fun _ => h.commits⟩

lemma not_overtakes {e : Served β} (hs : Ahead F s.vol s.dev) : ¬ Overtakes F s e := by
  rintro ⟨he, hok, hc, -⟩
  obtain ⟨c, outcomes⟩ := e
  cases he
  obtain ⟨hseq, hro⟩ := serve_ok (Prod.ext hok rfl)
    (P := fun v _ => v.journal.sequence = s.vol.journal.nextSequence ∧ s.vol.readOnly = false)
    (Q := fun _ _ => True) (txnOpen_spec ⟨s.vol, s.dev, outcomes⟩)
  exact hs.below hro _ hseq.ge hc

/-- On a device whose requests fail, no transaction is opened under a sequence that recovery could
read as committed, as long as no close leaves its COMMIT in doubt. -/
theorem no_overtaking {s : Live β} (hs : Started F s) {es : List (Served β)}
    (hp : ∀ e ∈ es, e.1.Plain) (hc : runSpares F s es = true) {pre post : List (Served β)}
    {e : Served β} (hsplit : es = pre ++ e :: post) : ¬ Overtakes F (runServed F s pre) e := by
  subst hsplit
  apply not_overtakes
  apply ahead_runServed hs.ahead
  · intro e' he
    exact hp e' (mem_append_left _ he)
  · rw [runSpares_append, Bool.and_eq_true] at hc
    exact hc.1

lemma Formatted.started {disk : ℕ → Block β} (hf : Formatted F disk) {j : Log}
    {writeThrough : Bool} (hd : s.dev = fresh writeThrough disk)
    (hj : s.vol.journal = j.load F.journalStart
      ⟨F.journalStart, F.blockSize, F.journalBlocks, 1, 1⟩) : Started F s where
  start := by rw [hj]; rfl
  blocks := by rw [hj]; rfl
  closed := by rw [hj]; rfl
  commits := by
    rintro n - ⟨b, k, ⟨hlo, hhi⟩, hm⟩
    rw [hd, may_fresh_iff] at hm
    have hb : F.journalStart + (b - F.journalStart) = b := by omega
    have hlog := hf.log (b - F.journalStart) (by omega) (by omega) ⟨b, n, .commit k⟩
    rw [hb] at hlog
    exact hlog hm.symm

def twoGroupsLive : Live ℕ where
  vol :=
    { state := .clean, generation := 1, freeBlocks := 0, freeObjects := 0, readOnly := false
      needsReplay := false, mounted := true, dirtyMarked := false
      journal := load ⟨false, 0, 0, 0, false, 0, [], [], false⟩ 2 ⟨2, 4096, 28, 1, 1⟩ }
  dev := fresh true twoGroupsDisk

lemma twoGroupsLive_started : Started twoGroups twoGroupsLive := twoGroups_formatted.started rfl rfl

/-- A COMMIT record is written by a request that reports failure. -/
def doubtfulCommit : List (Served ℕ) :=
  [(.txnOpen, []), (.txnStage 100 (.data 7), []), (.txnClose, [.done, .done, .failed true])]

def lostCommit : List (Served ℕ) :=
  [(.txnOpen, []), (.txnStage 100 (.data 7), []), (.txnClose, [.done, .done, .failed false]),
    (.txnOpen, [])]

/-- The abort after a COMMIT write that failed leaves the sequence to the next transaction. -/
theorem doubtfulCommit_overtaken :
    Started twoGroups twoGroupsLive ∧ (∀ e ∈ doubtfulCommit, e.1.Plain) ∧
      Overtakes twoGroups (runServed twoGroups twoGroupsLive doubtfulCommit) (.txnOpen, []) := by
  refine ⟨twoGroupsLive_started, by simp [doubtfulCommit, Call.Plain], rfl, rfl, ?_, ?_⟩
  · exact ⟨5, 1, by unfold InLog; decide, .inl (by decide +kernel)⟩
  · exact ⟨⟨2, 4096, 28, 1, 1⟩, .inl (by decide +kernel), by decide +kernel⟩

theorem no_overtaking_lostCommit : Started twoGroups twoGroupsLive ∧ (∀ e ∈ lostCommit, e.1.Plain) ∧
      runSpares twoGroups twoGroupsLive lostCommit = true ∧
      ¬ Overtakes twoGroups (runServed twoGroups twoGroupsLive (lostCommit.take 3))
        (.txnOpen, []) := by
  have hp : ∀ e ∈ lostCommit, e.1.Plain := by simp [lostCommit, Call.Plain]
  have hc : runSpares twoGroups twoGroupsLive lostCommit = true := by decide +kernel
  exact ⟨twoGroupsLive_started, hp, hc, no_overtaking twoGroupsLive_started hp hc rfl⟩

end Wfs.Journal
