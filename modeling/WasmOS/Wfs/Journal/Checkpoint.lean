import WasmOS.Wfs.Journal.Invariant

/-! # The driver's calls keep the volume recoverable

Every stopping point inside a call leaves a recoverable disk, and its end keeps the invariant of a
mounted volume. A transaction is discarded by recovery before its COMMIT can be durable, and
replayed from then on.
-/

namespace Wfs.Journal

open BlockDevice BlockDevice.Device BlockDevice.Prog List Log TxnTarget Bool Volume Txn

variable {β : Type} {F : Format β} {n : ℕ} {t : Txn β} {ts : List TxnTarget} {rs : List ℕ}
  {content : ℕ → Option (Block β)} {d : Disk β} {b : ℕ} {v : Block β}

section Stamp

variable {state : State} {generation : ℕ} {counters : Option (ℕ × ℕ)}

/-- The writes of `wfs_super_write_task`: counters go to the primary only. -/
def Stamps (F : Format β) (b : ℕ) (counters : Option (ℕ × ℕ)) : Prop :=
  b = 0 ∨ (b ∈ F.backupBlocks ∧ counters = none)

lemma Agrees.stamp {w : Block β} (h : Agrees F b w v) (hb : b ∈ F.backupBlocks) :
    Agrees F b (w.stamp b state generation none) v := by
  unfold Agrees at *
  rw [if_pos hb] at h ⊢
  rw [Block.unstamp_stamp, h]

lemma IsPrimary.stamp {P Q : State → Prop} {w : Block β} (h : IsPrimary P w) (hQ : Q state) :
    IsPrimary Q (w.stamp 0 state generation counters) := by
  obtain ⟨s, rfl, -, -⟩ := h
  exact ⟨_, rfl, rfl, hQ⟩

lemma Stamps.ne_log (hb : Stamps F b counters) {c : ℕ} (hc : c < F.journalBlocks) :
    F.journalStart + c ≠ b := by
  rcases hb with rfl | ⟨hb, -⟩
  · have := F.journalStart_pos; omega
  · exact (Geometry.backupBlock_ne_log hb hc).symm

lemma HomeHolds.stamp (h : HomeHolds F content d) (hb : Stamps F b counters) :
    HomeHolds F content (d.write b ((d.read b).stamp b state generation counters)) := by
  intro b' v' hb' hv'
  refine (h b' v' hb' hv').write ?_
  rintro rfl
  rcases hb with rfl | ⟨hb, rfl⟩
  · exact absurd rfl hb'.1
  · exact (h b' v' hb' hv').read.stamp hb

lemma primary_stamp {P : State → Prop} (h : d.Surely 0 (IsPrimary P)) (hP : P state) :
    (d.write b ((d.read b).stamp b state generation counters)).Surely 0 (IsPrimary P) := by
  refine h.write ?_
  rintro rfl
  exact h.read.stamp hP

lemma Idle.stamp (h : Idle F n content d) (hb : Stamps F b counters) (hs : state ≠ .error) :
    Idle F n content (d.write b ((d.read b).stamp b state generation counters)) := by
  have hroom := F.journalBlocks_ge
  exact {
    tail := h.tail.write_of_ne (by simpa using hb.ne_log (c := 0) (by omega))
    log := fun c h1 hc => (h.log c h1 hc).write_of_ne (hb.ne_log hc)
    home := h.home.stamp hb
    primary := primary_stamp h.primary hs }

lemma Retiring.stamp (h : Retiring F n t ts rs content d) (hb : Stamps F b counters) :
    Retiring F n t ts rs content (d.write b ((d.read b).stamp b .dirty generation counters)) := by
  have hroom := F.journalBlocks_ge
  have htail : F.journalStart ≠ b := by simpa using hb.ne_log (c := 0) (by omega)
  have hhome : HomeHolds F content
      (d.write b ((d.read b).stamp b .dirty generation counters)) := h.home.stamp hb
  refine ⟨h.kept (logKept_write fun c hc _ => hb.ne_log hc) ?_ (primary_stamp h.primary rfl),
    hhome, h.tail.write_of_ne htail, ?_⟩
  · exact fun b' v' hb' _ hv' => hhome b' v' hb' hv'
  · rw [read_write, if_neg htail, h.tail_read]

lemma Ready.stamp (h : Ready F n content d) (hb : Stamps F b counters) :
    Ready F n content (d.write b ((d.read b).stamp b .dirty generation counters)) := by
  rcases h with h | ⟨m, t, ts, rs, rfl, h⟩
  · exact .inl (h.stamp hb (by simp))
  · exact .inr ⟨m, t, ts, rs, rfl, h.stamp hb⟩

lemma superWrite_wp {I : Disk β → Prop} {vol : Volume}
    (hmounted : vol.mounted = true) (hwritable : vol.readOnly = false)
    (hclosed : vol.journal.isOpen = false)
    (hstamp : ∀ e b gen cs, I e → Stamps F b cs → I (e.write b ((e.read b).stamp b state gen cs)))
    (hI : I d) (setCounters refreshBackups force : Bool) :
    (superWrite F vol state setCounters refreshBackups force).wp I
      (fun r e => ∃ gen cs, r = (.ok (), { vol with state := state, generation := gen }) ∧ I e ∧
        e.read 0 = (d.read 0).stamp 0 state gen cs) d := by
  simp only [superWrite, hmounted, hwritable, Bool.not_true, Bool.false_eq_true, if_false,
    Bool.false_and, wp_bind, readThrough, redirect_of_closed hclosed, wp_readBlock, wp_writeBlock]
  generalize hcs : (if setCounters then some (vol.freeBlocks, vol.freeObjects) else none) = cs
  have hI' := hstamp d 0 ((d.read 0).generation + 1) cs hI (.inl rfl)
  refine ⟨hI, hI, hI', ?_⟩
  cases refreshBackups with
  | false => exact ⟨hI', _, cs, rfl, hI', by simp [read_write]⟩
  | true =>
    rw [if_pos rfl, wp_bind]
    refine wp_forEach (fun _ post e => (∀ b ∈ post, b ∈ F.backupBlocks) ∧ I e ∧
      e.read 0 = (d.read 0).stamp 0 state ((d.read 0).generation + 1) cs) ?_ ?_ [] _ _
      ⟨fun _ h => h, hI', by simp [read_write]⟩
    · rintro pre b post e ⟨hpost, he, hread⟩
      have hb := hpost b (by simp)
      have hb0 : (0 : ℕ) ≠ b := fun h => (Geometry.backupBlock_ge hb).2 h.symm
      have he' := hstamp e b ((d.read 0).generation + 1) none he (.inr ⟨hb, rfl⟩)
      simp only [refreshBackup, readThrough, redirect_of_closed hclosed, wp_bind, wp_readBlock,
        wp_writeBlock]
      exact ⟨he, he, he', fun b' h' => hpost b' (by simp [h']), he',
        by rw [read_write, if_neg hb0, hread]⟩
    · rintro pre e ⟨-, he, hread⟩
      exact ⟨he, he, _, cs, rfl, he, hread⟩

end Stamp

def OutsideJournal (F : Format β) (b : ℕ) : Prop :=
  b < F.journalStart ∨ F.journalStart + F.journalBlocks ≤ b

lemma OutsideJournal.ne {b c : ℕ} (h : OutsideJournal F b) (hc : c < F.journalBlocks) :
    b ≠ F.journalStart + c := by
  unfold OutsideJournal at h; omega

lemma OutsideJournal.of_legal {b : ℕ} (h : F.targetIsLegal b = true) : OutsideJournal F b :=
  (Geometry.targetIsLegal_iff.mp h).2.2

/-- The log holds the images of the transaction that is open in `j`. -/
structure Staged (F : Format β) (t : Txn β) (j : Log) (d : Disk β) : Prop where
  targets_len : j.targets.length ≤ txnMaxTargets
  distinct : (j.targets.map target).Nodup
  slot : ∀ i u, j.targets[i]? = some u → u.journalBlock = F.journalStart + (2 + i) ∧
    t.image u.target = some (d.read (F.journalStart + (2 + i))) ∧
    F.crc32c (d.read (F.journalStart + (2 + i))) = u.checksum
  outside : ∀ u ∈ j.targets, OutsideJournal F u.target
  covers : ∀ b v, t.image b = some v → ∃ u ∈ j.targets, u.target = b
  revokes_len : j.revokes.length ≤ txnMaxRevokes
  revoked : ∀ b, b ∈ j.revokes ↔ b ∈ t.revoked

/-- Recovery would accept the blocks of the transaction. -/
structure OpenTxn (F : Format β) (t : Txn β) (j : Log) (d : Disk β) : Prop
    extends Staged F t j d where
  targets_legal : ∀ u ∈ j.targets, F.targetIsLegal u.target = true
  revokes_legal : ∀ b ∈ j.revokes, F.targetIsLegal b = true

/-- The invariant of a mounted volume whose committed content is `content`. -/
structure OnInv (F : Format β) (content : ℕ → Option (Block β)) (d : Disk β)
    (m : Mounted) (t : Txn β) : Prop where
  noErr : m.journalErr = none
  mounted : m.vol.mounted = true
  writable : m.vol.readOnly = false
  state : m.vol.state ≠ .error
  loaded : Loaded F m.vol.journal.nextSequence m.vol.journal
  ready : Ready F m.vol.journal.nextSequence content d
  dirty : m.vol.dirtyMarked = true → IsPrimary (· = .dirty) (d.read 0)
  opened : m.vol.journal.isOpen = true → m.vol.dirtyMarked = true ∧
    m.vol.journal.sequence = m.vol.journal.nextSequence ∧ OpenTxn F t m.vol.journal d

lemma OpenTxn.begin {j : Log} : OpenTxn F .empty j.begin d where
  targets_len := by simp [Log.begin]
  distinct := by simp [Log.begin]
  slot := by simp [Log.begin]
  outside := by simp [Log.begin]
  covers := by simp [empty, image]
  revokes_len := by simp [Log.begin]
  targets_legal := by simp [Log.begin]
  revokes_legal := by simp [Log.begin]
  revoked := by simp [Log.begin, empty]

lemma OpenTxn.write_of_ne {j : Log} (h : OpenTxn F t j d)
    (hb : ∀ i, i < j.targets.length → F.journalStart + (2 + i) ≠ b) :
    OpenTxn F t j (d.write b v) :=
  { h with
    slot := by
      intro i u hu
      rw [read_write, if_neg (hb i (List.getElem?_eq_some_iff.mp hu).1)]
      exact h.slot i u hu }

lemma Ready.primary (h : Ready F n content d) : IsPrimary (· ≠ .error) (d.read 0) := by
  rcases h with h | ⟨m, t, ts, rs, -, h⟩
  · exact h.primary.read
  · obtain ⟨s, hs, hl, hd⟩ := h.primary.read
    exact ⟨s, hs, hl, by simp [hd]⟩

section Calls

variable {m : Mounted}

lemma OnInv.begin (h : OnInv F content d m t) (hd : m.vol.dirtyMarked = true) :
    OnInv F content d { m with vol := m.vol.txnBegin.2 }
      (if succeeded m.vol.txnBegin.1 then .empty else t) := by
  rw [txnBegin, if_neg (by simp [h.mounted]), if_neg (by simp [h.loaded.loaded]),
    if_neg (by simp [h.writable])]
  split
  · exact h
  exact { h with
    loaded := ⟨h.loaded.loaded, h.loaded.start, h.loaded.blocks, rfl⟩
    opened := fun _ => ⟨hd, rfl, OpenTxn.begin⟩ }

lemma txnOpen_inv (h : OnInv F content d m t) :
    (txnOpen F m.vol).wp (Safe F {content}) (fun r e => OnInv F content e { m with vol := r.2 }
        (if succeeded r.1 then .empty else t)) d := by
  have hsafe : Safe F {content} d := h.ready.safe rfl
  simp only [txnOpen, markDirty, h.mounted, h.writable, Bool.not_true, Bool.false_eq_true, if_false,
    wp_bind]
  by_cases hd : m.vol.dirtyMarked = true
  · rw [if_pos hd]
    exact ⟨hsafe, hsafe, h.begin hd⟩
  have hclosed : m.vol.journal.isOpen = false := by
    rw [eq_false_iff]
    exact fun ho => hd (h.opened ho).1
  rw [if_neg hd, wp_bind]
  have hw := superWrite_wp h.mounted
    h.writable hclosed (fun e b gen cs he hb => Ready.stamp he hb) h.ready false true false
  refine wp_mono hw (fun e he => he.safe rfl) ?_
  rintro r e ⟨gen, cs, rfl, he, hread⟩
  have hprim : IsPrimary (· = .dirty) (e.read 0) := hread ▸ h.ready.primary.stamp rfl
  have hinv : OnInv F content e { m with vol := { m.vol with
      state := .dirty, generation := gen, dirtyMarked := true } } t :=
    { h with
      state := by simp
      ready := he
      dirty := fun _ => hprim
      opened := fun ho => absurd ho (by simp [hclosed]) }
  exact ⟨he.safe rfl, he.safe rfl, hinv.begin rfl⟩

@[simp] lemma Log.slot_nil (target : ℕ) : slot target [] = 0 := rfl

lemma Log.slot_cons (target : ℕ) (u : TxnTarget) (us : List TxnTarget) :
    slot target (u :: us) = if u.target = target then 0 else slot target us + 1 := by
  simp only [slot, findIdx_cons]
  by_cases h : u.target = target
  · simp [h]
  · rw [if_neg h, beq_false_of_ne h, cond_false]

variable (u : TxnTarget) (us : List TxnTarget)

lemma Log.length_replaceTarget :
    (replaceTarget u us).length = max us.length (slot u.target us + 1) := by
  induction us with
  | nil => rfl
  | cons w us ih =>
    rw [replaceTarget, slot_cons]
    split
    · simp
    · simp only [length_cons, ih]
      omega

lemma Log.getElem?_replaceTarget (i : ℕ) :
    (replaceTarget u us)[i]? = if i = slot u.target us then some u else us[i]? := by
  induction us generalizing i with
  | nil => cases i <;> simp [replaceTarget]
  | cons w us ih =>
    rw [replaceTarget, slot_cons]
    split
    · cases i <;> simp
    cases i with
    | zero => simp
    | succ i => simp only [getElem?_cons_succ, ih, add_right_cancel_iff]

lemma Log.mem_targets_replaceTarget (b : ℕ) : b ∈ (replaceTarget u us).map target ↔
      b = u.target ∨ b ∈ us.map target := by
  induction us with
  | nil => simp [replaceTarget]
  | cons w us ih =>
    simp only [replaceTarget]
    split
    · rename_i he
      simp only [map_cons, mem_cons, he]
      tauto
    · simp only [map_cons, mem_cons, ih]
      tauto

lemma Log.nodup_replaceTarget (h : (us.map target).Nodup) :
    ((replaceTarget u us).map target).Nodup := by
  induction us with
  | nil => simp [replaceTarget]
  | cons w us ih =>
    simp only [map_cons, nodup_cons] at h
    simp only [replaceTarget]
    split
    · rename_i he
      simpa [← he] using h
    rename_i hne
    simp only [map_cons, nodup_cons, mem_targets_replaceTarget]
    exact ⟨fun hm => hm.elim hne h.1, ih h.2⟩

lemma Log.slot_of_nodup {us : List TxnTarget} (h : (us.map target).Nodup) {i : ℕ}
    {u : TxnTarget} (hu : us[i]? = some u) : slot u.target us = i := by
  induction us generalizing i with
  | nil => simp at hu
  | cons w us ih =>
    simp only [map_cons, nodup_cons] at h
    rw [slot_cons]
    cases i with
    | zero =>
      obtain rfl : w = u := by simpa using hu
      simp
    | succ i =>
      rw [getElem?_cons_succ] at hu
      have hmem := mem_map_of_mem (f := target) (mem_of_getElem? hu)
      rw [if_neg (fun he : w.target = u.target => h.1 (he ▸ hmem)), ih h.2 hu]

lemma Txn.image_stage (t : Txn β) (b b' : ℕ) (v : Block β) :
    (t.after (.txnStage b v)).image b' = if b' = b then some v else t.image b' := by
  simp only [after, image, find?_cons]
  by_cases h : b' = b
  · simp [h]
  · rw [if_neg h, beq_false_of_ne (Ne.symm h)]

lemma Log.forall_targets_replaceTarget {us : List TxnTarget} {u : TxnTarget} {P : ℕ → Prop}
    (h : ∀ w ∈ us, P w.target) (hu : P u.target) : ∀ w ∈ replaceTarget u us, P w.target := by
  intro w hw
  rcases (mem_targets_replaceTarget ..).mp (mem_map_of_mem (f := target) hw) with he | hmem
  · rwa [he]
  · obtain ⟨w', hw', he⟩ := mem_map.mp hmem
    exact he ▸ h w' hw'

lemma Staged.stage {j : Log} (h : Staged F t j d) (hb : OutsideJournal F b)
    (hslot : Log.slot b j.targets < txnMaxTargets) :
    Staged F (t.after (.txnStage b v)) { j with
        targets := Log.replaceTarget
          ⟨b, F.journalStart + (2 + Log.slot b j.targets), F.crc32c v⟩ j.targets }
      (d.write (F.journalStart + (2 + Log.slot b j.targets)) v) :=
  { h with
    targets_len := by
      have := h.targets_len
      simp only [length_replaceTarget]
      omega
    distinct := nodup_replaceTarget _ _ h.distinct
    slot := by
      intro i u hu
      rw [getElem?_replaceTarget] at hu
      dsimp only at hu
      simp only [image_stage, read_write]
      split at hu
      · rename_i hi
        cases hu
        subst hi
        simp
      rename_i hi
      obtain ⟨h1, h2, h3⟩ := h.slot i u hu
      have hne : u.target ≠ b := fun he => hi (by rw [← he, slot_of_nodup h.distinct hu])
      rw [if_neg hne, if_neg (by omega)]
      exact ⟨h1, h2, h3⟩
    outside := forall_targets_replaceTarget h.outside hb
    covers := by
      intro b' v' hv'
      have hmem : b' ∈ (Log.replaceTarget ⟨b, F.journalStart + (2 + Log.slot b j.targets),
          F.crc32c v⟩ j.targets).map target := by
        rw [Log.mem_targets_replaceTarget]
        rw [image_stage] at hv'
        split at hv'
        · exact .inl ‹_›
        · obtain ⟨u, hu, rfl⟩ := h.covers b' v' hv'
          exact .inr (mem_map_of_mem hu)
      simpa using hmem }

lemma OpenTxn.revoke {j : Log} (h : OpenTxn F t j d) (hb : F.targetIsLegal b = true)
    (hlen : j.revokes.length < txnMaxRevokes) :
    OpenTxn F (t.after (.txnRevoke b)) { j with revokes := j.revokes ++ [b] } d := by
  refine { h with revokes_len := ?_, revoked := fun c => ?_, revokes_legal := ?_ }
  · simp only [List.length_append, List.length_singleton]
    omega
  · simp only [List.mem_append, h.revoked, Txn.after, List.mem_cons]
    tauto
  · simp only [List.mem_append, List.mem_singleton]
    rintro c (hc | rfl)
    · exact h.revokes_legal c hc
    · exact hb

lemma OpenTxn.stage {j : Log} (h : OpenTxn F t j d) (hb : F.targetIsLegal b = true)
    (hslot : Log.slot b j.targets < txnMaxTargets) :
    OpenTxn F (t.after (.txnStage b v)) { j with
        targets := Log.replaceTarget
          ⟨b, F.journalStart + (2 + Log.slot b j.targets), F.crc32c v⟩ j.targets }
      (d.write (F.journalStart + (2 + Log.slot b j.targets)) v) :=
  { h.toStaged.stage (.of_legal hb) hslot with
    targets_legal := forall_targets_replaceTarget (P := (F.targetIsLegal · = true))
      h.targets_legal hb
    revokes_legal := h.revokes_legal }

lemma Log.abort_isOpen (j : Log) : j.abort.isOpen = false := by
  unfold abort
  split
  · rfl
  · rename_i hopen
    simpa using hopen

lemma Loaded.abort {j : Log} (h : Loaded F n j) : Loaded F n j.abort := by
  unfold Log.abort
  split
  · exact ⟨h.loaded, h.start, h.blocks, h.next⟩
  · exact h

lemma Log.abort_nextSequence (j : Log) : j.abort.nextSequence = j.nextSequence := by
  unfold abort; split <;> rfl

variable (h : OnInv F content d m t)
include h

lemma OnInv.abort (t' : Txn β) : OnInv F content d { m with vol := m.vol.txnAbort } t' :=
  { h with
    loaded := by
      simp only [txnAbort, abort_nextSequence]
      exact h.loaded.abort
    ready := by
      simp only [txnAbort, abort_nextSequence]
      exact h.ready
    opened := fun ho => absurd ho (by simp [txnAbort, abort_isOpen]) }

lemma txnStage_inv (hs : d.Settled F.journalStart)
    (hb : F.targetIsLegal b = true) (hv : ∀ l, v ≠ .log l) :
    (txnStage F m.vol b v).wp (Safe F {content}) (fun r e => OnInv F content e { m with vol := r.2 }
        (if succeeded r.1 then t.after (.txnStage b v) else t)) d := by
  have hsafe : Safe F {content} d := h.ready.safe rfl
  simp only [txnStage]
  iterate 4
    split
    · exact ⟨hsafe, h.abort _⟩
  rename_i hopen hdirty _ hslot
  simp only [not_eq_true', not_eq_false] at hopen hdirty
  obtain ⟨-, hseq, htxn⟩ := h.opened hopen
  have hslot' := not_le.mp hslot
  have hblock : m.vol.journal.imageBlock (slot b m.vol.journal.targets) =
      F.journalStart + (2 + slot b m.vol.journal.targets) := by
    rw [imageBlock, h.loaded.start]; omega
  have hroom := F.journalBlocks_ge
  have hidle := (h.ready.idle_of_settled hs).write_log (c := 2 + slot b m.vol.journal.targets)
    (v := v) (by omega) (by unfold txnMaxTargets at hslot'; omega) (logOk_of_not_log hv)
  have h0 : 0 ≠ F.journalStart + (2 + slot b m.vol.journal.targets) := by omega
  simp only [wp_bind, wp_writeBlock, wp_pure, hblock]
  refine ⟨hsafe, hidle.safe rfl, hidle.safe rfl, ?_⟩
  exact { h with
    loaded := ⟨h.loaded.loaded, h.loaded.start, h.loaded.blocks, rfl⟩
    ready := .inl hidle
    dirty := fun hd => by rw [read_write, if_neg h0]; exact h.dirty hd
    opened := fun _ => ⟨hdirty, hseq, htxn.stage hb hslot'⟩ }

lemma txnRevoke_inv (hb : F.targetIsLegal b = true) :
    OnInv F content d { m with vol := (m.vol.txnRevoke b).2 }
      (if succeeded (m.vol.txnRevoke b).1 then t.after (.txnRevoke b) else t) := by
  unfold txnRevoke
  split
  · exact h
  rename_i hopen
  simp only [not_eq_true', not_eq_false] at hopen
  obtain ⟨hdirty, hseq, htxn⟩ := h.opened hopen
  split
  · -- revoking a block twice records nothing
    rename_i hmem
    refine { h with opened := fun _ => ⟨hdirty, hseq, ?_⟩ }
    refine { htxn with revoked := fun c => ?_ }
    rw [htxn.revoked]
    simp only [succeeded, if_true, Txn.after, mem_cons]
    constructor
    · exact .inr
    rintro (rfl | hc)
    · exact (htxn.revoked c).mp hmem
    · exact hc
  split
  · exact h
  refine { h with
    loaded := ⟨h.loaded.loaded, h.loaded.start, h.loaded.blocks, rfl⟩
    opened := fun _ => ⟨hdirty, hseq, ?_⟩ }
  exact htxn.revoke hb (by omega)

lemma txnNoteCounters_inv (blocks objects : ℕ) :
    OnInv F content d { m with vol := m.vol.txnNoteCounters blocks objects } t := by
  unfold txnNoteCounters
  split
  · rename_i hopen
    obtain ⟨hdirty, hseq, htxn⟩ := h.opened hopen
    exact { h with
      loaded := ⟨h.loaded.loaded, h.loaded.start, h.loaded.blocks, rfl⟩
      opened := fun _ => ⟨hdirty, hseq, { htxn with }⟩ }
  · exact h

end Calls

variable {β : Type} {F : Format β} {n : ℕ} {t : Txn β} {ts : List TxnTarget} {rs : List ℕ}
  {content : ℕ → Option (Block β)} {d : Disk β}

lemma Txn.apply_of_image_none {b : ℕ} (h : t.image b = none) : t.apply content b = content b := by
  simp [Txn.apply, h]

lemma Txn.apply_resolved {b : ℕ} {v w : Block β} (hi : t.image b = some v)
    (hw : t.apply content b = some w) : w = v ∧ b ∉ t.revoked := by
  simp only [Txn.apply, hi] at hw
  split at hw
  · cases hw
  · rename_i hr
    exact ⟨(Option.some.inj hw).symm, hr⟩

lemma Sealed.pending (hs : Sealed F n t ts rs d)
    (hlog : ∀ c, 1 ≤ c → c < F.journalBlocks → d.Surely (F.journalStart + c) (LogOld F n c))
    (hhome : HomeHolds F content d) (htail : d.Surely F.journalStart (· = journalSuper F n))
    (hdirty : d.Surely 0 (IsPrimary (· = .dirty)))
    (hcommit : d.Surely (F.journalStart + commitAt ts rs)
      (· = sealRecord (F.journalStart + commitAt ts rs) n (.commit ts.length))) :
    Pending F n t ts rs (t.apply content) d where
  toSealed := hs
  commit := hcommit
  log := hlog
  rest b v hb hi hv := hhome b v hb (by rwa [Txn.apply_of_image_none hi] at hv)
  resolved b v w hi hw := by
    obtain ⟨rfl, hr⟩ := Txn.apply_resolved hi hw
    exact ⟨rfl, fun hm => hr ((hs.revoked b).mp hm)⟩
  primary := hdirty
  tail := htail

lemma commitAt_pos : 1 ≤ commitAt ts rs := by
  unfold commitAt; omega

lemma Sealed.write_commit (hs : Sealed F n t ts rs d) (v : Block β) :
    Sealed F n t ts rs (d.write (F.journalStart + commitAt ts rs) v) :=
  { hs with
    descriptor := hs.descriptor.write_of_ne (by unfold commitAt; omega)
    image i u hu := (hs.image i u hu).write_of_ne (by
      have hi : i < ts.length := (List.getElem?_eq_some_iff.mp hu).1
      unfold commitAt; omega)
    revoke hr := (hs.revoke hr).write_of_ne (by simp [commitAt, hr]) }

lemma Sealed.commit_safe (hs : Sealed F n t ts rs d) (hi : Idle F n content d)
    (hdirty : d.Surely 0 (IsPrimary (· = .dirty))) :
    Safe F {content, t.apply content} (d.write (F.journalStart + commitAt ts rs)
      (sealRecord (F.journalStart + commitAt ts rs) n (.commit ts.length))) := by
  have hlt : commitAt ts rs < F.journalBlocks := commitAt_lt hs.targets_len
  have hpos : 1 ≤ commitAt ts rs := commitAt_pos
  have htail : F.journalStart ≠ F.journalStart + commitAt ts rs := by omega
  have h0 : 0 ≠ F.journalStart + commitAt ts rs := by omega
  intro w keep
  generalize he : d.write (F.journalStart + commitAt ts rs)
    (sealRecord (F.journalStart + commitAt ts rs) n (.commit ts.length)) = e
  have hhome : HomeHolds F content e := fun b v hb hv =>
    he ▸ (hi.home b v hb hv).write_of_ne (hb.ne_log hlt).symm
  have htail' : e.Surely F.journalStart (· = journalSuper F n) := he ▸ hi.tail.write_of_ne htail
  by_cases hc : e.crash keep (F.journalStart + commitAt ts rs) =
      sealRecord (F.journalStart + commitAt ts rs) n (.commit ts.length)
  · refine ⟨t.apply content, .inr rfl, .inr ⟨n, t, ts, rs, ?_⟩⟩
    refine Sealed.pending ((he ▸ hs.write_commit _).kept (logKept_crash w keep)) ?_
      (hhome.crash w keep)
      (htail'.crash keep w) ?_ ?_
    · intro c h1 hc'
      refine Surely.crash ?_ keep w
      subst he
      refine ((hi.log c h1 hc').mono fun _ h => h.old).write fun he => ?_
      obtain rfl : c = commitAt ts rs := by omega
      exact logOld_sealRecord
    · exact (he ▸ hdirty.write_of_ne h0 : e.Surely 0 (IsPrimary (· = .dirty))).crash keep w
    · intro v hv
      rw [may_fresh_iff] at hv
      exact hv.trans hc
  · refine ⟨content, .inl rfl, .inl ⟨n, htail'.crash keep w, ?_, hhome.crash w keep, ?_⟩⟩
    · intro c h1 hc' v hv
      rw [may_fresh_iff] at hv
      subst hv he
      rcases may_write (may_crash _ keep (F.journalStart + c)) with hm | ⟨hcc, hm⟩
      · exact hi.log c h1 hc' _ hm
      · obtain rfl : c = commitAt ts rs := by omega
        exact absurd hm hc
    · exact (he ▸ hi.primary.write_of_ne h0 : e.Surely 0 (IsPrimary (· ≠ .error))).crash keep w

lemma Sealed.commit_flush (hs : Sealed F n t ts rs d) (hi : Idle F n content d)
    (hdirty : d.Surely 0 (IsPrimary (· = .dirty))) :
    Pending F n t ts rs (t.apply content) (d.write (F.journalStart + commitAt ts rs)
      (sealRecord (F.journalStart + commitAt ts rs) n (.commit ts.length))).flush := by
  have hlt : commitAt ts rs < F.journalBlocks := commitAt_lt hs.targets_len
  have hpos : 1 ≤ commitAt ts rs := commitAt_pos
  refine Sealed.pending ((hs.write_commit _).kept logKept_flush) ?_ (HomeHolds.flush ?_)
    (Surely.flush ?_)
    (Surely.flush ?_) (surely_flush (by simp [read_write]))
  · intro c h1 hc
    refine Surely.flush (((hi.log c h1 hc).mono fun _ h => h.old).write fun he => ?_)
    obtain rfl : c = commitAt ts rs := by omega
    exact logOld_sealRecord
  · exact fun b v hb hv => (hi.home b v hb hv).write_of_ne (hb.ne_log hlt).symm
  · exact hi.tail.write_of_ne (by omega)
  · exact hdirty.write_of_ne (by omega)

section Calls

variable {m : Mounted} {j : Log}

lemma OpenTxn.sealed (h : OpenTxn F t j d) (hdesc : d.read (F.journalStart + 1) =
      sealRecord (F.journalStart + 1) n (.descriptor (descriptorRecords j.targets)))
    (hrev : j.revokes.length ≠ 0 → d.read (F.journalStart + (2 + j.targets.length)) =
      sealRecord (F.journalStart + (2 + j.targets.length)) n (.revoke j.revokes)) :
    Sealed F n t j.targets j.revokes d.flush :=
  { h with
    descriptor := surely_flush hdesc
    image i u hu := surely_flush (h.slot i u hu).2
    revoke hr := surely_flush (hrev hr) }

lemma Staged.redirect_log (h : Staged F t j d) {c : ℕ} (hc : c < F.journalBlocks) :
    j.redirect (F.journalStart + c) = F.journalStart + c := by
  unfold redirect
  have hnone : j.targets.find? (fun u => u.target == F.journalStart + c) = none := by
    rw [find?_eq_none]
    intro u hu
    simpa using (h.outside u hu).ne hc
  rw [hnone]
  split <;> rfl

variable {e : Disk β}

lemma checkpoint_wp {C : Disk β → Prop}
    {vol : Volume} (hvol : vol.journal = j) (ho : OpenTxn F t j e)
    (hC : ∀ e, Pending F n t j.targets rs content e → C e)
    (hp : Pending F n t j.targets rs content d) :
    (forEach (checkpointImage vol) j.targets).wp C
      (fun _ e => Pending F n t j.targets rs content e ∧
        ∀ u ∈ j.targets, t.image u.target = some (e.read u.target)) d := by
  refine wp_forEach (fun pre post e => j.targets = pre ++ post ∧
    Pending F n t j.targets rs content e ∧
    ∀ u ∈ pre, t.image u.target = some (e.read u.target)) ?_ ?_ [] j.targets d
    ⟨rfl, hp, by simp⟩
  · rintro pre u post e ⟨hts, hpe, hdone⟩
    have hget : j.targets[pre.length]? = some u := by rw [hts]; simp
    have himg := (hpe.image pre.length u hget).read
    have hlen : pre.length < txnMaxTargets :=
      lt_of_lt_of_le (List.getElem?_eq_some_iff.mp hget).1 ho.targets_len
    have hroom := F.journalBlocks_ge
    have hu : u ∈ j.targets := by simp [hts]
    have hp' := hpe.write_target (hpe.targets_legal u hu) himg.1
    simp only [checkpointImage, readThrough, hvol, (ho.slot _ u hget).1,
      ho.redirect_log (c := 2 + pre.length) (by unfold txnMaxTargets at hlen; omega), wp_bind,
      wp_readBlock, wp_writeBlock]
    refine ⟨hC e hpe, hC e hpe, hC _ hp', by simp [hts], hp', ?_⟩
    intro w hw
    rw [read_write]
    split
    · rename_i he; rw [he]; exact himg.1
    rename_i hne
    rcases mem_append.mp hw with hw | hw
    · exact hdone w hw
    · exact absurd (by rw [mem_singleton.mp hw]) hne
  · rintro pre e ⟨hts, hpe, hdone⟩
    obtain rfl : j.targets = pre := by simpa using hts
    exact ⟨hC e hpe, hpe, hdone⟩

lemma OnInv.retired {t' : Txn β} (h : OnInv F content d m t)
    (hret : Retiring F m.vol.journal.nextSequence t ts rs (t.apply content) e)
    (hseq : m.vol.journal.sequence = m.vol.journal.nextSequence) :
    OnInv F (t.apply content) e { m with vol := m.vol.retired } t' :=
  { h with
    loaded := ⟨h.loaded.loaded, h.loaded.start, h.loaded.blocks, rfl⟩
    ready := by
      simp only [Volume.retired, hseq]
      exact .inr ⟨_, t, ts, rs, rfl, hret⟩
    dirty := fun _ => hret.primary.read
    opened := fun ho => absurd ho (by simp [Volume.retired]) }

lemma txnSeal_inv (h : OnInv F content d m t) (hopen : m.vol.journal.isOpen = true)
    (hi : Idle F m.vol.journal.nextSequence content e)
    (hdirty : IsPrimary (· = .dirty) (e.read 0)) (ho : OpenTxn F t m.vol.journal e)
    (hdesc : e.read (F.journalStart + 1) = sealRecord (F.journalStart + 1)
      m.vol.journal.nextSequence (.descriptor (descriptorRecords m.vol.journal.targets)))
    (hrev : m.vol.journal.revokes.length ≠ 0 →
      e.read (F.journalStart + (2 + m.vol.journal.targets.length)) =
        sealRecord (F.journalStart + (2 + m.vol.journal.targets.length))
          m.vol.journal.nextSequence (.revoke m.vol.journal.revokes)) :
    (txnSeal F m.vol).wp (Safe F {content, t.apply content})
      (fun r e => r.1 = .ok () ∧ OnInv F (t.apply content) e { m with vol := r.2 } t) e := by
  obtain ⟨-, hseq, -⟩ := h.opened hopen
  have hat : m.vol.journal.commitBlock =
      F.journalStart + commitAt m.vol.journal.targets m.vol.journal.revokes := by
    rw [commitBlock, imageBlock, commitAt, h.loaded.start]; omega
  have hs := ho.sealed hdesc hrev
  have hdur := surely_flush hdirty
  have hsafe := hs.commit_safe hi.flush hdur
  have hpend := hs.commit_flush hi.flush hdur
  have hnew : ∀ e', Pending F m.vol.journal.nextSequence t m.vol.journal.targets
      m.vol.journal.revokes (t.apply content) e' → Safe F {content, t.apply content} e' :=
    fun e' he => he.safe (.inr rfl)
  simp only [txnSeal, wp_bind, wp_flushBlocks, wp_writeBlock, hat, hseq, h.loaded.start]
  refine ⟨hi.safe (.inl rfl), hi.flush.safe (.inl rfl), hi.flush.safe (.inl rfl), hsafe,
    hsafe, hnew _ hpend, ?_⟩
  refine wp_mono (checkpoint_wp rfl ho hnew hpend) (fun _ hc => hc) ?_
  rintro - e' ⟨hpe, hdone⟩
  have hret := hpe.flush.advance (hpe.home_flush fun u hu _ => hdone u hu)
  exact ⟨hnew _ hpe, hnew _ hpe.flush, hnew _ hpe.flush, hret.safe (.inr rfl),
    hret.safe (.inr rfl), rfl, h.retired hret hseq⟩

lemma Safe.mono {S S' : Set (ℕ → Option (Block β))} (h : Safe F S d) (hS : S ⊆ S') : Safe F S' d :=
  fun w keep =>
    let ⟨c, hc, hr⟩ := h w keep
    ⟨c, hS hc, hr⟩

lemma OpenTxn.apply_of_empty (h : OpenTxn F t j d) (he : j.targets.length = 0) :
    t.apply content = content := by
  funext b
  refine Txn.apply_of_image_none ?_
  rcases hi : t.image b with _ | v
  · rfl
  obtain ⟨u, hu, -⟩ := h.covers b v hi
  rw [length_eq_zero_iff.mp he] at hu
  simp at hu

lemma txnClose_inv (h : OnInv F content d m t) (hs : d.Settled F.journalStart)
    {S : Set (ℕ → Option (Block β))} (hS : content ∈ S)
    (hS' : m.vol.journal.isOpen = true → t.apply content ∈ S) :
    (txnClose F m.vol).wp (Safe F S)
      (fun r e => OnInv F (if succeeded r.1 then t.apply content else content) e
        { m with vol := r.2 } t) d := by
  have hsafe : Safe F S d := h.ready.safe hS
  simp only [txnClose]
  split
  · exact ⟨hsafe, h⟩
  rename_i hopen
  simp only [Bool.not_eq_true', Bool.not_eq_false] at hopen
  obtain ⟨hdirty, hseq, htxn⟩ := h.opened hopen
  split
  · rename_i hempty
    refine ⟨hsafe, ?_⟩
    simp only [succeeded, if_true, htxn.apply_of_empty hempty.1]
    exact h.abort t
  iterate 2
    split
    · exact ⟨hsafe, h.abort t⟩
  have hroom := F.journalBlocks_ge
  have hlen : m.vol.journal.targets.length ≤ 24 := htxn.targets_len
  have hdescAt : m.vol.journal.descriptorBlock = F.journalStart + 1 := by
    rw [descriptorBlock, h.loaded.start]
  have hrevAt : m.vol.journal.revokeBlock =
      F.journalStart + (2 + m.vol.journal.targets.length) := by
    rw [revokeBlock, imageBlock, h.loaded.start]; omega
  -- the descriptor and the revoke record change nothing recovery would apply
  have hi1 := (h.ready.idle_of_settled hs).write_log (c := 1) (v := sealRecord
      (F.journalStart + 1) m.vol.journal.nextSequence
      (.descriptor (descriptorRecords m.vol.journal.targets))) le_rfl (by omega)
    (logOk_sealRecord ⟨rfl, _, parseDescriptor_records htxn.targets_legal htxn.targets_len⟩)
  have hsub : ({content, t.apply content} : Set (ℕ → Option (Block β))) ⊆ S := by
    rintro c (rfl | rfl)
    · exact hS
    · exact hS' hopen
  have hfin : ∀ (r : Result) (e : Disk β), r.1 = .ok () ∧
      OnInv F (t.apply content) e { m with vol := r.2 } t →
      OnInv F (if succeeded r.1 then t.apply content else content) e { m with vol := r.2 } t := by
    rintro ⟨r, vol⟩ e ⟨rfl, he⟩
    exact he
  simp only [wp_bind, wp_writeBlock, hdescAt, hrevAt, hseq]
  refine ⟨hsafe, hi1.safe hS, ?_⟩
  split
  · rename_i hrs
    refine wp_mono (txnSeal_inv h hopen hi1 ?_ (htxn.write_of_ne (by omega))
      (by simp [read_write]) fun hne => absurd hrs hne) (fun _ hc => hc.mono hsub) hfin
    rw [read_write, if_neg (by omega)]
    exact h.dirty hdirty
  split
  · refine ⟨hi1.safe hS, ?_⟩
    have habort := h.abort t
    exact { habort with
      ready := by
        simp only [txnAbort, abort_nextSequence]
        exact .inl hi1
      dirty := fun _ => by rw [read_write, if_neg (by omega)]; exact h.dirty hdirty
      opened := fun ho => absurd ho (by simp [txnAbort, abort_isOpen]) }
  have hi2 := hi1.write_log (c := 2 + m.vol.journal.targets.length)
    (v := sealRecord (F.journalStart + (2 + m.vol.journal.targets.length))
      m.vol.journal.nextSequence (.revoke m.vol.journal.revokes)) (by omega) (by omega)
    (logOk_sealRecord ⟨by omega, parseRevoke_ok htxn.revokes_legal htxn.revokes_len⟩)
  simp only [wp_bind, wp_writeBlock]
  refine ⟨hi1.safe hS, hi2.safe hS, ?_⟩
  refine wp_mono (txnSeal_inv h hopen hi2 ?_ ((htxn.write_of_ne (by omega)).write_of_ne
    (by omega)) ?_ fun _ => by simp [read_write]) (fun _ hc => hc.mono hsub) hfin
  · rw [read_write, if_neg (by omega), read_write, if_neg (by omega)]
    exact h.dirty hdirty
  · rw [read_write, if_neg (by omega), read_write, if_pos rfl]

lemma sync_inv (h : OnInv F content d m t) (hclosed : m.vol.journal.isOpen = false)
    {state : State} (hs : state = .clean → d.Settled F.journalStart) :
    (syncState F m.vol state).wp (Safe F {content})
      (fun r e => OnInv F content e { m with vol := r.2 } t) d := by
  have hsafe : Safe F {content} d := h.ready.safe rfl
  simp only [syncState, h.mounted, h.writable, Bool.not_true, Bool.false_eq_true, if_false]
  split
  · exact ⟨hsafe, h⟩
  rename_i hstate
  have hne : state ≠ .error := by rintro rfl; simp at hstate
  split
  · exact ⟨hsafe, h⟩
  -- a CLEAN mark is made over an idle log; a DIRTY one may find the tail still pending
  have hw : (superWrite F m.vol state true (state != m.vol.state) false).wp
      (Ready F m.vol.journal.nextSequence content)
      (fun r e => ∃ gen cs, r = (.ok (), { m.vol with state := state, generation := gen }) ∧
        Ready F m.vol.journal.nextSequence content e ∧
        e.read 0 = (d.read 0).stamp 0 state gen cs) d := by
    cases state with
    | error => exact absurd rfl hne
    | dirty =>
      exact superWrite_wp h.mounted h.writable hclosed (fun e b gen cs he hb => he.stamp hb)
        h.ready _ _ _
    | clean =>
      refine wp_mono (superWrite_wp h.mounted
        h.writable hclosed (fun e b gen cs he hb => he.stamp hb hne)
        (h.ready.idle_of_settled (hs rfl)) _ _ _) (fun _ he => .inl he) ?_
      rintro r e ⟨gen, cs, hr, he, hread⟩
      exact ⟨gen, cs, hr, .inl he, hread⟩
  rw [wp_bind]
  refine wp_mono hw (fun e he => he.safe rfl) ?_
  rintro r e ⟨gen, cs, rfl, he, hread⟩
  have hprim : IsPrimary (· = state) (e.flush.read 0) := by
    rw [read_flush, hread]
    exact h.ready.primary.stamp rfl
  simp only [wp_bind, wp_flushBlocks, wp_pure]
  refine ⟨he.safe rfl, he.flush.safe rfl, he.flush.safe rfl, ?_⟩
  exact { h with
    state := hne
    loaded := ⟨h.loaded.loaded, h.loaded.start, h.loaded.blocks, rfl⟩
    ready := .inl he.flush
    dirty := fun hd => by
      have hd' : state = .dirty := by simpa using hd
      exact hd' ▸ hprim
    opened := fun ho => absurd ho (by simp [hclosed]) }

end Calls

lemma mount_inv (hd : Recoverable F content d) (t : Txn β) :
    (mount F).wp (Safe F {content}) (fun r e => ∃ m, r = .ok m ∧ OnInv F content e m t) d := by
  have hsafe := hd.safe
  obtain ⟨n, htail, hcases⟩ := hd.cases
  have hprim : IsPrimary (· ≠ .error) (d.read 0) := by
    rcases hcases with hi | ⟨t, ts, rs, hp⟩
    · exact hi.primary.read
    · obtain ⟨s, hs, hl, hdirty⟩ := hp.primary.read
      exact ⟨s, hs, hl, by simp [hdirty]⟩
  obtain ⟨s, hread, hloc, hstate⟩ := hprim
  simp only [mount, wp_bind, wp_readBlock, hread, superParse, hloc, ne_eq, not_true_eq_false,
    if_false]
  refine ⟨hsafe, ?_⟩
  rw [mountLog, wp_bind]
  refine journalLoad_ok rfl htail hsafe ?_
  by_cases hdirty : s.state = .dirty
  · simp only [hdirty, beq_self_eq_true, Bool.not_true, Bool.false_eq_true, if_false, wp_bind]
    refine wp_mono (journalReplay_recoverable ⟨rfl, rfl, rfl, rfl⟩ hcases) (fun _ h => h) ?_
    rintro r e ⟨k, applied, rfl, hready⟩
    refine ⟨hready.safe rfl, hready.safe rfl, _, rfl, ?_⟩
    exact {
      noErr := rfl
      mounted := rfl
      writable := rfl
      state := by simp [atSequence]
      loaded := ⟨rfl, rfl, rfl, rfl⟩
      ready := hready
      dirty := fun h => absurd h (by simp [atSequence, unmounted])
      opened := fun h => absurd h (by simp [atSequence, load]) }
  · have hi : Idle F n content d := by
      rcases hcases with hi | ⟨t, ts, rs, hp⟩
      · exact hi
      obtain ⟨s', hs', -, hd'⟩ := hp.primary.read
      rw [hread] at hs'
      cases hs'
      exact absurd hd' hdirty
    have hbeq : (s.state == State.dirty) = false := by simpa using hdirty
    simp only [hbeq, Bool.not_false, if_true]
    refine ⟨hsafe, hsafe, _, rfl, ?_⟩
    exact {
      noErr := rfl
      mounted := rfl
      writable := by simpa using hstate
      state := hstate
      loaded := ⟨rfl, rfl, rfl, rfl⟩
      ready := .inl hi
      dirty := fun h => absurd h (by simp [unmounted])
      opened := fun h => absurd h (by simp [load]) }

end Wfs.Journal
