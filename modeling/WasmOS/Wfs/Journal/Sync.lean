import WasmOS.Wfs.Journal.Faults

/-! # What a sync leaves in the primary superblock

The allocator moves the counters in memory and leaves a note; `wfs_sync_task` writes them when the
note stands or the state changes. Every begin and every abort clears the note, so it speaks for the
last transaction only.
-/

namespace Wfs.Journal

open BlockDevice List Bool Log Volume Device

variable {β : Type}

def Carries (vol : Volume) (dev : Disk β) (state : State) : Prop :=
  ∃ n, dev.read 0 = .super ⟨0, state, n, vol.freeBlocks, vol.freeObjects⟩

/-- The primary superblock carries the volume's state, and its counters unless the note stands. -/
def Recorded (vol : Volume) (dev : Disk β) : Prop :=
  ∃ n blocks objects, dev.read 0 = .super ⟨0, vol.state, n, blocks, objects⟩ ∧
    (vol.journal.countersDirty = false → blocks = vol.freeBlocks ∧ objects = vol.freeObjects)

variable {vol : Volume} {dev : Disk β}

lemma Recorded.carries (h : Recorded vol dev)
    (hd : vol.journal.countersDirty = false) : Carries vol dev vol.state := by
  obtain ⟨n, blocks, objects, hread, hcounters⟩ := h
  obtain ⟨rfl, rfl⟩ := hcounters hd
  exact ⟨n, hread⟩

lemma Carries.recorded (h : Carries vol dev vol.state) : Recorded vol dev := by
  obtain ⟨n, hread⟩ := h
  exact ⟨n, _, _, hread, fun _ => ⟨rfl, rfl⟩⟩

/-- A write of the primary that fails has not reached the device. -/
def Told : List Outcome → Bool
  | .done :: .failed took :: _ => !took
  | _ => true

def answered (n : ℕ) (outcomes : List Outcome) : Bool := (outcomes.take n).all (· == .done)

namespace Volume

def moving (vol : Volume) : Bool := vol.journal.isOpen && vol.journal.countersDirty

def takesTarget (vol : Volume) (target : ℕ) : Bool := vol.dirtyMarked &&
    !decide (vol.journal.start ≤ target ∧ target < vol.journal.start + vol.journal.blocks) &&
    decide (slot target vol.journal.targets < txnMaxTargets)

end Volume

/-- The call does not clear a note that stands: no transaction begins under it, and the one that
left it is neither aborted, closed empty nor given up. -/
def Call.heeds (vol : Volume) (outcomes : List Outcome) : Call β → Bool
  | .txnOpen => (vol.journal.isOpen || !vol.journal.countersDirty) && Told outcomes
  | .txnStage target _ => !vol.moving || vol.takesTarget target && answered 1 outcomes
  | .txnClose =>
    !vol.moving || decide (vol.journal.targets.length ≠ 0 ∨ vol.journal.revokes.length ≠ 0) &&
      answered (commitRequest vol.journal + 2) outcomes
  | .txnAbort => !vol.moving
  | .sync _ => Told outcomes
  | _ => true

def Call.SparesPrimary : Call β → Prop
  | .txnStage target _ => target ≠ 0
  | _ => True

variable (F : Format β)

def runHeeds : Live β → List (Served β) → Bool
  | _, [] => true
  | s, e :: es => e.1.heeds s.vol e.2 && runHeeds (serve F s e).2 es

structure Noted (vol : Volume) (dev : Disk β) : Prop where
  laid : vol.journal.loaded = true →
    vol.journal.start = F.journalStart ∧ vol.journal.blocks = F.journalBlocks
  loaded : vol.journal.isOpen = true → vol.journal.loaded = true
  targets : vol.journal.isOpen = true → ∀ t ∈ vol.journal.targets, t.target ≠ 0
  few : vol.journal.isOpen = true →
    vol.journal.targets.length ≤ txnMaxTargets ∧ vol.journal.revokes.length ≤ txnMaxRevokes
  recorded : vol.readOnly = false → Recorded vol dev

variable {F} {block : ℕ}

namespace Noted

variable {vol : Volume} {dev : Disk β}

lemma of_closed (ho : vol.journal.isOpen = false) (hl : vol.journal.loaded = true →
      vol.journal.start = F.journalStart ∧ vol.journal.blocks = F.journalBlocks)
    (hr : vol.readOnly = false → Recorded vol dev) : Noted F vol dev where
  laid := hl
  loaded h := by rw [ho] at h; cases h
  targets h := by rw [ho] at h; cases h
  few h := by rw [ho] at h; cases h
  recorded := hr

section

variable (h : Noted F vol dev)
include h

lemma device {dev' : Disk β} (hd : dev'.read 0 = dev.read 0) : Noted F vol dev' := by
  refine { h with recorded := fun hr => ?_ }
  obtain ⟨n, blocks, objects, hread, hcounters⟩ := h.recorded hr
  exact ⟨n, blocks, objects, hd.trans hread, hcounters⟩

lemma flush : Noted F vol dev.flush := h.device (by rw [read_flush])

lemma write {v : Block β} (hb : block ≠ 0) :
    Noted F vol (dev.write block v) := h.device (by rw [read_write, if_neg hb.symm])

lemma redirect_zero : vol.journal.redirect 0 = 0 := by
  unfold redirect
  split
  · next ho =>
    have hnone : vol.journal.targets.find? (fun t => t.target == 0) = none := by
      rw [find?_eq_none]
      intro t ht
      simpa using h.targets ho t ht
    rw [hnone]
  · rfl

lemma txnAbort (hm : vol.moving = false) : Noted F vol.txnAbort dev := by
  unfold Volume.txnAbort abort
  split
  · next ho =>
    have hclear : vol.journal.countersDirty = false := by
      simpa [moving, ho] using hm
    refine of_closed rfl h.laid fun hr => ?_
    exact Carries.recorded ((h.recorded hr).carries hclear)
  · exact h

lemma latched {dev' : Disk β} : Noted F vol.latched dev' := by
  unfold Volume.latched Volume.txnAbort abort
  split
  · exact of_closed rfl h.laid Bool.noConfusion
  · exact ⟨h.laid, h.loaded, h.targets, h.few, Bool.noConfusion⟩

lemma retired : Noted F vol.retired dev := of_closed rfl h.laid h.recorded

lemma txnBegin (hd : vol.journal.isOpen = true ∨ vol.journal.countersDirty = false) :
    Noted F vol.txnBegin.2 dev := by
  unfold Volume.txnBegin
  split_ifs with _ hl _ ho
  iterate 4 exact h
  constructor
  · exact h.laid
  · intro _
    exact not_not_eq.mp hl
  · intro _ t ht
    cases ht
  · exact fun _ => ⟨Nat.zero_le _, Nat.zero_le _⟩
  · intro hr
    exact Carries.recorded ((h.recorded hr).carries (hd.resolve_left ho))

lemma txnRevoke (block : ℕ) : Noted F (vol.txnRevoke block).2 dev := by
  unfold Volume.txnRevoke
  split_ifs with _ _ hlt
  iterate 3 exact h
  refine ⟨h.laid, h.loaded, h.targets, fun ho => ⟨(h.few ho).1, ?_⟩, h.recorded⟩
  rw [length_append, length_singleton]
  exact not_le.mp hlt

lemma txnNoteCounters (blocks objects : ℕ) : Noted F (vol.txnNoteCounters blocks objects) dev := by
  unfold Volume.txnNoteCounters
  split
  · refine ⟨h.laid, h.loaded, h.targets, h.few, fun hr => ?_⟩
    obtain ⟨n, b, o, hread, -⟩ := h.recorded hr
    exact ⟨n, b, o, hread, Bool.noConfusion⟩
  · exact h

end

lemma length_replaceTarget {t : TxnTarget} {ts : List TxnTarget} (hts : ts.length ≤ txnMaxTargets)
    (h : slot t.target ts < txnMaxTargets) :
    (replaceTarget t ts).length ≤ txnMaxTargets := by
  suffices (replaceTarget t ts).length ≤ max ts.length (slot t.target ts + 1) by omega
  clear hts h
  induction ts with
  | nil => simp [replaceTarget]
  | cons u us ih =>
    unfold replaceTarget slot
    rw [findIdx_cons]
    split
    · simp
    next hne =>
    rw [beq_eq_false_iff_ne.mpr hne]
    simp only [length_cons, cond_false]
    unfold slot at ih
    omega

lemma staged {t : TxnTarget} (h : Noted F vol dev) (ht : t.target ≠ 0)
    (hslot : slot t.target vol.journal.targets < txnMaxTargets) :
    Noted F { vol with
      journal := { vol.journal with targets := replaceTarget t vol.journal.targets } } dev := by
  refine ⟨h.laid, h.loaded, fun ho u hu => ?_, fun ho => ?_, h.recorded⟩
  · rcases Ahead.mem_replaceTarget hu with rfl | hu
    · exact ht
    · exact h.targets ho u hu
  · exact ⟨length_replaceTarget (h.few ho).1 hslot, (h.few ho).2⟩

end Noted

/-! ## Requests that leave the primary alone -/

section Asks

open Procedure

variable {s : Faulty β}

lemma answered_add {m n : ℕ} {outcomes : List Outcome} :
    answered (m + n) outcomes = (answered m outcomes && answered n (outcomes.drop m)) := by
  unfold answered
  rw [take_add, all_append]

/-- From `s` the job makes `n` requests, none of them on the primary, and fails only with one. -/
def Asks (F : Format β) (n : ℕ) (m : Job β Unit) (s : Faulty β) : Prop :=
  wp m (fun _ t => Noted F t.vol t.dev ∧ t.vol = s.vol ∧ t.outcomes = s.outcomes.drop n)
    (fun t => Noted F t.vol t.dev ∧ t.vol = s.vol ∧ answered n s.outcomes = false) s

lemma Asks.seq {m n : ℕ} {M N : Job β Unit} (hM : Asks F m M s)
    (hN : ∀ t, Noted F t.vol t.dev → t.vol = s.vol → Asks F n N t) :
    Asks F (m + n) (M >>= fun _ => N) s := by
  apply wp_seq hM
  · rintro _ t ⟨ht, htv, hto⟩
    apply wp_mono (hN t ht htv)
    · rintro _ u ⟨hu, huv, huo⟩
      exact ⟨hu, huv.trans htv, by rw [huo, hto, drop_drop]⟩
    rintro u ⟨hu, huv, huo⟩
    rw [hto] at huo
    exact ⟨hu, huv.trans htv, by rw [answered_add, huo, Bool.and_false]⟩
  · rintro t ⟨ht, htv, hto⟩
    exact ⟨ht, htv, by rw [answered_add, hto, Bool.false_and]⟩

lemma asks_request {act : Disk β → Disk β}
    (hact : ∀ d, (act d).read 0 = d.read 0) (hs : Noted F s.vol s.dev) :
    Asks F 1 (request act) s := by
  apply wp_request
  · intro _
    exact ⟨hs.device (hact _), rfl, drop_one.symm⟩
  intro took rest hrest
  refine ⟨?_, rfl, by rw [hrest]; rfl⟩
  cases took
  · exact hs
  · exact hs.device (hact _)

lemma asks_write {v : Block β} (hb : block ≠ 0) (hs : Noted F s.vol s.dev) :
    Asks F 1 (ioWrite block v) s :=
  asks_request (fun d => by rw [read_write, if_neg hb.symm]) hs

lemma asks_flush (hs : Noted F s.vol s.dev) : Asks F 1 ioFlush s :=
  asks_request (fun d => by rw [read_flush]) hs

end Asks

variable {state : State}

section Super

open Procedure

variable {s : Faulty β}

@[simp] lemma wp_setVol {f : Volume → Volume} {Q : Unit → Faulty β → Prop}
    {E : Faulty β → Prop} : wp (setVol f) Q E s ↔ Q () { s with vol := f s.vol } := Iff.rfl

def Still (vol : Volume) (b : Block β) (v : Volume) (d : Disk β) : Prop :=
  v = vol ∧ d.read 0 = b

lemma keeps_still_write {b v : Block β} (hb : block ≠ 0) :
    Keeps (Still vol b) (ioWrite block v) := by
  rintro s ⟨hv, hd⟩
  have hwrite : Still vol b s.vol (s.dev.write block v) :=
    ⟨hv, by rw [read_write, if_neg hb.symm, hd]⟩
  apply wp_request fun _ => hwrite
  rintro (_ | _) rest -
  · exact ⟨hv, hd⟩
  · exact hwrite

lemma keeps_still_read {b : Block β} : Keeps (Still vol b) (ioRead block) := by
  apply Keeps.bind
  · intro s hs
    apply wp_request fun _ => hs
    rintro (_ | _) rest - <;> exact hs
  · exact fun _ => keeps_get.bind fun _ => keeps_pure _

lemma keeps_still_flush {b : Block β} : Keeps (Still vol b) ioFlush := by
  intro s hs
  apply wp_request fun _ => hs
  rintro (_ | _) rest - <;> exact hs

lemma keeps_still_backups {b : Block β} {n : ℕ} {refreshBackups : Bool} :
    Keeps (Still vol b) (if refreshBackups then
      forEach (refreshBackupJob state n) F.backupBlocks else pure ()) := by
  split
  · apply Keeps.forEach
    intro block hblock
    apply Keeps.attempt
    exact keeps_still_read.bind fun _ => keeps_still_write (Geometry.backupBlock_ge hblock).2
  · exact keeps_pure ()

lemma wp_readWrite {f : Block β → Block β} {k : Block β → Job β Unit}
    {Q : Unit → Faulty β → Prop} {E : Faulty β → Prop}
    (ht : Told s.outcomes = true) (hz : s.vol.journal.redirect 0 = 0)
    (hk : ∀ outcomes, wp (k (s.dev.read 0)) Q E ⟨s.vol, s.dev.write 0 (f (s.dev.read 0)), outcomes⟩)
    (hE : ∀ outcomes, E ⟨s.vol, s.dev, outcomes⟩) :
    wp (do let b ← ioRead 0; ioWrite 0 (f b); k b) Q E s := by
  simp only [ioRead, wp_bind, wp_get, wp_pure]
  apply wp_request
  · intro hfirst
    simp only [id_eq, hz]
    apply wp_request fun _ => hk _
    rintro (_ | _) rest hrest
    · exact hE _
    -- a write of the primary that failed behind a read that did not
    rcases hos : s.outcomes with _ | ⟨_ | _, os⟩
    · simp [hos] at hrest
    · simp only [hos, tail_cons] at hrest
      simp [hos, hrest, Told] at ht
    · exact absurd hos (hfirst _ _)
  · rintro (_ | _) rest - <;> exact hE _

lemma Noted.restated {dev dev' : Disk β} (h : Noted F vol dev)
    {n : ℕ} (hr : Recorded { vol with state := state, generation := n } dev') :
    Noted F { vol with state := state, generation := n } dev' :=
  ⟨h.laid, h.loaded, h.targets, h.few, fun _ => hr⟩

lemma Noted.cleared (h : Noted F vol dev) (hc : Carries vol dev vol.state) :
    Noted F { vol with journal := { vol.journal with countersDirty := false } } dev :=
  ⟨h.laid, h.loaded, h.targets, h.few, fun _ => Carries.recorded hc⟩

def Written (F : Format β) (vol : Volume) (state : State) (setCounters : Bool) (v : Volume)
    (d : Disk β) : Prop :=
  (∃ n, v = { vol with state := state, generation := n }) ∧ Noted F v d ∧
    (setCounters = true → Carries v d state)

lemma Still.written {vol v : Volume} {dev d : Disk β} {n : ℕ}
    {setCounters : Bool} (hs : Noted F vol dev) (hr : vol.readOnly = false)
    (h : Still { vol with state := state, generation := n } ((dev.read 0).stamp 0 state n
      (if setCounters then some (vol.freeBlocks, vol.freeObjects) else none)) v d) :
    Written F vol state setCounters v d := by
  obtain ⟨rfl, hd⟩ := h
  obtain ⟨m, blocks, objects, hread, hcounters⟩ := hs.recorded hr
  rw [hread] at hd
  cases setCounters
  · exact ⟨⟨n, rfl⟩, hs.restated ⟨n, blocks, objects, hd, hcounters⟩, Bool.noConfusion⟩
  · have hcar : Carries { vol with state := state, generation := n } d state := ⟨n, hd⟩
    exact ⟨⟨n, rfl⟩, hs.restated hcar.recorded, fun _ => hcar⟩

/-- The state changes on the device and in memory together, and with `setCounters` the counters
reach the device. -/
lemma superWrite_spec {setCounters refreshBackups : Bool}
    (hs : Noted F s.vol s.dev) (ht : Told s.outcomes = true) :
    wp (superWriteJob F state setCounters refreshBackups)
      (fun _ t => Written F s.vol state setCounters t.vol t.dev)
      (fun t => Noted F t.vol t.dev) s := by
  unfold superWriteJob
  rw [wp_bind, wp_get, wp_bind, wp_require]
  split
  · rw [wp_bind, wp_require]
    split
    · next hr =>
      apply wp_readWrite ht hs.redirect_zero
      · intro outcomes
        have hwritten : ∀ t : Faulty β, Still { s.vol with
              state := state, generation := (s.dev.read 0).generation + 1 } _ t.vol t.dev →
            Written F s.vol state setCounters t.vol t.dev := fun t ht => ht.written hs hr
        apply wp_mono (keeps_still_backups _ ⟨rfl, by rw [read_write, if_pos rfl]⟩)
        · exact fun _ => hwritten
        · exact fun t ht => (hwritten t ht).2.1
      · exact fun _ => hs
    · exact hs
  · exact hs

variable (hs : Noted F s.vol s.dev) (ht : Told s.outcomes = true)
include hs ht

lemma markDirty_spec : wp (markDirtyJob F)
    (fun _ t => t.vol.journal = s.vol.journal ∧ Noted F t.vol t.dev)
      (fun t => Noted F t.vol t.dev) s := by
  unfold markDirtyJob
  rw [wp_bind, wp_get, wp_bind, wp_require]
  split
  · split
    · exact ⟨rfl, hs⟩
    rw [wp_bind, wp_require]
    split
    · apply wp_seq (superWrite_spec hs ht)
      · rintro _ t ⟨⟨n, htv⟩, ht, -⟩
        have hj : t.vol.journal = s.vol.journal := by rw [htv]
        exact ⟨hj, ht.laid, ht.loaded, ht.targets, ht.few, ht.recorded⟩
      · exact fun _ h => h
    · exact hs
  · exact hs

lemma txnOpen_noted (hd : s.vol.journal.isOpen = true ∨ s.vol.journal.countersDirty = false) :
    wp (txnOpenJob F) (fun _ t => Noted F t.vol t.dev) (fun t => Noted F t.vol t.dev) s := by
  apply wp_seq (markDirty_spec hs ht)
  · rintro _ t ⟨hj, ht⟩
    rw [← hj] at hd
    unfold wp volumeJob
    rcases t.vol.txnBegin.1 with _ | _ <;> exact ht.txnBegin hd
  · exact fun _ h => h

lemma sync_spec : wp (syncJob F state) (fun _ t => Noted F t.vol t.dev ∧ Carries t.vol t.dev state)
      (fun t => Noted F t.vol t.dev) s := by
  unfold syncJob
  rw [wp_bind, wp_get, wp_bind, wp_require]
  split
  · rw [wp_bind, wp_require]
    split
    · rw [wp_bind, wp_require]
      split
      · next hr =>
        split
        · next hskip =>
          simp only [and_eq_true, not_eq_true', beq_iff_eq] at hskip
          obtain ⟨hclear, rfl⟩ := hskip
          exact ⟨hs, (hs.recorded hr).carries hclear⟩
        apply wp_seq (superWrite_spec hs ht)
        · rintro _ t ⟨⟨n, htv⟩, ht, hcar⟩
          have hstate : t.vol.state = state := by rw [htv]
          have hro : t.vol.readOnly = false := by rw [htv]; exact hr
          apply wp_seq (asks_flush (ht.cleared (hstate ▸ hcar rfl)))
          · rintro _ u ⟨hu, huv, -⟩
            rw [huv] at hu
            have hcar := (hu.recorded hro).carries rfl
            rw [wp_setVol, huv, ← hstate]
            exact ⟨⟨hu.laid, hu.loaded, hu.targets, hu.few, hu.recorded⟩, hcar⟩
          · exact fun _ h => h.1
        · exact fun _ h => h
      · exact hs
    · exact hs
  · exact hs

end Super

section Calls

open Procedure

variable {s : Faulty β}

lemma txnStage_noted {target : ℕ} {image : Block β} (hs : Noted F s.vol s.dev) (h0 : target ≠ 0)
    (hc : s.vol.moving = false ∨ s.vol.takesTarget target = true ∧ answered 1 s.outcomes = true) :
    wp (txnStageJob F target image) (fun _ t => Noted F t.vol t.dev)
      (fun t => Noted F t.vol t.dev) s := by
  have habort : ¬ s.vol.takesTarget target = true → Noted F s.vol.txnAbort s.dev := by
    intro htakes
    apply hs.txnAbort
    rcases hc with hm | ⟨ht, -⟩
    · exact hm
    · exact absurd ht htakes
  unfold txnStageJob
  rw [wp_bind, wp_get, wp_bind]
  apply wp_onError
  simp only [wp_bind, wp_require]
  split
  · next ho =>
    split
    · next hdm =>
      split
      · next hlog =>
        split
        · next hslot =>
          have hpos : s.vol.journal.imageBlock (slot target s.vol.journal.targets) ≠ 0 := by
            unfold imageBlock
            omega
          apply wp_mono (asks_write hpos hs)
          · rintro _ t ⟨ht, htv, -⟩
            rw [← htv] at hslot
            exact ht.staged h0 hslot
          rintro t ⟨ht, htv, hfail⟩
          apply ht.txnAbort
          rw [htv]
          rcases hc with hm | ⟨-, hans⟩
          · exact hm
          · cases hans.symm.trans hfail
        · next hslot => exact habort (by simp [takesTarget, hslot])
      · next hlog => exact habort (by simp only [takesTarget, not_not.mp hlog]; simp)
    · next hdm => exact habort (by simp [takesTarget, hdm])
  · next ho =>
    apply hs.txnAbort
    simp [moving, ho]

variable (hs : Noted F s.vol s.dev)
include hs

lemma recordJob_asks (ho : s.vol.journal.isOpen = true) :
    Asks F (commitRequest s.vol.journal) (recordJob F) s := by
  obtain ⟨ht, hr⟩ := hs.few ho
  have hblocks := (hs.laid (hs.loaded ho)).2
  have hjournal := F.journalBlocks_ge
  have hsize := F.blockSize_ge
  unfold txnMaxTargets at ht
  unfold txnMaxRevokes at hr
  have hroom : txnLogBlocks s.vol.journal.targets.length s.vol.journal.revokes.length <
      s.vol.journal.blocks := by
    unfold txnLogBlocks
    split <;> omega
  have hdesc : s.vol.journal.descriptorBlock ≠ 0 := by
    unfold descriptorBlock
    omega
  unfold Asks recordJob commitRequest
  rw [wp_bind, wp_get, wp_bind, wp_require, if_pos hroom, wp_bind, wp_require, if_pos (by omega)]
  split
  · exact Asks.seq (asks_write hdesc hs) fun t ht _ => asks_flush ht
  have hrevoke : s.vol.journal.revokeBlock ≠ 0 := by
    unfold revokeBlock imageBlock
    omega
  apply Asks.seq (n := 2) (asks_write hdesc hs)
  intro t ht _
  unfold Asks
  rw [wp_bind, wp_require, if_pos (by omega)]
  exact Asks.seq (asks_write hrevoke ht) fun u hu _ => asks_flush hu

lemma commitJob_asks : Asks F 2 commitJob s := by
  refine Asks.seq (asks_write ?_ hs) fun t ht _ => asks_flush ht
  unfold commitBlock imageBlock
  omega

lemma retireJob_still (ho : s.vol.journal.isOpen = true) :
    wp (retireJob F) (fun _ t => Still s.vol (s.dev.read 0) t.vol t.dev)
      (fun t => Still s.vol (s.dev.read 0) t.vol t.dev) s := by
  have hstart := (hs.laid (hs.loaded ho)).1
  have hpos := F.journalStart_pos
  have hkeeps : Keeps (Still s.vol (s.dev.read 0)) (do
      forEach checkpointJob s.vol.journal.targets
      ioFlush
      ioWrite s.vol.journal.start (journalSuper F (s.vol.journal.sequence + 1))) := by
    apply Keeps.bind
    · apply Keeps.forEach
      intro t ht
      exact keeps_still_read.bind fun d => keeps_still_write (hs.targets ho t ht)
    · intro _
      exact keeps_still_flush.bind fun _ => keeps_still_write (by omega)
  exact hkeeps s ⟨rfl, rfl⟩

lemma txnClose_noted (hc : s.vol.moving = false ∨
      (s.vol.journal.targets.length ≠ 0 ∨ s.vol.journal.revokes.length ≠ 0) ∧
        answered (commitRequest s.vol.journal + 2) s.outcomes = true) :
    wp (txnCloseJob F) (fun _ t => Noted F t.vol t.dev) (fun t => Noted F t.vol t.dev) s := by
  -- a transaction that moved the counters is not given up before its COMMIT
  have habort : ∀ {t : Faulty β}, Noted F t.vol t.dev → t.vol = s.vol →
      answered (commitRequest s.vol.journal + 2) s.outcomes = false →
      Noted F t.vol.txnAbort t.dev := by
    intro t ht htv hfail
    apply ht.txnAbort
    rw [htv]
    rcases hc with hm | ⟨-, hans⟩
    · exact hm
    · cases hans.symm.trans hfail
  unfold txnCloseJob
  rw [wp_bind, wp_get, wp_bind, wp_require]
  split
  · next ho =>
    split
    · next hempty =>
      apply hs.txnAbort
      rcases hc with hm | ⟨hne, -⟩
      · exact hm
      · omega
    rw [wp_bind]
    apply wp_onError
    apply wp_mono (recordJob_asks hs ho)
    · rintro _ t ⟨ht, htv, hto⟩
      rw [wp_bind]
      apply wp_onError
      apply wp_mono (commitJob_asks ht)
      · rintro _ u ⟨hu, huv, -⟩
        rw [← htv, ← huv] at ho
        rw [wp_bind]
        apply wp_onError
        apply wp_mono (retireJob_still hu ho)
        · rintro _ w ⟨hwv, hwd⟩
          rw [wp_setVol, hwv]
          exact (hu.device hwd).retired
        rintro w ⟨hwv, -⟩
        rw [hwv]
        exact hu.latched
      · rintro u ⟨hu, huv, hfail⟩
        apply habort hu (huv.trans htv)
        rw [answered_add, ← hto, hfail, Bool.and_false]
    · rintro t ⟨ht, htv, hfail⟩
      apply habort ht htv
      rw [answered_add, hfail, Bool.false_and]
  · exact hs

end Calls

open Procedure in
lemma Call.heeds_noted {s : Live β} {c : Call β} {outcomes : List Outcome}
    (hs : Noted F s.vol s.dev) (h0 : c.SparesPrimary) (hc : c.heeds s.vol outcomes = true) :
    wp (c.job F) (fun _ t => Noted F t.vol t.dev) (fun t => Noted F t.vol t.dev)
      ⟨s.vol, s.dev, outcomes⟩ := by
  cases c with
  | txnOpen =>
    simp only [heeds, and_eq_true, or_eq_true, not_eq_true'] at hc
    exact txnOpen_noted hs hc.2 hc.1
  | txnStage target image =>
    simp only [heeds, or_eq_true, not_eq_true', and_eq_true] at hc
    exact txnStage_noted hs h0 hc
  | txnRevoke block =>
    have hk : Keeps (Noted F) (volumeJob (·.txnRevoke block)) :=
      keeps_volumeJob fun _ _ h => h.txnRevoke block
    exact hk _ hs
  | txnNoteCounters blocks objects => exact hs.txnNoteCounters blocks objects
  | txnClose =>
    simp only [heeds, or_eq_true, not_eq_true', and_eq_true, decide_eq_true_eq] at hc
    exact txnClose_noted hs hc
  | txnAbort =>
    simp only [heeds, not_eq_true'] at hc
    exact hs.txnAbort hc
  | sync state => exact wp_mono (sync_spec hs hc) (fun _ _ h => h.1) fun _ h => h

lemma noted_runServed {s : Live β} {es : List (Served β)} (hs : Noted F s.vol s.dev)
    (h0 : ∀ e ∈ es, e.1.SparesPrimary) (hc : runHeeds F s es = true) :
    Noted F (runServed F s es).vol (runServed F s es).dev := by
  induction es generalizing s with
  | nil => exact hs
  | cons e es ih =>
    simp only [runHeeds, and_eq_true] at hc
    obtain ⟨c, outcomes⟩ := e
    have hstep : Noted F (serve F s (c, outcomes)).2.vol (serve F s (c, outcomes)).2.dev :=
      serve_keeps (Call.heeds_noted hs (h0 _ (.head _)) hc.1)
    exact ih hstep (fun e he => h0 e (.tail _ he)) hc.2

lemma runHeeds_append {s : Live β} {pre post : List (Served β)} :
    runHeeds F s (pre ++ post) = (runHeeds F s pre && runHeeds F (runServed F s pre) post) := by
  induction pre generalizing s with
  | nil => rfl
  | cons e pre ih =>
    simp only [cons_append, runHeeds, ih, Bool.and_assoc]
    rfl

structure Entered (F : Format β) (s : Live β) : Prop where
  closed : s.vol.journal.isOpen = false
  start : s.vol.journal.start = F.journalStart
  blocks : s.vol.journal.blocks = F.journalBlocks
  primary : Carries s.vol s.dev s.vol.state

/-- On a mounted volume whose calls never clear a note that stands, every successful sync leaves the
counters in memory and the requested state in the primary superblock. -/
theorem sync_reconciles {s : Live β} (hs : Entered F s) {es : List (Served β)}
    (h0 : ∀ e ∈ es, e.1.SparesPrimary) (hc : runHeeds F s es = true)
    {pre post : List (Served β)} {state : State} {outcomes : List Outcome} {t : Live β}
    (hsplit : es = pre ++ (.sync state, outcomes) :: post)
    (hok : serve F (runServed F s pre) (.sync state, outcomes) = (.ok (), t)) :
    Carries t.vol t.dev state := by
  subst hsplit
  rw [runHeeds_append, runHeeds, and_eq_true, and_eq_true] at hc
  obtain ⟨hpre, htold, -⟩ := hc
  have hnoted : Noted F s.vol s.dev :=
    Noted.of_closed hs.closed (fun _ => ⟨hs.start, hs.blocks⟩) fun _ => hs.primary.recorded
  have hpre0 : ∀ e ∈ pre, e.1.SparesPrimary := fun e he => h0 e (mem_append_left _ he)
  have hspec : Procedure.wp (syncJob F state) _ _ ⟨_, _, outcomes⟩ :=
    sync_spec (noted_runServed hnoted hpre0 hpre) htold
  exact (serve_ok hok (P := fun v d => Noted F v d ∧ Carries v d state) (Q := Noted F) hspec).2

def movingTxn : List (Served ℕ) :=
  [(.txnOpen, []), (.txnStage 100 (.data 7), []), (.txnNoteCounters 5 6, []), (.txnClose, [])]

lemma twoGroupsLive_entered : Entered twoGroups twoGroupsLive := ⟨rfl, rfl, rfl, 1, rfl⟩

variable (es : List (Served ℕ))

def thenSync (state : State) : Except Err Unit × Live ℕ :=
  serve twoGroups (runServed twoGroups twoGroupsLive es) (.sync state, [])

/-- The sync returns success over a primary that it leaves with other counters or another state. -/
def Misses (state : State) : Prop :=
  (∀ e ∈ es, e.1.SparesPrimary) ∧ (thenSync es state).1 = .ok () ∧
    ¬ Carries (thenSync es state).2.vol (thenSync es state).2.dev state

lemma misses_of_read {es : List (Served ℕ)} {b : SuperImage}
    (h0 : ∀ e ∈ es, e.1.SparesPrimary) (hok : (thenSync es state).1 = .ok ())
    (hread : (thenSync es state).2.dev.read 0 = .super b)
    (hne : b.state ≠ state ∨ b.freeBlocks ≠ (thenSync es state).2.vol.freeBlocks) :
    Misses es state := by
  refine ⟨h0, hok, ?_⟩
  rintro ⟨n, hn⟩
  cases hread.symm.trans hn
  simp at hne

/-- An empty transaction clears the note of one that moved the counters; so does an abort. A dirty
mark that reached the device by a failed request stands there while the volume believes itself
clean. -/
theorem sync_misses : Entered twoGroups twoGroupsLive ∧
    Misses (movingTxn ++ [(.txnOpen, []), (.txnClose, [])]) .dirty ∧
    Misses (movingTxn.dropLast ++ [(.txnAbort, [])]) .dirty ∧
    Misses [(.txnOpen, [.done, .failed true])] .clean := by
  refine ⟨twoGroupsLive_entered, ?_, ?_, ?_⟩
  all_goals
    exact misses_of_read (b := ⟨0, .dirty, 2, 0, 0⟩) (by simp [movingTxn, Call.SparesPrimary])
      (by decide +kernel) (by decide +kernel) (by decide +kernel)

theorem sync_reconciles_movingTxn :
    Entered twoGroups twoGroupsLive ∧ (thenSync movingTxn .dirty).1 = .ok () ∧
      Carries (thenSync movingTxn .dirty).2.vol (thenSync movingTxn .dirty).2.dev .dirty := by
  have h0 : ∀ e ∈ movingTxn ++ [(.sync .dirty, [])], e.1.SparesPrimary := by
    simp [movingTxn, Call.SparesPrimary]
  have hc : runHeeds twoGroups twoGroupsLive (movingTxn ++ [(.sync .dirty, [])]) = true := by
    decide +kernel
  have hok : (thenSync movingTxn .dirty).1 = .ok () := by decide +kernel
  exact ⟨twoGroupsLive_entered, hok,
    sync_reconciles twoGroupsLive_entered h0 hc rfl (Prod.ext hok rfl)⟩

end Wfs.Journal
