import WasmOS.Wfs.Journal.Checkpoint

/-! # Crash atomicity of journaled runs

Every run from a formatted volume stays recoverable, provided no log write and no
CLEAN mark is issued while an advance of the tail is still in the device cache.
A write-through device always meets that condition; a caching one does not.
-/

namespace Wfs.Journal

open BlockDevice BlockDevice.Device BlockDevice.Prog List

variable {β : Type} (F : Format β) (writeThrough : Bool)

def Inv (content : ℕ → Option (Block β)) (s : Machine β) : Prop :=
  match s.sys with
  | .off disk => Recoverable F content (fresh writeThrough disk)
  | .on dev m => OnInv F content dev m s.txn
  | .stalled _ _ => False

def Call.needsTail : Call β → Bool
  | .txnStage _ _ => true
  | .txnClose => true
  | .sync .clean => true
  | _ => false

def Call.tailSettled (s : Machine β) (c : Call β) : Bool :=
  match s.sys with
  | .on dev _ => !c.needsTail || decide (dev.Settled F.journalStart)
  | _ => true

def Event.tailSettled (s : Machine β) : Event β → Bool
  | .call c => c.tailSettled F s
  | .stopIn c _ _ => c.tailSettled F s
  | _ => true

def runSettled (s : Machine β) : List (Event β) → Bool
  | [] => true
  | e :: es => e.tailSettled F s && runSettled (exec F writeThrough s e) es

variable {F writeThrough} {content : ℕ → Option (Block β)} {s : Machine β}

variable {dev : Disk β} {m : Mounted}

lemma Inv.on (h : OnInv F content dev m s.txn)
    (hs : s.sys = .on dev m) : Inv F writeThrough content s := by
  unfold Inv; rw [hs]; exact h

lemma recoverable_stopAt {α : Type} {p : Prog (Block β) α}
    {S : Set (ℕ → Option (Block β))} {Q : α → Disk β → Prop}
    (writeThrough : Bool) (h : p.wp (Safe F S) Q dev) (point : ℕ) (keep : List Bool) :
    ∃ c ∈ S, Recoverable F c (fresh writeThrough (stopAt p dev point keep)) := by
  unfold stopAt
  rcases hp : (p.points dev)[point]? with _ | e
  · exact wp_start h writeThrough keep
  · exact (wp_iff.mp h).1 e (mem_of_getElem? hp) writeThrough keep

def callContents (content : ℕ → Option (Block β)) (m : Mounted) (t : Txn β) (c : Call β) :
    Set (ℕ → Option (Block β)) :=
  { x | x = content ∨ (c = .txnClose ∧ m.vol.journal.isOpen = true ∧ x = t.apply content) }

def callContent (content : ℕ → Option (Block β)) (t : Txn β) (c : Call β) (r : Result) :
    ℕ → Option (Block β) :=
  match c with
  | .txnClose => if succeeded r.1 then t.apply content else content
  | _ => content

variable {c : Call β} {t : Txn β}

lemma call_inv (h : OnInv F content dev m t) (hl : c.Legal F) (hserved : c.served m.vol = true)
    (hs : c.needsTail = true → dev.Settled F.journalStart) :
    (c.prog F m.vol).wp (Safe F (callContents content m t c))
      (fun r e => OnInv F (callContent content t c r) e { m with vol := r.2 }
        (if succeeded r.1 then t.after c else t)) dev := by
  have hmem : ({content} : Set (ℕ → Option (Block β))) ⊆ callContents content m t c := by
    rintro x rfl
    exact .inl rfl
  have hsafe : Safe F (callContents content m t c) dev := h.ready.safe (.inl rfl)
  have hself : ∀ {p : Prog (Block β) Result} {Q : Result → Disk β → Prop},
      p.wp (Safe F {content}) Q dev → p.wp (Safe F (callContents content m t c)) Q dev :=
    fun hp => wp_mono hp (fun _ hc => hc.mono hmem) fun _ _ hq => hq
  cases c with
  | txnOpen => exact hself (txnOpen_inv h)
  | txnStage b v => exact hself (txnStage_inv h (hs rfl) hl.1 hl.2)
  | txnRevoke b => exact ⟨hsafe, txnRevoke_inv h hl⟩
  | txnNoteCounters blocks objects => exact ⟨hsafe, txnNoteCounters_inv h blocks objects⟩
  | txnClose =>
    have hclose := txnClose_inv h (hs rfl) (S := callContents content m t .txnClose) (.inl rfl)
      fun ho => .inr ⟨rfl, ho, rfl⟩
    refine wp_mono hclose (fun _ hc => hc) fun r e he => ?_
    simpa [callContent, Txn.after] using he
  | txnAbort => exact ⟨hsafe, h.abort t⟩
  | sync state =>
    have hclosed : m.vol.journal.isOpen = false := by simpa [Call.served] using hserved
    refine hself (wp_mono (sync_inv h hclosed ?_) (fun _ hc => hc) fun r e he => ?_)
    · rintro rfl; exact hs rfl
    · simpa [callContent, Txn.after] using he

section

variable (h : Inv F writeThrough content s)
include h

lemma exec_call_inv {e : Event β}
    (he : e = .call c ∨ ∃ point keep, e = .stopIn c point keep) (hl : c.Legal F)
    (hs : c.tailSettled F s = true) :
    ∃ o ∈ outcomes F s e, Inv F writeThrough (o.foldl (fun x t => t.apply x) content)
      (exec F writeThrough s e) := by
  rcases hsys : s.sys with disk | ⟨dev, m⟩ | ⟨dev, e⟩
  · refine ⟨[], ?_, by rcases he with rfl | ⟨point, keep, rfl⟩ <;> simpa [exec, hsys] using h⟩
    rcases he with rfl | ⟨point, keep, rfl⟩ <;> cases c <;> simp [outcomes, hsys]
  · have hon : OnInv F content dev m s.txn := by simpa [Inv, hsys] using h
    by_cases hserved : c.served m.vol = true
    · have hw := call_inv hon hl hserved (by
        intro hn
        simpa [Call.tailSettled, hsys, hn] using hs)
      rcases he with rfl | ⟨point, keep, rfl⟩
      · have hend := (wp_iff.mp hw).2
        have hexec : exec F writeThrough s (.call c) =
            ⟨.on ((c.prog F m.vol).run dev).2 { m with vol := ((c.prog F m.vol).run dev).1.2 },
              if succeeded ((c.prog F m.vol).run dev).1.1 then s.txn.after c else s.txn⟩ := by
          simp [exec, hsys, hserved]
        rw [hexec]
        cases c with
        | txnClose =>
          by_cases hok : succeeded ((txnClose F m.vol).run dev).1.1 = true
          · refine ⟨[s.txn], by simp [outcomes, hsys, hok], Inv.on ?_ rfl⟩
            simpa [callContent, Call.prog, hok] using hend
          · refine ⟨[], by simp [outcomes, hsys, hok], Inv.on ?_ rfl⟩
            simpa [callContent, Call.prog, hok] using hend
        | _ => exact ⟨[], by simp [outcomes], Inv.on hend rfl⟩
      obtain ⟨x, hx, hrec⟩ := recoverable_stopAt writeThrough hw point keep
      have hexec : exec F writeThrough s (.stopIn c point keep) =
          ⟨.off (stopAt (c.prog F m.vol) dev point keep), .empty⟩ := by
        simp [exec, hsys, hserved]
      rw [hexec]
      rcases hx with rfl | ⟨rfl, hopen, rfl⟩
      · refine ⟨[], ?_, hrec⟩
        cases c with
        | txnClose => by_cases ho : m.vol.journal.isOpen = true <;> simp [outcomes, hsys, ho]
        | _ => simp [outcomes]
      · exact ⟨[s.txn], by simp [outcomes, hsys, hopen], hrec⟩
    · refine ⟨[], ?_, by rcases he with rfl | ⟨point, keep, rfl⟩ <;>
        simpa [exec, hsys, hserved] using h⟩
      cases c with
      | txnClose => simp [Call.served] at hserved
      | _ => rcases he with rfl | ⟨point, keep, rfl⟩ <;> simp [outcomes]
  · simp [Inv, hsys] at h

lemma exec_mount_inv : Inv F writeThrough content (exec F writeThrough s .mount) := by
  rcases hsys : s.sys with disk | ⟨dev, m⟩ | ⟨dev, e⟩
  · have hrec : Recoverable F content (fresh writeThrough disk) := by simpa [Inv, hsys] using h
    obtain ⟨m, hm, hon⟩ := (wp_iff.mp (mount_inv hrec .empty)).2
    simpa [exec, hsys, hm, Inv] using hon
  · simpa [exec, hsys] using h
  · simpa [exec, hsys] using h

lemma exec_stopInMount_inv {point : ℕ} {keep : List Bool} :
    Inv F writeThrough content (exec F writeThrough s (.stopInMount point keep)) := by
  rcases hsys : s.sys with disk | ⟨dev, m⟩ | ⟨dev, e⟩
  · have hrec : Recoverable F content (fresh writeThrough disk) := by simpa [Inv, hsys] using h
    obtain ⟨x, rfl, hx⟩ := recoverable_stopAt writeThrough (mount_inv hrec .empty) point keep
    simpa [exec, hsys, Inv] using hx
  · simpa [exec, hsys] using h
  · simpa [exec, hsys] using h

lemma exec_settle_inv : Inv F writeThrough content (exec F writeThrough s .settle) := by
  rcases hsys : s.sys with disk | ⟨dev, m⟩ | ⟨dev, e⟩
  · simpa [exec, hsys] using h
  · have hon : OnInv F content dev m s.txn := by simpa [Inv, hsys] using h
    have hflush : OnInv F content dev.flush m s.txn := { hon with
        ready := .inl hon.ready.flush
        opened := fun ho =>
          let ⟨hd, hseq, htxn⟩ := hon.opened ho
          ⟨hd, hseq, { htxn with }⟩ }
    simpa [exec, hsys, Inv] using hflush
  · simpa [exec, hsys] using h

lemma exec_inv {e : Event β} (hl : e.Legal F) (hs : e.tailSettled F s = true) :
    ∃ o ∈ outcomes F s e, Inv F writeThrough (o.foldl (fun x t => t.apply x) content)
      (exec F writeThrough s e) := by
  cases e with
  | call c => exact exec_call_inv h (.inl rfl) hl hs
  | stopIn c point keep => exact exec_call_inv h (.inr ⟨point, keep, rfl⟩) hl hs
  | mount => exact ⟨[], by simp [outcomes], exec_mount_inv h⟩
  | stopInMount point keep => exact ⟨[], by simp [outcomes], exec_stopInMount_inv h⟩
  | settle => exact ⟨[], by simp [outcomes], exec_settle_inv h⟩

end

lemma contentAfter_append (disk : ℕ → Block β) (h o : List (Txn β)) :
    contentAfter disk (h ++ o) = o.foldl (fun x t => t.apply x) (contentAfter disk h) := by
  simp [contentAfter, foldl_append]

variable {disk : ℕ → Block β}

lemma run_inv : ∀ (es : List (Event β)) (s : Machine β) (past : List (Txn β)),
      Inv F writeThrough (contentAfter disk past) s → (∀ e ∈ es, e.Legal F) →
      runSettled F writeThrough s es = true → ∃ h ∈ histories F writeThrough s es,
        Inv F writeThrough (contentAfter disk (past ++ h)) (run F writeThrough s es)
  | [], s, past, hi, _, _ => ⟨[], by simp [histories], by simpa [run] using hi⟩
  | e :: es, s, past, hi, hl, hs => by
    simp only [runSettled, Bool.and_eq_true] at hs
    obtain ⟨o, ho, hio⟩ := exec_inv hi (hl e (by simp)) hs.1
    rw [← contentAfter_append] at hio
    obtain ⟨h, hh, hih⟩ := run_inv es _ (past ++ o) hio (fun e' he' => hl e' (by simp [he'])) hs.2
    refine ⟨o ++ h, ?_, ?_⟩
    · simp only [histories, mem_flatMap, mem_map]
      exact ⟨o, ho, h, hh, rfl⟩
    · simpa [run, append_assoc] using hih

lemma Formatted.idle (h : Formatted F disk) :
    Idle F 1 (contentAfter disk []) (fresh writeThrough disk) where
  tail v hv := (may_fresh_iff.mp hv).trans h.tail
  log c h1 hc v hv := logOk_of_not_log fun l hl => h.log c h1 hc l (by
    rw [← may_fresh_iff.mp hv, hl])
  home b v _ hv w hw := by
    obtain rfl : disk b = v := by simpa [contentAfter] using hv
    rw [may_fresh_iff.mp hw]
    exact agrees_refl F _ _
  primary v hv := by
    obtain ⟨n, blocks, objects, hs⟩ := h.super
    exact ⟨_, (may_fresh_iff.mp hv).trans hs, rfl, by simp⟩

def formatted (disk : ℕ → Block β) : Machine β := ⟨.off disk, .empty⟩

variable {es : List (Event β)}

lemma formatted_run_inv (hf : Formatted F disk)
    (hl : ∀ e ∈ es, e.Legal F) (hs : runSettled F writeThrough (formatted disk) es = true) :
    ∃ h ∈ histories F writeThrough (formatted disk) es,
      Inv F writeThrough (contentAfter disk h) (run F writeThrough (formatted disk) es) := by
  obtain ⟨h, hh, hi⟩ := run_inv es (formatted disk) [] (.inl ⟨1, hf.idle⟩) hl hs
  exact ⟨h, hh, by simpa using hi⟩

variable {d : Disk β}

lemma HomeHolds.matches (h : HomeHolds F content d) :
    Matches F d.read content := fun b v h0 hb hv => (h b v ⟨h0, hb⟩ hv).read

lemma Ready.matches {n : ℕ} (h : Ready F n content d) : Matches F d.read content := by
  rcases h with h | ⟨m, t, ts, rs, -, h⟩
  · exact h.home.matches
  · exact h.home.matches

lemma run_cache_nil {α : Type} (p : Prog (Block β) α)
    (hw : d.writeThrough = true) (hc : d.cache = []) :
    (p.run d).2.writeThrough = true ∧ (p.run d).2.cache = [] := by
  induction p generalizing d with
  | done a => exact ⟨hw, hc⟩
  | read b k ih => exact ih _ hw hc
  | write b v k ih => exact ih (by simpa using hw) (write_cache_of_writeThrough hw)
  | flush k ih => exact ih (by simpa using hw) rfl

def Uncached (s : Machine β) : Prop :=
  match s.sys with
  | .on dev _ => dev.writeThrough = true ∧ dev.cache = []
  | _ => True

lemma Uncached.exec (h : Uncached s) (e : Event β) : Uncached (exec F true s e) := by
  rcases hsys : s.sys with disk | ⟨dev, m⟩ | ⟨dev, err⟩
  · cases e with
    | mount =>
      have hrun := run_cache_nil (mount F) (d := fresh true disk) rfl rfl
      simp only [Journal.exec, hsys]
      split
      · exact hrun
      · trivial
    | _ => simp [Journal.exec, hsys, Uncached]
  · have hon : dev.writeThrough = true ∧ dev.cache = [] := by simpa [Uncached, hsys] using h
    cases e with
    | call c =>
      simp only [Journal.exec, hsys]
      split
      · exact run_cache_nil (c.prog F m.vol) hon.1 hon.2
      · exact h
    | stopIn c point keep =>
      simp only [Journal.exec, hsys]
      split
      · trivial
      · exact h
    | settle => simpa [Journal.exec, hsys, Uncached] using hon.1
    | _ => simpa [Journal.exec, hsys] using h
  · cases e <;> simpa [Journal.exec, hsys] using h

lemma Uncached.tailSettled (h : Uncached s) (e : Event β) : e.tailSettled F s = true := by
  have hcall : ∀ c : Call β, c.tailSettled F s = true := by
    intro c
    unfold Call.tailSettled
    split
    · rename_i dev m hsys
      have hon : dev.writeThrough = true ∧ dev.cache = [] := by simpa [Uncached, hsys] using h
      simp [settled_of_cache_nil hon.2]
    · rfl
  cases e <;> first | exact hcall _ | rfl

lemma Uncached.runSettled : ∀ (es : List (Event β)) {s : Machine β}, Uncached s →
    runSettled F true s es = true
  | [], _, _ => rfl
  | e :: es, s, h => by
    simp only [Journal.runSettled, h.tailSettled e, Bool.true_and]
    exact Uncached.runSettled es (h.exec e)

def System.image : System β → ℕ → Block β
  | .off disk => disk
  | .on dev _ => dev.crash []
  | .stalled dev _ => dev.crash []

variable (F) in
def recoverStops (disk : ℕ → Block β) (points : List ℕ) : ℕ → Block β :=
  points.foldl (fun d k => stopAt (loadAndReplay F .unmounted) (fresh true d) k []) disk

lemma Inv.recoverable (h : Inv F true content s) :
    Recoverable F content (fresh true s.sys.image) := by
  rcases hsys : s.sys with disk | ⟨dev, m⟩ | ⟨dev, e⟩
  · simpa [Inv, hsys, System.image] using h
  · have hon : OnInv F content dev m s.txn := by simpa [Inv, hsys] using h
    have hsafe : Safe F {content} dev := hon.ready.safe rfl
    obtain ⟨x, rfl, hx⟩ := hsafe true []
    exact hx
  · simp [Inv, hsys] at h

lemma closed_unmounted : Volume.unmounted.journal.isOpen = false := rfl

lemma recoverStops_recoverable (points : List ℕ) (h : Recoverable F content (fresh true disk)) :
    Recoverable F content (fresh true (recoverStops F disk points)) := by
  induction points generalizing disk with
  | nil => exact h
  | cons k ks ih =>
    have hw := loadAndReplay_recoverable closed_unmounted h
    obtain ⟨x, rfl, hx⟩ := recoverable_stopAt true hw k []
    exact ih hx

/-- On a write-through device, recovery of whatever a run leaves behind ends without error at the
content of an admissible history, however often interrupted. -/
theorem crash_atomic {disk : ℕ → Block β} (hf : Formatted F disk) (es : List (Event β))
    (hl : ∀ e ∈ es, e.Legal F) (points : List ℕ) :
    ∃ h ∈ histories F true (formatted disk) es, ∃ r dev,
      (loadAndReplay F .unmounted).run (fresh true
        (recoverStops F (run F true (formatted disk) es).sys.image points)) = (.ok r, dev) ∧
      Matches F dev.read (contentAfter disk h) := by
  obtain ⟨h, hh, hi⟩ := formatted_run_inv hf hl (Uncached.runSettled es trivial)
  have hrec := recoverStops_recoverable points hi.recoverable
  obtain ⟨vol, k, hr, hready⟩ := (wp_iff.mp (loadAndReplay_recoverable closed_unmounted hrec)).2
  exact ⟨h, hh, (vol, k), _, Prod.ext hr rfl, hready.matches⟩

def twoGroups : Format ℕ where
  blockSize := 4096
  totalBlocks := 40000
  journalStart := 2
  journalBlocks := 28
  blockSize_mem := by decide
  journalStart_pos := by decide
  journal_fits := by decide
  journal_room := by decide
  journal_before_backups := by decide
  crc32c
    | .data v => v
    | _ => 0

def twoGroupsDisk (b : ℕ) : Block ℕ :=
  if b = 0 then .super ⟨0, .clean, 1, 0, 0⟩
  else if b = 2 then journalSuper twoGroups 1
  else if b = 32768 then .super ⟨32768, .clean, 1, 0, 0⟩
  else .data 0

lemma twoGroups_formatted : Formatted twoGroups twoGroupsDisk where
  super := ⟨1, 0, 0, rfl⟩
  tail := rfl
  log c h1 hc l := by
    have hc' : c < 28 := hc
    have h2 : ¬ (2 + c = 0 ∨ 2 + c = 2 ∨ 2 + c = 32768) := by omega
    simp only [not_or] at h2
    change twoGroupsDisk (2 + c) ≠ _
    rw [twoGroupsDisk, if_neg h2.1, if_neg h2.2.1, if_neg h2.2.2]
    simp

def stoppedClose : List (Event ℕ) :=
  [.mount, .call .txnOpen, .call (.txnStage 100 (.data 7)), .stopIn .txnClose 0 []]

lemma stoppedClose_legal : ∀ e ∈ stoppedClose, e.Legal twoGroups := by
  have h100 : twoGroups.targetIsLegal 100 = true := by decide
  simp [stoppedClose, Event.Legal, Call.Legal, h100]

/-- A commit, a second one that stops behind its COMMIT block, and a mount that stops too. -/
def stoppedTwice : List (Event ℕ) :=
  [.mount, .call .txnOpen, .call (.txnStage 100 (.data 7)), .call (.txnStage 101 (.data 8)),
    .call .txnClose, .call .txnOpen, .call (.txnStage 100 (.data 9)), .call (.txnRevoke 102),
    .stopIn .txnClose 4 [true], .stopInMount 3 [true, false]]

lemma stoppedTwice_legal : ∀ e ∈ stoppedTwice, e.Legal twoGroups := by
  have hlegal : twoGroups.targetIsLegal 100 = true ∧ twoGroups.targetIsLegal 101 = true ∧
      twoGroups.targetIsLegal 102 = true := by decide
  simp [stoppedTwice, Event.Legal, Call.Legal, hlegal]

theorem crash_atomic_stoppedTwice :
    Formatted twoGroups twoGroupsDisk ∧ (∀ e ∈ stoppedTwice, e.Legal twoGroups) ∧
    ∃ h ∈ histories twoGroups true (formatted twoGroupsDisk) stoppedTwice, ∃ r dev,
      (loadAndReplay twoGroups .unmounted).run (fresh true (recoverStops twoGroups
        (run twoGroups true (formatted twoGroupsDisk) stoppedTwice).sys.image [0])) = (.ok r, dev) ∧
      Matches twoGroups dev.read (contentAfter twoGroupsDisk h) :=
  ⟨twoGroups_formatted, stoppedTwice_legal,
    crash_atomic twoGroups_formatted stoppedTwice stoppedTwice_legal [0]⟩

/-- The dirty mark rewrites the backup superblock: no admissible history holds what block 32768
holds after recovery. -/
theorem dirty_mark_rewrites_backup :
    Formatted twoGroups twoGroupsDisk ∧ (∀ e ∈ stoppedClose, e.Legal twoGroups) ∧
    (32768 < twoGroups.journalStart ∨ twoGroups.journalStart + twoGroups.journalBlocks ≤ 32768) ∧
    ∀ h ∈ histories twoGroups true (formatted twoGroupsDisk) stoppedClose,
      32768 ∉ h.flatMap Txn.revoked ∧ contentAfter twoGroupsDisk h 32768 ≠ some
        (((loadAndReplay twoGroups .unmounted).run (fresh true
          (run twoGroups true (formatted twoGroupsDisk) stoppedClose).sys.image)).2.read 32768) :=
  ⟨twoGroups_formatted, stoppedClose_legal, by decide, by decide +kernel⟩

variable (F writeThrough) in
/-- The volume is mounted without a replay failure, at an admissible content. -/
def MountedAt (disk : ℕ → Block β) (es : List (Event β)) (dev : Disk β)
    (m : Mounted) : Prop := m.journalErr = none ∧ m.vol.readOnly = false ∧ m.vol.state ≠ .error ∧
    ∃ h ∈ histories F writeThrough (formatted disk) es, Matches F dev.read (contentAfter disk h)

variable (F writeThrough) in
/-- After the run the volume is mounted at an admissible content, or the next mount brings it
there. -/
structure Survives (disk : ℕ → Block β) (es : List (Event β)) : Prop where
  on : ∀ dev m, (run F writeThrough (formatted disk) es).sys = .on dev m →
    MountedAt F writeThrough disk es dev m
  off : ∀ img, (run F writeThrough (formatted disk) es).sys = .off img →
    ∃ m dev, (mount F).run (fresh writeThrough img) = (.ok m, dev) ∧
      MountedAt F writeThrough disk es dev m
  mounts : ∀ dev e, (run F writeThrough (formatted disk) es).sys ≠ .stalled dev e

lemma OnInv.mountedAt {h : List (Txn β)} (hh : h ∈ histories F writeThrough (formatted disk) es)
    (hon : OnInv F (contentAfter disk h) dev m t) : MountedAt F writeThrough disk es dev m :=
  ⟨hon.noErr, hon.writable, hon.state, h, hh, hon.ready.matches⟩

/-- Runs that never write the log, or mark the volume CLEAN, over a cached tail survive power loss.
-/
theorem survives_of_runSettled {disk : ℕ → Block β} (hf : Formatted F disk)
    (es : List (Event β)) (hl : ∀ e ∈ es, e.Legal F)
    (hs : runSettled F writeThrough (formatted disk) es = true) :
    Survives F writeThrough disk es := by
  obtain ⟨h, hh, hi⟩ := formatted_run_inv hf hl hs
  unfold Inv at hi
  constructor
  · intro dev m hsys
    rw [hsys] at hi
    exact OnInv.mountedAt hh hi
  · intro img hsys
    rw [hsys] at hi
    obtain ⟨m, hm, hon⟩ := (wp_iff.mp (mount_inv hi .empty)).2
    exact ⟨m, _, Prod.ext hm rfl, OnInv.mountedAt hh hon⟩
  · intro dev e hsys
    rwa [hsys] at hi

def settledRun : List (Event ℕ) :=
  [.mount, .call .txnOpen, .call (.txnStage 100 (.data 7)), .call .txnClose, .settle,
    .call .txnOpen, .call (.txnStage 101 (.data 8)), .stopIn .txnAbort 0 [true], .mount]

theorem survives_settledRun :
    runSettled twoGroups false (formatted twoGroupsDisk) settledRun = true ∧
      Survives twoGroups false twoGroupsDisk settledRun := by
  have hs : runSettled twoGroups false (formatted twoGroupsDisk) settledRun = true := by
    decide +kernel
  have h100 : twoGroups.targetIsLegal 100 = true := by decide
  have h101 : twoGroups.targetIsLegal 101 = true := by decide
  have hl : ∀ e ∈ settledRun, e.Legal twoGroups := by
    simp [settledRun, Event.Legal, Call.Legal, h100, h101]
  exact ⟨hs, survives_of_runSettled twoGroups_formatted settledRun hl hs⟩

/-- Power loss drops the tail of the first transaction and keeps an image the second staged over it.
-/
def lostTail : List (Event ℕ) :=
  [.mount, .call .txnOpen, .call (.txnStage 100 (.data 7)), .call .txnClose,
    .call .txnOpen, .call (.txnStage 101 (.data 8)), .stopIn .txnAbort 0 [false, true], .mount]

def System.journalErr : System β → Option Err
  | .on _ m => m.journalErr
  | _ => none

lemma Survives.journalErr (h : Survives F writeThrough disk es) :
    (run F writeThrough (formatted disk) es).sys.journalErr = none := by
  rcases hsys : (run F writeThrough (formatted disk) es).sys with img | ⟨dev, m⟩ | ⟨dev, e⟩
  · rfl
  · exact (h.on dev m hsys).1
  · rfl

/-- The mount after the lost tail finds an image that is not the committed one and fails. -/
theorem lostTail_not_survives :
    Formatted twoGroups twoGroupsDisk ∧ (∀ e ∈ lostTail, e.Legal twoGroups) ∧
      ¬ Survives twoGroups false twoGroupsDisk lostTail := by
  have h100 : twoGroups.targetIsLegal 100 = true := by decide
  have h101 : twoGroups.targetIsLegal 101 = true := by decide
  refine ⟨twoGroups_formatted, by simp [lostTail, Event.Legal, Call.Legal, h100, h101], ?_⟩
  have herr : (run twoGroups false (formatted twoGroupsDisk) lostTail).sys.journalErr =
      some .replay := by decide +kernel
  intro h
  exact Option.some_ne_none _ (herr.symm.trans h.journalErr)

end Wfs.Journal
