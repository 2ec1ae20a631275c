import Mathlib.Data.List.Infix
import Mathlib.Data.List.TakeWhile
import WasmOS.Wfs.Journal.CrashAtomic

/-! # The two appliers of the log

A commit checkpoints its images from the tables in memory; recovery applies them from the records it
parses, without the revoked ones. Both are lists of block copies out of the log and are compared
block by block, for logs of any content.
-/

namespace Wfs.Journal

open BlockDevice BlockDevice.Device BlockDevice.Prog List Txn Volume Log

variable {β : Type} (F : Format β)

def logRecord (d : Disk β) (n c : ℕ) : Option Record :=
  (d.read (F.journalStart + c)).recordIsLive (F.journalStart + c) n

/-- From log block `c` on, revoke records lead up to a COMMIT of `count` targets, each replacing the
list of the one before. -/
inductive Scans (d : Disk β) (n count : ℕ) : ℕ → List ℕ → List ℕ → Prop
  | commit {c : ℕ} {rs : List ℕ} (hc : c < F.journalBlocks)
      (hrec : logRecord F d n c = some (.commit count)) : Scans d n count c rs rs
  | revoke {c : ℕ} {rs blocks next out : List ℕ} (hc : c < F.journalBlocks)
      (hrec : logRecord F d n c = some (.revoke blocks))
      (hparse : parseRevoke F.toGeometry blocks = .ok next)
      (rest : Scans d n count (c + 1) next out) : Scans d n count c rs out

/-- The log holds a COMMIT of sequence `n` for the targets `ts` with the blocks `rs` revoked. -/
structure Committed (d : Disk β) (n : ℕ) (ts : List (ℕ × ℕ)) (rs : List ℕ) : Prop where
  descriptor : ∃ records, logRecord F d n 1 = some (.descriptor records) ∧
    parseDescriptor F.toGeometry records = .ok ts
  commit : Scans F d n ts.length (2 + ts.length) [] rs

structure Image where
  block : ℕ
  target : ℕ
  checksum : ℕ

def liveImages (rs : List ℕ) : ℕ → List (ℕ × ℕ) → List Image
  | _, [] => []
  | index, (target, checksum) :: rest =>
    if target ∈ rs then liveImages rs (index + 1) rest
    else ⟨F.journalStart + (2 + index), target, checksum⟩ :: liveImages rs (index + 1) rest

namespace Image

def copy (x : Image) : ℕ × ℕ := (x.block, x.target)

def matches? (d : Disk β) (x : Image) : Bool := F.crc32c (d.read x.block) == x.checksum

end Image

/-- The image that is copied last to block `b`. -/
def lastFor (xs : List Image) (b : ℕ) : Option Image := xs.reverse.find? fun x => x.target == b

/-- Each block holds the last of the images `xs` for it. -/
def InPlace (d : Disk β) (xs : List Image) : Prop :=
  ∀ b x, lastFor xs b = some x → d.read x.block = d.read b

/-- The images before the first damaged one. -/
def soundImages (d : Disk β) (rs : List ℕ) (ts : List (ℕ × ℕ)) : List Image :=
  (liveImages F rs 0 ts).takeWhile (Image.matches? F d)

/-- No image is damaged, or the ones before the first damaged one are in place already. -/
def Orderly (d : Disk β) (rs : List ℕ) (ts : List (ℕ × ℕ)) : Prop :=
  (liveImages F rs 0 ts).all (Image.matches? F d) = true ∨ InPlace d (soundImages F d rs ts)

variable {F} {d e : Disk β} {n : ℕ} {ts : List (ℕ × ℕ)} {rs : List ℕ} {vol : Volume} {j : Log}

lemma parseTargets_ok {acc : List (ℕ × ℕ)} {records : List TargetRecord}
    (h : parseTargets F.toGeometry acc records = .ok ts)
    (hacc : ∀ t ∈ acc, F.targetIsLegal t.1 = true) : ∀ t ∈ ts, F.targetIsLegal t.1 = true := by
  induction records generalizing acc with
  | nil =>
    rw [parseTargets] at h
    split at h
    · cases h
    · cases h; exact hacc
  | cons r records ih =>
    rw [parseTargets] at h
    split at h
    · cases h
    split at h
    · cases h; exact hacc
    split at h
    · cases h
    split at h
    · cases h
    rename_i hlegal _
    have hacc' : ∀ t ∈ acc ++ [(r.target, r.checksum)], F.targetIsLegal t.1 = true :=
      forall_mem_append.mpr ⟨hacc, forall_mem_singleton.mpr (by simpa using hlegal)⟩
    split at h
    · cases h; exact hacc'
    · exact ih h hacc'

lemma Committed.legal (h : Committed F d n ts rs) : ∀ t ∈ ts, F.targetIsLegal t.1 = true := by
  obtain ⟨records, -, hparse⟩ := h.descriptor
  exact parseTargets_ok hparse (by simp)

lemma Scans.lt {count c : ℕ} {out : List ℕ} (h : Scans F d n count c rs out) :
    c < F.journalBlocks := by
  cases h <;> assumption

lemma Committed.room (h : Committed F d n ts rs) : 2 + ts.length < F.journalBlocks := h.commit.lt

variable {v : Block β} {b : ℕ}

section Images

variable {index : ℕ}

lemma mem_liveImages {x : Image} (h : x ∈ liveImages F rs index ts) :
    (∃ i < ts.length, x.block = F.journalStart + (2 + (index + i))) ∧
      (x.target, x.checksum) ∈ ts ∧ x.target ∉ rs := by
  induction ts generalizing index with
  | nil => simp [liveImages] at h
  | cons t ts ih =>
    have tail : x ∈ liveImages F rs (index + 1) ts →
        (∃ i < (t :: ts).length, x.block = F.journalStart + (2 + (index + i))) ∧
          (x.target, x.checksum) ∈ t :: ts ∧ x.target ∉ rs := by
      intro hx
      obtain ⟨⟨i, hi, hb⟩, hmem, hr⟩ := ih hx
      exact ⟨⟨i + 1, by simpa using hi, by rw [hb]; omega⟩, .tail _ hmem, hr⟩
    rw [liveImages] at h
    split at h
    · exact tail h
    rename_i hr
    rcases mem_cons.mp h with rfl | h
    · exact ⟨⟨0, by simp, rfl⟩, .head _, hr⟩
    · exact tail h

lemma liveImages_append (pre post : List (ℕ × ℕ)) {t c : ℕ} (ht : t ∉ rs) :
    liveImages F rs index (pre ++ (t, c) :: post) =
      liveImages F rs index pre ++ ⟨F.journalStart + (2 + (index + pre.length)), t, c⟩ ::
        liveImages F rs (index + pre.length + 1) post := by
  induction pre generalizing index with
  | nil => simp [liveImages, ht]
  | cons p pre ih =>
    simp only [cons_append, liveImages, ih, length_cons]
    have hindex : index + 1 + pre.length = index + (pre.length + 1) := by omega
    rw [hindex]
    split <;> rfl

lemma liveImages_eq_filter : liveImages F rs index ts =
    (ts.mapIdx fun i t => ⟨F.journalStart + (2 + (index + i)), t.1, t.2⟩).filter
      fun x => decide (x.target ∉ rs) := by
  induction ts generalizing index with
  | nil => rfl
  | cons t ts ih =>
    simp only [liveImages, ih, mapIdx_cons, add_zero, filter_cons, decide_not, add_assoc,
      add_comm 1]
    by_cases hr : t.1 ∈ rs <;> simp [hr]

lemma matches?_write {x : Image} (hb : F.targetIsLegal b = true)
    (hx : ∃ i < F.journalBlocks, x.block = F.journalStart + i) :
    x.matches? F (d.write b v) = x.matches? F d := by
  obtain ⟨i, hi, hblock⟩ := hx
  have hne : x.block ≠ b := hblock ▸ (Geometry.ne_log_of_legal hb hi).symm
  rw [Image.matches?, Image.matches?, read_write, if_neg hne]

/-- A replay applies the live images up to the first damaged one, by `good`. -/
lemma replayImages_run (good : Image → Bool) (hj : j.start = F.journalStart)
    (hlegal : ∀ t ∈ ts, F.targetIsLegal t.1 = true)
    (hroom : 2 + index + ts.length ≤ F.journalBlocks)
    (hgood : ∀ x ∈ liveImages F rs index ts, x.matches? F d = good x) (applied : ℕ) :
    (replayImages F j rs index applied ts).run d = (if (liveImages F rs index ts).all good then
          .ok (applied + (liveImages F rs index ts).length)
        else .error .replay,
        d.copies (((liveImages F rs index ts).takeWhile good).map Image.copy)) ∧
      (replayImages F j rs index applied ts).points d =
        ((liveImages F rs index ts).takeWhile good).inits.map fun xs =>
          d.copies (xs.map Image.copy) := by
  induction ts generalizing index applied d with
  | nil => simp [replayImages, liveImages]
  | cons t ts ih =>
    obtain ⟨target, checksum⟩ := t
    simp only [length_cons] at hroom
    have hroom' : 2 + (index + 1) + ts.length ≤ F.journalBlocks := by omega
    have hrest := fun t ht => hlegal t (.tail _ ht)
    have hblock : j.imageBlock index = F.journalStart + (2 + index) := by
      rw [imageBlock, hj]; omega
    rw [replayImages]
    by_cases hr : target ∈ rs
    · rw [liveImages, if_pos hr] at hgood
      simpa only [if_pos hr, liveImages] using ih hrest hroom' hgood applied
    rw [liveImages, if_neg hr] at hgood
    have hhead := hgood _ (.head _)
    simp only [if_neg hr, run_bind, run_readBlock, points_bind, points_readBlock, hblock,
      liveImages]
    rw [Image.matches?] at hhead
    by_cases hm : F.crc32c (d.read (F.journalStart + (2 + index))) = checksum
    · have hgood' : ∀ x ∈ liveImages F rs (index + 1) ts,
          x.matches? F (d.write target (d.read (F.journalStart + (2 + index)))) = good x := by
        intro x hx
        obtain ⟨⟨i, hi, hb⟩, -⟩ := mem_liveImages hx
        rw [matches?_write (hlegal _ (.head _)) ⟨2 + (index + 1 + i), by omega, hb⟩]
        exact hgood x (.tail _ hx)
      have hthis : good ⟨F.journalStart + (2 + index), target, checksum⟩ = true := by
        rw [← hhead]; simpa using hm
      obtain ⟨hrun, hpoints⟩ := ih hrest hroom' hgood' (applied + 1)
      constructor
      · simp only [hm, ne_eq, not_true_eq_false, if_false, run_bind, run_writeBlock, hrun, all_cons,
          hthis, Bool.true_and, length_cons, takeWhile_cons, if_true, map_cons, copies_cons,
          Image.copy, add_assoc, add_comm 1]
      · simp [hm, hthis, hpoints, Function.comp_def, Image.copy]
    · have hthis : good ⟨F.journalStart + (2 + index), target, checksum⟩ = false := by
        rw [← hhead]; simpa using hm
      simp [hm, hthis]

end Images

lemma scans_iff {count c : ℕ} {out : List ℕ} : Scans F d n count c rs out ↔
    c < F.journalBlocks ∧ (logRecord F d n c = some (.commit count) ∧ out = rs ∨
      ∃ blocks next, logRecord F d n c = some (.revoke blocks) ∧
        parseRevoke F.toGeometry blocks = .ok next ∧ Scans F d n count (c + 1) next out) := by
  constructor
  · rintro (⟨hc, h⟩ | ⟨hc, h, hp, hrest⟩)
    · exact ⟨hc, .inl ⟨h, rfl⟩⟩
    · exact ⟨hc, .inr ⟨_, _, h, hp, hrest⟩⟩
  rintro ⟨hc, ⟨h, rfl⟩ | ⟨blocks, next, h, hp, hrest⟩⟩
  · exact .commit hc h
  · exact .revoke hc h hp hrest

lemma scanCommit_run (hj : Loaded F n j) (count : ℕ) : ∀ left c rs, left = F.journalBlocks - c →
      ∃ r, (scanCommit F.toGeometry j count left c rs).run d = (r, d) ∧
        (scanCommit F.toGeometry j count left c rs).points d = [d] ∧
        ∀ out, r = .ok (some out) ↔ Scans F d n count c rs out := by
  intro left
  induction left with
  | zero =>
    intro c rs hleft
    refine ⟨.ok none, rfl, rfl, fun out => iff_of_false (by simp) fun h => ?_⟩
    have := h.lt
    omega
  | succ left ih =>
    intro c rs hleft
    have hc : c < F.journalBlocks := by omega
    simp only [scanCommit, run_bind, run_readBlock, points_bind, points_readBlock,
      dropLast_singleton, nil_append, hj.start, hj.next, scans_iff (c := c), hc, true_and,
      logRecord]
    rcases (d.read (F.journalStart + c)).recordIsLive (F.journalStart + c) n with _ | r
    · exact ⟨.ok none, rfl, rfl, by simp⟩
    cases r with
    | descriptor | unknown => exact ⟨.error .journal, rfl, rfl, by simp⟩
    | commit k =>
      by_cases hk : k = count
      · exact ⟨.ok (some rs), by simp [hk], by simp [hk], by simp [hk, eq_comm]⟩
      · exact ⟨.error .journal, by simp [hk], by simp [hk], by simp [hk]⟩
    | revoke blocks =>
      rcases hparse : parseRevoke F.toGeometry blocks with err | next
      · exact ⟨.error err, by simp [hparse], by simp [hparse], by simp [hparse]⟩
      · obtain ⟨r, hrun, hpoints, hiff⟩ := ih (c + 1) next (by omega)
        exact ⟨r, by simp [hparse, hrun], by simp [hparse, hpoints], by simp [hparse, hiff]⟩

def replayed (F : Format β) (d : Disk β) (n : ℕ) (rs : List ℕ) (ts : List (ℕ × ℕ)) : Disk β :=
  (d.copies ((liveImages F rs 0 ts).map Image.copy)).flush.write F.journalStart
    (journalSuper F (n + 1))

lemma read_replayed (hb : OutsideJournal F b) :
    (replayed F d n rs ts).read b = (d.copies ((liveImages F rs 0 ts).map Image.copy)).read b := by
  have hroom := F.journalBlocks_ge
  have hne : b ≠ F.journalStart := by simpa using hb.ne (c := 0) (by omega)
  rw [replayed, read_write, if_neg hne, read_flush]

lemma read_stopped {xs : List Image} {rest : List (Disk β)} {k : ℕ}
    (hrest : ∀ e ∈ rest, e.read b = (d.copies (xs.map Image.copy)).read b)
    (h : ((xs.inits.map fun ys => d.copies (ys.map Image.copy)).dropLast ++ rest)[k]? = some e) :
    e.read b = (d.copies ((xs.take k).map Image.copy)).read b := by
  rw [getElem?_append] at h
  split at h
  · obtain ⟨-, rfl⟩ := List.getElem?_eq_some_iff.mp h
    rw [getElem_dropLast, getElem_map, getElem_inits]
  · next hk =>
    rw [length_dropLast, length_map, length_inits] at hk
    rw [take_of_length_le (by omega), hrest e (mem_of_getElem? h)]

/-- The three ends of a replay: nothing committed, a damaged image, or everything applied. Stopped
on the way, it has applied the images up to there. -/
lemma journalReplay_run (hj : Loaded F n vol.journal) :
    (∃ r, (journalReplay F vol).run d = (r, d) ∧ (journalReplay F vol).points d = [d] ∧
      ∀ ts rs, ¬ Committed F d n ts rs) ∨
    ∃ ts rs, Committed F d n ts rs ∧ (∀ k e, ((journalReplay F vol).points d)[k]? = some e →
        ∀ b, OutsideJournal F b →
          e.read b = (d.copies (((soundImages F d rs ts).take k).map Image.copy)).read b) ∧
      (((liveImages F rs 0 ts).all (Image.matches? F d) = false ∧
        (journalReplay F vol).run d = (.error .replay,
          d.copies ((soundImages F d rs ts).map Image.copy))) ∨
      ((liveImages F rs 0 ts).all (Image.matches? F d) = true ∧
        ∃ k, (journalReplay F vol).run d = (.ok (vol.atSequence (n + 1), k),
          replayed F d n rs ts))) := by
  have hdesc : vol.journal.descriptorBlock = F.journalStart + 1 := by
    rw [descriptorBlock, hj.start]
  simp only [journalReplay, run_bind, run_readBlock, points_bind, points_readBlock,
    dropLast_singleton, nil_append, hdesc, hj.next]
  have hnone : ∀ {o}, logRecord F d n 1 = o → (∀ records, o ≠ some (.descriptor records)) →
      ∀ ts rs, ¬ Committed F d n ts rs := by
    rintro o rfl ho ts rs ⟨⟨records, h, -⟩, -⟩
    exact ho records h
  rcases hrec : (d.read (F.journalStart + 1)).recordIsLive (F.journalStart + 1) n with _ | r
  · exact .inl ⟨_, rfl, rfl, hnone hrec (by simp)⟩
  cases r with
  | commit | revoke | unknown => exact .inl ⟨_, rfl, rfl, hnone hrec (by simp)⟩
  | descriptor records =>
    have hread : ∀ ts rs, Committed F d n ts rs →
        parseDescriptor F.toGeometry records = .ok ts := by
      rintro ts rs ⟨⟨records', h, hparse⟩, -⟩
      rw [logRecord, hrec] at h
      cases h
      exact hparse
    rcases hparse : parseDescriptor F.toGeometry records with err | ts
    · refine .inl ⟨_, by simp only [hparse]; rfl, by simp only [hparse]; rfl, fun ts rs h => ?_⟩
      rw [hread ts rs h] at hparse
      cases hparse
    obtain ⟨r, hrun, hpoints, hiff⟩ := scanCommit_run (d := d) hj ts.length
      (F.journalBlocks - (2 + ts.length)) (2 + ts.length) [] rfl
    have hscan : ∀ ts' rs, Committed F d n ts' rs → r = .ok (some rs) := by
      intro ts' rs h
      cases hparse.symm.trans (hread ts' rs h)
      exact (hiff rs).mpr h.commit
    simp only [hparse, run_bind, points_bind, hj.blocks, hrun, hpoints, dropLast_singleton,
      nil_append]
    rcases r with err | _ | rs
    iterate 2
      · refine .inl ⟨_, rfl, rfl, fun ts rs h => ?_⟩
        cases hscan ts rs h
    have hcom : Committed F d n ts rs := ⟨⟨records, hrec, hparse⟩, (hiff rs).mp rfl⟩
    refine .inr ⟨ts, rs, hcom, ?_⟩
    have hroom : 2 + 0 + ts.length ≤ F.journalBlocks := by have := hcom.room; omega
    rw [soundImages]
    obtain ⟨himages, hcopied⟩ := replayImages_run (Image.matches? F d) hj.start hcom.legal hroom
      (fun x (_ : x ∈ liveImages F rs 0 ts) => rfl) 0
    simp only [run_bind, points_bind, himages, hcopied]
    rcases hall : (liveImages F rs 0 ts).all (Image.matches? F d) with _ | _
    · exact ⟨fun k e he b _ => read_stopped (by simp) he, .inl ⟨rfl, rfl⟩⟩
    have htake := takeWhile_eq_self_iff.mpr (all_eq_true.mp hall)
    refine ⟨fun k e he b hb => read_stopped ?_ he,
      .inr ⟨rfl, 0 + (liveImages F rs 0 ts).length, ?_⟩⟩
    · have hlast : (replayed F d n rs ts).read b = _ := read_replayed hb
      rw [replayed] at hlast
      simp [htake, replayRetire, hj.start, hj.next, hlast]
    simp only [if_true, htake, replayRetire, run_bind, run_flushBlocks, run_writeBlock,
      run_pure, hj.start, hj.next, replayed]

lemma lastFor_cons (x : Image) (xs : List Image) (b : ℕ) :
    lastFor (x :: xs) b = (lastFor xs b).or (if x.target = b then some x else none) := by
  rw [lastFor, reverse_cons, find?_append]
  split
  · next h => rw [find?_cons_of_pos (by simpa using h)]; rfl
  · next h => rw [find?_cons_of_neg (by simpa using h)]; rfl

/-- Copies out of the log leave at a block the last image for it. -/
lemma read_copies_images {xs : List Image} (h : ∀ x ∈ xs, ∀ y ∈ xs, x.block ≠ y.target) (b : ℕ) :
    (d.copies (xs.map Image.copy)).read b = (lastFor xs b).elim (d.read b) (d.read ·.block) := by
  induction xs generalizing d with
  | nil => rfl
  | cons x xs ih =>
    have hrest : ∀ y ∈ xs, ∀ z ∈ xs, y.block ≠ z.target :=
      fun y hy z hz => h y (.tail _ hy) z (.tail _ hz)
    rw [map_cons, copies_cons, ih hrest, lastFor_cons]
    rcases hlast : lastFor xs b with _ | y
    · simp only [Image.copy, Option.none_or, Option.elim_none, read_write, eq_comm (a := b)]
      split <;> rfl
    · have hy : y ∈ xs := mem_reverse.mp (mem_of_find?_eq_some hlast)
      simp only [Option.some_or, Option.elim_some, Image.copy, read_write,
        if_neg (h y (.tail _ hy) x (.head _))]

lemma Committed.block_ne (h : Committed F d n ts rs) :
    ∀ x ∈ liveImages F rs 0 ts, ∀ y ∈ liveImages F rs 0 ts, x.block ≠ y.target := by
  intro x hx y hy
  obtain ⟨⟨i, hi, hblock⟩, -⟩ := mem_liveImages hx
  have hroom := h.room
  rw [hblock]
  exact (Geometry.ne_log_of_legal (h.legal _ (mem_liveImages hy).2.1) (by omega)).symm

lemma mem_copy_target {xs : List Image} :
    b ∈ (xs.map Image.copy).map Prod.snd ↔ ∃ x ∈ xs, x.target = b := by
  simp [Image.copy]

lemma Committed.read_replayed (h : Committed F d n ts rs) {pre post : List (ℕ × ℕ)} {t c : ℕ}
    (hts : ts = pre ++ (t, c) :: post) (ht : t ∉ rs) (hlast : t ∉ post.map Prod.fst) :
    (replayed F d n rs ts).read t = d.read (F.journalStart + (2 + pre.length)) := by
  have hlegal := h.legal
  have hroom := h.room
  have hthis : F.targetIsLegal t = true := hlegal (t, c) (by simp [hts])
  rw [Journal.read_replayed (.of_legal hthis), hts, liveImages_append pre post ht, map_append,
    map_cons]
  simp only [zero_add]
  refine read_copies_last ?_ ?_
  · rw [mem_copy_target]
    rintro ⟨x, hx, hxt⟩
    have hmem := (mem_liveImages hx).2.1
    have hx' : F.targetIsLegal x.target = true :=
      hlegal (x.target, x.checksum) (by rw [hts]; exact mem_append_left _ hmem)
    rw [hts, length_append, length_cons] at hroom
    exact Geometry.ne_log_of_legal hx' (by omega) hxt
  · rw [mem_copy_target]
    rintro ⟨x, hx, rfl⟩
    exact hlast (mem_map_of_mem (mem_liveImages hx).2.1)

lemma Scans.unique {count c : ℕ} {out out' : List ℕ} (h : Scans F d n count c rs out)
    (h' : Scans F d n count c rs out') : out = out' := by
  induction h with
  | commit hc hrec =>
    rcases (scans_iff.mp h').2 with ⟨-, h'⟩ | ⟨blocks, next, hrec', -⟩
    · exact h'.symm
    · cases hrec.symm.trans hrec'
  | revoke hc hrec hparse _ ih =>
    rcases (scans_iff.mp h').2 with ⟨hrec', -⟩ | ⟨blocks, next, hrec', hparse', hrest⟩
    · cases hrec.symm.trans hrec'
    cases hrec.symm.trans hrec'
    cases hparse.symm.trans hparse'
    exact ih hrest

lemma Committed.unique {ts' : List (ℕ × ℕ)} {rs' : List ℕ} (h : Committed F d n ts rs)
    (h' : Committed F d n ts' rs') : ts = ts' ∧ rs = rs' := by
  obtain ⟨⟨records, hrec, hparse⟩, hscan⟩ := h
  obtain ⟨⟨records', hrec', hparse'⟩, hscan'⟩ := h'
  cases hrec.symm.trans hrec'
  cases hparse.symm.trans hparse'
  exact ⟨rfl, hscan.unique hscan'⟩

lemma Committed.forall_iff {P : List (ℕ × ℕ) → List ℕ → Prop} (h : Committed F d n ts rs) :
    (∀ ts' rs', Committed F d n ts' rs' → P ts' rs') ↔ P ts rs := by
  refine ⟨fun hP => hP ts rs h, fun hP ts' rs' h' => ?_⟩
  obtain ⟨rfl, rfl⟩ := h.unique h'
  exact hP

lemma Committed.inPlace_iff (h : Committed F d n ts rs) {xs : List Image}
    (hsub : xs ⊆ liveImages F rs 0 ts) :
    (∀ b, OutsideJournal F b → (d.copies (xs.map Image.copy)).read b = d.read b) ↔
      InPlace d xs := by
  have hread := read_copies_images (d := d) fun x hx y hy => h.block_ne x (hsub hx) y (hsub hy)
  constructor
  · intro hout b x hx
    have hmem := hsub (mem_reverse.mp (mem_of_find?_eq_some hx))
    obtain rfl : x.target = b := by simpa using find?_some hx
    rw [← hout _ (.of_legal (h.legal _ (mem_liveImages hmem).2.1)), hread, hx]
    rfl
  · intro hin b _
    rw [hread]
    rcases hx : lastFor _ b with _ | x
    · rfl
    · exact hin b x hx

/-- `wfs_journal_replay_task`: a log that is not loaded yet is loaded first. -/
def journalReplayTask (F : Format β) (vol : Volume) : Prog (Block β) (Except Err (Volume × ℕ)) :=
  if vol.journal.loaded then journalReplay F vol else loadAndReplay F vol

structure Log.Belongs (F : Format β) (j : Log) : Prop where
  start : j.loaded = true → j.start = F.journalStart
  blocks : j.loaded = true → j.blocks = F.journalBlocks
  closed : j.loaded = false → j.isOpen = false

/-- The sequence the tail names: in memory once the log is loaded, and before that as it would be
loaded from the device. -/
def Volume.tail (F : Format β) (vol : Volume) (d : Disk β) : Option ℕ :=
  if vol.journal.loaded then some vol.journal.nextSequence
  else ((journalLoad F vol).run d).1.toOption.map (·.journal.nextSequence)

def TailCommitted (F : Format β) (vol : Volume) (d : Disk β) (ts : List (ℕ × ℕ))
    (rs : List ℕ) : Prop := ∃ n, vol.tail F d = some n ∧ Committed F d n ts rs

/-- An error leaves every block outside the journal alone. A success found no COMMIT and wrote
nothing, or left at each target that is not revoked the image the descriptor names last for it. -/
def Whole (F : Format β) (d : Disk β) (committed : List (ℕ × ℕ) → List ℕ → Prop) :
    Except Err (Volume × ℕ) × Disk β → Prop
  | (.error _, e) => ∀ b, OutsideJournal F b → e.read b = d.read b
  | (.ok _, e) =>
    ((∀ ts rs, ¬ committed ts rs) ∧ e = d) ∨ ∃ ts rs, committed ts rs ∧
      (∀ pre t c post, ts = pre ++ (t, c) :: post → t ∉ rs → t ∉ post.map Prod.fst →
        e.read t = d.read (F.journalStart + (2 + pre.length)) ∧ F.crc32c (e.read t) = c) ∧
      ∀ b, OutsideJournal F b → b ∉ ts.map Prod.fst ∨ b ∈ rs → e.read b = d.read b

lemma journalReplay_whole_iff (hj : Loaded F n vol.journal) :
    Whole F d (Committed F d n) ((journalReplay F vol).run d) ↔
      ∀ ts rs, Committed F d n ts rs → Orderly F d rs ts := by
  rcases journalReplay_run hj with ⟨r, hrun, -, hnone⟩ | ⟨ts, rs, hcom, -, hend⟩
  · rw [hrun]
    refine iff_of_true ?_ fun ts rs h => absurd h (hnone ts rs)
    cases r with
    | error err => exact fun b _ => rfl
    | ok a => exact .inl ⟨hnone, rfl⟩
  rw [hcom.forall_iff]
  rcases hend with ⟨hall, hrun⟩ | ⟨hall, k, hrun⟩
  · -- the images before the damaged one are written before the replay fails
    rw [hrun, Orderly, hall]
    simp only [Bool.false_eq_true, false_or, Whole]
    exact hcom.inPlace_iff (takeWhile_sublist _).subset
  rw [hrun]
  refine iff_of_true (.inr ⟨ts, rs, hcom, ?_, ?_⟩) (.inl hall)
  · intro pre t c post hts ht hlast
    have hread := hcom.read_replayed hts ht hlast
    refine ⟨hread, ?_⟩
    rw [hread]
    have hmem : (⟨F.journalStart + (2 + (0 + pre.length)), t, c⟩ : Image) ∈
        liveImages F rs 0 ts := by
      rw [hts, liveImages_append pre post ht]
      simp
    simpa [Image.matches?] using all_eq_true.mp hall _ hmem
  · intro b hb hnot
    rw [read_replayed hb, read_copies_of_notMem]
    rw [mem_copy_target]
    rintro ⟨x, hx, rfl⟩
    obtain ⟨-, hmem, hr⟩ := mem_liveImages hx
    rcases hnot with hnot | hnot
    · exact hnot (mem_map_of_mem hmem)
    · exact hr hnot

/-- A replay that stops early has changed nothing exactly if the images it got to were in place. -/
lemma journalReplay_stopped_iff (hj : Loaded F n vol.journal) (k : ℕ) (e : Disk β)
    (he : ((journalReplay F vol).points d)[k]? = some e) :
    (∀ b, OutsideJournal F b → e.read b = d.read b) ↔ ∀ ts rs, Committed F d n ts rs →
      InPlace d ((soundImages F d rs ts).take k) := by
  rcases journalReplay_run (d := d) hj with
    ⟨-, -, hpoints, hnone⟩ | ⟨ts, rs, hcom, hstops, -⟩
  · rw [hpoints] at he
    obtain rfl := mem_singleton.mp (mem_of_getElem? he)
    exact iff_of_true (fun b _ => rfl) fun ts rs h => absurd h (hnone ts rs)
  have hsub : (soundImages F d rs ts).take k ⊆ liveImages F rs 0 ts :=
    ((take_sublist _ _).trans (takeWhile_sublist _)).subset
  rw [hcom.forall_iff, ← hcom.inPlace_iff hsub]
  exact forall₂_congr fun b hb => by rw [hstops k e he b hb]

lemma journalLoad_run (hclosed : vol.journal.isOpen = false) :
    (journalLoad F vol).points d = [d] ∧ ((∃ err, (journalLoad F vol).run d = (.error err, d)) ∨
    ∃ s, d.read F.journalStart = .journalSuper s ∧ s.blocks = F.journalBlocks ∧
      (journalLoad F vol).run d =
        (.ok { vol with journal := vol.journal.load F.journalStart s }, d)) := by
  have hpos : F.journalBlocks ≠ 0 := by have := F.journalBlocks_ge; omega
  simp only [journalLoad, if_neg hpos, readThrough, redirect_of_closed hclosed, run_bind,
    run_readBlock, points_bind]
  split
  · rename_i s hs
    iterate 5
      split
      · exact ⟨rfl, .inl ⟨_, rfl⟩⟩
    · rename_i _ _ hblocks _ _
      exact ⟨rfl, .inr ⟨s, hs, not_not.mp hblocks, rfl⟩⟩
  · exact ⟨rfl, .inl ⟨_, rfl⟩⟩

/-- A replay applies the tail's transaction whole or not at all exactly if no image of it is damaged
or those before the damaged one are in place. Stopped by a request that fails, it has changed
nothing exactly if the images it got to were in place. -/
theorem replay_all_or_nothing (hvol : vol.journal.Belongs F) :
    (Whole F d (TailCommitted F vol d) ((journalReplayTask F vol).run d) ↔
      ∀ ts rs, TailCommitted F vol d ts rs → Orderly F d rs ts) ∧
    ∀ k e, ((journalReplayTask F vol).points d)[k]? = some e →
      ((∀ b, OutsideJournal F b → e.read b = d.read b) ↔ ∀ ts rs, TailCommitted F vol d ts rs →
        InPlace d ((soundImages F d rs ts).take k)) := by
  unfold TailCommitted Volume.tail
  rw [journalReplayTask]
  by_cases hl : vol.journal.loaded = true
  · have hj : Loaded F vol.journal.nextSequence vol.journal :=
      ⟨hl, hvol.start hl, hvol.blocks hl, rfl⟩
    simp only [if_pos hl, Option.some.injEq, exists_eq_left']
    exact ⟨journalReplay_whole_iff hj, journalReplay_stopped_iff hj⟩
  obtain ⟨hpoints, hload⟩ := journalLoad_run (F := F) (d := d) (hvol.closed (by simpa using hl))
  simp only [if_neg hl, loadAndReplay, run_bind, points_bind, hpoints, dropLast_singleton,
    nil_append]
  rcases hload with ⟨err, hrun⟩ | ⟨s, hs, hblocks, hrun⟩
  · simp only [hrun]
    refine ⟨iff_of_true (fun b _ => rfl) (by simp [Except.toOption]), fun k e he => ?_⟩
    obtain rfl := mem_singleton.mp (mem_of_getElem? he)
    exact iff_of_true (fun b _ => rfl) (by simp [Except.toOption])
  · simp only [hrun, Except.toOption, Option.map_some, Option.some.injEq, exists_eq_left']
    have hj : Loaded F _ (vol.journal.load F.journalStart s) := ⟨rfl, rfl, hblocks, rfl⟩
    exact ⟨journalReplay_whole_iff hj, journalReplay_stopped_iff hj⟩

def committedDisk (second : ℕ) (b : ℕ) : Block ℕ :=
  if b = 3 then sealRecord 3 1 (.descriptor [⟨100, false, 5⟩, ⟨101, true, 6⟩])
  else if b = 4 then .data 5
  else if b = 5 then .data second
  else if b = 6 then sealRecord 6 1 (.commit 2)
  else twoGroupsDisk b

lemma committedDisk_orderly {ts : List (ℕ × ℕ)} {rs : List ℕ}
    (h : TailCommitted twoGroups .unmounted (fresh true (committedDisk 6)) ts rs) :
    Orderly twoGroups (fresh true (committedDisk 6)) rs ts := by
  obtain ⟨n, hn, h⟩ := h
  obtain rfl : 1 = n := Option.some.inj hn
  have hcom : Committed twoGroups (fresh true (committedDisk 6)) 1 [(100, 5), (101, 6)] [] :=
    ⟨⟨_, rfl, rfl⟩, .commit (by decide) rfl⟩
  obtain ⟨rfl, rfl⟩ := hcom.unique h
  exact .inl (by decide)

theorem replay_whole_committedDisk : Whole twoGroups (fresh true (committedDisk 6))
      (TailCommitted twoGroups .unmounted (fresh true (committedDisk 6)))
      ((journalReplayTask twoGroups .unmounted).run (fresh true (committedDisk 6))) := by
  refine (replay_all_or_nothing ⟨?_, ?_, ?_⟩).1.mpr fun ts rs h => committedDisk_orderly h
  · decide
  · decide
  · decide

/-- With a damaged second image the replay fails after block 100 was overwritten. -/
theorem damaged_image_splits_replay : unmounted.journal.Belongs twoGroups ∧
    ((journalReplayTask twoGroups .unmounted).run (fresh true (committedDisk 7))).1 =
      .error .replay ∧ OutsideJournal twoGroups 100 ∧
    ((journalReplayTask twoGroups .unmounted).run (fresh true (committedDisk 7))).2.read 100 ≠
      committedDisk 7 100 ∧ ¬ Whole twoGroups (fresh true (committedDisk 7))
      (TailCommitted twoGroups .unmounted (fresh true (committedDisk 7)))
      ((journalReplayTask twoGroups .unmounted).run (fresh true (committedDisk 7))) := by
  have hb : OutsideJournal twoGroups 100 := .inr (by decide)
  have herr : ((journalReplayTask twoGroups .unmounted).run (fresh true (committedDisk 7))).1 =
    .error .replay := rfl
  have hread : ((journalReplayTask twoGroups .unmounted).run
      (fresh true (committedDisk 7))).2.read 100 ≠ committedDisk 7 100 := by decide +kernel
  refine ⟨⟨by decide, by decide, by decide⟩, herr, hb, hread, fun h => hread ?_⟩
  rcases hrun : (journalReplayTask twoGroups .unmounted).run (fresh true (committedDisk 7)) with
    ⟨r, e⟩
  rw [hrun] at h herr
  subst herr
  exact h 100 hb

inductive Edit (β : Type)
  | stage (target : ℕ) (image : Block β)
  | revoke (block : ℕ)

namespace Edit

def block : Edit β → ℕ
  | stage target _ => target
  | revoke block => block

def call : Edit β → Call β
  | stage target image => .txnStage target image
  | revoke block => .txnRevoke block

def apply (F : Format β) (vol : Volume) : Edit β → Prog (Block β) Result
  | stage target image => txnStage F vol target image
  | revoke block => pure (vol.txnRevoke block)

def applyAll (F : Format β) (vol : Volume) : List (Edit β) → Prog (Block β) Result
  | [] => pure (.ok (), vol)
  | x :: xs => do
    let (r, vol) ← x.apply F vol
    match r with
    | .error err => pure (.error err, vol)
    | .ok () => applyAll F vol xs

end Edit

/-- `wfs_txn_commit_task` up to its COMMIT block. -/
def txnLogged (vol : Volume) : Prog (Block β) Unit := do
  let j := vol.journal
  writeBlock j.descriptorBlock
    (sealRecord j.descriptorBlock j.sequence (.descriptor (descriptorRecords j.targets)))
  if j.revokes.length = 0 then pure ()
  else writeBlock j.revokeBlock (sealRecord j.revokeBlock j.sequence (.revoke j.revokes))
  flushBlocks
  writeBlock j.commitBlock (sealRecord j.commitBlock j.sequence (.commit j.targets.length))

structure Editing (F : Format β) (n : ℕ) (t : Txn β) (vol : Volume) (d : Disk β) : Prop where
  loaded : Loaded F n vol.journal
  isOpen : vol.journal.isOpen = true
  sequence : vol.journal.sequence = n
  txn : Staged F t vol.journal d
  tail : d.read F.journalStart = journalSuper F n

variable {t : Txn β} {vol' : Volume}

lemma Editing.of_begin (hj : Loaded F n vol.journal)
    (htail : d.read F.journalStart = journalSuper F n) (h : vol.txnBegin = (.ok (), vol')) :
    Editing F n .empty vol' d := by
  unfold txnBegin at h
  repeat' split at h
  any_goals cases h
  exact ⟨⟨hj.loaded, hj.start, hj.blocks, hj.next⟩, rfl, hj.next, OpenTxn.begin.toStaged, htail⟩

lemma Staged.revoke (h : Staged F t j d) (hlen : j.revokes.length < txnMaxRevokes) :
    Staged F (t.after (.txnRevoke b)) { j with revokes := j.revokes ++ [b] } d :=
  { h with
    revokes_len := by simpa [Nat.succ_le_iff] using hlen
    revoked := by simp [Txn.after, h.revoked, or_comm] }

lemma Editing.edit {x : Edit β} (h : Editing F n t vol d)
    (hrun : (x.apply F vol).run d = ((.ok (), vol'), e)) :
    Editing F n (t.after x.call) vol' e := by
  cases x with
  | stage b v =>
    simp only [Edit.apply, txnStage] at hrun
    iterate 4
      split at hrun
      · cases hrun
    rename_i hin hslot
    rw [h.loaded.start, h.loaded.blocks] at hin
    have hout : OutsideJournal F b := by
      unfold OutsideJournal
      omega
    have hslot' := not_le.mp hslot
    have hblock : vol.journal.imageBlock (slot b vol.journal.targets) =
        F.journalStart + (2 + slot b vol.journal.targets) := by
      rw [imageBlock, h.loaded.start]; omega
    simp only [hblock, run_bind, run_writeBlock, run_pure, Prod.mk.injEq, true_and] at hrun
    obtain ⟨rfl, rfl⟩ := hrun
    have hne : F.journalStart ≠ F.journalStart + (2 + slot b vol.journal.targets) := by omega
    exact ⟨⟨h.loaded.loaded, h.loaded.start, h.loaded.blocks, h.loaded.next⟩, h.isOpen, h.sequence,
      h.txn.stage hout hslot', by rw [read_write, if_neg hne, h.tail]⟩
  | revoke b =>
    simp only [Edit.apply, txnRevoke, run_pure] at hrun
    split at hrun
    · cases hrun
    split at hrun
    · rename_i hmem
      cases hrun
      refine ⟨h.loaded, h.isOpen, h.sequence, { h.txn with revoked := ?_ }, h.tail⟩
      intro b'
      have hiff := h.txn.revoked b'
      have hmem' := (h.txn.revoked b).mp hmem
      simp only [Edit.call, Txn.after, mem_cons, hiff]
      exact ⟨.inr, fun hb => hb.elim (fun he => he ▸ hmem') id⟩
    split at hrun
    · cases hrun
    rename_i hlen
    cases hrun
    exact ⟨⟨h.loaded.loaded, h.loaded.start, h.loaded.blocks, h.loaded.next⟩, h.isOpen,
      h.sequence, h.txn.revoke (not_le.mp hlen), h.tail⟩

lemma Editing.edits {xs : List (Edit β)} (h : Editing F n t vol d)
    (hrun : (Edit.applyAll F vol xs).run d = ((.ok (), vol'), e)) :
    Editing F n ((xs.map Edit.call).foldl after t) vol' e := by
  induction xs generalizing t vol d with
  | nil =>
    cases hrun
    exact h
  | cons x xs ih =>
    simp only [Edit.applyAll, run_bind] at hrun
    rcases hx : (x.apply F vol).run d with ⟨⟨_ | _, vol₁⟩, d₁⟩
    · rw [hx] at hrun
      cases hrun
    rw [hx] at hrun
    exact ih (h.edit hx) hrun

lemma Editing.commitBlock (h : Editing F n t vol d) : vol.journal.commitBlock =
    F.journalStart + commitAt vol.journal.targets vol.journal.revokes := by
  rw [Log.commitBlock, Log.imageBlock, commitAt, h.loaded.start]; omega

def recorded (F : Format β) (n : ℕ) (j : Log) (d : Disk β) : Disk β :=
  let e := d.write (F.journalStart + 1)
    (sealRecord (F.journalStart + 1) n (.descriptor (descriptorRecords j.targets)))
  if j.revokes.length = 0 then e.flush
  else (e.write (F.journalStart + (2 + j.targets.length))
    (sealRecord (F.journalStart + (2 + j.targets.length)) n (.revoke j.revokes))).flush

lemma Editing.txnLogged_run (h : Editing F n t vol d) :
    (txnLogged vol).run d = ((), (recorded F n vol.journal d).write
      (F.journalStart + commitAt vol.journal.targets vol.journal.revokes)
      (sealRecord (F.journalStart + commitAt vol.journal.targets vol.journal.revokes) n
        (.commit vol.journal.targets.length))) := by
  have hdesc : vol.journal.descriptorBlock = F.journalStart + 1 := by
    rw [descriptorBlock, h.loaded.start]
  have hrev : vol.journal.revokeBlock = F.journalStart + (2 + vol.journal.targets.length) := by
    rw [revokeBlock, imageBlock, h.loaded.start]; omega
  simp only [txnLogged, run_bind, run_writeBlock, h.commitBlock, hdesc, hrev, h.sequence, recorded]
  split <;> rfl

lemma read_recorded (b : ℕ) : (recorded F n j d).read b =
      if j.revokes.length ≠ 0 ∧ b = F.journalStart + (2 + j.targets.length) then
        sealRecord (F.journalStart + (2 + j.targets.length)) n (.revoke j.revokes)
      else if b = F.journalStart + 1 then
        sealRecord (F.journalStart + 1) n (.descriptor (descriptorRecords j.targets))
      else d.read b := by
  unfold recorded
  by_cases hr : j.revokes.length = 0 <;> simp [hr, read_flush, read_write]

abbrev Logged (F : Format β) (n : ℕ) (j : Log) (d e : Disk β) : Prop :=
  ∀ b, e.read b = if b = F.journalStart + commitAt j.targets j.revokes then
      sealRecord (F.journalStart + commitAt j.targets j.revokes) n (.commit j.targets.length)
    else (recorded F n j d).read b

section Logged

variable (hread : Logged F n j d e)
include hread

lemma read_logged {c : ℕ} (hc : c = 0 ∨ 2 ≤ c ∧ c < 2 + j.targets.length) :
    e.read (F.journalStart + c) = d.read (F.journalStart + c) := by
  have h1 : F.journalStart + c ≠ F.journalStart + commitAt j.targets j.revokes := by
    unfold commitAt; omega
  have h2 : F.journalStart + c ≠ F.journalStart + (2 + j.targets.length) := by omega
  have h3 : F.journalStart + c ≠ F.journalStart + 1 := by omega
  rw [hread, if_neg h1, read_recorded, if_neg (fun h => h2 h.2), if_neg h3]

lemma read_logged_outside (hb : OutsideJournal F b) (hlen : j.targets.length ≤ txnMaxTargets) :
    e.read b = d.read b := by
  have hroom : commitAt j.targets j.revokes < F.journalBlocks := commitAt_lt hlen
  have hlog : 2 + j.targets.length < F.journalBlocks := by
    unfold commitAt at hroom
    omega
  rw [hread, if_neg (hb.ne hroom), read_recorded, if_neg fun h => hb.ne hlog h.2,
    if_neg (hb.ne (by omega))]

lemma Staged.logged (h : Staged F t j d) : Staged F t j e := { h with
    slot := by
      intro i u hu
      have hi : i < j.targets.length := (List.getElem?_eq_some_iff.mp hu).1
      rw [read_logged hread (.inr ⟨by omega, by omega⟩)]
      exact h.slot i u hu }

lemma logRecord_descriptor :
    logRecord F e n 1 = some (.descriptor (descriptorRecords j.targets)) := by
  have h1 : F.journalStart + 1 ≠ F.journalStart + commitAt j.targets j.revokes := by
    unfold commitAt; omega
  have h2 : F.journalStart + 1 ≠ F.journalStart + (2 + j.targets.length) := by omega
  rw [logRecord, hread, if_neg h1, read_recorded, if_neg (fun h => h2 h.2), if_pos rfl,
    recordIsLive_sealRecord]

lemma logRecord_revoke (hr : j.revokes.length ≠ 0) :
    logRecord F e n (2 + j.targets.length) = some (.revoke j.revokes) := by
  simp [logRecord, hread, read_recorded, hr, commitAt, recordIsLive_sealRecord]

variable (h : OpenTxn F t j d)
include h

lemma OpenTxn.scans : Scans F e n j.targets.length (2 + j.targets.length) [] j.revokes := by
  have hroom : commitAt j.targets j.revokes < F.journalBlocks := commitAt_lt h.targets_len
  have hrevoke := logRecord_revoke hread
  unfold commitAt at hroom
  unfold Logged commitAt at hread
  by_cases hr : j.revokes.length = 0
  · rw [length_eq_zero_iff.mp hr]
    refine .commit (by omega) ?_
    simp [logRecord, hread, hr, recordIsLive_sealRecord]
  rw [if_neg hr] at hroom
  have hrec := hrevoke hr
  refine .revoke (by omega) hrec (parseRevoke_ok h.revokes_legal h.revokes_len)
    (.commit (by omega) ?_)
  simp [logRecord, hread, hr, recordIsLive_sealRecord, add_assoc]

lemma OpenTxn.committed :
    Committed F e n (j.targets.map fun u => (u.target, u.checksum)) j.revokes := by
  refine ⟨⟨_, logRecord_descriptor hread, parseDescriptor_records h.targets_legal h.targets_len⟩,
    ?_⟩
  rw [length_map]
  exact h.scans hread

end Logged

lemma Editing.logged (h : Editing F n t vol d) :
    Logged F n vol.journal d ((txnLogged vol).run d).2 := by
  intro b
  rw [h.txnLogged_run, read_write]

lemma checkpoint_run {us : List TxnTarget}
    (h : ∀ u ∈ us, vol.journal.redirect u.journalBlock = u.journalBlock) :
    (forEach (checkpointImage vol) us).run d =
      ((), d.copies (us.map fun u => (u.journalBlock, u.target))) := by
  induction us generalizing d with
  | nil => rfl
  | cons u us ih =>
    simp only [forEach, run_bind, checkpointImage, readThrough, h u (.head _),
      run_readBlock, run_writeBlock, map_cons, copies_cons]
    exact ih fun w hw => h w (mem_cons_of_mem _ hw)

lemma Editing.txnClose_run (h : Editing F n t vol d)
    (hne : vol.journal.targets.length ≠ 0 ∨ vol.journal.revokes.length ≠ 0) :
    (txnClose F vol).run d = ((.ok (), vol.retired), ((((txnLogged vol).run d).2.flush.copies
        (vol.journal.targets.map fun u => (u.journalBlock, u.target))).flush).write F.journalStart
          (journalSuper F (n + 1))) := by
  have htargets : vol.journal.targets.length ≤ 24 := h.txn.targets_len
  have hrevokes : vol.journal.revokes.length ≤ 24 := h.txn.revokes_len
  have hroom := F.journalBlocks_ge
  have hbs := F.blockSize_ge
  have hempty : ¬ (vol.journal.targets.length = 0 ∧ vol.journal.revokes.length = 0) := by omega
  have hlog : ¬ vol.journal.blocks ≤
      txnLogBlocks vol.journal.targets.length vol.journal.revokes.length := by
    rw [h.loaded.blocks, txnLogBlocks]
    split <;> omega
  have hdesc : ¬ F.blockSize < 24 + vol.journal.targets.length * 16 := by omega
  have hrev : ¬ F.blockSize < 32 + vol.journal.revokes.length * 8 := by omega
  have hredirect : ∀ u ∈ vol.journal.targets,
      vol.journal.redirect u.journalBlock = u.journalBlock := by
    intro u hu
    obtain ⟨i, hi⟩ := getElem?_of_mem hu
    have hlt : i < vol.journal.targets.length := (List.getElem?_eq_some_iff.mp hi).1
    rw [(h.txn.slot i u hi).1]
    exact h.txn.redirect_log (by omega)
  simp only [txnClose, h.isOpen, Bool.not_true, Bool.false_eq_true, if_false, hempty, hlog, hdesc,
    hrev, txnLogged, run_bind, run_writeBlock]
  split <;> simp only [txnSeal, run_bind, run_flushBlocks, run_writeBlock, run_pure,
    checkpoint_run hredirect, h.loaded.start, h.sequence]

/-- The parser stops at a target it does not accept, before the end of the list. -/
lemma parseTargets_cut {us : List TxnTarget} {acc : List (ℕ × ℕ)}
    (h : parseTargets F.toGeometry acc (descriptorRecords us) = .ok ts)
    (hbad : ∃ u ∈ us, F.targetIsLegal u.target = false) :
    acc.length ≤ ts.length ∧ ts.length < acc.length + us.length := by
  induction us using descriptorRecords.induct generalizing acc with
  | case1 => simp at hbad
  | case2 u =>
    obtain ⟨_, hu, hbad⟩ := hbad
    cases mem_singleton.mp hu
    simp only [descriptorRecords, parseTargets] at h
    split at h
    · cases h
    split at h
    · cases h
      simp
    · simp [hbad] at h
  | case3 u us hus ih =>
    rw [descriptorRecords.eq_3 u us hus, parseTargets] at h
    split at h
    · cases h
    dsimp only at h
    split at h
    · cases h
      simp
    split at h
    · cases h
    split at h
    · cases h
    rename_i hlegal _
    obtain ⟨w, hw, hbad⟩ := hbad
    rcases mem_cons.mp hw with rfl | hw
    · simp [hbad] at hlegal
    simp only [Bool.false_eq_true, if_false] at h
    have := ih h ⟨w, hw, hbad⟩
    simp only [length_append, length_cons, length_nil] at this ⊢
    omega

lemma Staged.not_committed (h : Staged F t j d) (hread : Logged F n j d e)
    (hplain : ∀ b v, t.image b = some v → ∀ l, v ≠ .log l)
    (hbad : (∃ u ∈ j.targets, F.targetIsLegal u.target = false) ∨
      ∃ b ∈ j.revokes, F.targetIsLegal b = false) : ¬ Committed F e n ts rs := by
  rintro ⟨⟨records, hrec, hparse⟩, hscan⟩
  cases (logRecord_descriptor hread).symm.trans hrec
  by_cases hlegal : ∀ u ∈ j.targets, F.targetIsLegal u.target = true
  · obtain ⟨b, hb, hill⟩ := hbad.resolve_left (by rintro ⟨u, hu, hill⟩; simp [hlegal u hu] at hill)
    cases (parseDescriptor_records hlegal h.targets_len).symm.trans hparse
    rw [length_map] at hscan
    have hr := logRecord_revoke hread (length_pos_of_mem hb).ne'
    rcases (scans_iff.mp hscan).2 with ⟨hc, -⟩ | ⟨blocks, next, hrev, hnext, -⟩
    · cases hr.symm.trans hc
    cases hr.symm.trans hrev
    unfold parseRevoke at hnext
    split_ifs at hnext with _ hall
    have := all_eq_true.mp hall b hb
    simp [hill] at this
  · -- the COMMIT is looked for where the image of the refused target is
    have hcut := parseTargets_cut hparse (by simpa using hlegal)
    simp only [length_nil, Nat.zero_add] at hcut
    have hu := getElem?_eq_getElem hcut.2
    have himage : logRecord F e n (2 + ts.length) = none := by
      rw [logRecord, read_logged hread (.inr ⟨by omega, by omega⟩)]
      cases hv : d.read (F.journalStart + (2 + ts.length)) with
      | log l => exact absurd (hv ▸ (h.slot _ _ hu).2.1) fun hi => hplain _ _ hi l rfl
      | _ => rfl
    rcases (scans_iff.mp hscan).2 with ⟨hc, -⟩ | ⟨blocks, next, hrev, -⟩
    · cases himage.symm.trans hc
    · cases himage.symm.trans hrev

def imageOf (u : TxnTarget) : Image := ⟨u.journalBlock, u.target, u.checksum⟩

lemma Staged.liveImages_eq (h : Staged F t j d) :
    liveImages F j.revokes 0 (j.targets.map fun u => (u.target, u.checksum)) =
      (j.targets.filter fun u => decide (u.target ∉ j.revokes)).map imageOf := by
  have hidx : (j.targets.map fun u => (u.target, u.checksum)).mapIdx (fun i t =>
      (⟨F.journalStart + (2 + (0 + i)), t.1, t.2⟩ : Image)) = j.targets.map imageOf := by
    refine ext_getElem? fun i => ?_
    simp only [getElem?_mapIdx, getElem?_map, Option.map_map]
    rcases hu : j.targets[i]? with _ | u
    · rfl
    · simp [(h.slot i u hu).1, imageOf]
  rw [liveImages_eq_filter, hidx, filter_map]
  rfl

lemma Staged.matches (h : Staged F t j d) {u : TxnTarget} (hu : u ∈ j.targets) :
    (imageOf u).matches? F d = true := by
  obtain ⟨i, hi⟩ := getElem?_of_mem hu
  obtain ⟨hblock, -, hcrc⟩ := h.slot i u hi
  simpa [Image.matches?, imageOf, hblock] using hcrc

section Copies

variable {us : List TxnTarget} (hdistinct : (us.map TxnTarget.target).Nodup)
  (hne : ∀ u ∈ us, ∀ w ∈ us, u.journalBlock ≠ w.target)
include hdistinct hne

lemma read_copies_target {u : TxnTarget} (hu : u ∈ us) :
    (d.copies (us.map (Image.copy ∘ imageOf))).read u.target = d.read u.journalBlock := by
  obtain ⟨pre, post, rfl⟩ := append_of_mem hu
  rw [map_append, map_cons] at hdistinct ⊢
  refine read_copies_last ?_ ?_
  · simp only [map_map, mem_map, not_exists, not_and]
    exact fun w hw he => hne u hu w (mem_append_left _ hw) he.symm
  · simpa [Image.copy, imageOf] using (nodup_cons.mp (nodup_append.mp hdistinct).2.1).1

lemma read_copies_eq_iff (p : TxnTarget → Bool) (hout : ∀ u ∈ us, OutsideJournal F u.target) :
    (∀ b, OutsideJournal F b → (d.copies (us.map (Image.copy ∘ imageOf))).read b =
        (d.copies ((us.filter p).map (Image.copy ∘ imageOf))).read b) ↔
      ∀ u ∈ us, p u = false → d.read u.target = d.read u.journalBlock := by
  have hsub : us.filter p ⊆ us := fun _ hw => (mem_filter.mp hw).1
  have hfilter : ∀ u ∈ us.filter p, _ := fun u hu =>
    read_copies_target (d := d) ((filter_sublist.map _).nodup hdistinct)
      (fun u hu w hw => hne u (hsub hu) w (hsub hw)) hu
  have hskip : ∀ u ∈ us, p u = false →
      u.target ∉ ((us.filter p).map (Image.copy ∘ imageOf)).map Prod.snd := by
    intro u hu hp hmem
    simp only [map_map, mem_map, mem_filter] at hmem
    obtain ⟨w, ⟨hw, hpw⟩, he⟩ := hmem
    obtain ⟨i, hi⟩ := getElem?_of_mem hu
    obtain ⟨k, hk⟩ := getElem?_of_mem hw
    have he : w.target = u.target := he
    rw [← slot_of_nodup hdistinct hi, ← he, slot_of_nodup hdistinct hk, hk] at hi
    rw [Option.some.inj hi, hp] at hpw
    cases hpw
  constructor
  · intro h u hu hp
    have := h _ (hout u hu)
    rw [read_copies_target hdistinct hne hu, read_copies_of_notMem (hskip u hu hp)] at this
    exact this.symm
  · intro h b _
    by_cases hb : ∃ u ∈ us, u.target = b
    · obtain ⟨u, hu, rfl⟩ := hb
      rw [read_copies_target hdistinct hne hu]
      by_cases hp : p u = true
      · exact (hfilter u (mem_filter.mpr ⟨hu, hp⟩)).symm
      · have hp := Bool.eq_false_of_not_eq_true hp
        rw [read_copies_of_notMem (hskip u hu hp), h u hu hp]
    · have hnot : ∀ ws ⊆ us, b ∉ (ws.map (Image.copy ∘ imageOf)).map Prod.snd := by
        intro ws hws hmem
        simp only [map_map, mem_map] at hmem
        obtain ⟨w, hw, he⟩ := hmem
        exact hb ⟨w, hws hw, he⟩
      rw [read_copies_of_notMem (hnot _ (Subset.refl _)), read_copies_of_notMem (hnot _ hsub)]

end Copies

section Edits

variable {xs : List (Edit β)} {b : ℕ}

lemma mem_staged_edits : (b, v) ∈ ((xs.map Edit.call).foldl after t).staged ↔
      (b, v) ∈ t.staged ∨ .stage b v ∈ xs := by
  induction xs generalizing t with
  | nil => simp
  | cons x xs ih =>
    cases x with
    | stage b' v' => simp [ih, Edit.call, Txn.after, or_assoc, or_comm (a := (b, v) ∈ t.staged)]
    | revoke b' => simp [ih, Edit.call, Txn.after]

lemma mem_revoked_edits :
    b ∈ ((xs.map Edit.call).foldl Txn.after t).revoked ↔ b ∈ t.revoked ∨ .revoke b ∈ xs := by
  induction xs generalizing t with
  | nil => simp
  | cons x xs ih =>
    cases x with
    | stage b' v' => simp [ih, Edit.call, Txn.after]
    | revoke b' => simp [ih, Edit.call, Txn.after]; tauto

lemma Txn.image_isSome (h : (b, v) ∈ t.staged) : ∃ v', t.image b = some v' := by
  have : (t.staged.find? fun w => w.1 == b).isSome = true := by
    rw [find?_isSome]
    exact ⟨_, h, by simp⟩
  obtain ⟨w, hw⟩ := Option.isSome_iff_exists.mp this
  exact ⟨w.2, by simp [image, hw]⟩

lemma Txn.mem_staged_of_image (h : t.image b = some v) : (b, v) ∈ t.staged := by
  obtain ⟨w, hw, rfl⟩ := Option.map_eq_some_iff.mp h
  have hb : w.1 = b := by simpa using find?_some hw
  exact hb ▸ mem_of_find?_eq_some hw

section

variable (h : Editing F n ((xs.map Edit.call).foldl after .empty) vol d)
include h

lemma Editing.nonempty
    (hne : xs ≠ []) : vol.journal.targets.length ≠ 0 ∨ vol.journal.revokes.length ≠ 0 := by
  obtain ⟨x, hx⟩ := exists_mem_of_ne_nil xs hne
  cases x with
  | stage b v =>
    obtain ⟨v', hv'⟩ := image_isSome (mem_staged_edits.mpr (.inr hx))
    obtain ⟨u, hu, -⟩ := h.txn.covers b v' hv'
    exact .inl (length_pos_of_mem hu).ne'
  | revoke b =>
    have hb := (h.txn.revoked b).mpr (mem_revoked_edits.mpr (.inr hx))
    exact .inr (length_pos_of_mem hb).ne'

lemma Editing.mem_target (b : ℕ) :
    (∃ u ∈ vol.journal.targets, u.target = b) ↔ ∃ v, .stage b v ∈ xs := by
  constructor
  · rintro ⟨u, hu, rfl⟩
    obtain ⟨i, hi⟩ := getElem?_of_mem hu
    have himg := mem_staged_edits.mp (mem_staged_of_image (h.txn.slot i u hi).2.1)
    exact ⟨_, himg.resolve_left (by simp [empty])⟩
  · rintro ⟨v, hv⟩
    obtain ⟨v', hv'⟩ := image_isSome (mem_staged_edits.mpr (.inr hv))
    exact h.txn.covers b v' hv'

lemma Editing.mem_revokes (b : ℕ) : b ∈ vol.journal.revokes ↔ .revoke b ∈ xs := by
  rw [h.txn.revoked, mem_revoked_edits]
  simp [empty]

lemma Editing.legal_iff : (∀ x ∈ xs, F.targetIsLegal x.block = true) ↔
    (∀ u ∈ vol.journal.targets, F.targetIsLegal u.target = true) ∧
      ∀ b ∈ vol.journal.revokes, F.targetIsLegal b = true := by
  constructor
  · intro hl
    refine ⟨fun u hu => ?_, fun b hb => hl (.revoke b) ((h.mem_revokes b).mp hb)⟩
    obtain ⟨v, hv⟩ := (h.mem_target u.target).mp ⟨u, hu, rfl⟩
    exact hl (.stage u.target v) hv
  · rintro ⟨ht, hr⟩ x hx
    cases x with
    | stage b v =>
      obtain ⟨u, hu, rfl⟩ := (h.mem_target b).mpr ⟨v, hx⟩
      exact ht u hu
    | revoke b => exact hr b ((h.mem_revokes b).mpr hx)

end

end Edits

variable {vol₁ vol₂ crashed : Volume}

/-- What recovery leaves of a transaction stopped behind its COMMIT: everything but the revoked
targets, or nothing when a block of it is not legal. -/
lemma Editing.replay_run {xs : List (Edit β)}
    (h : Editing F n ((xs.map Edit.call).foldl Txn.after .empty) vol e)
    (hcrashed : crashed.journal.isOpen = false)
    (hplain : (∃ x ∈ xs, F.targetIsLegal x.block = false) →
      ∀ b v, .stage b v ∈ xs → ∀ l, v ≠ .log l) :
    ∃ p : TxnTarget → Bool,
      (∀ u, p u = false ↔ .revoke u.target ∈ xs ∨ ∃ x ∈ xs, F.targetIsLegal x.block = false) ∧
      ∀ b, OutsideJournal F b → ((loadAndReplay F crashed).run ((txnLogged vol).run e).2).2.read b =
          (((txnLogged vol).run e).2.copies
            ((vol.journal.targets.filter p).map (Image.copy ∘ imageOf))).read b := by
  have hopen := h.txn.logged h.logged
  have hstop : ((txnLogged vol).run e).2.read F.journalStart = journalSuper F n := by
    have h0 := read_logged (c := 0) h.logged (.inl rfl)
    rw [add_zero] at h0
    rw [h0, h.tail]
  have hlogged := h.logged
  generalize ((txnLogged vol).run e).2 = s at *
  let js : JournalSuper := ⟨F.journalStart, F.blockSize, F.journalBlocks, n, 1⟩
  let loaded : Volume := { crashed with journal := crashed.journal.load F.journalStart js }
  have hload : (journalLoad F crashed).run s = (.ok loaded, s) := by
    have hwp := journalLoad_ok (C := fun _ => True) (Q := fun r e => r = .ok loaded ∧ e = s)
      hcrashed hstop trivial ⟨rfl, rfl⟩
    obtain ⟨-, hr, hs⟩ := wp_iff.mp hwp
    exact Prod.ext hr hs
  have hloaded : Loaded F n loaded.journal := ⟨rfl, rfl, rfl, rfl⟩
  simp only [loadAndReplay, run_bind, hload]
  by_cases hlegal : ∀ x ∈ xs, F.targetIsLegal x.block = true
  · obtain ⟨ht, hr⟩ := h.legal_iff.mp hlegal
    have hcom := OpenTxn.committed hlogged { h.txn with targets_legal := ht, revokes_legal := hr }
    refine ⟨fun u => decide (u.target ∉ vol.journal.revokes), fun u => ?_, fun b hb => ?_⟩
    · have hno : ¬ ∃ x ∈ xs, F.targetIsLegal x.block = false := by simpa using hlegal
      rw [or_iff_left hno, ← h.mem_revokes]
      simp
    have hall : (liveImages F vol.journal.revokes 0 (vol.journal.targets.map fun u =>
        (u.target, u.checksum))).all (Image.matches? F s) = true := by
      rw [hopen.liveImages_eq, all_map, all_eq_true]
      exact fun u hu => hopen.matches (mem_filter.mp hu).1
    rcases journalReplay_run (d := s) hloaded with ⟨-, -, -, hnone⟩ | ⟨ts, rs, hcom', -, hend⟩
    · exact absurd hcom (hnone _ _)
    obtain ⟨rfl, rfl⟩ := hcom.unique hcom'
    rw [hall] at hend
    rcases hend with ⟨hfalse, -⟩ | ⟨-, k, hrun'⟩
    · cases hfalse
    rw [hrun', read_replayed hb, hopen.liveImages_eq, map_map]
  · have hill : ∃ x ∈ xs, F.targetIsLegal x.block = false := by simpa using hlegal
    refine ⟨fun _ => false, fun u => iff_of_true rfl (.inr hill), fun b _ => ?_⟩
    have hbad : (∃ u ∈ vol.journal.targets, F.targetIsLegal u.target = false) ∨
        ∃ b ∈ vol.journal.revokes, F.targetIsLegal b = false := by
      by_contra hno
      rw [not_or] at hno
      exact hlegal (h.legal_iff.mpr (by simpa using hno))
    have hnone : ∀ ts rs, ¬ Committed F s n ts rs := fun ts rs => h.txn.not_committed hlogged
      (fun b v hv => hplain hill b v
        ((mem_staged_edits.mp (mem_staged_of_image hv)).resolve_left (by simp [empty]))) hbad
    rcases journalReplay_run (d := s) hloaded with ⟨r, hrun', -⟩ | ⟨ts, rs, hcom, -⟩
    · rw [hrun', filter_eq_nil_iff.mpr (by simp)]
      rfl
    · exact absurd hcom (hnone ts rs)

/-- A transaction ends in the same content whether its commit runs to the end or is replayed exactly
if what recovery skips was in place: the staged blocks that it revokes, or all when one of its
blocks is not legal. -/
theorem checkpoint_agrees_with_replay {xs : List (Edit β)} (hj : Loaded F n vol.journal)
    (htail : d.read F.journalStart = journalSuper F n) (hbegin : vol.txnBegin = (.ok (), vol₁))
    (hrun : (Edit.applyAll F vol₁ xs).run d = ((.ok (), vol₂), e)) (hne : xs ≠ [])
    (hplain : (∃ x ∈ xs, F.targetIsLegal x.block = false) →
      ∀ b v, .stage b v ∈ xs → ∀ l, v ≠ .log l)
    (hcrashed : crashed.journal.isOpen = false) :
    ((txnClose F vol₂).run e).1.1 = .ok () ∧
    ((∀ b, OutsideJournal F b → ((txnClose F vol₂).run e).2.read b =
        ((loadAndReplay F crashed).run ((txnLogged vol₂).run e).2).2.read b) ↔
      ∀ b v, ((xs.map Edit.call).foldl Txn.after .empty).image b = some v →
        (.revoke b ∈ xs ∨ ∃ x ∈ xs, F.targetIsLegal x.block = false) → e.read b = v) := by
  have hedit := (Editing.of_begin hj htail hbegin).edits hrun
  have hopen := hedit.txn
  obtain ⟨p, hp, hreplay⟩ := hedit.replay_run hcrashed hplain
  have hsame : ∀ {b}, OutsideJournal F b → ((txnLogged vol₂).run e).2.read b = e.read b :=
    fun hb => read_logged_outside hedit.logged hb hopen.targets_len
  have himage := (hopen.logged hedit.logged).slot
  rw [hedit.txnClose_run (hedit.nonempty hne)]
  generalize ((txnLogged vol₂).run e).2 = s at *
  refine ⟨rfl, ?_⟩
  have hroom := F.journalBlocks_ge
  have hblock : ∀ u ∈ vol₂.journal.targets, ∀ w ∈ vol₂.journal.targets,
      u.journalBlock ≠ w.target := by
    intro u hu w hw
    obtain ⟨i, hi⟩ := getElem?_of_mem hu
    have hlt := (List.getElem?_eq_some_iff.mp hi).1
    have hlen : vol₂.journal.targets.length ≤ 24 := hopen.targets_len
    rw [(hopen.slot i u hi).1]
    exact ((hopen.outside w hw).ne (by omega)).symm
  have hclose : ∀ b, OutsideJournal F b → ((((s.flush.copies (vol₂.journal.targets.map
      fun u => (u.journalBlock, u.target))).flush).write F.journalStart
        (journalSuper F (n + 1))).read b =
      (s.copies (vol₂.journal.targets.map (Image.copy ∘ imageOf))).read b) := by
    intro b hb
    have hstart : b ≠ F.journalStart := by simpa using hb.ne (c := 0) (by omega)
    rw [read_write, if_neg hstart, read_flush, read_copies_congr (read_flush s)]
    rfl
  have hagree := read_copies_eq_iff (d := s) hopen.distinct hblock p hopen.outside
  constructor
  · intro h b v hv hskip
    obtain ⟨u, hu, rfl⟩ := hopen.covers b v hv
    obtain ⟨i, hi⟩ := getElem?_of_mem hu
    obtain ⟨hb, himg, -⟩ := himage i u hi
    have hin := hagree.mp (fun b hb => by rw [← hclose b hb, h b hb, hreplay b hb]) u hu
      ((hp u).mpr hskip)
    rw [← hsame (hopen.outside u hu), hin, hb]
    exact Option.some.inj (himg.symm.trans hv)
  · intro h b hb
    rw [hclose b hb, hreplay b hb]
    refine hagree.mpr (fun u hu hpu => ?_) b hb
    obtain ⟨i, hi⟩ := getElem?_of_mem hu
    obtain ⟨hbl, himg, -⟩ := himage i u hi
    rw [hsame (hopen.outside u hu), h _ _ himg ((hp u).mp hpu), hbl]

def twoGroupsMounted : Volume := { unmounted with
    state := .dirty, mounted := true, dirtyMarked := true
    journal := unmounted.journal.load 2 ⟨2, 4096, 28, 1, 1⟩ }

def twoGroupsEdited (xs : List (Edit ℕ)) : Result × Device (Block ℕ) :=
  (Edit.applyAll twoGroups twoGroupsMounted.txnBegin.2 xs).run (fresh true twoGroupsDisk)

/-- One block is changed; another one is staged as it was, and revoked. -/
def harmlessRevoke : List (Edit ℕ) := [.stage 100 (.data 7), .stage 102 (.data 0), .revoke 102]

theorem checkpoint_agrees_with_replay_harmless :
    ((txnClose twoGroups (twoGroupsEdited harmlessRevoke).1.2).run
        (twoGroupsEdited harmlessRevoke).2).2.read 100 =
      ((loadAndReplay twoGroups .unmounted).run
        ((txnLogged (twoGroupsEdited harmlessRevoke).1.2).run
        (twoGroupsEdited harmlessRevoke).2).2).2.read 100 := by
  have hj : Loaded twoGroups 1 twoGroupsMounted.journal := ⟨rfl, rfl, rfl, rfl⟩
  have htail : (fresh true twoGroupsDisk).read twoGroups.journalStart = journalSuper twoGroups 1 :=
    rfl
  have hbegin : twoGroupsMounted.txnBegin = (.ok (), twoGroupsMounted.txnBegin.2) := rfl
  have hrun : (Edit.applyAll twoGroups twoGroupsMounted.txnBegin.2 harmlessRevoke).run
      (fresh true twoGroupsDisk) = ((.ok (), (twoGroupsEdited harmlessRevoke).1.2),
        (twoGroupsEdited harmlessRevoke).2) := rfl
  have hlegal : ¬ ∃ x ∈ harmlessRevoke, twoGroups.targetIsLegal x.block = false := by
    simp only [harmlessRevoke, mem_cons, not_mem_nil, or_false, exists_eq_or_imp, exists_eq_left]
    decide
  have hclosed : unmounted.journal.isOpen = false := rfl
  refine (checkpoint_agrees_with_replay hj htail hbegin hrun (by simp [harmlessRevoke])
    (fun h => absurd h hlegal) hclosed).2.mpr (fun b v hv hskip => ?_) 100 (.inr (by decide))
  obtain rfl : b = 102 := by
    simpa [harmlessRevoke] using hskip.resolve_right hlegal
  obtain rfl : .data 0 = v := Option.some.inj hv
  rfl

/-- A block that is staged and revoked is checkpointed but not replayed. -/
theorem revoked_target_is_not_replayed :
    Loaded twoGroups 1 twoGroupsMounted.journal ∧ twoGroupsMounted.txnBegin.1 = .ok () ∧
    (twoGroupsEdited [.stage 100 (.data 7), .revoke 100]).1.1 = .ok () ∧
    twoGroups.targetIsLegal 100 = true ∧ OutsideJournal twoGroups 100 ∧
    ((txnClose twoGroups (twoGroupsEdited [.stage 100 (.data 7), .revoke 100]).1.2).run
      (twoGroupsEdited [.stage 100 (.data 7), .revoke 100]).2).2.read 100 = .data 7 ∧
    ((loadAndReplay twoGroups .unmounted).run
      ((txnLogged (twoGroupsEdited [.stage 100 (.data 7), .revoke 100]).1.2).run
        (twoGroupsEdited [.stage 100 (.data 7), .revoke 100]).2).2).2.read 100 = .data 0 := by
  refine ⟨⟨rfl, rfl, rfl, rfl⟩, rfl, rfl, by decide, .inr (by decide), ?_, ?_⟩
  · decide +kernel
  · decide +kernel

end Wfs.Journal
