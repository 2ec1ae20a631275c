import WasmOS.Wfs.Volume.Session

/-! # Allocation

The first-fit search of a bitmap, the sweep over the groups that allocates blocks
or an object, and the two releases. Every step stages the bitmap and then the
group descriptor.
-/

namespace Wfs

open Procedure Function Layout Nat Journal

/-- The loop of `wfs_bitmap_find_run`: the current run and the longest one so far. -/
def findRunFrom (used : ℕ → Bool) (want : ℕ) :
    (bits i runStart runLen bestStart bestLen : ℕ) → ℕ × ℕ
  | 0, _, _, _, bestStart, bestLen => (bestStart, bestLen)
  | bits + 1, i, runStart, runLen, bestStart, bestLen =>
    if used i then findRunFrom used want bits (i + 1) runStart 0 bestStart bestLen
    else
      let runStart :=
  if runLen = 0 then i else runStart
      let runLen := runLen + 1
      if want ≤ runLen then (runStart, want)
      else if bestLen < runLen then
        findRunFrom used want bits (i + 1) runStart runLen runStart runLen
      else findRunFrom used want bits (i + 1) runStart runLen bestStart bestLen

def bitmapFindRun (used : ℕ → Bool) (bits want : ℕ) : Option (ℕ × ℕ) :=
  if bits = 0 ∨ want = 0 then none
  else
    match findRunFrom used want bits 0 0 0 0 0 with
    | (_, 0) => none
    | (start, len) => some (start, len)

def FreeRun (used : ℕ → Bool) (start len : ℕ) : Prop :=
  ∀ j, start ≤ j → j < start + len → used j = false

/-- Where a run of `len` clear bits below `bits` may start. -/
def runStarts (used : ℕ → Bool) (bits len : ℕ) : Set ℕ :=
  {s | FreeRun used s len ∧ s + len ≤ bits}

/-- The earliest of the longest runs below `bits` of at most `want` clear bits. -/
structure BestRun (used : ℕ → Bool) (bits want start len : ℕ) : Prop where
  mem : start ∈ runStarts used bits len
  le : len ≤ want
  best : ∀ s, ∀ l ≤ want, s ∈ runStarts used bits l → l < len ∨ l = len ∧ start ≤ s

variable {used : ℕ → Bool} {bits want start len i : ℕ}

lemma findRunFrom_best (bits : ℕ) {runStart runLen : ℕ} (hrun : FreeRun used runStart runLen)
    (hi : runLen = 0 ∨ runStart + runLen = i)
    (hmax : ∀ s ≤ i, FreeRun used s (i - s) → i ≤ s + runLen)
    (h : BestRun used i want start len) (hle : runLen ≤ len) (hw : len < want) :
    let r := findRunFrom used want bits i runStart runLen start len
    BestRun used (i + bits) want r.1 r.2 := by
  induction bits generalizing i runStart runLen start len with
  | zero => exact h
  | succ bits ih =>
    obtain ⟨⟨hfree, hfit⟩, -, hbest⟩ := h
    unfold findRunFrom
    rw [← Nat.add_assoc, Nat.add_right_comm]
    split
    next hu =>
      have hends (s l) (hs : FreeRun used s l) : s + l = i + 1 → l = 0 := by
        intro he
        by_contra hl
        simp [hs i (by omega) (by omega)] at hu
      refine ih (fun j h₁ h₂ => by omega) (.inl rfl) (fun s hs hr => ?_)
        ⟨⟨hfree, by omega⟩, hw.le, fun s l hl hs => ?_⟩ (zero_le _) hw
      · have := hends s _ hr
        omega
      · have := hends s l hs.1
        by_cases hin : s + l ≤ i
        · exact hbest s l hl ⟨hs.1, hin⟩
        · have := hs.2
          omega
    next hu =>
    dsimp only
    set runStart' := if runLen = 0 then i else runStart with hstart
    have hend : runStart' + (runLen + 1) = i + 1 := by
      rw [hstart]
      split <;> omega
    have hgrow : FreeRun used runStart' (runLen + 1) := by
      intro j h₁ h₂
      by_cases hj : j = i
      · simpa [hj] using hu
      · exact hrun j (by omega) (by omega)
    have hmax' : ∀ s ≤ i + 1, FreeRun used s (i + 1 - s) → i + 1 ≤ s + (runLen + 1) := by
      intro s hs hr
      by_cases hsi : s ≤ i
      · have := hmax s hsi fun j h₁ h₂ => hr j h₁ (by omega)
        omega
      · omega
    split
    · refine ⟨⟨fun j h₁ h₂ => hgrow j h₁ (by omega), by omega⟩, le_rfl, fun s l hl hs => ?_⟩
      by_cases hin : s + l ≤ i
      · have := hbest s l hl ⟨hs.1, hin⟩
        omega
      · omega
    have hnext (s l) (hl : l ≤ want) (hs : s ∈ runStarts used (i + 1) l) :
        l < len ∨ l = len ∧ start ≤ s ∨ s + l = i + 1 ∧ l ≤ runLen + 1 := by
      by_cases hin : s + l ≤ i
      · have := hbest s l hl ⟨hs.1, hin⟩
        omega
      · have := hs.2
        have := hmax' s (by omega) fun j h₁ h₂ => hs.1 j h₁ (by omega)
        omega
    split
    · refine ih hgrow (.inr hend) hmax' ⟨⟨hgrow, hend.le⟩, by omega, fun s l hl hs => ?_⟩ le_rfl
        (by omega)
      have := hnext s l hl hs
      omega
    · refine ih hgrow (.inr hend) hmax' ⟨⟨hfree, by omega⟩, hw.le, fun s l hl hs => ?_⟩
        (by omega) hw
      have := hnext s l hl hs
      omega

lemma bitmapFindRun_best (used : ℕ → Bool) (bits want : ℕ) : ∃ start len,
    BestRun used bits want start len ∧
      bitmapFindRun used bits want = if len = 0 then none else some (start, len) := by
  have hnil (bits) : 0 ∈ runStarts used bits 0 := ⟨fun j _ hj => by omega, zero_le _⟩
  unfold bitmapFindRun
  split
  next h0 =>
    refine ⟨0, 0, ⟨hnil _, zero_le _, fun s l hl hs => ?_⟩, rfl⟩
    have := hs.2
    omega
  next h0 =>
  have hinit : BestRun used 0 want 0 0 :=
    ⟨hnil 0, zero_le _, fun s l _ hs => by have := hs.2; omega⟩
  have h := findRunFrom_best bits (hnil 0).1 (.inl rfl) (fun s hs _ => by omega) hinit le_rfl
    (by omega)
  rw [Nat.zero_add] at h
  refine ⟨_, _, h, ?_⟩
  split
  next heq => rw [heq, if_pos rfl]
  next hne heq => rw [heq, if_neg hne]

lemma bitmapFindRun_free (h : bitmapFindRun used bits want = some (start, len)) :
    FreeRun used start len ∧ start + len ≤ bits ∧ 0 < len ∧ len ≤ want := by
  obtain ⟨s, l, ⟨⟨hfree, hfit⟩, hle, -⟩, heq⟩ := bitmapFindRun_best used bits want
  rw [heq] at h
  split at h
  · cases h
  next hne =>
  cases h
  exact ⟨hfree, hfit, pos_of_ne_zero hne, hle⟩

lemma used_of_bitmapFindRun (hw : want ≠ 0) (h : bitmapFindRun used bits want = none)
    (hi : i < bits) : used i = true := by
  obtain ⟨s, l, ⟨-, -, hbest⟩, heq⟩ := bitmapFindRun_best used bits want
  by_contra hu
  have := hbest i 1 (by omega) ⟨fun j h₁ h₂ => by simpa [show j = i by omega] using hu, hi⟩
  rw [heq, if_neg (by omega)] at h
  cases h

/-- The search answers with the earliest run of the wanted length, or else with the earliest of the
longest runs; it answers nothing only when there is no clear bit or none is wanted. -/
theorem bitmapFindRun_exact (used : ℕ → Bool) (bits want : ℕ) :
    match bitmapFindRun used bits want with
    | none => want = 0 ∨ ∀ i < bits, used i = true
    | some (start, len) => 0 < len ∧ IsLeast (runStarts used bits len) start ∧
        (len = want ∨ len < want ∧ ∀ l > len, runStarts used bits l = ∅) := by
  split
  next h => exact or_iff_not_imp_left.mpr fun hw i => used_of_bitmapFindRun hw h
  next start len h =>
  obtain ⟨s, l, ⟨hmem, hle, hbest⟩, heq⟩ := bitmapFindRun_best used bits want
  rw [heq] at h
  split at h
  · cases h
  next hne =>
  cases h
  refine ⟨pos_of_ne_zero hne, ⟨hmem, fun s hs => ?_⟩, hle.eq_or_lt.imp_right fun hlt => ⟨hlt, ?_⟩⟩
  · have := hbest s len hle hs
    omega
  · intro l hl
    refine Set.eq_empty_of_forall_notMem fun s hs => ?_
    -- the first bits of a longer run are a better one
    have := hbest s (len + 1) hlt ⟨fun j h₁ h₂ => hs.1 j h₁ (by omega), by have := hs.2; omega⟩
    omega

variable (L : Layout)

def groupBits (group : ℕ) : ℕ :=
  if L.totalBlocks ≤ group * L.blocksPerGroup then 0
  else min L.blocksPerGroup (L.totalBlocks - group * L.blocksPerGroup)

def allocBlocksSweep (want : ℕ) : (left group : ℕ) → Task (ℕ × ℕ)
  | 0, _ => fail .noSpace
  | left + 1, group => do
    let s ← get
    let base := group * L.blocksPerGroup
    match bitmapFindRun (fun i => s.view.blockUsed (base + i)) (groupBits L group) want with
    | none => allocBlocksSweep want left ((group + 1) % L.groupCount)
    | some (start, len) => do
      stage L (L.blockBitmap group) (·.markBlocks (base + start) len true)
      stage L (L.descBlock group) (·.addFreeBlocks group (-UInt32.ofNat len))
      pure (base + start, len)

def allocBlocks (want preferGroup : ℕ) : Task (ℕ × ℕ) := do
  require (want ≠ 0) .badArgs
  allocBlocksSweep L want L.groupCount (if preferGroup < L.groupCount then preferGroup else 0)

def revokeRun (first : ℕ) : ℕ → Task Unit
  | 0 => pure ()
  | n + 1 => do
    revoke first
    revokeRun (first + 1) n

def freeBlocksFrom : (fuel cursor stop : ℕ) → Task Unit
  | 0, _, _ => pure ()
  | fuel + 1, cursor, stop =>
    if stop ≤ cursor then pure ()
    else do
      let group := cursor / L.blocksPerGroup
      let run := min ((group + 1) * L.blocksPerGroup - cursor) (stop - cursor)
      stage L (L.blockBitmap group) (·.markBlocks cursor run false)
      stage L (L.descBlock group) (·.addFreeBlocks group (UInt32.ofNat run))
      freeBlocksFrom fuel (cursor + run) stop

/-- `wfs_free_blocks_task`: a metadata run is barred from replay before its bits clear. -/
def freeBlocks (first length : ℕ) (metadata : Bool) : Task Unit :=
  if length = 0 then pure ()
  else do
    require (first + length ≤ L.totalBlocks) .range
    (if metadata then revokeRun first length else pure ())
    freeBlocksFrom L length first (first + length)

def newRecord (type : ObjectType) (linkCount : ℕ) : Object :=
  { type := type, inlineFlag := decide (type = .file), size := 0, linkCount := linkCount,
    extentCount := 0, treeBlock := 0, extents := [], inlineData := fun _ => 0 }

def allocObjectSweep (type : ObjectType) (linkCount : ℕ) : (left group : ℕ) → Task ℕ
  | 0, _ => fail .noSpace
  | left + 1, group => do
    let s ← get
    let base := group * L.objectsPerGroup
    match bitmapFindRun (fun i => s.view.objectUsed (base + i)) L.objectsPerGroup 1 with
    | none => allocObjectSweep type linkCount left ((group + 1) % L.groupCount)
    | some (slot, _) => do
      let id := base + slot
      require (objectFirst ≤ id) .corrupt
      stage L (L.recordBlock id) (·.setObject id (newRecord type linkCount))
      stage L (L.objectBitmap group) (·.markObject id true)
      stage L (L.descBlock group) (·.addFreeObjects group (-1))
      pure id

/-- `wfs_alloc_object_task`; every caller prefers group 0. -/
def allocObject (type : ObjectType) (linkCount preferGroup : ℕ) : Task ℕ :=
  allocObjectSweep L type linkCount L.groupCount
    (if preferGroup < L.groupCount then preferGroup else 0)

/-- From `s` to `t` the only targets added are blocks of the fixed tables. -/
structure Tables (s t : Session) : Prop where
  home : t.home = s.home
  isOpen : t.isOpen = true
  targets : ∀ u ∈ t.targets, u ∈ s.targets ∨ ¬ L.IsData u
  keeps : s.targets ⊆ t.targets
  bounded : s.Bounded → t.Bounded

/-- From `s` to `t` only block bits and the group counters changed. -/
structure Marked (s t : Session) (used : ℕ → Bool) : Prop extends Tables L s t where
  object : t.view.object = s.view.object
  objectUsed : t.view.objectUsed = s.view.objectUsed
  block : t.view.block = s.view.block
  blockUsed : t.view.blockUsed = used

variable {L} {s t u : Session} {used used' : ℕ → Bool}

lemma Tables.trans (h : Tables L s t) (h' : Tables L t u) : Tables L s u where
  home := h'.home.trans h.home
  isOpen := h'.isOpen
  targets b hb := (h'.targets b hb).elim (h.targets b) .inr
  keeps _ hb := h'.keeps (h.keeps hb)
  bounded hb := h'.bounded (h.bounded hb)

lemma Tables.staged {target : ℕ} {f : Volume → Volume} (ho : s.isOpen = true)
    (ht : target < L.firstDataBlock)
    (hr : target ∈ s.targets ∨ s.targets.length < txnMaxTargets) :
    Tables L s (s.staged target f) where
  home := rfl
  isOpen := ho
  targets b hb := by
    rcases s.mem_staged_targets.mp hb with rfl | hb
    · exact .inr (not_isData ht)
    · exact .inl hb
  keeps b hb := s.mem_staged_targets.mpr (.inr hb)
  bounded h := h.staged hr

variable {Q : Unit → Session → Prop} {E : Session → Prop}

lemma wp_mark {first length group : ℕ} {used : Bool} {n : UInt32} (hg : group < L.groupCount)
    (hQ : ∀ t, Marked L s t (s.view.markBlocks first length used).blockUsed →
      t.revokes = s.revokes → Q () t)
    (hE : ∀ t, t.home = s.home → t.isOpen = false → E t) :
    wp (stage L (L.blockBitmap group) (·.markBlocks first length used))
      (fun _ t => wp (stage L (L.descBlock group) (·.addFreeBlocks group n)) Q E t) E s := by
  refine wp_stage (fun ho hr => ?_) (hE _ rfl rfl)
  have h₁ := Tables.staged (L := L) (f := (·.markBlocks first length used)) ho
    (blockBitmap_lt hg) hr
  refine wp_stage (fun ho' hr' => hQ _ ⟨h₁.trans ?_, rfl, rfl, rfl, rfl⟩ rfl) (hE _ rfl rfl)
  exact Tables.staged ho' (descBlock_lt hg) hr'

lemma groupBits_le {group start len : ℕ} (h : start + len ≤ groupBits L group) (hl : 0 < len) :
    group * L.blocksPerGroup + start + len ≤ L.totalBlocks := by
  unfold groupBits at h
  split at h
  · omega
  · omega

variable (L) in
/-- What an allocation hands out: a run of the volume whose bits were clear and are set. -/
structure Allocates (s t : Session) (want first length : ℕ) : Prop where
  marked : Marked L s t (s.view.markBlocks first length true).blockUsed
  revokes : t.revokes = s.revokes
  length_pos : 0 < length
  length_le : length ≤ want
  fits : first + length ≤ L.totalBlocks
  free : FreeRun s.view.blockUsed first length

lemma allocBlocksSweep_spec {want left group : ℕ} (hg : group < L.groupCount) :
    wp (allocBlocksSweep L want left group)
      (fun r t => Allocates L s t want r.1 r.2) (fun t => t.home = s.home) s := by
  induction left generalizing group with
  | zero => rfl
  | succ left ih =>
    rw [allocBlocksSweep, wp_bind, wp_get]
    dsimp only
    split
    · exact ih (mod_lt _ groupCount_pos)
    next start len hf =>
    obtain ⟨hfree, hfit, hpos, hle⟩ := bitmapFindRun_free hf
    simp only [wp_bind, wp_pure]
    refine wp_mark hg (fun t hm hr => ?_) fun t ht _ => ht
    refine ⟨hm, hr, hpos, hle, groupBits_le hfit hpos, fun b h₁ h₂ => ?_⟩
    have := hfree (b - group * L.blocksPerGroup) (by omega) (by omega)
    dsimp only at this
    rwa [Nat.add_sub_cancel' (by omega)] at this

lemma allocBlocks_spec (s : Session) (want preferGroup : ℕ) : wp (allocBlocks L want preferGroup)
      (fun r t => Allocates L s t want r.1 r.2) (fun t => t.home = s.home) s := by
  rw [allocBlocks, wp_bind, wp_require]
  split
  · refine allocBlocksSweep_spec ?_
    split
    · assumption
    · exact groupCount_pos
  · rfl

lemma groupBits_mod {b : ℕ} (hb : b < L.totalBlocks) :
    b % L.blocksPerGroup < groupBits L (b / L.blocksPerGroup) := by
  have hpos := L.blocksPerGroup_pos
  have hdiv := div_add_mod' b L.blocksPerGroup
  have hmod := mod_lt b hpos
  unfold groupBits
  rw [if_neg (by omega), Nat.lt_min]
  omega

lemma allocBlocksSweep_returns {want left group b n : ℕ} {bs : List ℕ} (hw : want ≠ 0)
    (hg : group < L.groupCount) (hb : b < L.totalBlocks) (hfree : s.view.blockUsed b = false)
    (hleft : ∃ j < left, (group + j) % L.groupCount = b / L.blocksPerGroup)
    (hr : s.Room bs (n + 2)) :
    wp (allocBlocksSweep L want left group) (fun _ t => t.Room bs n) (fun _ => False) s := by
  induction left generalizing group with
  | zero =>
    omega
  | succ left ih =>
    rw [allocBlocksSweep, wp_bind, wp_get]
    dsimp only
    split
    · next hnone =>
      apply ih (mod_lt _ groupCount_pos)
      obtain ⟨j, hj, hmod⟩ := hleft
      cases j with
      | zero =>
        -- the group of `b` is this one, where the search cannot have come back empty
        rw [add_zero, mod_eq_of_lt hg] at hmod
        subst hmod
        have hused := used_of_bitmapFindRun hw hnone (groupBits_mod hb)
        rw [div_add_mod', hfree] at hused
        cases hused
      | succ j =>
        refine ⟨j, by omega, ?_⟩
        rw [← hmod, mod_add_mod]
        congr 1
        omega
    · next start len hf =>
      have hdesc := descBlock_lt_journal hg
      have hbit := L.journal_le
      simp only [wp_bind, wp_pure]
      have hr₁ := (hr.cons (L.blockBitmap group)).cons (L.descBlock group)
      refine wp_stage_room ?_ (fun ho hroom => ?_) fun h => h _ _ ?_ hr₁
      · rintro ⟨-, hlt⟩
        unfold blockBitmap at hlt
        omega
      · have hr₂ := hr₁.staged (f := (·.markBlocks (group * L.blocksPerGroup + start) len true))
          (b := L.blockBitmap group) (by simp)
        refine wp_stage_room (by omega) (fun ho hroom => ?_) fun h => h _ _ ?_ hr₂
        · exact (hr₂.staged (by simp)).mono (by simp)
        · simp
      · simp

lemma allocBlocks_returns {want prefer b n : ℕ} {bs : List ℕ} (hw : want ≠ 0)
    (hb : b < L.totalBlocks) (hfree : s.view.blockUsed b = false) (hr : s.Room bs (n + 2)) :
    wp (allocBlocks L want prefer) (fun _ t => t.Room bs n) (fun _ => False) s := by
  have hpos := L.groupCount_pos
  have hlt := group_lt hb
  rw [allocBlocks, wp_bind, wp_require, if_pos hw]
  generalize hstart : (if prefer < L.groupCount then prefer else 0) = start
  have hs : start < L.groupCount := by
    rw [← hstart]
    split
    · assumption
    · exact hpos
  apply allocBlocksSweep_returns hw hs hb hfree _ hr
  generalize b / L.blocksPerGroup = g at hlt ⊢
  by_cases hle : start ≤ g
  · refine ⟨g - start, by omega, ?_⟩
    rw [Nat.add_sub_cancel' hle, Nat.mod_eq_of_lt hlt]
  refine ⟨g + L.groupCount - start, by omega, ?_⟩
  have hsum : start + (g + L.groupCount - start) = g + L.groupCount := by omega
  rw [hsum, Nat.add_mod_right, Nat.mod_eq_of_lt hlt]

lemma wp_revoke {b : ℕ} (ho : s.isOpen = true)
    (hQ : ∀ rs : List ℕ, (s.revokes.Nodup → rs.Nodup) → (∀ r ∈ rs, r ∈ s.revokes ∨ r = b) →
      rs.length ≤ s.revokes.length + 1 → Q () { s with revokes := rs })
    (hE : txnMaxRevokes ≤ s.revokes.length → E s) : wp (revoke b) Q E s := by
  unfold wp revoke
  rw [if_neg (by simp [ho])]
  by_cases hm : b ∈ s.revokes
  · simpa [hm] using hQ s.revokes id (fun r hr => .inl hr) (le_succ _)
  rw [if_neg hm]
  by_cases hl : txnMaxRevokes ≤ s.revokes.length
  · rw [if_pos hl]
    exact hE hl
  rw [if_neg hl]
  refine hQ (s.revokes ++ [b]) (fun hn => ?_) (fun r hr => by simpa using hr) (by simp)
  simpa [List.nodup_append', hn] using hm

variable (L) in
structure AllocatesObject (s t : Session) (o : Object) (id : ℕ) : Prop extends Tables L s t where
  revokes : t.revokes = s.revokes
  blockUsed : t.view.blockUsed = s.view.blockUsed
  block : t.view.block = s.view.block
  object : t.view.object = update s.view.object id (some o)
  objectUsed : t.view.objectUsed = update s.view.objectUsed id true
  free : s.view.objectUsed id = false
  first_le : objectFirst ≤ id
  id_lt : id < L.totalObjects

lemma allocObjectSweep_spec {type : ObjectType} {linkCount left group : ℕ}
    (hg : group < L.groupCount) :
    wp (allocObjectSweep L type linkCount left group)
      (fun id t => AllocatesObject L s t (newRecord type linkCount) id)
      (fun t => t.home = s.home) s := by
  induction left generalizing group with
  | zero => rfl
  | succ left ih =>
    rw [allocObjectSweep, wp_bind, wp_get]
    dsimp only
    split
    · exact ih (mod_lt _ groupCount_pos)
    next slot len hf =>
    obtain ⟨hfree, hfit, hpos, -⟩ := bitmapFindRun_free hf
    have hid : group * L.objectsPerGroup + slot < L.totalObjects := by
      have := mul_le_mul_right L.objectsPerGroup hg
      rw [succ_mul] at this
      rw [totalObjects, mul_comm L.objectsPerGroup]
      omega
    rw [wp_bind, wp_require]
    split
    · next hfirst =>
      simp only [wp_bind, wp_pure]
      refine wp_stage (fun ho hr => ?_) rfl
      have h₁ := Tables.staged (f := (·.setObject (group * L.objectsPerGroup + slot)
        (newRecord type linkCount))) ho (recordBlock_lt hid) hr
      refine wp_stage (fun ho hr => ?_) rfl
      have h₂ := h₁.trans (Tables.staged
        (f := (·.markObject (group * L.objectsPerGroup + slot) true)) ho
        (objectBitmap_lt hg) hr)
      refine wp_stage (fun ho hr => ?_) rfl
      have h₃ := h₂.trans (Tables.staged (f := (·.addFreeObjects group (-1))) ho
        (descBlock_lt hg) hr)
      exact ⟨h₃, rfl, rfl, rfl, rfl, rfl, hfree slot le_rfl (by omega), hfirst, hid⟩
    · rfl

theorem allocObject_spec (s : Session) (type : ObjectType) (linkCount preferGroup : ℕ) :
    wp (allocObject L type linkCount preferGroup)
      (fun id t => AllocatesObject L s t (newRecord type linkCount) id)
      (fun t => t.home = s.home) s := by
  refine allocObjectSweep_spec ?_
  split
  · assumption
  · exact groupCount_pos

lemma oneGroup_blockSize : 4096 = 4096 ∨ 4096 = 8192 ∨ 4096 = 16384 := by decide

lemma oneGroup_room : 1 + Journal.txnLogBlocks Journal.txnMaxTargets 1 ≤ 28 := by decide

def oneGroup : Layout where
  blockSize := 4096
  totalBlocks := 64
  journalStart := 2
  journalBlocks := 28
  blockSize_mem := oneGroup_blockSize
  journalStart_pos := two_pos
  journal_fits := by decide
  journal_room := oneGroup_room
  journal_before_backups := by decide
  journalStart_eq := by decide
  objectsPerGroup := 32
  objectsPerGroup_ge := by decide
  objectsPerGroup_dvd := by decide
  bitmapStart := 32
  bitmapStart_eq := by decide
  firstDataBlock := 34
  firstDataBlock_eq := by decide
  root_fits := by decide
  root_not_backup := by decide

def oneGroupVolume : Volume := { format oneGroup fun _ => .bytes fun _ => 0 with
    freeBlocks := fun _ => 29
    freeObjects := fun _ => 16 }

end Wfs
