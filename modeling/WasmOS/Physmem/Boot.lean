import WasmOS.Physmem.Frames

/-! # From the memory map on

What `pfa_init` builds from a memory map whose usable descriptors do not overlap, and
from there every run of calls.
-/

namespace Physmem

open Cover List Descriptor Machine

section Init

variable {b : Boot} {p : Pfa} {t : List Range}

lemma addRange_spec {base pages : ℕ} (h : Tidy t) (haligned : base % pageSize = 0)
    (hhigh : base + pages * pageSize + pageSize ≤ 2 ^ 64) :
    Tidy (addRange t base pages) ∧ ∀ f,
      freeCount (addRange t base pages) f ≤ freeCount t f + (Range.has ⟨base, pages⟩ f).toNat := by
  unfold addRange
  split
  · exact ⟨h, fun f => Nat.le_add_right _ _⟩
  split
  next hzero =>
    subst hzero
    split
    · exact ⟨h, fun f => Nat.le_add_right _ _⟩
    next hpages =>
      obtain ⟨n, rfl⟩ : ∃ n, pages = 1 + n := ⟨pages - 1, by omega⟩
      rw [Nat.add_sub_cancel_left]
      have hr : Range.Tidy ⟨pageSize, n⟩ :=
        ⟨Nat.mod_self _, le_rfl, by rw [add_mul] at hhigh; simp only; omega⟩
      have hputs := appendRange_puts h hr
      refine ⟨hputs.tidy, fun f => ?_⟩
      rw [hputs.count, has_add, zero_add, one_mul]
      omega
  next hne =>
    have hlow : pageSize ≤ base :=
      Nat.le_of_dvd (pos_of_ne_zero hne) (Nat.dvd_of_mod_eq_zero haligned)
    have hputs := appendRange_puts (r := ⟨base, pages⟩) h ⟨haligned, hlow, hhigh⟩
    exact ⟨hputs.tidy, fun f => le_of_eq (hputs.count f)⟩

lemma foldl_addRange_spec (ds : List Descriptor) : ∀ t : List Range, Tidy t →
    (∀ d ∈ ds, d.type.isUsable = true →
      d.physicalStart % pageSize = 0 ∧ d.stop + pageSize ≤ 2 ^ 64) → Tidy (ds.foldl (fun t d =>
        if d.type.isUsable then addRange t d.physicalStart d.numberOfPages else t) t) ∧
      ∀ f, freeCount (ds.foldl (fun t d =>
        if d.type.isUsable then addRange t d.physicalStart d.numberOfPages else t) t) f ≤
        freeCount t f + cover has ds f := by
  induction ds with
  | nil => exact fun t h _ => ⟨h, fun f => le_rfl⟩
  | cons d ds ih =>
    intro t h hds
    obtain ⟨hd, hds⟩ := forall_mem_cons.1 hds
    rw [foldl_cons]
    split
    next husable =>
      obtain ⟨haligned, hhigh⟩ := hd husable
      obtain ⟨htidy, hcount⟩ := addRange_spec h haligned hhigh
      obtain ⟨htidy', hcount'⟩ := ih _ htidy hds
      refine ⟨htidy', fun f => ?_⟩
      have h₁ := hcount f
      have h₂ := hcount' f
      rw [cover_cons, has, husable, Bool.true_and]
      omega
    next husable =>
      obtain ⟨htidy', hcount'⟩ := ih t h hds
      refine ⟨htidy', fun f => ?_⟩
      have := hcount' f
      rw [cover_cons]
      omega

lemma Boot.WellFormed.cover_le_one (h : b.WellFormed) (f : ℕ) :
    cover has b.map f ≤ 1 := by
  refine cover_le_one_of_pairwise (h.disjoint.imp fun {d d'} hdd f hboth => ?_) f
  simp only [has, Bool.and_eq_true, Range.has_iff] at hboth
  obtain ⟨⟨hu, h₁⟩, hu', h₂⟩ := hboth
  have := hdd hu hu'
  simp only [stop] at this
  omega

lemma Boot.WellFormed.unreserved_spec (h : b.WellFormed) :
    Tidy b.unreserved ∧ ∀ f, freeCount b.unreserved f ≤ 1 ∧
      (0 < freeCount b.unreserved f → b.Usable f ∧ (f + 2) * pageSize ≤ 2 ^ 64) := by
  have hsub := take_sublist maxDescriptors b.map
  obtain ⟨ht₀, hc₀⟩ := foldl_addRange_spec (b.map.take maxDescriptors) [] tidy_nil
    fun d hd => h.frames d (hsub.subset hd)
  have hmap : ∀ f, freeCount b.freeRanges f ≤ cover has b.map f := fun f =>
    le_trans (le_trans (hc₀ f) (le_of_eq (zero_add _))) hsub.countP_le
  have hone : ∀ f, freeCount b.freeRanges f ≤ 1 := fun f =>
    le_trans (hmap f) (h.cover_le_one f)
  obtain ⟨ht₁, hc₁⟩ := reserveRange_spec ht₀ hone h.kernel
  have htrampoline : 0x1000 + pageSize + pageSize ≤ 2 ^ 64 := by decide
  obtain ⟨ht₂, hc₂⟩ := reserveRange_spec ht₁ (fun f => le_trans (hc₁ f).1 (hone f)) htrampoline
  refine ⟨ht₂, fun f => ⟨le_trans (hc₂ f).1 (le_trans (hc₁ f).1 (hone f)), fun hpos => ?_⟩⟩
  have hpos₁ := lt_of_lt_of_le hpos (hc₂ f).1
  have hpos₀ := lt_of_lt_of_le hpos₁ (hc₁ f).1
  obtain ⟨r, hr, hf⟩ := cover_pos_iff.1 hpos
  obtain ⟨haligned, hlow, hhigh⟩ := ht₂ r hr
  rw [Range.has_iff] at hf
  refine ⟨⟨cover_pos_iff.1 (lt_of_lt_of_le hpos₀ (hmap f)), ?_, ?_, fun hsize h₁ h₂ => ?_⟩, ?_⟩
  · simp only [pageSize] at hlow hf
    omega
  · rintro rfl
    have := (hc₂ 1).2 pageSize_pos (by decide) (by decide)
    exact ne_of_gt hpos this
  · exact ne_of_gt hpos₁ ((hc₁ f).2 hsize h₁ h₂)
  · simp only [pageSize] at haligned hhigh hf ⊢
    omega

lemma foldl_max_spec {α : Type*} (g : α → ℕ) (bound : ℕ) (l : List α) : ∀ acc ≤ bound,
    (∀ a ∈ l, g a ≤ bound) → acc ≤ l.foldl (fun acc a => max acc (g a)) acc ∧
      l.foldl (fun acc a => max acc (g a)) acc ≤ bound ∧
      ∀ a ∈ l, g a ≤ l.foldl (fun acc a => max acc (g a)) acc := by
  induction l with
  | nil => exact fun acc hacc _ => ⟨le_rfl, hacc, fun a ha => by cases ha⟩
  | cons a l ih =>
    intro acc hacc hl
    obtain ⟨ha, hl⟩ := forall_mem_cons.1 hl
    obtain ⟨h₁, h₂, h₃⟩ := ih (max acc (g a)) (Nat.max_le.2 ⟨hacc, ha⟩) hl
    rw [foldl_cons]
    refine ⟨le_trans (le_max_left _ _) h₁, h₂, forall_mem_cons.2 ⟨?_, h₃⟩⟩
    exact le_trans (le_max_right _ _) h₁

lemma upgradeRefcount_inv {pool : ℕ → ℕ} (ht : Tidy t) (hone : ∀ f, freeCount t f ≤ 1)
    (hpool : ∀ f, freeCount t f = pool f)
    (hok : Pfa.upgradeRefcount ⟨t, fun _ => 0, staticTrackedPages⟩ = some p) :
    Inv p.refcount pool (.boot p) := by
  have hstop : ∀ r ∈ t, r.stop ≤ 2 ^ 64 - pageSize := fun r hr => by
    have := (ht r hr).high
    rw [(ht r hr).stop_eq]
    omega
  obtain ⟨-, hmax, hle⟩ := foldl_max_spec Range.stop (2 ^ 64 - pageSize) t 0 (Nat.zero_le _) hstop
  simp only [Pfa.upgradeRefcount] at hok
  generalize hphys : t.foldl (fun acc r => max acc r.stop) 0 = maxPhys at hok hmax hle
  -- every free frame lies below the last address
  have hbelow : ∀ f, 0 < freeCount t f → (f + 1) * pageSize ≤ maxPhys := fun f hf => by
    obtain ⟨r, hr, hin⟩ := cover_pos_iff.1 hf
    have haligned := (ht r hr).aligned
    have := hle r hr
    rw [(ht r hr).stop_eq] at this
    rw [Range.has_iff] at hin
    simp only [pageSize] at haligned hin this ⊢
    omega
  have hneeded : ∀ f, 0 < freeCount t f →
      f < wrap (maxPhys + (pageSize - 1)) / pageSize := fun f hf => by
    have := hbelow f hf
    rw [wrap_eq (by simp only [pageSize] at hmax ⊢; omega)]
    simp only [pageSize] at this ⊢
    omega
  split at hok
  next hsmall =>
    cases hok
    refine ⟨ht, fun f => ?_, fun f => (zero_add _).symm, fun f hf => absurd hf (lt_irrefl 0),
      fun f hf => ?_⟩
    · exact (add_zero _).trans (hpool f)
    rw [← hpool f] at hf
    have h₁ := hbelow f hf
    have h₂ := hneeded f hf
    rcases hsmall with hzero | hsmall
    · simp only [pageSize] at h₁
      omega
    · exact lt_of_lt_of_le h₂ hsmall
  next hlarge =>
    generalize wrap (maxPhys + (pageSize - 1)) / pageSize = needed at hok hneeded
    generalize (needed + (pageSize - 1)) / pageSize = n at hok
    cases hfound : takeFirst n t with
    | none =>
      simp only [Pfa.allocPagesNolock, hfound, Pfa.grant, if_true] at hok
      cases hok
    | some out =>
      obtain ⟨addr, t'⟩ := out
      have htakes := takeFirst_takes ht hfound
      simp only [Pfa.allocPagesNolock, hfound, Pfa.grant, if_neg htakes.run.base_ne_zero] at hok
      cases hok
      obtain ⟨k, rfl⟩ := htakes.run.exists_frame
      have hcount : ∀ f, markUsed needed (k * pageSize) n (fun idx =>
          if idx < staticTrackedPages then
            markUsed staticTrackedPages (k * pageSize) n (fun _ => 0) idx else 0) f =
          (Range.has ⟨k * pageSize, n⟩ f).toNat := by
        intro f
        have hfree := htakes.count f
        have hlt := hneeded f
        rw [toNat_has_frame] at hfree ⊢
        rw [markUsed_eq htakes.run, markUsed_eq htakes.run]
        split_ifs at * <;> omega
      refine ⟨htakes.tidy, fun f => ?_, fun f => (zero_add _).symm,
        fun f hf => absurd hf (lt_irrefl 0), fun f hf => hneeded f (hpool f ▸ hf)⟩
      have h₁ := htakes.count f
      have h₂ := hone f
      have h₃ := Bool.toNat_le (Range.has ⟨k * pageSize, n⟩ f)
      simp only [boot, hcount f, ← hpool f]
      omega

lemma Boot.WellFormed.managed (h : b.WellFormed) (hok : b.pfaInit = some p) :
    Managed b p (freeCount b.unreserved) ∧ Inv p.refcount (freeCount b.unreserved) (.boot p) := by
  obtain ⟨htidy, hspec⟩ := h.unreserved_spec
  obtain ⟨q, hq, rfl⟩ := Option.map_eq_some_iff.1 hok
  have hinv := upgradeRefcount_inv htidy (fun f => (hspec f).1) (fun _ => rfl) hq
  have hinv' : Inv (q.allocPagesNolock 1).2.refcount (freeCount b.unreserved)
      (.boot (q.allocPagesNolock 1).2) := by
    unfold Pfa.allocPagesNolock
    cases hfound : takeFirst 1 q.ranges with
    | none => exact hinv
    | some out =>
      obtain ⟨hi, -⟩ := hinv.take (fun f => (hspec f).1) (takeFirst_takes hinv.tidy hfound)
      exact ⟨hi.tidy, hi.count, fun f => (zero_add _).symm,
        fun f hf => absurd hf (lt_irrefl 0), hi.tracked⟩
  refine ⟨⟨fun f => (hspec f).1, fun f => (hspec f).2, fun f hf => ?_⟩, hinv'⟩
  have h₁ := hinv'.count f
  have h₂ := (hspec f).1
  rw [free_iff_pos] at hf
  simp only [boot] at h₁
  omega

end Init

/-- Over a well-formed memory map, in every run of legal calls that fit, no call panics, free
extents are disjoint and usable, a returned run was held by nobody, and a frame whose last reference
goes is free again. -/
theorem no_frame_twice (b : Boot) (hb : b.WellFormed) {p : Pfa} (hinit : b.pfaInit = some p)
    (cs : List Call) (c : Call) (hcare : CarefulRun (.boot p) (cs ++ [c])) :
    ∃ m addr m', run (.boot p) cs = some m ∧ m.exec c = some (addr, m') ∧
      Upheld b p m ∧ Granted b m addr c ∧ Upheld b p m' ∧ Released m m' c := by
  obtain ⟨hm, hinv₀⟩ := hb.managed hinit
  obtain ⟨hcs, hc⟩ := carefulRun_append hcare
  obtain ⟨m, hm₁, hinv₁⟩ := run_inv cs hinv₀ hm hcs
  obtain ⟨⟨hlegal, hfits⟩, -⟩ := hc m hm₁
  obtain ⟨addr, m', hexec, hinv₂, hgranted⟩ := exec_inv hinv₁ hm hlegal hfits
  exact ⟨m, addr, m', hm₁, hexec, hinv₁.upheld hm, hgranted, hinv₂.upheld hm,
    hinv₁.released hinv₂ hlegal hexec⟩

def oneExtent : Boot := ⟨[⟨.conventional, 0x200000, 16⟩], 0x100000, 0x80000⟩

def shareAndDrop : List Call :=
  [.allocPages 2, .pinPages 0x201000 2, .freePages 0x201000 2, .allocPagesAbove 3 0x206000,
    .allocPagesBelow 1 0x204000]

theorem no_frame_twice_shareAndDrop : ∃ p, oneExtent.pfaInit = some p ∧
      CarefulRun (.boot p) (shareAndDrop ++ [.freePages 0x201000 2]) ∧
      ∃ m addr m', run (.boot p) shareAndDrop = some m ∧
        m.exec (.freePages 0x201000 2) = some (addr, m') ∧ Upheld oneExtent p m ∧
        Granted oneExtent m addr (.freePages 0x201000 2) ∧ Upheld oneExtent p m' ∧
        Released m m' (.freePages 0x201000 2) := by
  have hinit : ∃ p, oneExtent.pfaInit = some p ∧
      CarefulRun (.boot p) (shareAndDrop ++ [.freePages 0x201000 2]) := by
    decide +kernel
  obtain ⟨p, hp, hcare⟩ := hinit
  exact ⟨p, hp, hcare, no_frame_twice oneExtent (by decide) hp _ _ hcare⟩

def scattered : Boot :=
  ⟨(List.range 128).map fun i => ⟨.conventional, 0x200000 + i * 0x2000, 1⟩, 0x100000, 0x80000⟩

/-- With 128 entries, some of them empty, a run is turned away although it would join or replace
one: the frame that was just allocated and freed is lost. -/
theorem scattered_loses_frame : ∃ p m m', scattered.WellFormed ∧ scattered.pfaInit = some p ∧
      run (.boot p) [.allocPages 1] = some m ∧ (Call.freePages 0x202000 1).Legal m.held ∧
      m.exec (.freePages 0x202000 1) = some (0, m') ∧
      (m'.pfa.ranges.filter (·.pages ≠ 0)).length = 126 ∧
      ¬ Released m m' (.freePages 0x202000 1) := by
  have hrun : ∃ p, scattered.pfaInit = some p ∧ ∃ m, run (.boot p) [.allocPages 1] = some m ∧
      (Call.freePages 0x202000 1).Legal m.held ∧ m.held 0x202 = 1 ∧
      ∃ out, m.exec (.freePages 0x202000 1) = some out ∧ out.1 = 0 ∧
        (out.2.pfa.ranges.filter (·.pages ≠ 0)).length = 126 ∧
        ∀ r ∈ out.2.pfa.ranges, r.has 0x202 = false := by
    decide +kernel
  obtain ⟨p, hp, m, hm, hlegal, hone, ⟨addr, m'⟩, hexec, haddr, hfull, hgone⟩ := hrun
  obtain rfl : addr = 0 := haddr
  refine ⟨p, m, m', by decide +kernel, hp, hm, hlegal, hexec, hfull, fun hreleased => ?_⟩
  obtain ⟨r, hr, hin⟩ := hreleased 0 (by decide) hone
  have hout : r.has 0x202 = false := hgone r hr
  exact Bool.false_ne_true (hout.symm.trans hin)

end Physmem
