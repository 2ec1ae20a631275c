import WasmOS.Physmem.Table

/-! # Who holds a frame

The allocator with the references its callers hold. As long as the table has room for every run a
call puts back and no address sum overflows, each frame is free or held, never both, and no free run
is listed twice.
-/

namespace Physmem

open Cover Function Range Pfa Nat

section Run

variable {k n f i : ℕ}

lemma has_frame : has ⟨k * pageSize, n⟩ f = decide (k ≤ f ∧ f < k + n) := by
  rw [has, ← add_mul, decide_eq_decide, Nat.mul_le_mul_right_iff pageSize_pos,
    Nat.mul_lt_mul_right pageSize_pos]

lemma toNat_has_frame :
    (has ⟨k * pageSize, n⟩ f).toNat = if k ≤ f ∧ f < k + n then 1 else 0 := by
  rw [has_frame]
  split <;> simp_all

section

variable (h : Range.Tidy ⟨k * pageSize, n⟩)
include h

lemma Range.Tidy.frame_lt (hi : i ≤ n) : k * pageSize + i * pageSize < 2 ^ 64 := by
  have : k * pageSize + n * pageSize < 2 ^ 64 := h.stop_lt
  have := mul_le_mul_right pageSize hi
  omega

lemma Range.Tidy.frames {a b : ℕ} (ha : k ≤ a)
    (hb : a + b ≤ k + n) : Range.Tidy ⟨a * pageSize, b⟩ :=
  h.part (mul_mod_left _ _) (mul_le_mul_right _ ha)
    (by simpa only [add_mul] using mul_le_mul_right pageSize hb)

lemma frameAt_eq (hi : i ≤ n) : frameAt (k * pageSize) i = k + i := by
  rw [frameAt, wrap_eq (h.frame_lt hi), ← add_mul, Nat.mul_div_cancel _ pageSize_pos]

end

lemma Range.Tidy.exists_frame {base : ℕ} (h : Range.Tidy ⟨base, n⟩) : ∃ k, base = k * pageSize :=
  ⟨base / pageSize, (Nat.div_mul_cancel (Nat.dvd_of_mod_eq_zero h.aligned)).symm⟩

lemma markUsed_eq {tracked : ℕ} {refcount : ℕ → ℕ} (h : Range.Tidy ⟨k * pageSize, n⟩) (f : ℕ) :
    markUsed tracked (k * pageSize) n refcount f =
      if (k ≤ f ∧ f < k + n) ∧ f < tracked then 1 else refcount f := by
  induction n with
  | zero =>
    rw [if_neg (by omega)]
    rfl
  | succ n ih =>
    have ih := ih h.left
    rw [markUsed, frameAt_eq h (le_succ n)]
    by_cases heq : f = k + n
    · subst heq
      by_cases ht : k + n < tracked
      · rw [if_pos ht, update_self, if_pos (by omega)]
      · rw [if_neg ht, ih, if_neg (by omega), if_neg (by omega)]
    have hsame : (k ≤ f ∧ f < k + (n + 1)) ↔ (k ≤ f ∧ f < k + n) := by omega
    simp only [hsame, ← ih]
    split
    · rw [update_of_ne heq]
    · rfl

end Run

structure Machine where
  pfa : Pfa
  held : ℕ → ℕ

/-- The references after a call that returned `addr`. -/
def Call.holds (held : ℕ → ℕ) (addr : ℕ) : Call → ℕ → ℕ
  | .allocPages pages | .allocPagesBelow pages _ | .allocPagesAbove pages _ => fun f =>
    if addr = 0 then held f else held f + (has ⟨addr, pages⟩ f).toNat
  | .pinPages base pages => fun f => held f + (has ⟨base, pages⟩ f).toNat
  | .freePages base pages => fun f => held f - (has ⟨base, pages⟩ f).toNat

namespace Machine

def boot (p : Pfa) : Machine := ⟨p, fun _ => 0⟩

def exec (m : Machine) (c : Call) : Option (ℕ × Machine) :=
  (c.exec m.pfa).map fun (addr, pfa) => (addr, ⟨pfa, c.holds m.held addr⟩)

def run : Machine → List Call → Option Machine
  | m, [] => some m
  | m, c :: cs => (m.exec c).bind fun out => run out.2 cs

end Machine

/-- Callers pin and free only frames they hold a reference to. -/
def Call.Legal (held : ℕ → ℕ) : Call → Prop
  | .pinPages base pages | .freePages base pages =>
    base % pageSize = 0 ∧ ∀ i < pages, 0 < held (base / pageSize + i)
  | _ => True

/-- The maximal runs of frames with one reference among `todo` frames from `frame` on. -/
def releasedRuns (refcount : ℕ → ℕ) : (todo frame : ℕ) → (pending : Bool) → ℕ
  | 0, _, pending => pending.toNat
  | todo + 1, frame, pending =>
    if refcount frame = 1 then releasedRuns refcount todo (frame + 1) true
    else pending.toNat + releasedRuns refcount todo (frame + 1) false

/-- What the calls do not provide for: a full table, a byte address that overflows, and a count that
is full. -/
def Call.Fits (p : Pfa) : Call → Prop
  | .allocPagesAbove pages minAddr =>
    minAddr + pageSize ≤ 2 ^ 64 ∧ p.ranges.length < tableSize ∧
      ∀ r ∈ p.ranges, max r.base (alignUp minAddr) + pages * pageSize < 2 ^ 64
  | .pinPages base pages => ∀ i < pages, p.refcount (base / pageSize + i) < 255
  | .freePages base pages =>
    p.ranges.length + releasedRuns p.refcount pages (base / pageSize) false ≤ tableSize
  | _ => True

instance (held : ℕ → ℕ) (c : Call) : Decidable (c.Legal held) := by
  cases c <;> unfold Call.Legal <;> infer_instance

instance (p : Pfa) (c : Call) : Decidable (c.Fits p) := by
  cases c <;> unfold Call.Fits <;> infer_instance

def CarefulRun : Machine → List Call → Prop
  | _, [] => True
  | m, c :: cs => (c.Legal m.held ∧ c.Fits m.pfa) ∧ ∀ out ∈ m.exec c, CarefulRun out.2 cs

instance decidableCarefulRun : ∀ (m : Machine) (cs : List Call), Decidable (CarefulRun m cs)
  | _, [] => isTrue trivial
  | m, c :: cs =>
    have : ∀ m', Decidable (CarefulRun m' cs) := fun m' => decidableCarefulRun m' cs
    inferInstanceAs (Decidable ((_ ∧ _) ∧ ∀ out ∈ m.exec c, CarefulRun out.2 cs))

namespace Descriptor

def stop (d : Descriptor) : ℕ := d.physicalStart + d.numberOfPages * pageSize

def has (d : Descriptor) (f : ℕ) : Bool :=
  d.type.isUsable && Range.has ⟨d.physicalStart, d.numberOfPages⟩ f

end Descriptor

/-- Usable descriptors and the kernel image are whole frames, do not overlap and end a frame before
the address space does. -/
@[mk_iff]
structure Boot.WellFormed (b : Boot) : Prop where
  frames : ∀ d ∈ b.map, d.type.isUsable = true →
    d.physicalStart % pageSize = 0 ∧ d.stop + pageSize ≤ 2 ^ 64
  disjoint : b.map.Pairwise fun d d' => d.type.isUsable = true → d'.type.isUsable = true →
    d.stop ≤ d'.physicalStart ∨ d'.stop ≤ d.physicalStart
  kernel : b.kernelBase + b.kernelSize + pageSize ≤ 2 ^ 64

instance (b : Boot) : Decidable b.WellFormed := decidable_of_iff' _ (Boot.wellFormed_iff b)

/-- A frame of usable memory that is not frame 0, the trampoline page or part of the
kernel image. -/
structure Boot.Usable (b : Boot) (f : ℕ) : Prop where
  reported : ∃ d ∈ b.map, d.has f = true
  ne_zero : f ≠ 0
  ne_trampoline : f ≠ 1
  kernel : 0 < b.kernelSize → b.kernelBase < (f + 1) * pageSize →
    ¬ f * pageSize < b.kernelBase + b.kernelSize

def Pfa.Free (p : Pfa) (f : ℕ) : Prop := ∃ r ∈ p.ranges, r.has f = true

/-- No frame is free twice, free and held, or lost. -/
structure Upheld (b : Boot) (p : Pfa) (m : Machine) : Prop where
  disjoint : m.pfa.ranges.Pairwise fun r r' => ∀ addr,
    ¬ ((r.base ≤ addr ∧ addr < r.base + r.pages * pageSize) ∧
      (r'.base ≤ addr ∧ addr < r'.base + r'.pages * pageSize))
  usable : ∀ f, m.pfa.Free f → b.Usable f
  unheld : ∀ f, m.pfa.Free f → m.held f = 0
  kept : ∀ f, p.Free f → m.pfa.Free f ∨ 0 < m.held f

structure GrantedRun (b : Boot) (m : Machine) (addr pages : ℕ) : Prop where
  aligned : addr % pageSize = 0
  frames : ∀ i < pages, b.Usable (addr / pageSize + i) ∧ m.held (addr / pageSize + i) = 0

def Granted (b : Boot) (m : Machine) (addr : ℕ) : Call → Prop
  | .allocPages pages => addr ≠ 0 → GrantedRun b m addr pages
  | .allocPagesBelow pages maxAddr =>
    addr ≠ 0 → GrantedRun b m addr pages ∧ addr + pages * pageSize ≤ maxAddr
  | .allocPagesAbove pages minAddr => addr ≠ 0 → GrantedRun b m addr pages ∧ minAddr ≤ addr
  | .pinPages .. | .freePages .. => True

def Released (m m' : Machine) : Call → Prop
  | .freePages base pages =>
    ∀ i < pages, m.held (base / pageSize + i) = 1 → m'.pfa.Free (base / pageSize + i)
  | _ => True

/-- The managed frames, each free or referenced: `own` counts the allocator's own references. -/
structure Inv (own pool : ℕ → ℕ) (m : Machine) : Prop where
  tidy : Tidy m.pfa.ranges
  count : ∀ f, freeCount m.pfa.ranges f + min 1 (m.pfa.refcount f) = pool f
  refs : ∀ f, m.pfa.refcount f = m.held f + own f
  apart : ∀ f, 0 < m.held f → own f = 0
  tracked : ∀ f, 0 < pool f → f < m.pfa.trackedPages

section Step

variable {own pool : ℕ → ℕ} {m : Machine} {p : Pfa} {t : List Range} {addr base pages k : ℕ}

lemma Inv.tracked_of_ref (h : Inv own pool m) {f : ℕ} (hf : 0 < m.pfa.refcount f) :
    f < m.pfa.trackedPages := by
  refine h.tracked f ?_
  have := h.count f
  omega

lemma Inv.take (h : Inv own pool m) (hpool : ∀ f, pool f ≤ 1)
    (ht : Takes m.pfa.ranges addr pages t) :
    Inv own pool ⟨{ m.pfa with
      ranges := t, refcount := markUsed m.pfa.trackedPages addr pages m.pfa.refcount },
      fun f => m.held f + (has ⟨addr, pages⟩ f).toNat⟩ ∧
    ∀ f, has ⟨addr, pages⟩ f = true → 0 < pool f ∧ m.pfa.refcount f = 0 := by
  obtain ⟨k, rfl⟩ := ht.run.exists_frame
  refine ⟨⟨ht.tidy, fun f => ?_, fun f => ?_, fun f => ?_, h.tracked⟩, fun f hf => ?_⟩
  all_goals
    have h₁ := ht.count f
    have h₂ := h.count f
    have h₃ := hpool f
    have h₄ := h.refs f
    have h₅ := h.apart f
    have h₆ := h.tracked f
  case refine_4 =>
    rw [hf, Bool.toNat_true] at h₁
    omega
  all_goals
    simp only [markUsed_eq ht.run, toNat_has_frame] at *
    split_ifs at * <;> omega

lemma pinLoop_spec {n : ℕ} (hrun : Range.Tidy ⟨k * pageSize, n⟩) (todo : ℕ) :
    ∀ (i : ℕ) (p : Pfa), i + todo = n →
      (∀ f, k + i ≤ f → f < k + n → f < p.trackedPages ∧ 0 < p.refcount f ∧ p.refcount f < 255) →
      ∃ p', pinLoop (k * pageSize) todo i p = some p' ∧ p'.ranges = p.ranges ∧
        p'.trackedPages = p.trackedPages ∧
        ∀ f, p'.refcount f = p.refcount f + if k + i ≤ f ∧ f < k + n then 1 else 0 := by
  induction todo with
  | zero => exact fun i p hi _ => ⟨p, rfl, rfl, rfl, fun f => by rw [if_neg (by omega)]; rfl⟩
  | succ todo ih =>
    intro i p hi hf
    obtain ⟨htracked, hpos, hfull⟩ := hf (k + i) (by omega) (by omega)
    obtain ⟨p', hok, hranges, hbound, hcount⟩ := ih (i + 1)
      { p with refcount := update p.refcount (k + i) (p.refcount (k + i) + 1) } (by omega)
      fun f h₁ h₂ => by
        simp only [update_of_ne (show f ≠ k + i by omega)]
        exact hf f (by omega) h₂
    refine ⟨p', ?_, hranges, hbound, fun f => ?_⟩
    · rwa [pinLoop, frameAt_eq hrun (by omega), if_pos htracked, if_neg (by omega)]
    · simp only [hcount f, update_apply]
      split_ifs with heq <;> first | omega | (subst heq; omega)

lemma releasedRuns_congr {rc rc' : ℕ → ℕ} (todo : ℕ) : ∀ (frame : ℕ) (pending : Bool),
    (∀ f, frame ≤ f → rc' f = rc f) →
    releasedRuns rc' todo frame pending = releasedRuns rc todo frame pending := by
  induction todo with
  | zero => exact fun _ _ _ => rfl
  | succ todo ih =>
    intro frame pending h
    have hrest : ∀ b, releasedRuns rc' todo (frame + 1) b = releasedRuns rc todo (frame + 1) b :=
      fun b => ih (frame + 1) b fun f hf => h f (by omega)
    rw [releasedRuns, releasedRuns, h frame (le_rfl), hrest, hrest]

def flushed (t : List Range) (runStart runLen : ℕ) : List Range :=
  if runLen ≠ 0 then insertRange t runStart runLen else t

lemma flushed_spec {n i runStart runLen : ℕ} {t : List Range}
    (hrun : Range.Tidy ⟨k * pageSize, n⟩) (hi : i ≤ n) (htidy : Tidy t)
    (hpend : runLen ≠ 0 → runLen ≤ i ∧ runStart = (k + i - runLen) * pageSize)
    (hroom : t.length + (decide (runLen ≠ 0)).toNat ≤ tableSize) :
    Tidy (flushed t runStart runLen) ∧
      (flushed t runStart runLen).length ≤ t.length + (decide (runLen ≠ 0)).toNat ∧
      ∀ f, freeCount (flushed t runStart runLen) f =
        freeCount t f + if k + i - runLen ≤ f ∧ f < k + i then 1 else 0 := by
  unfold flushed
  by_cases hlen : runLen = 0
  · rw [if_neg (not_not.2 hlen)]
    refine ⟨htidy, le_add_right _ _, fun f => ?_⟩
    rw [if_neg (by omega), add_zero]
  obtain ⟨hle, rfl⟩ := hpend hlen
  simp only [hlen, ne_eq, not_false_eq_true, decide_true, Bool.toNat_true] at hroom
  obtain ⟨hputs, hlength⟩ := insertRange_puts htidy
    (hrun.frames (a := k + i - runLen) (b := runLen) (by omega) (by omega)) hlen (by omega)
  rw [if_pos hlen]
  refine ⟨hputs.tidy, by simpa [hlen] using hlength, fun f => ?_⟩
  rw [hputs.count, toNat_has_frame]
  split_ifs <;> omega

/-- The loop of a free: the counts drop by one, and the frames whose count was one are free with the
pending run. -/
lemma freeLoop_spec {n : ℕ} (hrun : Range.Tidy ⟨k * pageSize, n⟩) (todo : ℕ) :
    ∀ (i : ℕ) (p : Pfa) (runStart runLen : ℕ), i + todo = n → Tidy p.ranges →
      (∀ f, k + i ≤ f → f < k + n → f < p.trackedPages ∧ 0 < p.refcount f) →
      (runLen ≠ 0 → runLen ≤ i ∧ runStart = (k + i - runLen) * pageSize) →
      p.ranges.length + releasedRuns p.refcount todo (k + i) (decide (runLen ≠ 0)) ≤ tableSize →
      ∃ p', freeLoop (k * pageSize) todo i p runStart runLen = some p' ∧ Tidy p'.ranges ∧
        p'.trackedPages = p.trackedPages ∧
        (∀ f, p'.refcount f = p.refcount f - if k + i ≤ f ∧ f < k + n then 1 else 0) ∧
        ∀ f, freeCount p'.ranges f = freeCount p.ranges f + if (k + i - runLen ≤ f ∧ f < k + i) ∨
            ((k + i ≤ f ∧ f < k + n) ∧ p.refcount f = 1) then 1 else 0 := by
  induction todo with
  | zero =>
    intro i p runStart runLen hi htidy _ hpend hroom
    obtain ⟨htidy', -, hfree⟩ := flushed_spec hrun (le_of_eq hi) htidy hpend hroom
    refine ⟨{ p with ranges := flushed p.ranges runStart runLen }, ?_, htidy', rfl, fun f => ?_,
      fun f => ?_⟩
    · unfold freeLoop flushed
      split <;> rfl
    · rw [if_neg (by omega), Nat.sub_zero]
    · rw [hfree f]
      split_ifs <;> omega
  | succ todo ih =>
    intro i p runStart runLen hi htidy hf hpend hroom
    obtain ⟨htracked, hpos⟩ := hf (k + i) (by omega) (by omega)
    have hphys : wrap (k * pageSize + i * pageSize) = (k + i) * pageSize := by
      rw [wrap_eq (hrun.frame_lt (by omega)), add_mul]
    rw [releasedRuns] at hroom
    rw [freeLoop, frameAt_eq hrun (by omega), hphys]
    simp only [if_pos htracked, if_neg (ne_of_gt hpos), update_self]
    generalize hrc : update p.refcount (k + i) (p.refcount (k + i) - 1) = rc
    have hat : rc (k + i) = p.refcount (k + i) - 1 := by rw [← hrc, update_self]
    have hoff : ∀ f, f ≠ k + i → rc f = p.refcount f := by
      intro f hne
      rw [← hrc, update_of_ne hne]
    -- the frames behind the current one keep their counts in this round
    have hf' : ∀ f, k + (i + 1) ≤ f → f < k + n → f < p.trackedPages ∧ 0 < rc f := by
      intro f h₁ h₂
      rw [hoff f (by omega)]
      exact hf f (by omega) h₂
    have hruns : ∀ b, releasedRuns rc todo (k + (i + 1)) b =
        releasedRuns p.refcount todo (k + i + 1) b := fun b =>
      releasedRuns_congr todo _ b fun f h => hoff f (by omega)
    have hdrop : ∀ f, rc f - (if k + (i + 1) ≤ f ∧ f < k + n then 1 else 0) =
        p.refcount f - if k + i ≤ f ∧ f < k + n then 1 else 0 := by
      intro f
      by_cases heq : f = k + i
      · rw [heq, hat]
        split_ifs <;> omega
      · rw [hoff f heq]
        split_ifs <;> omega
    by_cases hone : p.refcount (k + i) = 1
    · -- the frame joins the pending run
      have hstart : (if runLen = 0 then (k + i) * pageSize else runStart) =
          (k + (i + 1) - (runLen + 1)) * pageSize := by
        split
        next hzero => rw [hzero, zero_add, ← add_assoc, Nat.add_sub_cancel]
        next hlen => rw [(hpend hlen).2, ← add_assoc, Nat.add_sub_add_right]
      rw [if_pos hone] at hroom
      rw [if_pos (by omega), hstart]
      obtain ⟨p', hok, htidy', hbound, hcount, hfree⟩ := ih (i + 1) { p with refcount := rc }
        ((k + (i + 1) - (runLen + 1)) * pageSize) (runLen + 1) (by omega) htidy hf'
        (fun _ => ⟨by omega, rfl⟩) (by simpa [hruns] using hroom)
      refine ⟨p', hok, htidy', hbound, fun f => (hcount f).trans (hdrop f), fun f => ?_⟩
      rw [hfree f]
      by_cases heq : f = k + i
      · subst heq
        dsimp only
        split_ifs <;> omega
      · simp only [hoff f heq]
        split_ifs <;> omega
    · -- the frame stays in use and ends the pending run
      rw [if_neg hone] at hroom
      obtain ⟨htidy', hlength, hput⟩ :=
        flushed_spec hrun (by omega) htidy hpend (by omega)
      obtain ⟨p', hok, htidy'', hbound, hcount, hfree⟩ := ih (i + 1)
        { p with ranges := flushed p.ranges runStart runLen, refcount := rc } runStart 0 (by omega)
        htidy' hf' (fun h => absurd rfl h) (by simp only [hruns]; simp; omega)
      refine ⟨p', ?_, htidy'', hbound, fun f => (hcount f).trans (hdrop f), fun f => ?_⟩
      · rw [if_neg (by omega), ← hok]
        unfold flushed
        split <;> rfl
      rw [hfree f, hput]
      by_cases heq : f = k + i
      · subst heq
        split_ifs <;> omega
      · simp only [hoff f heq]
        split_ifs <;> omega

lemma Inv.exists_run (h : Inv own pool m) (hpool : ∀ f, 0 < pool f → f ≠ 0 ∧
      (f + 2) * pageSize ≤ 2 ^ 64) (hpages : pages ≠ 0) (haligned : base % pageSize = 0)
    (hheld : ∀ i < pages, 0 < m.held (base / pageSize + i)) :
    ∃ k, base = k * pageSize ∧ Range.Tidy ⟨k * pageSize, pages⟩ ∧ base / pageSize = k := by
  have hmanaged : ∀ i < pages, 0 < pool (base / pageSize + i) := fun i hi => by
    have h₁ := hheld i hi
    have h₂ := h.refs (base / pageSize + i)
    have h₃ := h.count (base / pageSize + i)
    omega
  refine ⟨base / pageSize, (Nat.div_mul_cancel (Nat.dvd_of_mod_eq_zero haligned)).symm,
    ⟨Nat.mul_mod_left _ _, ?_, ?_⟩, rfl⟩
  · have := (hpool _ (hmanaged 0 (pos_of_ne_zero hpages))).1
    exact Nat.le_mul_of_pos_left _ (pos_of_ne_zero this)
  have := (hpool _ (hmanaged (pages - 1) (by omega))).2
  rw [show base / pageSize + (pages - 1) + 2 = base / pageSize + pages + 1 by omega,
    add_mul, add_mul, one_mul] at this
  exact this

lemma Range.Tidy.base_ne_zero {n : ℕ} (h : Range.Tidy ⟨base, n⟩) : base ≠ 0 :=
  ne_of_gt (lt_of_lt_of_le pageSize_pos h.low)

lemma Inv.of_held (h : Inv own pool m) (hheld : ∀ i < pages, 0 < m.held (k + i)) {f : ℕ}
    (h₁ : k ≤ f) (h₂ : f < k + pages) : f < m.pfa.trackedPages ∧ 0 < m.pfa.refcount f := by
  obtain ⟨i, rfl⟩ := Nat.exists_eq_add_of_le h₁
  have hpos : 0 < m.pfa.refcount (k + i) := by
    have := hheld i (by omega)
    have := h.refs (k + i)
    omega
  exact ⟨h.tracked_of_ref hpos, hpos⟩

variable (h : Inv own pool m) (hpages : pages ≠ 0) (hrun : Range.Tidy ⟨k * pageSize, pages⟩)
  (hheld : ∀ i < pages, 0 < m.held (k + i))
include h hpages hrun hheld

lemma Inv.pin (hfit : ∀ i < pages, m.pfa.refcount (k + i) < 255) :
    ∃ p', m.pfa.pinPages (k * pageSize) pages = some p' ∧
      Inv own pool ⟨p', fun f => m.held f + (has ⟨k * pageSize, pages⟩ f).toNat⟩ := by
  obtain ⟨p', hok, hranges, hbound, hcount⟩ := pinLoop_spec hrun pages 0 m.pfa (zero_add _)
    fun f h₁ h₂ => by
      obtain ⟨htracked, hpos⟩ := h.of_held hheld h₁ h₂
      obtain ⟨i, rfl⟩ := Nat.exists_eq_add_of_le h₁
      exact ⟨htracked, hpos, hfit i (by omega)⟩
  refine ⟨p', ?_, ⟨?_, fun f => ?_, fun f => ?_, fun f hf => h.apart f ?_, fun f hf => ?_⟩⟩
  · rwa [pinPages, if_neg (by simp [hrun.base_ne_zero, hpages])]
  · exact hranges ▸ h.tidy
  · have h₁ := h.count f
    have h₂ := fun hf : k ≤ f ∧ f < k + pages => (h.of_held hheld hf.1 hf.2).2
    simp only [hranges, hcount f]
    split_ifs <;> omega
  · have h₁ := h.refs f
    simp only [hcount f, add_zero, toNat_has_frame]
    omega
  · simp only [toNat_has_frame] at hf
    split at hf
    next hin =>
      obtain ⟨i, rfl⟩ := Nat.exists_eq_add_of_le hin.1
      exact hheld i (by omega)
    next => exact hf
  · exact hbound ▸ h.tracked f hf

lemma Inv.free
    (hfit : m.pfa.ranges.length + releasedRuns m.pfa.refcount pages k false ≤ tableSize) :
    ∃ p', m.pfa.freePages (k * pageSize) pages = some p' ∧
      Inv own pool ⟨p', fun f => m.held f - (has ⟨k * pageSize, pages⟩ f).toNat⟩ := by
  obtain ⟨p', hok, htidy, hbound, hcount, hfree⟩ := freeLoop_spec hrun pages 0 m.pfa 0 0
    (zero_add _) h.tidy (fun f h₁ h₂ => h.of_held hheld h₁ h₂) (fun h => absurd rfl h)
    (by simpa using hfit)
  refine ⟨p', ?_, ⟨htidy, fun f => ?_, fun f => ?_,
    fun f hf => h.apart f (lt_of_lt_of_le hf (sub_le _ _)), fun f hf => ?_⟩⟩
  · rwa [freePages, if_neg (by simp [hrun.base_ne_zero, hpages])]
  · have h₁ := h.count f
    simp only [hfree f, hcount f]
    split_ifs <;> omega
  · have h₁ := h.refs f
    simp only [hcount f, add_zero, toNat_has_frame]
    split
    next hf =>
      have : 0 < m.held f := by
        obtain ⟨i, rfl⟩ := Nat.exists_eq_add_of_le hf.1
        exact hheld i (by omega)
      omega
    next => omega
  · exact hbound ▸ h.tracked f hf

end Step

/-- The frames managed from boot on are usable, each once, and free at boot or the allocator's own.
-/
structure Managed (b : Boot) (p : Pfa) (pool : ℕ → ℕ) : Prop where
  one : ∀ f, pool f ≤ 1
  usable : ∀ f, 0 < pool f → b.Usable f ∧ (f + 2) * pageSize ≤ 2 ^ 64
  free : ∀ f, p.Free f → 0 < pool f ∧ p.refcount f = 0

section Runs

variable {b : Boot} {p : Pfa} {pool : ℕ → ℕ} {m : Machine} {addr pages : ℕ} {t : List Range}

lemma free_iff_pos {f : ℕ} : p.Free f ↔ 0 < freeCount p.ranges f := cover_pos_iff.symm

variable {c : Call}

lemma Inv.grant (h : Inv p.refcount pool m) (hm : Managed b p pool)
    {found : Option (ℕ × List Range)} {P : ℕ → Prop}
    (hholds : ∀ held addr f, c.holds held addr f =
      if addr = 0 then held f else held f + (has ⟨addr, pages⟩ f).toNat)
    (hfound : ∀ addr t, found = some (addr, t) → Takes m.pfa.ranges addr pages t ∧ P addr) :
    Inv p.refcount pool ⟨(m.pfa.grant pages found).2, c.holds m.held (m.pfa.grant pages found).1⟩ ∧
      ((m.pfa.grant pages found).1 ≠ 0 → GrantedRun b m (m.pfa.grant pages found).1 pages ∧
        P (m.pfa.grant pages found).1) := by
  cases found with
  | none =>
    refine ⟨?_, fun hne => absurd rfl hne⟩
    have : c.holds m.held 0 = m.held := funext fun f => by rw [hholds, if_pos rfl]
    simp only [Pfa.grant, this]
    exact h
  | some out =>
    obtain ⟨addr, t⟩ := out
    obtain ⟨ht, hP⟩ := hfound addr t rfl
    obtain ⟨hinv, hrun⟩ := h.take hm.one ht
    have hne : addr ≠ 0 := ht.run.base_ne_zero
    have hheld : c.holds m.held addr = fun f => m.held f + (has ⟨addr, pages⟩ f).toNat :=
      funext fun f => by rw [hholds, if_neg hne]
    simp only [Pfa.grant, hheld]
    refine ⟨hinv, fun _ => ⟨⟨ht.run.aligned, fun i hi => ?_⟩, hP⟩⟩
    have hin : has ⟨addr, pages⟩ (addr / pageSize + i) = true := by
      obtain ⟨k, rfl⟩ := ht.run.exists_frame
      rw [Nat.mul_div_cancel _ pageSize_pos, has_frame, decide_eq_true_eq]
      omega
    obtain ⟨hpos, hzero⟩ := hrun _ hin
    have := h.refs (addr / pageSize + i)
    exact ⟨(hm.usable _ hpos).1, by omega⟩

lemma Pfa.allocPages_eq : p.allocPages pages =
    p.grant pages (if pages = 0 then none else takeFirst pages p.ranges) := by
  unfold allocPages
  split <;> rfl

lemma Pfa.allocPagesBelow_eq {maxAddr : ℕ} : p.allocPagesBelow pages maxAddr =
    p.grant pages (if pages = 0 ∨ maxAddr = 0 then none
      else takeBelow pages (alignDown maxAddr) p.ranges) := by
  unfold allocPagesBelow
  split <;> rfl

lemma Pfa.allocPagesAbove_eq {minAddr : ℕ} : p.allocPagesAbove pages minAddr =
    p.grant pages (if pages = 0 then none
      else takeAbove pages (alignUp minAddr) p.ranges.length p.ranges) := by
  unfold allocPagesAbove
  split <;> rfl

lemma Machine.exec_eq {out : ℕ × Pfa} (hok : c.exec m.pfa = some out) :
    m.exec c = some (out.1, ⟨out.2, c.holds m.held out.1⟩) := by
  rw [Machine.exec, hok]
  rfl

/-- A legal call that fits does not panic, keeps every frame accounted for, and returns
only frames nobody held. -/
lemma Machine.exec_inv (h : Inv p.refcount pool m) (hm : Managed b p pool)
    (hlegal : c.Legal m.held) (hfits : c.Fits m.pfa) :
    ∃ addr m', m.exec c = some (addr, m') ∧ Inv p.refcount pool m' ∧ Granted b m addr c := by
  cases c with
  | allocPages pages =>
    refine ⟨_, _, exec_eq (congrArg some allocPages_eq), (h.grant hm (c := .allocPages pages)
      (P := fun _ => True) (fun _ _ _ => rfl) fun addr t hf => ?_).imp_right
      fun hgrant hne => (hgrant hne).1⟩
    split at hf
    · cases hf
    · exact ⟨takeFirst_takes h.tidy hf, trivial⟩
  | allocPagesBelow pages maxAddr =>
    refine ⟨_, _, exec_eq (congrArg some allocPagesBelow_eq), h.grant hm
      (c := .allocPagesBelow pages maxAddr) (P := (· + pages * pageSize ≤ maxAddr))
      (fun _ _ _ => rfl) fun addr t hf => ?_⟩
    split at hf
    · cases hf
    · exact (takeBelow_takes h.tidy hf).imp_right (·.trans (div_mul_le_self maxAddr pageSize))
  | allocPagesAbove pages minAddr =>
    obtain ⟨hmin, hroom, hfit⟩ := hfits
    refine ⟨_, _, exec_eq (congrArg some allocPagesAbove_eq), h.grant hm
      (c := .allocPagesAbove pages minAddr) (P := (minAddr ≤ ·)) (fun _ _ _ => rfl)
      fun addr t hf => ?_⟩
    split at hf
    · cases hf
    · exact (takeAbove_takes h.tidy hroom (alignUp_mod minAddr) hfit hf).imp_right
        (le_alignUp hmin).trans
  | pinPages base pages | freePages base pages =>
    by_cases hpages : pages = 0
    · subst hpages
      refine ⟨0, m, ?_, h, trivial⟩
      simp [Machine.exec, Call.exec, pinPages, freePages, Call.holds, has_zero]
    obtain ⟨haligned, hheld⟩ := hlegal
    obtain ⟨k, rfl, hrun, hk⟩ := h.exists_run (fun f hf => ⟨(hm.usable f hf).1.ne_zero,
      (hm.usable f hf).2⟩) hpages haligned hheld
    rw [hk] at hheld
    simp only [Call.Fits, hk] at hfits
    first
      | obtain ⟨p', hok, hinv⟩ := h.pin hpages hrun hheld hfits
        exact ⟨0, _, @exec_eq _ _ (0, p') (by rw [Call.exec, hok]; rfl), hinv, trivial⟩
      | obtain ⟨p', hok, hinv⟩ := h.free hpages hrun hheld hfits
        exact ⟨0, _, @exec_eq _ _ (0, p') (by rw [Call.exec, hok]; rfl), hinv, trivial⟩

lemma Inv.upheld (h : Inv p.refcount pool m) (hm : Managed b p pool) : Upheld b p m where
  disjoint := by
    have hone : ∀ f, cover has m.pfa.ranges f ≤ 1 := fun f => by
      have h₁ := h.count f
      have h₂ := hm.one f
      simp only [freeCount] at h₁
      omega
    refine (pairwise_of_cover_le_one hone).imp_of_mem fun {r r'} hr hr' hdisjoint addr hboth => ?_
    refine hdisjoint (addr / pageSize) ⟨?_, ?_⟩
    · obtain ⟨ha, -, -⟩ := h.tidy r hr
      rw [has_iff]
      simp only [pageSize] at ha hboth ⊢
      omega
    obtain ⟨ha, -, -⟩ := h.tidy r' hr'
    rw [has_iff]
    simp only [pageSize] at ha hboth ⊢
    omega
  usable f hf := by
    rw [free_iff_pos] at hf
    have := h.count f
    exact (hm.usable f (by omega)).1
  unheld f hf := by
    rw [free_iff_pos] at hf
    have h₁ := h.count f
    have h₂ := h.refs f
    have h₃ := hm.one f
    omega
  kept f hf := by
    have := hm.free f hf
    have h₁ := h.count f
    have h₂ := h.refs f
    rw [free_iff_pos]
    omega

lemma Inv.released (h : Inv p.refcount pool m) {m' : Machine} (h' : Inv p.refcount pool m')
    {addr : ℕ} (hlegal : c.Legal m.held) (hok : m.exec c = some (addr, m')) :
    Released m m' c := by
  cases c with
  | freePages base pages =>
    intro i hi hone
    have hheld : m'.held (base / pageSize + i) = 0 := by
      obtain ⟨out, -, heq⟩ := Option.map_eq_some_iff.1 hok
      cases heq
      have hin : has ⟨base, pages⟩ (base / pageSize + i) = true := by
        obtain ⟨k, rfl⟩ : ∃ k, base = k * pageSize :=
          ⟨base / pageSize, (Nat.div_mul_cancel (Nat.dvd_of_mod_eq_zero hlegal.1)).symm⟩
        rw [Nat.mul_div_cancel _ pageSize_pos, has_frame, decide_eq_true_eq]
        omega
      simp [Call.holds, hin, hone]
    have h₁ := h.apart _ (lt_of_lt_of_eq zero_lt_one hone.symm)
    have h₂ := h.refs (base / pageSize + i)
    have h₃ := h.count (base / pageSize + i)
    have h₄ := h'.refs (base / pageSize + i)
    have h₅ := h'.count (base / pageSize + i)
    rw [free_iff_pos]
    omega
  | allocPages | allocPagesBelow | allocPagesAbove | pinPages => trivial

lemma Machine.run_inv (cs : List Call) : ∀ {m : Machine}, Inv p.refcount pool m →
    Managed b p pool → CarefulRun m cs → ∃ m', m.run cs = some m' ∧ Inv p.refcount pool m' := by
  induction cs with
  | nil => exact fun h _ _ => ⟨_, rfl, h⟩
  | cons c cs ih =>
    intro m h hm hcare
    obtain ⟨addr, m₁, h₁, hinv₁, -⟩ := exec_inv h hm hcare.1.1 hcare.1.2
    obtain ⟨m₂, h₂, hinv₂⟩ := ih hinv₁ hm (hcare.2 _ h₁)
    exact ⟨m₂, by rw [run, h₁]; exact h₂, hinv₂⟩

lemma carefulRun_append {cs cs' : List Call} : ∀ {m : Machine}, CarefulRun m (cs ++ cs') →
    CarefulRun m cs ∧ ∀ m' ∈ m.run cs, CarefulRun m' cs' := by
  induction cs with
  | nil =>
    intro m h
    refine ⟨trivial, fun m' hm' => ?_⟩
    cases hm'
    exact h
  | cons c cs ih =>
    intro m h
    refine ⟨⟨h.1, fun out hout => (ih (h.2 out hout)).1⟩, fun m' hm' => ?_⟩
    obtain ⟨out, hout, hrest⟩ := Option.bind_eq_some_iff.1 hm'
    exact (ih (h.2 out hout)).2 m' hrest

end Runs

end Physmem
