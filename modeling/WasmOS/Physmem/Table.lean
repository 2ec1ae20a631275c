import Mathlib.Algebra.Order.Ring.Nat
import Mathlib.Data.List.Basic
import WasmOS.Cover.Basic

/-! # The page frame allocator

Free memory is a table of at most 128 extents, read as a cover of the frames: every operation adds a
run to it or takes one out, whatever empty extents it leaves.
-/

open Function

namespace Physmem

def pageSize : ℕ := 0x1000

def wrap (n : ℕ) : ℕ := n % 2 ^ 64

/-- Entries of `g_ranges`. -/
def tableSize : ℕ := 128

def staticTrackedPages : ℕ := 64 * 1024 * 1024 / 4096

def maxDescriptors : ℕ := 4096

def alignDown (addr : ℕ) : ℕ := addr / pageSize * pageSize

def alignUp (addr : ℕ) : ℕ := alignDown (wrap (addr + (pageSize - 1)))

structure Range where
  base : ℕ
  pages : ℕ

variable (r : Range)

def Range.stop : ℕ := wrap (r.base + r.pages * pageSize)

def Range.dropFront (pages : ℕ) : Range := ⟨wrap (r.base + pages * pageSize), r.pages - pages⟩

/-- `EFI_MEMORY_TYPE_*`; every other type is not usable. -/
inductive MemoryType where
  | bootServicesCode
  | bootServicesData
  | conventional
  | other
  deriving DecidableEq, Repr

def MemoryType.isUsable : MemoryType → Bool
  | .bootServicesCode | .bootServicesData | .conventional => true
  | .other => false

structure Descriptor where
  type : MemoryType
  physicalStart : ℕ
  numberOfPages : ℕ
  deriving DecidableEq, Repr

structure Boot where
  map : List Descriptor
  kernelBase : ℕ
  kernelSize : ℕ

/-- `g_ranges`, `g_refcount` and `g_tracked_pages`. -/
structure Pfa where
  ranges : List Range
  refcount : ℕ → ℕ
  trackedPages : ℕ

variable (t : List Range)

def appendRange (r : Range) : List Range :=
  match t.getLast? with
  | some prev =>
    if prev.stop = r.base then t.dropLast ++ [⟨prev.base, wrap (prev.pages + r.pages)⟩]
    else t ++ [r]
  | none => [r]

def addRange (base pages : ℕ) : List Range :=
  if pages = 0 ∨ t.length ≥ tableSize then t
  else if base = 0 then
    if pages ≤ 1 then t else appendRange t ⟨pageSize, pages - 1⟩
  else appendRange t ⟨base, pages⟩

/-- The loop of `reserve_range`, where `count` is the number of entries of the whole table. -/
def reserveLoop (start stop : ℕ) : (count : ℕ) → List Range → List Range
  | _, [] => []
  | count, r :: rs =>
    if stop ≤ r.base ∨ start ≥ r.stop then r :: reserveLoop start stop count rs
    else if start ≤ r.base ∧ stop ≥ r.stop then reserveLoop start stop (count - 1) rs
    else if start > r.base ∧ stop < r.stop then
      let head : Range := ⟨r.base, (start - r.base) / pageSize⟩
      -- the tail of the extent is dropped when the table has no entry for it
      if count ≥ tableSize then head :: rs
      else head :: ⟨stop, (r.stop - stop) / pageSize⟩ :: reserveLoop start stop (count + 1) rs
    else if start ≤ r.base then
      ⟨stop, (r.stop - stop) / pageSize⟩ :: reserveLoop start stop count rs
    else ⟨r.base, (start - r.base) / pageSize⟩ :: reserveLoop start stop count rs

def reserveRange (base size : ℕ) : List Range :=
  if size = 0 then t
  else
    let start := alignDown base
    let stop := alignUp (base + size)
    if stop ≤ start then t else reserveLoop start stop t.length t

def mergePrev (before : List Range) (new : Range) : List Range × Range :=
  match before.getLast? with
  | some prev =>
    if prev.stop = new.base then (before.dropLast, ⟨prev.base, wrap (prev.pages + new.pages)⟩)
    else (before, new)
  | none => (before, new)

def mergeNext (cur : Range) : List Range → List Range
  | next :: rest =>
    if cur.stop = next.base then ⟨cur.base, wrap (cur.pages + next.pages)⟩ :: rest
    else cur :: next :: rest
  | [] => [cur]

def insertRange (base pages : ℕ) : List Range :=
  if base = 0 ∨ pages = 0 then t
  else if t.length ≥ tableSize then t
  else
    let (before, cur) := mergePrev (t.takeWhile (·.base < base)) ⟨base, pages⟩
    before ++ mergeNext cur (t.dropWhile (·.base < base))

def skip (found : Option (ℕ × List Range)) : Option (ℕ × List Range) :=
  found.map fun (addr, rs) => (addr, r :: rs)

/-- The scan of `pfa_alloc_pages_nolock`. -/
def takeFirst (pages : ℕ) : List Range → Option (ℕ × List Range)
  | [] => none
  | r :: rs =>
    if r.pages ≥ pages then some (r.base, r.dropFront pages :: rs)
    else skip r (takeFirst pages rs)

/-- The scan of `pfa_alloc_pages_below`. -/
def takeBelow (pages limit : ℕ) : List Range → Option (ℕ × List Range)
  | [] => none
  | r :: rs =>
    if r.pages < pages then skip r (takeBelow pages limit rs)
    else if r.base ≥ limit then skip r (takeBelow pages limit rs)
    else if r.stop > limit ∧ (limit - r.base) / pageSize < pages then
      skip r (takeBelow pages limit rs)
    else some (r.base, r.dropFront pages :: rs)

def cutOut (count : ℕ) (r : Range) (start stop : ℕ) : List Range :=
  let upper : Range := ⟨stop, (r.stop - stop) / pageSize⟩
  if start = r.base then
    if upper.pages = 0 then [] else [upper]
  else if stop = r.stop then [⟨r.base, (start - r.base) / pageSize⟩]
  -- a full table has no entry for a second remnant: the lower one is dropped
  else if count ≥ tableSize then [upper]
  else [⟨r.base, (start - r.base) / pageSize⟩, upper]

/-- The scan of `pfa_alloc_pages_above`, where `count` is the number of entries of the
whole table. -/
def takeAbove (pages floor count : ℕ) : List Range → Option (ℕ × List Range)
  | [] => none
  | r :: rs =>
    let start :=
  if r.base < floor then floor else r.base
    let stop := wrap (start + pages * pageSize)
    if stop > r.stop then skip r (takeAbove pages floor count rs)
    else some (start, cutOut count r start stop ++ rs)

def frameAt (addr i : ℕ) : ℕ := wrap (addr + i * pageSize) / pageSize

def markUsed (trackedPages addr : ℕ) : (pages : ℕ) → (ℕ → ℕ) → ℕ → ℕ
  | 0, refcount => refcount
  | n + 1, refcount =>
    let refcount := markUsed trackedPages addr n refcount
    if frameAt addr n < trackedPages then update refcount (frameAt addr n) 1 else refcount

namespace Pfa

variable (p : Pfa) (pages : ℕ)

def grant : Option (ℕ × List Range) → ℕ × Pfa
  | none => (0, p)
  | some (addr, ranges) =>
    (addr, { p with ranges, refcount := markUsed p.trackedPages addr pages p.refcount })

def allocPagesNolock : ℕ × Pfa := p.grant pages (takeFirst pages p.ranges)

def allocPages : ℕ × Pfa := if pages = 0 then (0, p) else p.allocPagesNolock pages

def allocPagesBelow (pages maxAddr : ℕ) : ℕ × Pfa :=
  if pages = 0 ∨ maxAddr = 0 then (0, p)
  else p.grant pages (takeBelow pages (alignDown maxAddr) p.ranges)

def allocPagesAbove (pages minAddr : ℕ) : ℕ × Pfa :=
  if pages = 0 then (0, p)
  else p.grant pages (takeAbove pages (alignUp minAddr) p.ranges.length p.ranges)

/-- The loop of `pfa_free_pages` from page `i` on; `none` is the panic on a double free. -/
def freeLoop (base : ℕ) : (todo i : ℕ) → Pfa → (runStart runLen : ℕ) → Option Pfa
  | 0, _, p, runStart, runLen =>
    some (if runLen ≠ 0 then { p with ranges := insertRange p.ranges runStart runLen } else p)
  | todo + 1, i, p, runStart, runLen =>
    let phys := wrap (base + i * pageSize)
    let idx := frameAt base i
    let runStart' := if runLen = 0 then phys else runStart
    if idx < p.trackedPages then
      if p.refcount idx = 0 then none
      else
        let p := { p with refcount := update p.refcount idx (p.refcount idx - 1) }
        if p.refcount idx = 0 then freeLoop base todo (i + 1) p runStart' (runLen + 1)
        else if runLen ≠ 0 then
          freeLoop base todo (i + 1)
            { p with ranges := insertRange p.ranges runStart runLen } runStart 0
        else freeLoop base todo (i + 1) p runStart 0
    else freeLoop base todo (i + 1) p runStart' (runLen + 1)

def freePages (base pages : ℕ) : Option Pfa :=
  if base = 0 ∨ pages = 0 then some p else freeLoop base pages 0 p 0 0

def pinLoop (base : ℕ) : (todo i : ℕ) → Pfa → Option Pfa
  | 0, _, p => some p
  | todo + 1, i, p =>
    let idx := frameAt base i
    if idx < p.trackedPages then
      if p.refcount idx = 0 ∨ p.refcount idx = 255 then none
      else pinLoop base todo (i + 1)
        { p with refcount := update p.refcount idx (p.refcount idx + 1) }
    else pinLoop base todo (i + 1) p

def pinPages (base pages : ℕ) : Option Pfa :=
  if base = 0 ∨ pages = 0 then some p else pinLoop base pages 0 p

/-- `pfa_upgrade_refcount`; `none` when no extent can hold the array. -/
def upgradeRefcount : Option Pfa :=
  let maxPhys := p.ranges.foldl (fun acc r => max acc r.stop) 0
  let needed := wrap (maxPhys + (pageSize - 1)) / pageSize
  if maxPhys = 0 ∨ needed ≤ p.trackedPages then some p
  else
    let allocPages := (needed + (pageSize - 1)) / pageSize
    let (phys, q) := p.allocPagesNolock allocPages
    if phys = 0 then none
    else
      let copied := fun idx => if idx < staticTrackedPages then q.refcount idx else 0
      some { q with refcount := markUsed needed phys allocPages copied, trackedPages := needed }

end Pfa

namespace Boot

def freeRanges (b : Boot) : List Range := (b.map.take maxDescriptors).foldl (fun t d =>
    if d.type.isUsable then addRange t d.physicalStart d.numberOfPages else t) []

def unreserved (b : Boot) : List Range :=
  reserveRange (reserveRange b.freeRanges b.kernelBase b.kernelSize) 0x1000 pageSize

/-- `pfa_init`; `none` is the panic when the counts cannot be upgraded. -/
def pfaInit (b : Boot) : Option Pfa :=
  (Pfa.upgradeRefcount ⟨b.unreserved, fun _ => 0, staticTrackedPages⟩).map fun p =>
    (p.allocPagesNolock 1).2

end Boot

inductive Call where
  | allocPages (pages : ℕ)
  | allocPagesBelow (pages maxAddr : ℕ)
  | allocPagesAbove (pages minAddr : ℕ)
  | pinPages (base pages : ℕ)
  | freePages (base pages : ℕ)
  deriving DecidableEq, Repr

/-- The address a call returns, or 0, and the allocator after it; `none` is a kernel panic. -/
def Call.exec (p : Pfa) : Call → Option (ℕ × Pfa)
  | .allocPages pages => some (p.allocPages pages)
  | .allocPagesBelow pages maxAddr => some (p.allocPagesBelow pages maxAddr)
  | .allocPagesAbove pages minAddr => some (p.allocPagesAbove pages minAddr)
  | .pinPages base pages => (p.pinPages base pages).map (0, ·)
  | .freePages base pages => (p.freePages base pages).map (0, ·)

open Cover List Range

def Range.has (r : Range) (f : ℕ) : Bool :=
  decide (r.base ≤ f * pageSize ∧ f * pageSize < r.base + r.pages * pageSize)

variable {f : ℕ} {r : Range}

lemma Range.has_iff : r.has f = true ↔
    r.base ≤ f * pageSize ∧ f * pageSize < r.base + r.pages * pageSize := by
  simp [has]

def freeCount (t : List Range) (f : ℕ) : ℕ := cover has t f

@[simp] lemma freeCount_nil : freeCount [] f = 0 := rfl

@[simp] lemma freeCount_cons {t : List Range} :
    freeCount (r :: t) f = (r.has f).toNat + freeCount t f := cover_cons

@[simp] lemma freeCount_append {t t' : List Range} :
    freeCount (t ++ t') f = freeCount t f + freeCount t' f := cover_append

/-- An extent of whole frames that starts above frame 0 and ends a frame before the
address space does. -/
structure Range.Tidy (r : Range) : Prop where
  aligned : r.base % pageSize = 0
  low : pageSize ≤ r.base
  high : r.base + r.pages * pageSize + pageSize ≤ 2 ^ 64

def Tidy (t : List Range) : Prop := ∀ r ∈ t, r.Tidy

lemma tidy_nil : Tidy [] := fun _ h => by cases h

lemma tidy_cons {t : List Range} : Tidy (r :: t) ↔ r.Tidy ∧ Tidy t := forall_mem_cons

lemma tidy_append {t t' : List Range} : Tidy (t ++ t') ↔ Tidy t ∧ Tidy t' := forall_mem_append

section Extent

variable {r : Range} {a n k f : ℕ}

lemma wrap_eq (h : n < 2 ^ 64) : wrap n = n := Nat.mod_eq_of_lt h

lemma pageSize_pos : 0 < pageSize := by decide

lemma Range.Tidy.stop_lt (h : r.Tidy) : r.base + r.pages * pageSize < 2 ^ 64 := by
  have := h.high
  have := pageSize_pos
  omega

lemma Range.Tidy.stop_eq (h : r.Tidy) : r.stop = r.base + r.pages * pageSize := wrap_eq h.stop_lt

lemma has_toNat : (r.has f).toNat =
    if r.base ≤ f * pageSize ∧ f * pageSize < r.base + r.pages * pageSize then 1 else 0 := by
  unfold has
  split_ifs with h <;> simp [h]

lemma has_add : (has ⟨a, n + k⟩ f).toNat =
    (has ⟨a, n⟩ f).toNat + (has ⟨a + n * pageSize, k⟩ f).toNat := by
  simp only [has_toNat, add_mul]
  split_ifs <;> omega

lemma has_zero : has ⟨a, 0⟩ f = false := by
  rw [Bool.eq_false_iff, ne_eq, has_iff]
  dsimp only
  omega

lemma Range.Tidy.part (h : r.Tidy) (ha : a % pageSize = 0) (hle : r.base ≤ a)
    (hend : a + n * pageSize ≤ r.base + r.pages * pageSize) : Range.Tidy ⟨a, n⟩ where
  aligned := ha
  low := h.low.trans hle
  high := (Nat.add_le_add_right hend _).trans h.high

lemma Range.Tidy.left (h : Range.Tidy ⟨a, n + k⟩) : Range.Tidy ⟨a, n⟩ :=
  h.part h.aligned le_rfl (by simp only [add_mul]; omega)

lemma Range.Tidy.right (h : Range.Tidy ⟨a, n + k⟩) : Range.Tidy ⟨a + n * pageSize, k⟩ := by
  refine h.part ?_ (Nat.le_add_right _ _) (by simp only [add_mul]; omega)
  have := h.aligned
  simp only [pageSize] at this ⊢
  omega

lemma Range.Tidy.join (h₁ : Range.Tidy ⟨a, n⟩) (h₂ : Range.Tidy ⟨a + n * pageSize, k⟩) :
    Range.Tidy ⟨a, n + k⟩ where
  aligned := h₁.aligned
  low := h₁.low
  high := by
    have := h₂.high
    simp only [add_mul] at this ⊢
    omega

lemma Range.Tidy.pages_lt (h : r.Tidy) : r.pages < 2 ^ 64 := by
  have := h.high
  simp only [pageSize] at this
  omega

end Extent

structure Takes (t : List Range) (addr pages : ℕ) (t' : List Range) : Prop where
  count : ∀ f, freeCount t f = freeCount t' f + (has ⟨addr, pages⟩ f).toNat
  run : Range.Tidy ⟨addr, pages⟩
  tidy : Tidy t'

section Takes

variable {t t' : List Range} {r : Range} {addr pages limit floor entries : ℕ}

lemma Takes.cons (h : Takes t addr pages t') (hr : r.Tidy) :
    Takes (r :: t) addr pages (r :: t') where
  count f := by
    rw [freeCount_cons, freeCount_cons, h.count f]
    omega
  run := h.run
  tidy := tidy_cons.2 ⟨hr, h.tidy⟩

lemma takes_of_skip {found : Option (ℕ × List Range)} {rs : List Range} {P : Prop} (hr : r.Tidy)
    (h : skip r found = some (addr, t'))
    (ih : ∀ rs', found = some (addr, rs') → Takes rs addr pages rs' ∧ P) :
    Takes (r :: rs) addr pages t' ∧ P := by
  obtain ⟨⟨a, rs'⟩, hfound, heq⟩ := Option.map_eq_some_iff.1 h
  cases heq
  exact (ih rs' hfound).imp_left (·.cons hr)

lemma takes_dropFront (h : Tidy (r :: t)) (hle : pages ≤ r.pages) :
    Takes (r :: t) r.base pages (r.dropFront pages :: t) := by
  obtain ⟨hr, ht⟩ := tidy_cons.1 h
  obtain ⟨k, hk⟩ := Nat.exists_eq_add_of_le hle
  have hr' : Range.Tidy ⟨r.base, pages + k⟩ := hk ▸ hr
  have hdrop : r.dropFront pages = ⟨r.base + pages * pageSize, k⟩ := by
    rw [dropFront, hk, Nat.add_sub_cancel_left, wrap_eq hr'.left.stop_lt]
  rw [hdrop]
  refine ⟨fun f => ?_, hr'.left, tidy_cons.2 ⟨hr'.right, ht⟩⟩
  have hcount : (r.has f).toNat = (has ⟨r.base, pages + k⟩ f).toNat := by rw [← hk]
  rw [freeCount_cons, freeCount_cons, hcount, has_add]
  omega

lemma takeFirst_takes (h : Tidy t) (hok : takeFirst pages t = some (addr, t')) :
    Takes t addr pages t' := by
  induction t generalizing t' with
  | nil => cases hok
  | cons r t ih =>
    obtain ⟨hr, ht⟩ := tidy_cons.1 h
    unfold takeFirst at hok
    split at hok
    next hle =>
      cases hok
      exact takes_dropFront h hle
    next => exact (takes_of_skip hr hok fun rs' hs => ⟨ih ht hs, trivial⟩).1

lemma takeBelow_takes (h : Tidy t) (hok : takeBelow pages limit t = some (addr, t')) :
    Takes t addr pages t' ∧ addr + pages * pageSize ≤ limit := by
  induction t generalizing t' with
  | nil => cases hok
  | cons r t ih =>
    obtain ⟨hr, ht⟩ := tidy_cons.1 h
    unfold takeBelow at hok
    split_ifs at hok with hle hbase hroom
    iterate 3 · exact takes_of_skip hr hok fun rs' => ih ht
    cases hok
    refine ⟨takes_dropFront h (Nat.le_of_not_lt hle), ?_⟩
    rw [hr.stop_eq] at hroom
    simp only [pageSize] at hroom ⊢
    omega

lemma takes_cutOut {start : ℕ} (h : Tidy (r :: t)) (hentries : entries < tableSize)
    (hstart : r.base ≤ start) (haligned : start % pageSize = 0)
    (hstop : start + pages * pageSize ≤ r.stop) :
    Takes (r :: t) start pages (cutOut entries r start (start + pages * pageSize) ++ t) := by
  obtain ⟨hr, ht⟩ := tidy_cons.1 h
  rw [hr.stop_eq] at hstop
  have haligned' := hr.aligned
  have hrun := hr.part haligned hstart hstop
  have hlow : Range.Tidy ⟨r.base, (start - r.base) / pageSize⟩ :=
    hr.part haligned' le_rfl (by simp only [pageSize] at *; omega)
  have hup : Range.Tidy ⟨start + pages * pageSize,
      (r.stop - (start + pages * pageSize)) / pageSize⟩ := by
    rw [hr.stop_eq]
    exact hr.part (by simp only [pageSize] at *; omega) (by omega)
      (by simp only [pageSize] at *; omega)
  unfold cutOut
  dsimp only
  rw [hr.stop_eq] at hup ⊢
  refine ⟨fun f => ?_, hrun, ?_⟩ <;> split_ifs with hbase hnone hend hfull
  iterate 5
    simp only [freeCount_cons, cons_append, nil_append, has_toNat]
    split_ifs <;> simp only [pageSize] at * <;> omega
  · exact ht
  · exact tidy_cons.2 ⟨hup, ht⟩
  · exact tidy_cons.2 ⟨hlow, ht⟩
  · exact absurd hfull (not_le.2 hentries)
  · exact tidy_cons.2 ⟨hlow, tidy_cons.2 ⟨hup, ht⟩⟩

lemma takeAbove_takes (h : Tidy t) (hentries : entries < tableSize)
    (hfloor : floor % pageSize = 0) (hfit : ∀ r ∈ t, max r.base floor + pages * pageSize < 2 ^ 64)
    (hok : takeAbove pages floor entries t = some (addr, t')) :
    Takes t addr pages t' ∧ floor ≤ addr := by
  induction t generalizing t' with
  | nil => cases hok
  | cons r t ih =>
    obtain ⟨hr, ht⟩ := tidy_cons.1 h
    obtain ⟨hrfit, hfit⟩ := forall_mem_cons.1 hfit
    have hstart : (if r.base < floor then floor else r.base) = max r.base floor := by
      split <;> omega
    unfold takeAbove at hok
    simp only [hstart] at hok
    rw [wrap_eq hrfit] at hok
    split at hok
    · exact takes_of_skip hr hok fun rs' => ih ht hfit
    next hstop =>
      cases hok
      refine ⟨takes_cutOut h hentries (le_max_left _ _) ?_ (Nat.le_of_not_lt hstop),
        le_max_right _ _⟩
      rw [max_def]
      split
      · exact hfloor
      · exact hr.aligned

end Takes

structure Puts (t : List Range) (r : Range) (t' : List Range) : Prop where
  count : ∀ f, freeCount t' f = freeCount t f + (r.has f).toNat
  tidy : Tidy t'

section Puts

variable {t before after : List Range} {r new cur : Range}

lemma join_tidy {a b : Range} (ha : a.Tidy) (hb : b.Tidy) (hstop : a.stop = b.base) :
    Range.Tidy ⟨a.base, wrap (a.pages + b.pages)⟩ ∧
      ∀ f, (has ⟨a.base, wrap (a.pages + b.pages)⟩ f).toNat =
        (a.has f).toNat + (b.has f).toNat := by
  rw [ha.stop_eq] at hstop
  have hb' : b = ⟨a.base + a.pages * pageSize, b.pages⟩ := by rw [hstop]
  have hjoin : Range.Tidy ⟨a.base, a.pages + b.pages⟩ := ha.join (hb' ▸ hb)
  rw [wrap_eq hjoin.pages_lt]
  refine ⟨hjoin, fun f => ?_⟩
  rw [has_add, ← hb']

lemma eq_dropLast_append {a : Range} (h : t.getLast? = some a) : t = t.dropLast ++ [a] := by
  obtain ⟨ys, rfl⟩ := getLast?_eq_some_iff.1 h
  simp

lemma appendRange_puts (h : Tidy t) (hr : r.Tidy) : Puts t r (appendRange t r) := by
  unfold appendRange
  split
  next prev hlast =>
    have ht := eq_dropLast_append hlast
    rw [ht] at h
    obtain ⟨hinit, hprev⟩ := tidy_append.1 h
    split
    next hstop =>
      obtain ⟨hjoin, hcount⟩ := join_tidy (hprev prev (.head _)) hr hstop
      refine ⟨fun f => ?_, tidy_append.2 ⟨hinit, tidy_cons.2 ⟨hjoin, tidy_nil⟩⟩⟩
      conv_rhs => rw [ht]
      simp only [freeCount_append, freeCount_cons, freeCount_nil, hcount f]
      omega
    next =>
      rw [← ht] at h
      exact ⟨fun f => by simp, tidy_append.2 ⟨h, tidy_cons.2 ⟨hr, tidy_nil⟩⟩⟩
  next hlast =>
    rw [getLast?_eq_none_iff] at hlast
    subst hlast
    exact ⟨fun f => by simp, tidy_cons.2 ⟨hr, tidy_nil⟩⟩

lemma mergePrev_spec (h : Tidy before) (hnew : new.Tidy) :
    Tidy (mergePrev before new).1 ∧ (mergePrev before new).2.Tidy ∧
      (mergePrev before new).1.length ≤ before.length ∧
      ∀ f, freeCount (mergePrev before new).1 f + ((mergePrev before new).2.has f).toNat =
        freeCount before f + (new.has f).toNat := by
  unfold mergePrev
  split
  next prev hlast =>
    have hb := eq_dropLast_append hlast
    rw [hb] at h
    obtain ⟨hinit, hprev⟩ := tidy_append.1 h
    split
    next hstop =>
      obtain ⟨hjoin, hcount⟩ := join_tidy (hprev prev (.head _)) hnew hstop
      refine ⟨hinit, hjoin, by simp, fun f => ?_⟩
      conv_rhs => rw [hb]
      simp only [freeCount_append, freeCount_cons, freeCount_nil, hcount f]
      omega
    next =>
      rw [← hb] at h
      exact ⟨h, hnew, le_rfl, fun f => rfl⟩
  next => exact ⟨h, hnew, le_rfl, fun f => rfl⟩

lemma mergeNext_spec (hcur : cur.Tidy) (h : Tidy after) :
    Tidy (mergeNext cur after) ∧ (mergeNext cur after).length ≤ after.length + 1 ∧
      ∀ f, freeCount (mergeNext cur after) f = (cur.has f).toNat + freeCount after f := by
  unfold mergeNext
  split
  next next rest =>
    obtain ⟨hnext, hrest⟩ := tidy_cons.1 h
    split
    next hstop =>
      obtain ⟨hjoin, hcount⟩ := join_tidy hcur hnext hstop
      refine ⟨tidy_cons.2 ⟨hjoin, hrest⟩, by simp, fun f => ?_⟩
      rw [freeCount_cons, hcount f, freeCount_cons]
      omega
    next => exact ⟨tidy_cons.2 ⟨hcur, h⟩, by simp, fun f => freeCount_cons⟩
  next => exact ⟨tidy_cons.2 ⟨hcur, h⟩, by simp, fun f => freeCount_cons⟩

lemma insertRange_puts {base pages : ℕ} (h : Tidy t) (hr : Range.Tidy ⟨base, pages⟩)
    (hpages : pages ≠ 0) (hroom : t.length < tableSize) :
    Puts t ⟨base, pages⟩ (insertRange t base pages) ∧
      (insertRange t base pages).length ≤ t.length + 1 := by
  have hbase : base ≠ 0 := by
    have := hr.low
    simp only [pageSize] at this
    omega
  unfold insertRange
  rw [if_neg (by simp [hbase, hpages]), if_neg (not_le.2 hroom)]
  have hsplit := takeWhile_append_dropWhile (p := fun r : Range => decide (r.base < base)) (l := t)
  rw [← hsplit] at h
  obtain ⟨hbefore, hafter⟩ := tidy_append.1 h
  obtain ⟨ht₁, ht₂, hlen₁, hcount₁⟩ := mergePrev_spec hbefore hr
  obtain ⟨ht₃, hlen₂, hcount₂⟩ := mergeNext_spec ht₂ hafter
  refine ⟨⟨fun f => ?_, tidy_append.2 ⟨ht₁, ht₃⟩⟩, ?_⟩
  · have h₁ := hcount₁ f
    have h₂ := hcount₂ f
    have h₃ := congrArg (freeCount · f) hsplit
    simp only [freeCount_append] at h₃ ⊢
    omega
  · have hlen := congrArg List.length hsplit
    simp only [length_append] at hlen ⊢
    omega

end Puts

section Reserve

variable {start stop : ℕ}

lemma reserveLoop_spec (hstop : stop % pageSize = 0) (hle : start ≤ stop) (count : ℕ)
    (t : List Range) (h : Tidy t) (hone : ∀ f, freeCount t f ≤ 1) :
    Tidy (reserveLoop start stop count t) ∧
      ∀ f, freeCount (reserveLoop start stop count t) f ≤ freeCount t f ∧
        (start ≤ f * pageSize → f * pageSize < stop →
          freeCount (reserveLoop start stop count t) f = 0) := by
  induction t generalizing count with
  | nil => exact ⟨tidy_nil, fun f => ⟨le_rfl, fun _ _ => rfl⟩⟩
  | cons r rs ih =>
    obtain ⟨hr, hrs⟩ := tidy_cons.1 h
    have hone' : ∀ f, freeCount rs f ≤ 1 := fun f => by
      have := hone f
      rw [freeCount_cons] at this
      omega
    have ih := fun count => ih count hrs hone'
    have haligned := hr.aligned
    have hhead : start ≤ r.base + r.pages * pageSize → r.base ≤ start →
        Range.Tidy ⟨r.base, (start - r.base) / pageSize⟩ := fun _ _ =>
      hr.part haligned le_rfl (by simp only [pageSize] at *; omega)
    have htail : r.base ≤ stop → stop ≤ r.base + r.pages * pageSize →
        Range.Tidy ⟨stop, (r.base + r.pages * pageSize - stop) / pageSize⟩ := fun hlow _ =>
      hr.part hstop hlow (by simp only [pageSize] at *; omega)
    unfold reserveLoop
    rw [hr.stop_eq]
    constructor
    · split_ifs with hout hall hmid hfull hend
      · exact tidy_cons.2 ⟨hr, (ih count).1⟩
      · exact (ih (count - 1)).1
      · exact tidy_cons.2 ⟨hhead (by omega) (by omega), hrs⟩
      · exact tidy_cons.2 ⟨hhead (by omega) (by omega), tidy_cons.2
          ⟨htail (by omega) (by omega), (ih (count + 1)).1⟩⟩
      · exact tidy_cons.2 ⟨htail (by omega) (by omega), (ih count).1⟩
      · exact tidy_cons.2 ⟨hhead (by omega) (by omega), (ih count).1⟩
    · intro f
      have hrest := fun count => (ih count).2 f
      have hkept := hrest count
      have hdropped := hrest (count - 1)
      have hsplit := hrest (count + 1)
      -- a reserved frame lies in the extent that is cut, so in no other
      have hsole := hone f
      simp only [freeCount_cons, has_toNat] at hsole
      split_ifs <;> simp only [freeCount_cons, has_toNat] <;> split_ifs at * <;>
        simp only [pageSize] at * <;> omega

lemma alignDown_mod (a : ℕ) : alignDown a % pageSize = 0 := Nat.mul_mod_left _ _

lemma alignUp_mod (a : ℕ) : alignUp a % pageSize = 0 := alignDown_mod _

lemma le_alignUp {a : ℕ} (h : a + pageSize ≤ 2 ^ 64) : a ≤ alignUp a := by
  unfold alignUp alignDown
  rw [wrap_eq (by simp only [pageSize] at h ⊢; omega)]
  simp only [pageSize]
  omega

lemma reserveRange_spec {t : List Range} {base size : ℕ} (h : Tidy t)
    (hone : ∀ f, freeCount t f ≤ 1) (hfit : base + size + pageSize ≤ 2 ^ 64) :
    Tidy (reserveRange t base size) ∧ ∀ f, freeCount (reserveRange t base size) f ≤ freeCount t f ∧
        (0 < size → base < (f + 1) * pageSize → f * pageSize < base + size →
          freeCount (reserveRange t base size) f = 0) := by
  have hup := le_alignUp hfit
  have hdown : alignDown base ≤ base := Nat.div_mul_le_self base pageSize
  simp only [reserveRange]
  split
  next hsize => exact ⟨h, fun f => ⟨le_rfl, fun hpos => by omega⟩⟩
  split
  next hempty => exact ⟨h, fun f => ⟨le_rfl, fun hpos => by omega⟩⟩
  next hlt =>
    obtain ⟨htidy, hspec⟩ := reserveLoop_spec (alignUp_mod (base + size))
      (Nat.le_of_not_le hlt) t.length t h hone
    refine ⟨htidy, fun f => ⟨(hspec f).1, fun _ h₁ h₂ => (hspec f).2 ?_ (by omega)⟩⟩
    have := Nat.div_lt_of_lt_mul (Nat.mul_comm _ _ ▸ h₁)
    exact Nat.mul_le_mul_right _ (Nat.le_of_lt_succ this)

end Reserve

end Physmem
