import Mathlib.Data.List.Range
import Mathlib.Data.List.TakeWhile

/-! # Picking the next thread

The highest band with work donates one pick in six to the next occupied band below it. Bands further
below get nothing for as long as those two have work.
-/

open List Function

/-- `cpu_sched_t`: the threads of each band, and the bookkeeping of the picks. -/
structure CpuSched where
  ready : ℕ → List ℕ
  bitmap : ℕ → Bool
  streak : ℕ
  last : ℕ

namespace CpuSched

def prioMax : ℕ := 7
def prioIdle : ℕ := 6
def antistarvationStreak : ℕ := 4

/-- The picks from one donation to the next. -/
def cycle : ℕ := antistarvationStreak + 2

def init : CpuSched := ⟨fun _ => [], fun _ => false, 0, prioIdle⟩

section

variable (cs : CpuSched) (live : ℕ → Bool) (p : ℕ)

/-- Threads of band `p` are unlinked, up to `ts`; the last one clears the bit. -/
def unlinkTo (ts : List ℕ) : CpuSched := { cs with
  ready := update cs.ready p ts
  bitmap := if ts = [] then update cs.bitmap p false else cs.bitmap }

def enqueue (t : ℕ) : CpuSched := { cs with
  ready := update cs.ready p (cs.ready p ++ [t])
  bitmap := update cs.bitmap p true }

def highestPrio : Option ℕ := (range prioMax).find? cs.bitmap

def lowerPrio : Option ℕ := (range' (p + 1) (prioMax - (p + 1))).find? cs.bitmap

/-- The band to pick from when `p` is the highest occupied one. -/
def choose : ℕ × CpuSched :=
  if cs.last ≤ p then
    if antistarvationStreak ≤ cs.streak then
      match cs.lowerPrio p with
      | some q => (q, { cs with streak := 0, last := q })
      | none => (p, { cs with streak := (cs.streak + 1) % 256, last := p })
    else (p, { cs with streak := cs.streak + 1, last := p })
  else (p, { cs with streak := 0, last := p })

/-- The loop of `cpu_sched_pick_next`, which drops terminal threads: the first other thread, with
its band. Every round clears the bit of one band. -/
def sweep : (fuel p : ℕ) → CpuSched → Option (ℕ × ℕ) × CpuSched
  | 0, _, cs => (none, cs)
  | fuel + 1, p, cs =>
    match (cs.ready p).dropWhile fun t => !live t with
    | t :: ts => (some (p, t), cs.unlinkTo p ts)
    | [] =>
      let cs := cs.unlinkTo p []
      match cs.highestPrio with
      | none => (none, cs)
      | some q => if q = p then (none, cs) else sweep fuel q cs

/-- `cpu_sched_pick_next`; without a thread it returns the idle one. -/
def pickNext : Option (ℕ × ℕ) × CpuSched :=
  match cs.highestPrio with
  | none => (none, { cs with streak := 0, last := prioIdle })
  | some p => sweep live prioMax (cs.choose p).1 (cs.choose p).2

end

/-- What happens to the queue. Which threads are not terminal is read at each pick. -/
inductive Event
  | enqueue (p t : ℕ)
  | remove (p t : ℕ)
  | pick (live : ℕ → Bool)

def step (cs : CpuSched) : Event → CpuSched
  | .enqueue p t => cs.enqueue p t
  | .remove p t => cs.unlinkTo p ((cs.ready p).erase t)
  | .pick live => (cs.pickNext live).2

/-- The bands that the picks of a run take their threads from. -/
def served : CpuSched → List Event → List (Option ℕ)
  | _, [] => []
  | cs, .pick live :: es => (cs.pickNext live).1.map Prod.fst :: served (cs.step (.pick live)) es
  | cs, e :: es => served (cs.step e) es

/-- At every pick `a` and `b` are the two highest occupied bands, and both have a live thread. -/
def Contended (a b : ℕ) : CpuSched → List Event → Prop
  | _, [] => True
  | cs, .pick live :: es => (cs.highestPrio = some a ∧ cs.lowerPrio a = some b ∧
      ∀ p ∈ [a, b], ∃ t ∈ cs.ready p, live t) ∧ Contended a b (cs.step (.pick live)) es
  | cs, e :: es => Contended a b (cs.step e) es

/-- How many picks band `a` gets before it donates one. -/
def untilDonation (cs : CpuSched) (a : ℕ) : ℕ :=
  if cs.last ≤ a then antistarvationStreak - cs.streak else antistarvationStreak + 1

variable {cs : CpuSched} {live : ℕ → Bool} {p a b : ℕ}

lemma untilDonation_lt : cs.untilDonation a < cycle := by
  unfold untilDonation cycle
  split <;> omega

lemma sweep_live (h : ∃ t ∈ cs.ready p, live t) : ∃ t ts,
    sweep live prioMax p cs = (some (p, t), cs.unlinkTo p ts) := by
  rw [prioMax, sweep]
  split
  · exact ⟨_, _, rfl⟩
  · next hnone =>
    obtain ⟨t, ht, hlive⟩ := h
    simpa [hlive] using dropWhile_eq_nil_iff.mp hnone t ht

lemma choose_spec (h : cs.lowerPrio a = some b) :
    (cs.choose a).1 = (if cs.untilDonation a = 0 then b else a) ∧ (cs.choose a).2.ready = cs.ready ∧
      (cs.choose a).2.untilDonation a = (cs.untilDonation a + cycle - 1) % cycle := by
  have hab : a < b := by
    have := mem_range'_1.mp (mem_of_find?_eq_some h)
    omega
  by_cases hlast : cs.last ≤ a
  · by_cases hstreak : antistarvationStreak ≤ cs.streak
    · simp [choose, untilDonation, h, hlast, hstreak, not_le.mpr hab, cycle]
    · have hpos : antistarvationStreak - cs.streak ≠ 0 := by omega
      simp only [choose, untilDonation, hlast, hstreak, hpos, if_true, if_false, le_refl]
      exact ⟨trivial, trivial, by unfold cycle antistarvationStreak at *; omega⟩
  · simp [choose, untilDonation, hlast, cycle, antistarvationStreak]

/-- One pick: the donation when it is due, and what is left until the next one. -/
lemma pickNext_spec (ha : cs.highestPrio = some a) (hb : cs.lowerPrio a = some b)
    (hlive : ∀ p ∈ [a, b], ∃ t ∈ cs.ready p, live t) :
    (cs.pickNext live).1.map Prod.fst = some (if cs.untilDonation a = 0 then b else a) ∧
      (cs.pickNext live).2.untilDonation a = (cs.untilDonation a + cycle - 1) % cycle := by
  obtain ⟨hband, hready, hnext⟩ := choose_spec hb
  have hmem : (cs.choose a).1 ∈ [a, b] := by
    rw [hband]
    split <;> simp
  obtain ⟨t, ts, hs⟩ := sweep_live (hready ▸ hlive _ hmem)
  simp only [pickNext, ha]
  rw [hs, ← hnext, ← hband]
  exact ⟨rfl, rfl⟩

/-- While two bands stay the highest ones with work, a donation cycle is `STREAK + 2` picks, of
which the lower band gets one and every band below it none. -/
theorem donation_cycle_exact {a b : ℕ} (cs : CpuSched) (es : List Event) (h : Contended a b cs es) :
    ∃ k < cycle, served cs es =
      (range (served cs es).length).map fun i => some (if i % cycle = k then b else a) := by
  refine ⟨cs.untilDonation a, untilDonation_lt, ?_⟩
  induction es generalizing cs with
  | nil => rfl
  | cons e es ih =>
    cases e with
    | enqueue p t => exact ih _ h
    | remove p t => exact ih _ h
    | pick live =>
      obtain ⟨⟨ha, hb, hlive⟩, hes⟩ := h
      obtain ⟨hband, hnext⟩ := pickNext_spec ha hb hlive
      have hlt := cs.untilDonation_lt (a := a)
      have hrest := ih _ hes
      rw [step, hnext] at hrest
      simp only [served, step, length_cons, range_succ_eq_map, map_cons, map_map]
      rw [hband]
      congr 1
      · exact congrArg some (if_congr eq_comm rfl rfl)
      · conv_lhs => rw [hrest]
        refine map_congr_left fun i _ => congrArg some (if_congr ?_ rfl rfl)
        simp only [cycle, antistarvationStreak] at hlt ⊢
        omega

instance decidableContended : ∀ cs es, Decidable (Contended a b cs es)
  | _, [] => isTrue trivial
  | cs, .pick live :: es => @instDecidableAnd _ _ inferInstance
      (decidableContended (cs.step (.pick live)) es)
  | cs, .enqueue p t :: es => decidableContended (cs.step (.enqueue p t)) es
  | cs, .remove p t :: es => decidableContended (cs.step (.remove p t)) es

/-- Work for three bands, and two cycles of picks whose threads become ready again. -/
def threeBands : List Event :=
  [.enqueue 1 10, .enqueue 2 20, .enqueue 4 40] ++
    ([1, 1, 1, 1, 1, 2, 1, 1, 1, 1, 1, 2].flatMap fun p =>
      [.pick fun _ => true, .enqueue p (10 * p)])

theorem donation_cycle_exact_threeBands : Contended 1 2 .init threeBands ∧
    (served .init threeBands).length = 2 * cycle ∧
    ∃ k < cycle, served .init threeBands = (range (served .init threeBands).length).map fun i =>
        some (if i % cycle = k then 2 else 1) := by
  have h : Contended 1 2 .init threeBands := by decide
  exact ⟨h, by decide, donation_cycle_exact _ _ h⟩

end CpuSched
