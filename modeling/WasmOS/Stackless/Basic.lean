import Mathlib.Logic.Relation

/-! # Tasks that keep no stack across an await

A resumable task is called again from its start each time it is scheduled and keeps its state, not
its locals. A task is blind on a set of positions when the locals it is given there make no
difference to what it does next. All runs through such positions end alike.
-/

namespace Stackless

variable {σ l ρ : Type*}

/-- What a task does from one position: go on, reach an await, yield unconditionally, return. -/
inductive Outcome (σ l ρ : Type*)
  | goto (s : σ) (x : l)
  | await (s : σ) (x : l)
  | requeue (s : σ)
  | done (r : ρ)

def Outcome.next : Outcome σ l ρ → σ ⊕ ρ
  | .goto s _ | .await s _ | .requeue s => .inl s
  | .done r => .inr r

variable (run : σ → l → Outcome σ l ρ)

/-- One step under any schedule: `settled` finds the awaited result there, `resumed` is a new call
with arbitrary locals. -/
inductive Step : σ × l → σ × l → Prop
  | goto {s x s' x'} (h : run s x = .goto s' x') : Step (s, x) (s', x')
  | settled {s x s' x'} (h : run s x = .await s' x') : Step (s, x) (s', x')
  | resumed {s x s' x'} (y : l) (h : run s x = .await s' x') : Step (s, x) (s', y)
  | requeued {s x s'} (y : l) (h : run s x = .requeue s') : Step (s, x) (s', y)

variable (G : σ → l → Prop)

/-- A step from a position in `G`. -/
def GuardedStep (p q : σ × l) : Prop := G p.1 p.2 ∧ Step run p q

/-- The run visits positions in `G` only, up to the one it is at now. -/
def Reaches : σ × l → σ × l → Prop := Relation.ReflTransGen (GuardedStep run G)

/-- Some run through positions in `G` returns `r`. -/
def Ends (s : σ) (x : l) (r : ρ) : Prop :=
  ∃ s' x', Reaches run G (s, x) (s', x') ∧ G s' x' ∧ run s' x' = .done r

/-- On `G` the locals make no difference. -/
def Blind : Prop := ∀ s x y, G s x → G s y → (run s x).next = (run s y).next

variable {run G} {s s' : σ} {x x' y : l} {r r' : ρ}

lemma Ends.of_done (hg : G s x) (h : run s x = .done r) : Ends run G s x r := ⟨s, x, .refl, hg, h⟩

lemma Ends.of_step (hg : G s x) (h : Step run (s, x) (s', x')) (he : Ends run G s' x' r) :
    Ends run G s x r := by
  obtain ⟨t, y, hr, ht, hd⟩ := he
  exact ⟨t, y, .head ⟨hg, h⟩ hr, ht, hd⟩

/-- Where a call that finds every awaited result there is next. -/
def Outcome.Settles (P : σ → l → Prop) (r : ρ) : Outcome σ l ρ → Prop
  | .goto s x | .await s x => P s x
  | .requeue _ => False
  | .done r' => r' = r

lemma Ends.of_settles (hg : G s x)
    (h : (run s x).Settles (fun s' x' => Ends run G s' x' r) r) : Ends run G s x r := by
  generalize ho : run s x = o at h
  cases o with
  | goto s' x' => exact h.of_step hg (.goto ho)
  | await s' x' => exact h.of_step hg (.settled ho)
  | requeue s' => cases h
  | done r' =>
    cases h
    exact .of_done hg ho

lemma Ends.of_reaches (h : Reaches run G (s, x) (s', x')) (he : Ends run G s' x' r) :
    Ends run G s x r := by
  obtain ⟨t, y, hr, ht, hd⟩ := he
  exact ⟨t, y, h.trans hr, ht, hd⟩

variable {p q : σ × l} {H : σ → l → Prop}

lemma Reaches.mono (h : Reaches run G p q) (hG : ∀ s x, G s x → H s x) : Reaches run H p q :=
  h.lift id fun a _ hs => ⟨hG a.1 a.2 hs.1, hs.2⟩

lemma Ends.mono (h : Ends run G s x r) (hG : ∀ s x, G s x → H s x) : Ends run H s x r := by
  obtain ⟨t, y, hr, ht, hd⟩ := h
  exact ⟨t, y, hr.mono hG, hG _ _ ht, hd⟩

lemma Reaches.invariant {I : σ → Prop} (h : Reaches run G p q)
    (hstep : ∀ a b, G a.1 a.2 → Step run a b → I a.1 → I b.1) (hp : I p.1) : I q.1 := by
  induction h with
  | refl => exact hp
  | tail _ hs ih => exact hstep _ _ hs.1 hs.2 ih

lemma Step.next (h : Step run p q) : (run p.1 p.2).next = .inl q.1 := by
  cases h with
  | goto h | settled h | resumed y h | requeued y h => rw [h, Outcome.next]

lemma Blind.ends_unique (hb : Blind run G) (h : Ends run G s x r) (h' : Ends run G s y r') :
    r = r' := by
  obtain ⟨t, z, hr, ht, hd⟩ := h
  -- on the first run; the second one follows it state by state
  generalize hp : (s, x) = p at hr
  generalize hq : (t, z) = q at hr
  induction hr using Relation.ReflTransGen.head_induction_on generalizing s x y with
  | refl =>
    obtain ⟨rfl, rfl⟩ := Prod.mk.inj (hq.trans hp.symm)
    obtain ⟨t', z', hr', ht', hd'⟩ := h'
    rcases hr'.cases_head with heq | ⟨b, hs, -⟩
    · obtain ⟨rfl, rfl⟩ := Prod.mk.inj heq
      have := hb _ _ _ ht ht'
      rw [hd, hd'] at this
      exact Sum.inr.inj this
    · have := hb _ _ _ hs.1 ht
      rw [hd, hs.2.next] at this
      cases this
  | @head a c hs _ ih =>
    subst hp hq
    obtain ⟨t', z', hr', ht', hd'⟩ := h'
    rcases hr'.cases_head with heq | ⟨b, hs', hb'⟩
    · obtain ⟨rfl, rfl⟩ := Prod.mk.inj heq
      have := hb _ _ _ hs.1 ht'
      rw [hd', hs.2.next] at this
      cases this
    have heq := hb _ _ _ hs.1 hs'.1
    rw [hs.2.next, hs'.2.next] at heq
    obtain ⟨c, z⟩ := c
    obtain ⟨b, w⟩ := b
    obtain rfl : c = b := Sum.inl.inj heq
    exact ih ⟨t', z', hb', ht', hd'⟩ rfl

end Stackless
