import Mathlib.Data.Fintype.BigOperators

/-! # Interleavings

Agents take turns on a shared state, each at a place of its own; a step moves one agent only. The
rules below reduce what holds along every interleaving to what one step of one agent does.
-/

open Function Finset

namespace Interleaving

variable {α σ π χ : Type*}

@[ext]
structure Config (α σ π : Type*) where
  shared : σ
  place : α → π

/-- What a step of an agent at a place does; the choice resolves what the agent is free
to do. -/
structure System (α σ π χ : Type*) where
  next : α → σ → π → χ → Option (σ × π)

namespace System

variable [DecidableEq α] (S : System α σ π χ)

def step (g : Config α σ π) (l : α × χ) : Option (Config α σ π) :=
  (S.next l.1 g.shared (g.place l.1) l.2).map fun r => ⟨r.1, update g.place l.1 r.2⟩

def run : Config α σ π → List (α × χ) → Option (Config α σ π)
  | g, [] => some g
  | g, l :: ls => (S.step g l).bind fun g' => run g' ls

def Allowed (ok : Config α σ π → α × χ → Prop) : Config α σ π → List (α × χ) → Prop
  | _, [] => True
  | g, l :: ls => ok g l ∧ ∀ g' ∈ S.step g l, Allowed ok g' ls

instance Allowed.decidable (ok : Config α σ π → α × χ → Prop) [∀ g l, Decidable (ok g l)] :
    (g : Config α σ π) → (ls : List (α × χ)) → Decidable (S.Allowed ok g ls)
  | _, [] => .isTrue trivial
  | g, l :: ls =>
    have := fun g' => Allowed.decidable ok g' ls
    inferInstanceAs (Decidable (_ ∧ ∀ g' ∈ S.step g l, S.Allowed ok g' ls))

variable {S} {g g' : Config α σ π} {a : α} {c : χ}

lemma step_ok (h : S.step g (a, c) = some g') :
    ∃ s p, S.next a g.shared (g.place a) c = some (s, p) ∧ g' = ⟨s, update g.place a p⟩ := by
  obtain ⟨⟨s, p⟩, hnext, rfl⟩ := Option.map_eq_some_iff.1 h
  exact ⟨s, p, hnext, rfl⟩

lemma run_invariant {ok : Config α σ π → α × χ → Prop} {I : Config α σ π → Prop}
    (hstep : ∀ g l g', I g → ok g l → S.step g l = some g' → I g') :
    ∀ (ls : List (α × χ)) (g g' : Config α σ π), I g → S.Allowed ok g ls →
      S.run g ls = some g' → I g'
  | [], g, g', hg, _, hrun => by
    cases hrun
    exact hg
  | l :: ls, g, g', hg, hok, hrun => by
    obtain ⟨u, hu, hrest⟩ := Option.bind_eq_some_iff.1 hrun
    exact run_invariant hstep ls u g' (hstep g l u hg hok.1 hu) (hok.2 u hu) hrest

end System

section Rules

variable [DecidableEq α] {s s' : σ} {place : α → π} {a : α} {p : π}

/-- A property of every agent's place is kept if the step keeps it for the agent that
moves and for every agent that does not. -/
lemma forall_place (P : σ → α → π → Prop) (h : ∀ b, P s b (place b)) (hmoved : P s' a p)
    (hrest : ∀ b, b ≠ a → P s b (place b) → P s' b (place b)) (b : α) :
    P s' b (update place a p b) := by
  rcases eq_or_ne b a with rfl | hb
  · rwa [update_self]
  · rw [update_of_ne hb]
    exact hrest b hb (h b)

/-- A duty that comes up in a shared state is on some agent. A step keeps this if the
agent that moves takes the duty, or the duty was there before and not on this agent. -/
lemma exists_bearer (D : σ → Prop) (B : π → Bool) (h : D s → ∃ b, B (place b) = true)
    (hstep : D s' → B p = true ∨ D s ∧ B (place a) = false) (hdue : D s') :
    ∃ b, B (update place a p b) = true := by
  rcases hstep hdue with hp | ⟨hs, ha⟩
  · exact ⟨a, by rwa [update_self]⟩
  obtain ⟨b, hb⟩ := h hs
  have hne : b ≠ a := by
    rintro rfl
    exact Bool.false_ne_true (ha.symm.trans hb)
  exact ⟨b, by rwa [update_of_ne hne]⟩

lemma sum_place [Fintype α] {w : π → ℤ} :
    ∑ b, w (update place a p b) = ∑ b, w (place b) - w (place a) + w p := by
  have hrest : ∑ b ∈ univ.erase a, w (update place a p b) = ∑ b ∈ univ.erase a, w (place b) :=
    sum_congr rfl fun b hb => by rw [update_of_ne (ne_of_mem_erase hb)]
  rw [← add_sum_erase _ _ (mem_univ a), hrest, update_self,
    ← add_sum_erase _ (fun b => w (place b)) (mem_univ a)]
  omega

end Rules

end Interleaving
