import Mathlib.Tactic.TypeStar

/-! # Procedures whose state survives a failure

A procedure returns a value or fails, and either way leaves a state behind. `wp` has one
postcondition for each outcome; that of failure is carried through a procedure unchanged.
`Erases` says that a second text of a procedure only adds notes of what it touches.
-/

/-- A procedure over the state `σ` that may fail with an `ε`. -/
def Procedure (σ ε α : Type) : Type := σ → Except ε α × σ

namespace Procedure

variable {σ ε α β : Type}

instance : Monad (Procedure σ ε) where
  pure a := fun s => (.ok a, s)
  bind m f := fun s =>
    match m s with
    | (.ok a, t) => f a t
    | (.error e, t) => (.error e, t)

def fail (e : ε) : Procedure σ ε α := fun s => (.error e, s)

def get : Procedure σ ε σ := fun s => (.ok s, s)

def modify (f : σ → σ) : Procedure σ ε Unit := fun s => (.ok (), f s)

def ofExcept (r : Except ε α) : Procedure σ ε α := fun s => (r, s)

def require (c : Prop) [Decidable c] (e : ε) : Procedure σ ε Unit := if c then pure () else fail e

variable (m : Procedure σ ε α)

def attempt : Procedure σ ε Unit := fun s => (.ok (), (m s).2)

def fold (f : β → α → Procedure σ ε β) : List α → β → Procedure σ ε β
  | [], b => pure b
  | a :: as, b => do
    let b ← f b a
    fold f as b

def forEach (f : α → Procedure σ ε Unit) (as : List α) : Procedure σ ε Unit :=
  fold (fun _ a => f a) as ()

/-- From `s`, `m` either returns into `Q` or fails into `E`. -/
def wp (Q : α → σ → Prop) (E : σ → Prop) (s : σ) : Prop :=
  match m s with
  | (.ok a, t) => Q a t
  | (.error _, t) => E t

variable {m : Procedure σ ε α} {f : α → Procedure σ ε β} {Q R : α → σ → Prop} {E F : σ → Prop}
  {s : σ}

@[simp] theorem wp_pure {a : α} : wp (pure a : Procedure σ ε α) Q E s ↔ Q a s := Iff.rfl

@[simp] theorem wp_fail {e : ε} : wp (fail e : Procedure σ ε α) Q E s ↔ E s := Iff.rfl

@[simp] theorem wp_get {Q : σ → σ → Prop} : wp (get : Procedure σ ε σ) Q E s ↔ Q s s := Iff.rfl

@[simp] theorem wp_modify {g : σ → σ} {Q : Unit → σ → Prop} :
    wp (modify g : Procedure σ ε Unit) Q E s ↔ Q () (g s) := Iff.rfl

@[simp] theorem wp_bind {Q : β → σ → Prop} :
    wp (m >>= f) Q E s ↔ wp m (fun a t => wp (f a) Q E t) E s := by
  simp only [wp, bind]
  cases m s with
  | mk r t => cases r <;> rfl

@[simp] theorem wp_require {c : Prop} [Decidable c] {e : ε} {Q : Unit → σ → Prop} :
    wp (require c e) Q E s ↔ if c then Q () s else E s := by
  unfold require
  split <;> rfl

theorem wp_attempt {Q : Unit → σ → Prop} (h : wp m (fun _ t => Q () t) (Q ()) s) :
    wp (attempt m) Q E s := by
  simp only [wp, attempt] at h ⊢
  cases hm : m s with
  | mk r t => cases r <;> simpa [hm] using h

theorem wp_mono (h : wp m Q E s) (hQ : ∀ a t, Q a t → R a t) (hE : ∀ t, E t → F t) :
    wp m R F s := by
  simp only [wp] at h ⊢
  cases hm : m s with
  | mk r t =>
    cases r with
    | ok a => rw [hm] at h; exact hQ a t h
    | error e => rw [hm] at h; exact hE t h

theorem wp_and (h : wp m Q E s) (h' : wp m R F s) :
    wp m (fun a t => Q a t ∧ R a t) (fun t => E t ∧ F t) s := by
  simp only [wp] at h h' ⊢
  cases hm : m s with
  | mk r t =>
    rw [hm] at h h'
    cases r with
    | ok | error => exact ⟨h, h'⟩

theorem wp_seq {R : β → σ → Prop} (h : wp m Q F s) (hf : ∀ a t, Q a t → wp (f a) R E t)
    (hE : ∀ t, F t → E t) : wp (m >>= f) R E s := wp_bind.mpr (wp_mono h hf hE)

theorem wp_fold {f : β → α → Procedure σ ε β} {as : List α} {I : List α → β → σ → Prop} {b : β}
    (hI : I [] b s)
    (hf : ∀ pre a post c t, as = pre ++ a :: post → I pre c t →
      wp (f c a) (fun d u => I (pre ++ [a]) d u) E t) :
    wp (fold f as b) (fun c t => I as c t) E s := by
  suffices ∀ pre post c t, as = pre ++ post → I pre c t →
      wp (fold f post c) (fun d u => I as d u) E t from this [] as b s rfl hI
  intro pre post
  induction post generalizing pre with
  | nil =>
    intro c t h hc
    rw [List.append_nil] at h
    subst h
    exact hc
  | cons a post ih =>
    intro c t h hc
    refine wp_seq (hf pre a post c t h hc) (fun d u hd => ?_) fun _ hE => hE
    exact ih (pre ++ [a]) d u (by rw [h, List.append_assoc, List.singleton_append]) hd

@[simp] theorem wp_ofExcept {r : Except ε α} : wp (ofExcept r) Q E s ↔ match r with
      | .ok a => Q a s
      | .error _ => E s := by
  cases r <;> rfl

theorem bind_of_ok {a : α} {t : σ} (h : m s = (.ok a, t)) : (m >>= f) s = f a t := by
  simp only [bind, h]

theorem bind_of_error {e : ε} {t : σ} (h : m s = (.error e, t)) : (m >>= f) s = (.error e, t) := by
  simp only [bind, h]

theorem bind_bind {γ : Type} {g : β → Procedure σ ε γ} :
    m >>= f >>= g = m >>= fun a => f a >>= g := by
  funext s
  simp only [bind]
  cases m s with
  | mk r t => cases r <;> rfl

theorem bind_run_congr {m' : Procedure σ ε α} {t : σ} (h : m s = m' t) :
    (m >>= f) s = (m' >>= f) t := by
  simp only [bind, h]

theorem exists_error (h : wp m (fun _ _ => False) E s) : ∃ e t, m s = (.error e, t) ∧ E t := by
  rw [wp] at h
  cases hm : m s with
  | mk r t =>
    rw [hm] at h
    cases r with
    | ok a => cases h
    | error e => exact ⟨e, t, rfl, h⟩

variable {σ ε κ α β : Type}

def note (ks : List κ) : Procedure (σ × List κ) ε Unit := modify fun p => (p.1, p.2 ++ ks)

def quietly (m : Procedure σ ε α) : Procedure (σ × List κ) ε α := fun p =>
  ((m p.1).1, (m p.1).2, p.2)

/-- Without its notes `m` is `m'`. -/
def Erases (m : Procedure (σ × List κ) ε α) (m' : Procedure σ ε α) : Prop :=
  ∀ p, (m p).1 = (m' p.1).1 ∧ (m p).2.1 = (m' p.1).2

variable {m : Procedure (σ × List κ) ε α} {m' : Procedure σ ε α}

theorem erases_quietly (m' : Procedure σ ε α) :
    Erases (quietly m' : Procedure (σ × List κ) ε α) m' := fun _ => ⟨rfl, rfl⟩

theorem erases_pure (a : α) : Erases (pure a : Procedure (σ × List κ) ε α) (pure a) :=
  fun _ => ⟨rfl, rfl⟩

theorem erases_fail (e : ε) : Erases (fail e : Procedure (σ × List κ) ε α) (fail e) :=
  fun _ => ⟨rfl, rfl⟩

namespace Erases

theorem run_eq (h : Erases m m') (p : σ × List κ) : m p = ((m' p.1).1, (m' p.1).2, (m p).2.2) := by
  rw [← (h p).1, ← (h p).2]

theorem bind {f : α → Procedure (σ × List κ) ε β} {f' : α → Procedure σ ε β} (h : Erases m m')
    (hf : ∀ a, Erases (f a) (f' a)) : Erases (m >>= f) (m' >>= f') := by
  intro p
  have hm := h.run_eq p
  rcases hm' : m' p.1 with ⟨r, s⟩
  rw [hm'] at hm
  cases r with
  | ok a =>
    rw [bind_of_ok hm, bind_of_ok hm']
    exact hf a (s, _)
  | error e =>
    rw [bind_of_error hm, bind_of_error hm']
    exact ⟨rfl, rfl⟩

theorem note_bind (ks : List κ) (h : Erases m m') : Erases (note ks >>= fun _ => m) m' :=
  fun p => h (p.1, p.2 ++ ks)

theorem ite {c : Prop} [Decidable c] {n : Procedure (σ × List κ) ε α} {n' : Procedure σ ε α}
    (h : c → Erases m m') (hn : ¬ c → Erases n n') :
    Erases (if c then m else n) (if c then m' else n') := by
  split
  · next hc => exact h hc
  · next hc => exact hn hc

theorem wp {Q : α → σ → Prop} {E : σ → Prop} {p : σ × List κ} (h : Erases m m')
    (hw : wp m' Q E p.1) : Procedure.wp m (fun a q => Q a q.1) (fun q => E q.1) p := by
  unfold Procedure.wp at hw ⊢
  rw [h.run_eq p]
  revert hw
  rcases m' p.1 with ⟨_ | _, s⟩ <;> exact id

end Erases

theorem wp_run (m' : Procedure σ ε α) (s : σ) :
    wp m' (fun a t => m' s = (.ok a, t)) (fun _ => True) s := by
  unfold wp
  split
  · next h => exact h
  · trivial

variable {Q : α → σ × List κ → Prop} {E : σ × List κ → Prop} {p : σ × List κ}

theorem wp_note {ks : List κ} {Q : Unit → σ × List κ → Prop} :
    wp (note ks : Procedure (σ × List κ) ε Unit) Q E p ↔ Q () (p.1, p.2 ++ ks) := Iff.rfl

theorem wp_quietly :
    wp (quietly m') Q E p ↔ wp m' (fun a s => Q a (s, p.2)) (fun s => E (s, p.2)) p.1 := by
  unfold wp quietly
  rcases m' p.1 with ⟨r, s⟩
  cases r <;> rfl

end Procedure
