import Mathlib.Data.List.Induction

/-! # Programs over a block device with a volatile write cache

A device holds durable blocks and the writes issued since its last flush. Power loss keeps any
subset of the cached writes; `May` collects what one block can hold after it. A program may be
stopped at any of its `points`; `wp` is the weakest precondition that keeps a crash condition at all
of them and establishes a postcondition at the end.
-/

open List Function

namespace BlockDevice

variable {β : Type*} (disk : ℕ → β) (ws : List (ℕ × β))

/-- The disk after the writes `ws`, oldest first. -/
def applyWrites : ℕ → β := ws.foldl (fun d w => update d w.1 w.2) disk

lemma applyWrites_append_singleton (b : ℕ) (v : β) :
    applyWrites disk (ws ++ [(b, v)]) = update (applyWrites disk ws) b v := by
  simp [applyWrites]

lemma applyWrites_mem (b : ℕ) :
    applyWrites disk ws b = disk b ∨ (b, applyWrites disk ws b) ∈ ws := by
  induction ws using List.reverseRecOn with
  | nil => exact .inl rfl
  | append_singleton ws w ih =>
    obtain ⟨c, v⟩ := w
    rw [applyWrites_append_singleton]
    by_cases h : b = c
    · subst h; simp
    · rw [update_of_ne h]
      exact ih.imp_right fun hm => mem_append_left _ hm

/-- Durable blocks and the block writes still in the cache, oldest first. -/
structure Device (β : Type*) where
  writeThrough : Bool
  media : ℕ → β
  cache : List (ℕ × β)

namespace Device

variable {d : Device β} {b c : ℕ} {v w : β}

def fresh (writeThrough : Bool) (media : ℕ → β) : Device β := ⟨writeThrough, media, []⟩

def read (d : Device β) (b : ℕ) : β := applyWrites d.media d.cache b

def flush (d : Device β) : Device β := { d with media := applyWrites d.media d.cache, cache := [] }

def write (d : Device β) (b : ℕ) (v : β) : Device β :=
  let cached : Device β := { d with cache := d.cache ++ [(b, v)] }
  if d.writeThrough then cached.flush else cached

/-- The cached writes that the mask `keep` lets reach the media. -/
def keptWrites (keep : List Bool) (ws : List (ℕ × β)) : List (ℕ × β) :=
  ((ws.zip keep).filter fun p => p.2).map Prod.fst

def crash (d : Device β) (keep : List Bool) : ℕ → β := applyWrites d.media (keptWrites keep d.cache)

/-- No write of block `b` is waiting in the cache. -/
def Settled (d : Device β) (b : ℕ) : Prop := ∀ w ∈ d.cache, w.1 ≠ b

instance (d : Device β) (b : ℕ) : Decidable (d.Settled b) :=
  inferInstanceAs (Decidable (∀ w ∈ d.cache, w.1 ≠ b))

/-- After power loss, block `b` may hold `v`. -/
def May (d : Device β) (b : ℕ) (v : β) : Prop := v = d.media b ∨ (b, v) ∈ d.cache

variable {ws : List (ℕ × β)}

lemma may_applyWrites (h : ∀ w ∈ ws, w ∈ d.cache) (b : ℕ) :
    d.May b (applyWrites d.media ws b) := (applyWrites_mem d.media ws b).imp_right fun hm => h _ hm

lemma may_read (d : Device β) (b : ℕ) : d.May b (d.read b) := may_applyWrites (fun _ hw => hw) b

lemma mem_of_mem_keptWrites {keep : List Bool} {x : ℕ × β}
    (h : x ∈ keptWrites keep ws) : x ∈ ws := by
  simp only [keptWrites, mem_map, mem_filter] at h
  obtain ⟨⟨y, k⟩, ⟨hz, -⟩, rfl⟩ := h
  exact (of_mem_zip hz).1

lemma may_crash (d : Device β) (keep : List Bool) (b : ℕ) : d.May b (d.crash keep b) :=
  may_applyWrites (fun _ hw => mem_of_mem_keptWrites hw) b

lemma Settled.eq_read (h : d.Settled b) (hm : d.May b v) : v = d.read b := by
  have hread : d.read b = d.media b := by
    rcases d.may_read b with he | hc
    · exact he
    · exact absurd rfl (h _ hc)
  rcases hm with hv | hc
  · rw [hread, hv]
  · exact absurd rfl (h _ hc)

lemma may_fresh_iff {t : Bool} {media : ℕ → β} : (fresh t media).May b v ↔ v = media b := by
  simp [May, fresh]

@[simp] lemma read_flush (d : Device β) : d.flush.read = d.read := rfl

lemma may_flush_iff : d.flush.May b v ↔ v = d.read b := by
  simp [May, flush, read]

@[simp] lemma flush_writeThrough (d : Device β) : d.flush.writeThrough = d.writeThrough := rfl

@[simp] lemma flush_cache (d : Device β) : d.flush.cache = [] := rfl

lemma read_write (d : Device β) (b : ℕ) (v : β) (c : ℕ) :
    (d.write b v).read c = if c = b then v else d.read c := by
  have h : (d.write b v).read = update d.read b v := by
    unfold write
    split <;> exact applyWrites_append_singleton _ _ _ _
  rw [h, update_apply]

lemma may_write (h : (d.write b v).May c w) : d.May c w ∨ (c = b ∧ w = v) := by
  unfold write at h
  split at h
  · rw [may_flush_iff] at h
    simp only [read, applyWrites_append_singleton, update_apply] at h
    split at h
    · exact .inr ⟨‹_›, h⟩
    · exact .inl (h ▸ d.may_read c)
  rcases h with h | h
  · exact .inl (.inl h)
  simp only [mem_append, mem_singleton, Prod.mk.injEq] at h
  rcases h with h | ⟨rfl, rfl⟩
  · exact .inl (.inr h)
  · exact .inr ⟨rfl, rfl⟩

@[simp] lemma write_writeThrough (d : Device β) (b : ℕ) (v : β) :
    (d.write b v).writeThrough = d.writeThrough := by
  unfold write; split <;> rfl

lemma write_cache_of_writeThrough (h : d.writeThrough = true) : (d.write b v).cache = [] := by
  simp [write, h]

lemma settled_of_cache_nil (h : d.cache = []) (b : ℕ) : d.Settled b := by
  simp [Settled, h]

/-- Whatever survives power loss, block `b` satisfies `P`. -/
def Surely (d : Device β) (b : ℕ) (P : β → Prop) : Prop := ∀ v, d.May b v → P v

variable {P Q : β → Prop}

section

variable (h : d.Surely b P)
include h

lemma Surely.read : P (d.read b) := h _ (d.may_read b)

lemma Surely.mono (hPQ : ∀ v, P v → Q v) : d.Surely b Q := fun v hv => hPQ v (h v hv)

lemma Surely.crash (keep : List Bool) (t : Bool) : (fresh t (d.crash keep)).Surely b P := by
  intro v hv
  rw [may_fresh_iff] at hv
  exact h v (hv ▸ d.may_crash keep b)

lemma Surely.write_of_ne (hne : b ≠ c) : (d.write c v).Surely b P := by
  intro w hw
  rcases may_write hw with hw | ⟨he, -⟩
  · exact h w hw
  · exact absurd he hne

lemma Surely.write (hv : b = c → P v) : (d.write c v).Surely b P := by
  intro w hw
  rcases may_write hw with hw | ⟨he, rfl⟩
  · exact h w hw
  · exact hv he

end

lemma surely_flush (h : P (d.read b)) : d.flush.Surely b P := by
  intro v hv
  rw [may_flush_iff] at hv
  exact hv ▸ h

lemma Surely.flush (h : d.Surely b P) : d.flush.Surely b P := surely_flush h.read

lemma Settled.surely (hs : d.Settled b) (h : P (d.read b)) : d.Surely b P :=
  fun _ hv => hs.eq_read hv ▸ h

end Device

/-- A program over a device of `β` blocks that returns an `α`. -/
inductive Prog (β α : Type) where
  | done (a : α)
  | read (b : ℕ) (k : β → Prog β α)
  | write (b : ℕ) (v : β) (k : Prog β α)
  | flush (k : Prog β α)

namespace Prog

variable {β α γ : Type}

def bind : Prog β α → (α → Prog β γ) → Prog β γ
  | done a, f => f a
  | read b k, f => read b fun v => (k v).bind f
  | write b v k, f => write b v (k.bind f)
  | flush k, f => flush (k.bind f)

instance : Monad (Prog β) where
  pure := done
  bind := bind

def readBlock (b : ℕ) : Prog β β := read b done

def writeBlock (b : ℕ) (v : β) : Prog β Unit := write b v (done ())

def flushBlocks : Prog β Unit := flush (done ())

def run : Prog β α → Device β → α × Device β
  | done a, d => (a, d)
  | read b k, d => (k (d.read b)).run d
  | write b v k, d => k.run (d.write b v)
  | flush k, d => k.run d.flush

/-- The device at every point where the machine may stop, the end included. -/
def points : Prog β α → Device β → List (Device β)
  | done _, d => [d]
  | read b k, d => (k (d.read b)).points d
  | write b v k, d => d :: k.points (d.write b v)
  | flush k, d => d :: k.points d.flush

/-- `C` holds at every stopping point and `Q` of the result. -/
def wp (C : Device β → Prop) (Q : α → Device β → Prop) : Prog β α → Device β → Prop
  | done a, d => C d ∧ Q a d
  | read b k, d => (k (d.read b)).wp C Q d
  | write b v k, d => C d ∧ k.wp C Q (d.write b v)
  | flush k, d => C d ∧ k.wp C Q d.flush

variable {C C' : Device β → Prop} {d : Device β} {p : Prog β α}

variable {Q : α → Device β → Prop}

lemma wp_iff : p.wp C Q d ↔ (∀ e ∈ p.points d, C e) ∧ Q (p.run d).1 (p.run d).2 := by
  induction p generalizing d with
  | done a => simp [wp, points, run]
  | read b k ih => exact ih _
  | write b v k ih => simp only [wp, points, run, ih, List.forall_mem_cons, and_assoc]
  | flush k ih => simp only [wp, points, run, ih, List.forall_mem_cons, and_assoc]

lemma wp_mono {Q Q' : α → Device β → Prop} (h : p.wp C Q d)
    (hC : ∀ e, C e → C' e) (hQ : ∀ a e, Q a e → Q' a e) : p.wp C' Q' d := by
  rw [wp_iff] at h ⊢
  exact ⟨fun e he => hC e (h.1 e he), hQ _ _ h.2⟩

lemma wp_start (h : p.wp C Q d) : C d := by
  induction p generalizing d with
  | done | write | flush => exact h.1
  | read b k ih => exact ih _ h

variable {f : α → Prog β γ}

lemma wp_bind_eq {Q : γ → Device β → Prop} :
    (p.bind f).wp C Q d ↔ p.wp C (fun a e => (f a).wp C Q e) d := by
  induction p generalizing d with
  | done a => exact ⟨fun h => ⟨wp_start h, h⟩, fun h => h.2⟩
  | read b k ih => exact ih _
  | write b v k ih => exact and_congr_right fun _ => ih
  | flush k ih => exact and_congr_right fun _ => ih

@[simp] lemma wp_bind {Q : γ → Device β → Prop} :
    (p >>= f).wp C Q d ↔ p.wp C (fun a e => (f a).wp C Q e) d := wp_bind_eq

@[simp] lemma wp_pure {a : α} : (pure a : Prog β α).wp C Q d ↔ C d ∧ Q a d := Iff.rfl

@[simp] lemma wp_readBlock {Q : β → Device β → Prop} {b : ℕ} :
    (readBlock b).wp C Q d ↔ C d ∧ Q (d.read b) d := Iff.rfl

variable {Q : Unit → Device β → Prop}

@[simp] lemma wp_writeBlock {b : ℕ} {v : β} :
    (writeBlock b v).wp C Q d ↔ C d ∧ C (d.write b v) ∧ Q () (d.write b v) := Iff.rfl

@[simp] lemma wp_flushBlocks :
    (flushBlocks : Prog β Unit).wp C Q d ↔ C d ∧ C d.flush ∧ Q () d.flush := Iff.rfl

def forEach {ι : Type} (f : ι → Prog β Unit) : List ι → Prog β Unit
  | [] => pure ()
  | i :: is => do f i; forEach f is

lemma wp_forEach {ι : Type} {f : ι → Prog β Unit} (I : List ι → List ι → Device β → Prop)
    (step : ∀ pre i post e, I pre (i :: post) e → (f i).wp C (fun _ e' => I (pre ++ [i]) post e') e)
    (stop : ∀ pre e, I pre [] e → C e ∧ Q () e) :
    ∀ (pre is : List ι) (d : Device β), I pre is d → (forEach f is).wp C Q d
  | pre, [], d, h => stop pre d h
  | pre, i :: is, d, h => by
    simp only [forEach, wp_bind]
    exact wp_mono (step pre i is d h) (fun _ hc => hc)
      fun _ e he => wp_forEach I step stop (pre ++ [i]) is e he

end Prog

variable {α β γ : Type} {d e : Device β} {b s : ℕ}

namespace Prog

lemma run_bind_eq (p : Prog β α) (f : α → Prog β γ) (d : Device β) :
    (p.bind f).run d = (f (p.run d).1).run (p.run d).2 := by
  induction p generalizing d with
  | done a => rfl
  | read b k ih => exact ih _ d
  | write b v k ih => exact ih _
  | flush k ih => exact ih _

@[simp] lemma run_bind (p : Prog β α) (f : α → Prog β γ) (d : Device β) :
    (p >>= f).run d = (f (p.run d).1).run (p.run d).2 := run_bind_eq p f d

lemma points_ne_nil (p : Prog β α) (d : Device β) : p.points d ≠ [] := by
  induction p generalizing d with
  | read b k ih => exact ih _ d
  | _ => exact List.cons_ne_nil _ _

@[simp] lemma points_bind (p : Prog β α) (f : α → Prog β γ) (d : Device β) : (p >>= f).points d =
    (p.points d).dropLast ++ (f (p.run d).1).points (p.run d).2 := by
  change (p.bind f).points d = _
  induction p generalizing d with
  | done a => rfl
  | read b k ih => exact ih _ d
  | _ =>
    rename_i ih
    rw [bind, points, ih, points, List.dropLast_cons_of_ne_nil (points_ne_nil _ _)]
    rfl

@[simp] lemma points_pure (a : α) (d : Device β) : (pure a : Prog β α).points d = [d] := rfl

@[simp] lemma points_readBlock (b : ℕ) (d : Device β) : (readBlock b).points d = [d] := rfl

@[simp] lemma points_writeBlock (b : ℕ) (v : β) (d : Device β) :
    (writeBlock b v).points d = [d, d.write b v] := rfl

@[simp] lemma points_flushBlocks (d : Device β) :
    (flushBlocks : Prog β Unit).points d = [d, d.flush] := rfl

@[simp] lemma run_pure (a : α) (d : Device β) : (pure a : Prog β α).run d = (a, d) := rfl

@[simp] lemma run_readBlock (b : ℕ) (d : Device β) : (readBlock b).run d = (d.read b, d) := rfl

@[simp] lemma run_writeBlock (b : ℕ) (v : β) (d : Device β) :
    (writeBlock b v).run d = ((), d.write b v) := rfl

@[simp] lemma run_flushBlocks (d : Device β) :
    (flushBlocks : Prog β Unit).run d = ((), d.flush) := rfl

end Prog

namespace Device

lemma read_write_congr (h : d.read = e.read) (b : ℕ) (v : β) :
    (d.write b v).read = (e.write b v).read := by
  ext c
  rw [read_write, read_write, h]

def copies (d : Device β) (ps : List (ℕ × ℕ)) : Device β :=
  ps.foldl (fun d p => d.write p.2 (d.read p.1)) d

@[simp] lemma copies_nil (d : Device β) : d.copies [] = d := rfl

@[simp] lemma copies_cons (d : Device β) (p : ℕ × ℕ) (ps : List (ℕ × ℕ)) :
    d.copies (p :: ps) = (d.write p.2 (d.read p.1)).copies ps := rfl

lemma copies_append (d : Device β) (ps qs : List (ℕ × ℕ)) :
    d.copies (ps ++ qs) = (d.copies ps).copies qs := List.foldl_append

lemma read_copies_congr (h : d.read = e.read) (ps : List (ℕ × ℕ)) :
    (d.copies ps).read = (e.copies ps).read := by
  induction ps generalizing d e with
  | nil => exact h
  | cons p ps ih =>
    rw [copies_cons, copies_cons, h]
    exact ih (read_write_congr h _ _)

lemma read_copies_of_notMem {ps : List (ℕ × ℕ)} (h : b ∉ ps.map Prod.snd) :
    (d.copies ps).read b = d.read b := by
  induction ps generalizing d with
  | nil => rfl
  | cons p ps ih =>
    simp only [List.map_cons, List.mem_cons, not_or] at h
    rw [copies_cons, ih h.2, read_write, if_neg h.1]

lemma read_copies_last {pre post : List (ℕ × ℕ)}
    (hs : s ∉ pre.map Prod.snd) (hb : b ∉ post.map Prod.snd) :
    (d.copies (pre ++ (s, b) :: post)).read b = d.read s := by
  rw [copies_append, copies_cons, read_copies_of_notMem hb, read_write, if_pos rfl,
    read_copies_of_notMem hs]

end Device

end BlockDevice
