import Mathlib.Data.List.DropRight

/-! # Paths written with a separator

An absolute path is a list of names, each written behind a separator; the root is a
lone separator. No name holds the separator, so a path that is a prefix of another up
to a boundary is a prefix name by name.
-/

open List

namespace SlashPath

variable {α : Type*} {sep : α}

def body (sep : α) (ns : List (List α)) : List α := ns.flatMap (sep :: ·)

def render (sep : α) (ns : List (List α)) : List α := if ns.isEmpty then [sep] else body sep ns

@[simp] lemma body_nil : body sep [] = [] := rfl

@[simp] lemma body_cons (n : List α) (ns : List (List α)) :
    body sep (n :: ns) = sep :: (n ++ body sep ns) := rfl

@[simp] lemma body_append (ms ns : List (List α)) :
    body sep (ms ++ ns) = body sep ms ++ body sep ns := flatMap_append

lemma body_map {f : α → α} (hf : f sep = sep) (ns : List (List α)) :
    (body sep ns).map f = body sep (ns.map (List.map f)) := by
  induction ns with
  | nil => rfl
  | cons n ns ih => simp [hf, ih]

@[simp] lemma render_nil : render sep [] = [sep] := rfl

variable {ns : List (List α)}

lemma render_of_ne_nil (h : ns ≠ []) : render sep ns = body sep ns := by
  cases ns with
  | nil => exact absurd rfl h
  | cons n ns => rfl

lemma render_head (ns : List (List α)) : (render sep ns).head? = some sep := by
  cases ns <;> rfl

/-- Where a path may be cut: at its end, or in front of a separator. -/
def Boundary (sep : α) (rest : List α) : Prop := rest = [] ∨ rest.head? = some sep

lemma boundary_body (ns : List (List α)) : Boundary sep (body sep ns) := by
  cases ns with
  | nil => exact .inl rfl
  | cons n ns => exact .inr rfl

lemma Boundary.body_append {rest : List α} (h : Boundary sep rest) (ns : List (List α)) :
    Boundary sep (body sep ns ++ rest) := by
  cases ns with
  | nil => exact h
  | cons n ns => exact .inr rfl

lemma append_cancel_of_boundary {m n a b : List α} (hm : sep ∉ m) (hn : sep ∉ n)
    (ha : Boundary sep a) (hb : Boundary sep b) (h : m ++ a = n ++ b) : m = n ∧ a = b := by
  induction m generalizing n with
  | nil =>
    cases n with
    | nil => exact ⟨rfl, h⟩
    | cons y n =>
      rw [nil_append] at h
      subst h
      rcases ha with ha | ha
      · cases ha
      · simp only [cons_append, head?_cons, Option.some.injEq] at ha
        exact absurd ha fun he => hn (he ▸ .head _)
  | cons x m ih =>
    cases n with
    | nil =>
      rw [nil_append] at h
      subst h
      rcases hb with hb | hb
      · cases hb
      · simp only [cons_append, head?_cons, Option.some.injEq] at hb
        exact absurd hb fun he => hm (he ▸ .head _)
    | cons y n =>
      simp only [cons_append, List.cons.injEq] at h
      obtain ⟨rfl, h⟩ := h
      obtain ⟨rfl, rfl⟩ := ih (fun hs => hm (.tail _ hs)) (fun hs => hn (.tail _ hs)) h
      exact ⟨rfl, rfl⟩

lemma body_split {ms ns : List (List α)} {rest : List α} (hm : ∀ n ∈ ms, sep ∉ n)
    (hn : ∀ n ∈ ns, sep ∉ n) (hr : Boundary sep rest) (h : body sep ms ++ rest = body sep ns) :
    ∃ qs, ns = ms ++ qs ∧ rest = body sep qs := by
  induction ms generalizing ns with
  | nil => exact ⟨ns, rfl, h⟩
  | cons m ms ih =>
    cases ns with
    | nil => cases h
    | cons n ns =>
      simp only [body_cons, cons_append, append_assoc, List.cons.injEq, true_and] at h
      obtain ⟨rfl, hrest⟩ := append_cancel_of_boundary (hm m (.head _))
        (hn n (.head _)) (hr.body_append ms) (boundary_body ns) h
      obtain ⟨qs, rfl, hq⟩ := ih (fun k hk => hm k (.tail _ hk))
        (fun k hk => hn k (.tail _ hk)) hrest
      exact ⟨qs, rfl, hq⟩

lemma rdropWhile_sep [DecidableEq α] (hn : ∀ n ∈ ns, n ≠ [] ∧ sep ∉ n) :
    (body sep ns).tail.rdropWhile (· = sep) = (body sep ns).tail := by
  rw [rdropWhile_eq_self_iff]
  intro hl
  rw [getLast_tail]
  induction ns using List.reverseRecOn with
  | nil => exact absurd rfl hl
  | append_singleton ns n _ =>
    obtain ⟨hne, hsep⟩ := hn n (by simp)
    simp only [body_append, body_cons, body_nil, append_nil, decide_eq_true_eq]
    rw [getLast_append_of_ne_nil _ (by simp), getLast_cons hne]
    exact fun he => hsep (he ▸ getLast_mem hne)

lemma rdropWhile_name [DecidableEq α] (t n : List α) (hn : sep ∉ n) :
    (t ++ sep :: n).rdropWhile (· ≠ sep) = t ++ [sep] := by
  induction n using List.reverseRecOn with
  | nil => simp
  | append_singleton n c ih =>
    have hc : c ≠ sep := fun he => hn (by simp [he])
    rw [show t ++ sep :: (n ++ [c]) = (t ++ sep :: n) ++ [c] by simp, rdropWhile_concat,
      if_pos (by simpa using hc)]
    exact ih fun hs => hn (by simp [hs])

lemma not_mem_of_mem_splitOn [DecidableEq α] {xs w : List α} (h : w ∈ xs.splitOn sep) :
    sep ∉ w := by
  rw [splitOn_eq_splitOnP] at h
  induction xs generalizing w with
  | nil =>
    obtain rfl : w = [] := by simpa using h
    exact not_mem_nil
  | cons x xs ih =>
    rw [splitOnP_cons_eq_if_modifyHead] at h
    split at h
    · rcases mem_cons.mp h with rfl | h
      · exact not_mem_nil
      · exact ih h
    next hx =>
    rcases hs : xs.splitOnP (· == sep) with _ | ⟨u, us⟩
    · exact absurd hs (splitOnP_ne_nil _ _)
    rw [hs] at h ih
    rcases mem_cons.mp h with rfl | h
    · rintro (_ | ⟨_, hu⟩)
      · simp at hx
      · exact ih (.head _) hu
    · exact ih (.tail _ h)

lemma rdropWhile_last [DecidableEq α] {n : List α}
    (hns : ∀ k ∈ ns, k ≠ [] ∧ sep ∉ k) (hn : sep ∉ n) :
    ((body sep (ns ++ [n])).tail.rdropWhile (· ≠ sep)).rdropWhile (· = sep) =
      (body sep ns).tail := by
  cases ns with
  | nil =>
    have hall : n.rdropWhile (· ≠ sep) = [] := by
      rw [rdropWhile_eq_nil_iff]
      exact fun x hx => decide_eq_true fun he => hn (he ▸ hx)
    have htail : (body sep ([] ++ [n])).tail = n := by simp
    rw [htail, hall]
    rfl
  | cons k ks =>
    have htail : (body sep (k :: ks ++ [n])).tail = (k ++ body sep ks) ++ sep :: n := by simp
    rw [htail, rdropWhile_name _ _ hn, rdropWhile_concat, if_pos (by simp)]
    exact rdropWhile_sep hns

lemma body_length_lt {ns qs : List (List α)} (hq : qs ≠ []) :
    (body sep ns).length < (body sep (ns ++ qs)).length := by
  cases qs with
  | nil => exact absurd rfl hq
  | cons q qs => simp

end SlashPath
