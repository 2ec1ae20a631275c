import WasmOS.Wfs.Volume.ExtentAdd

/-! # Trimming a tree

One step of a trim takes a run from the end of the map, or an emptied leaf from the
tree, or finds that nothing reaches past the bound.
-/

namespace Wfs

open Procedure List Extent

variable {L : Layout} {V : Volume} {es : List Extent} {keep tree : ℕ}

lemma splitLast_none {α : Type} {p : α → Bool} {l : List α} (h : splitLast p l = none) :
    ∀ x ∈ l, p x = false := by
  induction l with
  | nil => simp
  | cons a as ih =>
    rw [splitLast] at h
    repeat' split at h
    any_goals cases h
    next hn ha => exact forall_mem_cons.mpr ⟨by simpa using ha, ih hn⟩

lemma splitLast_some {α : Type} {p : α → Bool} {l before : List α} {v : α}
    (h : splitLast p l = some (before, v)) :
    ∃ after, l = before ++ v :: after ∧ p v = true ∧ ∀ x ∈ after, p x = false := by
  induction l generalizing before with
  | nil => cases h
  | cons a as ih =>
    rw [splitLast] at h
    split at h
    · next b w hs =>
      obtain ⟨rfl, rfl⟩ := Prod.mk.inj (Option.some.inj h)
      obtain ⟨after, rfl, hv, hafter⟩ := ih hs
      exact ⟨after, rfl, hv, hafter⟩
    next hn =>
    split at h
    · next ha =>
      obtain ⟨rfl, rfl⟩ := Prod.mk.inj (Option.some.inj h)
      exact ⟨as, rfl, ha, splitLast_none hn⟩
    · cases h

lemma splitLast_sorted (hs : Extent.Sorted es) {before : List Extent} {v : Extent}
    (h : splitLast (fun e => decide (keep < e.stop)) es = some (before, v)) :
    es = before ++ [v] ∧ keep < v.stop := by
  obtain ⟨after, rfl, hv, hafter⟩ := splitLast_some h
  have hv' : keep < v.stop := by simpa using hv
  cases after with
  | nil => exact ⟨rfl, hv'⟩
  | cons a as =>
    have hle := (sorted_cons.mp (sorted_append.mp hs).2.1).2.2 a (.head _)
    have ha : ¬ keep < a.stop := by simpa using hafter a (.head _)
    unfold stop at *
    omega

variable (L) in
/-- A tree in the middle of a trim: its last leaf may be empty, or gone. -/
inductive TrimOk (V : Volume) (tree : ℕ) : Prop
  | leaf (records : List Extent) (block : V.block tree = .node (.leaf records))
      (sorted : Extent.Sorted records) (length_le : records.length ≤ L.leafCapacity)
  | interior (index : List (ℕ × ℕ)) (block : V.block tree = .node (.interior 1 index))
      (length_le : index.length ≤ L.interiorCapacity) (first : ∀ c ∈ index.head?, c.1 = 0)
      (ok : IndexOk L V index) (full : ∀ c ∈ index.dropLast, V.leafRecords c.2 ≠ [])

lemma TreeOk.trimOk (h : TreeOk L V tree) : TrimOk L V tree := by
  cases h with
  | leaf records hb _ hs hl => exact .leaf records hb hs hl
  | interior index hb _ hl hf hok hfull =>
    exact .interior index hb hl hf hok fun c hc => hfull c (dropLast_subset _ hc)

variable (L) in
inductive TrimPost (s t : Session) (tree keep : ℕ) (r : Trim) : Prop
  | cut (leaf : ℕ) (mem : leaf ∈ s.view.treeNodes tree) (puts : Puts s t [leaf])
      (staged : leaf ∈ t.targets) (ok : TrimOk L t.view tree)
      (nodes : t.view.treeNodes tree = s.view.treeNodes tree)
      (cuts : Extent.Cuts (s.view.treeRuns tree) (t.view.treeRuns tree) keep
        (List.range' r.freedFirst r.freedLength))
      (freedNode : r.freedNode = 0) (freedLength : 0 < r.freedLength)
      (removed : (t.view.treeRuns tree).length + r.removed = (s.view.treeRuns tree).length)
      (victim : ∃ e ∈ s.view.treeRuns tree, keep < e.stop)
  | drop (puts : Puts s t [tree]) (staged : tree ∈ t.targets) (ok : TrimOk L t.view tree)
      (runs : t.view.treeRuns tree = s.view.treeRuns tree)
      (nodes : (s.view.treeNodes tree).Perm (r.freedNode :: t.view.treeNodes tree))
      (empty : s.view.block r.freedNode = .node (.leaf [])) (freedNode : r.freedNode ≠ 0)
      (freedLength : r.freedLength = 0) (removed : r.removed = 0)
  | done (same : t = s) (stop : ∀ e ∈ s.view.treeRuns tree, e.stop ≤ keep)
      (freedNode : r.freedNode = 0) (freedLength : r.freedLength = 0) (removed : r.removed = 0)
      (gone : r.remaining = 0 → s.view.treeRuns tree = [] ∧ s.view.treeNodes tree = [tree])
      (left : r.remaining ≠ 0 → TreeOk L s.view tree)

/-- How a step of a trim is refused: no room to stage the blocks of the tree. -/
structure TrimRefused (s t : Session) (tree : ℕ) : Prop where
  home : t.home = s.home
  room : ∀ cs n, s.view.treeNodes tree ⊆ cs → ¬ s.Room cs n

variable {s : Session}

lemma trimRefused {b : ℕ} (hb : b ∈ s.view.treeNodes tree)
    (h : ∀ cs n, b ∈ cs → ¬ s.Room cs n) : TrimRefused s s.abort tree :=
  ⟨rfl, fun cs n hs => h cs n (hs hb)⟩

lemma trimLeaf_root_spec (hdata : L.IsData tree)
    (hb : s.view.block tree = .node (.leaf es)) (hs : Extent.Sorted es)
    (hl : es.length ≤ L.leafCapacity) :
    wp (trimLeaf L keep none tree es) (fun r t => TrimPost L s t tree keep r)
      (fun t => TrimRefused s t tree) s := by
  unfold trimLeaf
  split
  · next hnone =>
    have hstop : ∀ e ∈ es, e.stop ≤ keep := fun e he => by
      simpa using splitLast_none hnone e he
    rw [trimNothing, wp_pure]
    apply TrimPost.done rfl _ rfl rfl rfl
    · intro h0
      have : es = [] := length_eq_zero_iff.mp (by simpa using h0)
      rw [treeRuns_leaf hb, treeNodes_leaf hb]
      exact ⟨this, rfl⟩
    · intro h0
      refine .leaf es hb ?_ hs hl
      rintro rfl
      simp at h0
    · rwa [treeRuns_leaf hb]
  · next before v hsome =>
    obtain ⟨rfl, hv⟩ := splitLast_sorted hs hsome
    have hlen : before.length ≤ L.leafCapacity := by simp at hl; omega
    have hmem : tree ∈ s.view.treeNodes tree := tree_mem_nodes _ _
    have hvic : ∃ e ∈ s.view.treeRuns tree, keep < e.stop := ⟨v, by rw [treeRuns_leaf hb]; simp, hv⟩
    dsimp only
    split
    · next hkeep =>
      obtain ⟨hs', hcut⟩ := sorted_drop hs hkeep
      rw [wp_bind]
      refine wp_put hdata (fun t hp hb' hst => ?_) (trimRefused hmem)
      refine .cut tree hmem hp hst (.leaf _ hb' hs' hlen) ?_ ?_ rfl ?_ ?_ hvic
      · rw [treeNodes_leaf hb, treeNodes_leaf hb']
      · rw [treeRuns_leaf hb, treeRuns_leaf hb']; exact hcut
      · exact hs.length_pos v (by simp)
      · rw [treeRuns_leaf hb, treeRuns_leaf hb']; simp
    · next hkeep =>
      obtain ⟨hs', hcut⟩ := sorted_shorten hs (not_le.mp hkeep) hv
      rw [wp_bind]
      refine wp_put hdata (fun t hp hb' hst => ?_) (trimRefused hmem)
      refine .cut tree hmem hp hst (.leaf _ hb' hs' (by simpa using hl)) ?_ ?_ rfl ?_ ?_ hvic
      · rw [treeNodes_leaf hb, treeNodes_leaf hb']
      · rw [treeRuns_leaf hb, treeRuns_leaf hb']; exact hcut
      · unfold stop at hv
        dsimp only
        omega
      · rw [treeRuns_leaf hb, treeRuns_leaf hb']; simp

section Index

variable {pre : List (ℕ × ℕ)} {key child : ℕ}

structure LastLeaf (L : Layout) (V : Volume) (tree : ℕ) (pre : List (ℕ × ℕ)) (key child : ℕ) :
    Prop where
  block : V.block tree = .node (.interior 1 (pre ++ [(key, child)]))
  length_le : (pre ++ [(key, child)]).length ≤ L.interiorCapacity
  first : ∀ c ∈ (pre ++ [(key, child)]).head?, c.1 = 0
  ok : IndexOk L V (pre ++ [(key, child)])
  full : ∀ c ∈ pre, V.leafRecords c.2 ≠ []
  nodup : (V.treeNodes tree).Nodup

namespace LastLeaf

lemma mem (_ : LastLeaf L V tree pre key child) : (key, child) ∈ pre ++ [(key, child)] := by
  simp

variable (h : LastLeaf L V tree pre key child)
include h

lemma leaf : V.block child = .node (.leaf (V.leafRecords child)) := h.ok.leaf _ h.mem

lemma runs : V.treeRuns tree = V.indexRuns pre ++ V.leafRecords child := by
  rw [treeRuns_interior h.block, indexRuns_append]
  simp [Volume.indexRuns]

lemma nodes : V.treeNodes tree = tree :: (pre.map Prod.snd ++ [child]) := by
  rw [treeNodes_interior h.block]
  simp

lemma ne_child : tree ≠ child ∧ (∀ c ∈ pre, c.2 ≠ child) ∧ ∀ c ∈ pre, c.2 ≠ tree := by
  have hnd := h.nodup
  rw [h.nodes, nodup_cons, nodup_append'] at hnd
  obtain ⟨ht, -, -, hd⟩ := hnd
  refine ⟨?_, ?_, ?_⟩
  · rintro rfl
    exact ht (by simp)
  · rintro c hc rfl
    exact hd (mem_map_of_mem hc) (by simp)
  · rintro c hc rfl
    exact ht (mem_append_left _ (mem_map_of_mem hc))

lemma pre_stop {e : Extent} (he : e ∈ V.indexRuns pre) : e.stop ≤ key := by
  obtain ⟨c, hc, hec⟩ := mem_flatMap.mp he
  exact ((pairwise_append.mp h.ok.ordered).2.2 c hc (key, child) (by simp)).2 e hec

end LastLeaf

lemma LastLeaf.cut {t : Session} {es' : List Extent} {freed : List ℕ} {n : ℕ}
    (h : LastLeaf L s.view tree pre key child) (hp : Puts s t [child])
    (hb' : t.view.block child = .node (.leaf es')) (hs : Extent.Sorted es')
    (hl : es'.length ≤ L.leafCapacity)
    (hlow : ∀ e ∈ es', key ≤ e.logical)
    (hcut : Extent.Cuts (s.view.leafRecords child) es' keep freed)
    (hlen : es'.length + n = (s.view.leafRecords child).length) :
    TrimOk L t.view tree ∧ t.view.treeNodes tree = s.view.treeNodes tree ∧
      Extent.Cuts (s.view.treeRuns tree) (t.view.treeRuns tree) keep freed ∧
      (t.view.treeRuns tree).length + n = (s.view.treeRuns tree).length := by
  obtain ⟨htc, hpc, -⟩ := h.ne_child
  have hb : t.view.block tree = .node (.interior 1 (pre ++ [(key, child)])) := by
    rw [hp.block tree (by simpa using htc), h.block]
  have hpre : ∀ c ∈ pre, t.view.block c.2 = s.view.block c.2 := fun c hc =>
    hp.block c.2 (by simpa using hpc c hc)
  have hok : IndexOk L t.view (pre ++ [(key, child)]) := by
    have hV' : ∀ c ∈ pre ++ [], t.view.block c.2 = s.view.block c.2 := fun c hc =>
      hpre c (by simpa using hc)
    have := h.ok.replace hV'
      (IndexOk.singleton (c := (key, child)) hb' hs hl hlow) (by simp) (by simp)
    simpa using this
  have hruns : t.view.treeRuns tree = s.view.indexRuns pre ++ es' := by
    rw [treeRuns_interior hb, indexRuns_append, indexRuns_congr hpre]
    simp [Volume.indexRuns, leafRecords_eq hb']
  refine ⟨.interior _ hb h.length_le h.first hok ?_, ?_, ?_, ?_⟩
  · intro c hc
    rw [dropLast_concat] at hc
    have : t.view.leafRecords c.2 = s.view.leafRecords c.2 := by
      unfold Volume.leafRecords; rw [hpre c hc]
    rw [this]
    exact h.full c hc
  · rw [treeNodes_interior hb, treeNodes_interior h.block]
  · rw [hruns, h.runs]
    apply hcut.append
    rw [← hruns, treeRuns_interior hb]
    exact hok.runs_sorted.map
  · rw [hruns, h.runs, length_append, length_append]
    omega

variable (h : LastLeaf L s.view tree pre key child) (hd : ∀ b ∈ s.view.treeNodes tree, L.IsData b)
include h hd

lemma trimNothing_index_spec (hc : child ≠ 0)
    (hstop : ∀ e ∈ s.view.leafRecords child, e.stop ≤ keep) :
    wp (trimNothing L (some tree) child (s.view.leafRecords child))
      (fun r t => TrimPost L s t tree keep r) (fun t => TrimRefused s t tree) s := by
  obtain ⟨htc, hpc, hpt⟩ := h.ne_child
  unfold trimNothing
  dsimp only
  split
  · next hempty =>
    have hread : readInterior tree s.view = .ok (1, pre ++ [(key, child)]) := by
      rw [readInterior, h.block]
    rw [wp_bind, wp_reading, hread]
    dsimp only
    rw [wp_bind, wp_require, if_pos (by simp), dropLast_concat, wp_bind]
    have htree := tree_mem_nodes s.view tree
    refine wp_put (hd tree htree) (fun t hp hb' hst => ?_) (trimRefused htree)
    have hpre : ∀ c ∈ pre, t.view.block c.2 = s.view.block c.2 := fun c hc =>
      hp.block c.2 (by simpa using hpt c hc)
    refine .drop hp hst (.interior pre hb' ?_ ?_ ?_ ?_) ?_ ?_ ?_ hc rfl rfl
    · have := h.length_le
      simp only [length_append, length_singleton] at this
      omega
    · have := h.first
      cases pre with
      | nil => simp
      | cons c cs => simpa using this
    · exact (h.ok.sublist (sublist_append_left _ _)).congr hpre
    · intro c hc
      have hm := dropLast_subset _ hc
      have : t.view.leafRecords c.2 = s.view.leafRecords c.2 := by
        unfold Volume.leafRecords; rw [hpre c hm]
      rw [this]
      exact h.full c hm
    · rw [h.runs, hempty, append_nil, treeRuns_interior hb', indexRuns_congr hpre]
    · rw [h.nodes, treeNodes_interior hb']
      apply perm_iff_count.mpr
      intro b
      simp only [count_cons, count_append, count_nil]
      omega
    · rw [h.leaf, hempty]
  · next hne =>
    apply TrimPost.done rfl _ rfl rfl rfl
    · intro h0
      simp at h0
    · intro _
      refine .interior _ h.block (by simp) h.length_le h.first h.ok fun c hc => ?_
      rcases mem_append.mp hc with hc | hc
      · exact h.full c hc
      · rwa [mem_singleton.mp hc]
    intro e he
    rw [h.runs] at he
    rcases mem_append.mp he with he | he
    · -- a run of an earlier leaf ends before the last leaf begins
      obtain ⟨f, hf⟩ := exists_mem_of_ne_nil _ hne
      have h₁ := h.pre_stop he
      have h₂ := h.ok.above _ h.mem f hf
      have h₃ := hstop f hf
      unfold stop at *
      dsimp only at h₂
      omega
    · exact hstop e he

lemma trimLeaf_index_spec : wp (trimLeaf L keep (some tree) child (s.view.leafRecords child))
      (fun r t => TrimPost L s t tree keep r) (fun t => TrimRefused s t tree) s := by
  have hs := h.ok.sorted _ h.mem
  have hl := h.ok.length_le _ h.mem
  have hlow := h.ok.above _ h.mem
  have hmem : child ∈ s.view.treeNodes tree := by rw [h.nodes]; simp
  unfold trimLeaf
  split
  · next hnone =>
    exact trimNothing_index_spec h hd (hd child hmem).ne_zero
      fun e he => by simpa using splitLast_none hnone e he
  next before v hsome =>
  obtain ⟨hrec, hv⟩ := splitLast_sorted hs hsome
  dsimp only at hs hl hlow
  rw [hrec] at hs hl hlow
  have hvic : ∃ e ∈ s.view.treeRuns tree, keep < e.stop := ⟨v, by rw [h.runs, hrec]; simp, hv⟩
  dsimp only
  split
  · next hkeep =>
    obtain ⟨hs', hcut⟩ := sorted_drop hs hkeep
    rw [wp_bind]
    refine wp_put (hd child hmem) (fun t hp hb' hst => ?_) (trimRefused hmem)
    obtain ⟨hok, hn, hcuts, hlen⟩ := h.cut hp hb' hs' (by simp at hl; omega)
      (fun e he => hlow e (by simp [he])) (hrec ▸ hcut) (n := 1) (by rw [hrec]; simp)
    exact .cut child hmem hp hst hok hn hcuts rfl (hs.length_pos v (by simp)) hlen hvic
  next hkeep =>
  obtain ⟨hs', hcut⟩ := sorted_shorten hs (not_le.mp hkeep) hv
  rw [wp_bind]
  refine wp_put (hd child hmem) (fun t hp hb' hst => ?_) (trimRefused hmem)
  have hlow' : ∀ e ∈ before ++ [{ v with length := keep - v.logical }], key ≤ e.logical := by
    rw [forall_mem_append, forall_mem_singleton]
    exact ⟨fun e he => hlow e (by simp [he]), hlow v (by simp)⟩
  obtain ⟨hok, hn, hcuts, hlen⟩ := h.cut hp hb' hs' (by simpa using hl) hlow' (hrec ▸ hcut)
    (n := 0) (by rw [hrec]; simp)
  refine .cut child hmem hp hst hok hn hcuts rfl ?_ hlen hvic
  unfold stop at hv
  exact Nat.sub_pos_of_lt (by omega)

end Index

lemma extentTrim_spec (h : TrimOk L s.view tree)
    (hd : ∀ b ∈ s.view.treeNodes tree, L.IsData b) (hnd : (s.view.treeNodes tree).Nodup) :
    wp (extentTrim L tree keep) (fun r t => TrimPost L s t tree keep r)
      (fun t => TrimRefused s t tree) s := by
  have htree := hd tree (tree_mem_nodes _ _)
  rw [extentTrim, wp_bind, wp_require, if_pos ⟨htree.ne_zero, htree.1⟩, wp_bind, wp_get]
  cases h with
  | leaf es hb hs hl =>
    have hread : readLeaf L tree s.view = .ok es := by
      rw [readLeaf, hb]
      exact if_neg (not_lt.mpr hl)
    simp only [hb, wp_bind, wp_reading, hread]
    exact trimLeaf_root_spec htree hb hs hl
  | interior index hb hl hf hok hfull =>
    simp only [hb, if_neg (not_lt.mpr hl)]
    cases hlast : index.getLast? with
    | none =>
      obtain rfl := getLast?_eq_none_iff.mp hlast
      have hruns : s.view.treeRuns tree = [] := by rw [treeRuns_interior hb]; rfl
      refine .done rfl ?_ rfl rfl rfl (fun _ => ⟨hruns, ?_⟩) fun h => absurd rfl h
      · simp [hruns]
      · rw [treeNodes_interior hb]; rfl
    | some c =>
      obtain ⟨pre, rfl⟩ := getLast?_eq_some_iff.mp hlast
      obtain ⟨key, child⟩ := c
      have h : LastLeaf L s.view tree pre key child := ⟨hb, hl, hf, hok, by simpa using hfull, hnd⟩
      have hchild := hd child (by rw [h.nodes]; simp)
      have hread : readLeaf L child s.view = .ok (s.view.leafRecords child) := by
        rw [readLeaf, h.leaf]
        exact if_neg (not_lt.mpr (h.ok.length_le _ h.mem))
      simp only [wp_bind, wp_require, if_pos (And.intro hchild.ne_zero hchild.1), wp_reading, hread]
      exact trimLeaf_index_spec h hd

end Wfs
