import WasmOS.Wfs.Volume.ExtentMap

/-! # Adding an extent

What `wfs_extent_add_task` does to the map of an object and to the blocks of its
tree: the new block is mapped, nothing else moves, and of the blocks the caller
supplied it uses exactly those it needs.
-/

namespace Wfs

open Procedure List Extent Volume

variable {L : Layout} {V : Volume} {es es' : List Extent} {x : Extent}

lemma recordsBefore_append : recordsBefore es x ++ recordsFrom es x = es :=
  takeWhile_append_dropWhile

lemma recordsFrom_gt (hs : Extent.Sorted es) {e : Extent} (he : e ∈ recordsFrom es x) :
    x.logical < e.logical := by
  apply lt_of_mem_dropWhile _ he
  apply hs.ordered.imp
  intro a b h
  unfold stop at h
  omega

lemma recordsBefore_stop (hn : lookup es x.logical = none) {e : Extent}
    (he : e ∈ recordsBefore es x) : e.stop ≤ x.logical := by
  have hle := le_of_mem_takeWhile he
  have hc := lookup_eq_none.mp hn e (( takeWhile_prefix _).subset he)
  rw [covers_iff] at hc
  omega

lemma insertRecord_adds (hs : Extent.Sorted es) (hn : lookup es x.logical = none)
    (hx : x.length = 1) : Extent.SortedAdds es (insertRecord es x) x.logical x.physical := by
  have hone : x = ⟨x.logical, x.physical, 1⟩ := by rw [← hx]
  have := sorted_insert (p := x.physical) (by rwa [recordsBefore_append])
    (fun e he => recordsBefore_stop hn he) fun e he => recordsFrom_gt hs he
  rwa [recordsBefore_append, ← hone] at this

lemma coalesce_adds (hs : Extent.Sorted es) (hx : x.length = 1) (h : coalesce es x = some es') :
    Extent.SortedAdds es es' x.logical x.physical ∧ es'.length = es.length := by
  unfold coalesce at h
  split at h
  · cases h
  next p hp =>
  split at h
  · next hcond =>
    obtain rfl := Option.some.inj h
    have hbefore : (recordsBefore es x).dropLast ++ [p] = recordsBefore es x := by
      obtain ⟨ys, hys⟩ := getLast?_eq_some_iff.mp hp
      rw [hys, dropLast_concat]
    have heq : (recordsBefore es x).dropLast ++ p :: recordsFrom es x = es := by
      rw [← singleton_append, ← append_assoc, hbefore, recordsBefore_append]
    rw [hx]
    constructor
    · have := sorted_grow (by rwa [heq]) hcond.1 hcond.2 fun e he => recordsFrom_gt hs he
      rwa [heq] at this
    · conv_rhs => rw [← heq]
      simp
  · cases h

lemma insertRecord_length : (insertRecord es x).length = es.length + 1 := by
  have hes : recordsBefore es x ++ recordsFrom es x = es := recordsBefore_append
  have hlen := congrArg List.length hes
  simp only [length_append] at hlen
  simp [insertRecord]
  omega

section Index

variable {pre post new : List (ℕ × ℕ)} {key child : ℕ} {V' : Volume}

lemma IndexOk.replace (h : IndexOk L V (pre ++ (key, child) :: post))
    (hV' : ∀ c ∈ pre ++ post, V'.block c.2 = V.block c.2) (hnew : IndexOk L V' new)
    (hlow : ∀ c ∈ new, key ≤ c.1)
    (hhigh : ∀ c ∈ new, ∀ d ∈ post, c.1 ≤ d.1 ∧ ∀ e ∈ V'.leafRecords c.2, e.stop ≤ d.1) :
    IndexOk L V' (pre ++ (new ++ post)) := by
  have hsub : post.Sublist (pre ++ (key, child) :: post) :=
    (sublist_cons_self _ _).trans (sublist_append_right _ _)
  have hord := (pairwise_append.mp h.ordered).2.2
  have hrec : ∀ c ∈ pre, V'.leafRecords c.2 = V.leafRecords c.2 := fun c hc => by
    unfold leafRecords; rw [hV' c (mem_append_left _ hc)]
  have hpre : IndexOk L V' pre := (h.sublist (sublist_append_left _ _)).congr
    fun c hc => hV' c (mem_append_left _ hc)
  have hpost : IndexOk L V' post := (h.sublist hsub).congr fun c hc => hV' c (mem_append_right _ hc)
  apply hpre.append (hnew.append hpost hhigh)
  intro a ha b hb
  rw [hrec a ha]
  rcases mem_append.mp hb with hb | hb
  · have := hord a ha (key, child) mem_cons_self
    have hk := hlow b hb
    exact ⟨by omega, fun e he => (this.2 e he).trans hk⟩
  · exact hord a ha b (.tail _ hb)

lemma indexRuns_congr {index : List (ℕ × ℕ)}
    (hV' : ∀ c ∈ index, V'.block c.2 = V.block c.2) : V'.indexRuns index = V.indexRuns index := by
  apply flatMap_congr
  intro c hc
  unfold leafRecords
  rw [hV' c hc]

end Index

variable (L) in
/-- From `s` to `t` the tree at `tree` became the one at `tree'` by adding `x`, with new nodes
`spare` and `grow` more records. -/
structure TreeAdds (s t : Session) (tree tree' : ℕ) (x : Extent) (spare : List ℕ) (grow : ℕ) :
    Prop where
  puts : Puts s t (t.view.treeNodes tree')
  ok : TreeOk L t.view tree'
  adds : Extent.Adds (s.view.treeRuns tree) (t.view.treeRuns tree') x.logical x.physical
  nodes : (t.view.treeNodes tree').Perm (spare ++ s.view.treeNodes tree)
  length : (t.view.treeRuns tree').length = (s.view.treeRuns tree).length + grow

variable (L) in
/-- The leaf `child` is where the logical block `k` belongs under the interior node `tree`. -/
structure Located (V : Volume) (tree k : ℕ) (pre : List (ℕ × ℕ)) (key child : ℕ)
    (post : List (ℕ × ℕ)) : Prop where
  block : V.block tree = .node (.interior 1 (pre ++ (key, child) :: post))
  length_le : (pre ++ (key, child) :: post).length ≤ L.interiorCapacity
  first : ∀ c ∈ (pre ++ (key, child) :: post).head?, c.1 = 0
  ok : IndexOk L V (pre ++ (key, child) :: post)
  full : ∀ c ∈ pre ++ (key, child) :: post, V.leafRecords c.2 ≠ []
  key_le : key ≤ k
  post_gt : ∀ c ∈ post, k < c.1

variable {s t : Session} {tree k key child leafBlock rootSpare grow : ℕ} {pre post : List (ℕ × ℕ)}

namespace Located

lemma mem (_ : Located L V tree k pre key child post) :
    (key, child) ∈ pre ++ (key, child) :: post := by simp

variable (h : Located L V tree k pre key child post)
include h

lemma leaf : V.block child = .node (.leaf (V.leafRecords child)) := h.ok.leaf _ h.mem

lemma sorted : Extent.Sorted (V.leafRecords child) := h.ok.sorted _ h.mem

lemma lookup : lookup (V.treeRuns tree) k = lookup (V.leafRecords child) k := by
  rw [treeRuns_interior h.block]
  exact h.ok.lookup_split h.key_le h.post_gt

lemma pre_lookup : Extent.lookup (V.indexRuns pre) k = none := by
  apply Extent.lookup_eq_none_of_stop_le _ h.key_le
  intro e he
  obtain ⟨c, hc, hec⟩ := mem_flatMap.mp he
  exact ((pairwise_append.mp h.ok.ordered).2.2 c hc (key, child) mem_cons_self).2 e hec

lemma nodes : V.treeNodes tree = tree :: (pre.map Prod.snd ++ child :: post.map Prod.snd) := by
  rw [treeNodes_interior h.block]
  simp

lemma ne_child (hnd : (V.treeNodes tree).Nodup) :
    tree ≠ child ∧ ∀ c ∈ pre ++ post, c.2 ≠ child := by
  rw [h.nodes, nodup_cons, nodup_append', nodup_cons] at hnd
  obtain ⟨ht, -, ⟨hc, -⟩, hd⟩ := hnd
  constructor
  · rintro rfl
    exact ht (by simp)
  rintro c hm rfl
  rcases mem_append.mp hm with hm | hm
  · exact hd (mem_map_of_mem hm) mem_cons_self
  · exact hc (mem_map_of_mem hm)

end Located

lemma treeAdds_leaf (hb : s.view.block tree = .node (.leaf es)) (hp : Puts s t [tree])
    (hb' : t.view.block tree = .node (.leaf es'))
    (ha : Extent.SortedAdds es es' x.logical x.physical) (hl : es'.length ≤ L.leafCapacity)
    (hgrow : es'.length = es.length + grow) : TreeAdds L s t tree tree x [] grow := by
  constructor
  · rwa [treeNodes_leaf hb']
  · exact .leaf es' hb' ha.toAdds.ne_nil ha.sorted hl
  · rw [treeRuns_leaf hb, treeRuns_leaf hb']
    exact ha.toAdds
  · rw [treeNodes_leaf hb, treeNodes_leaf hb']
    rfl
  · rwa [treeRuns_leaf hb, treeRuns_leaf hb']

lemma treeAdds_index (new : List (ℕ × ℕ)) {bs spare : List ℕ}
    (h : Located L s.view tree x.logical pre key child post)
    (hp : Puts s t bs) (hbs : bs ⊆ tree :: new.map Prod.snd)
    (hout : ∀ c ∈ pre ++ post, c.2 ∉ bs)
    (hb' : t.view.block tree = .node (.interior 1 (pre ++ (new ++ post))))
    (hlen : (pre ++ (new ++ post)).length ≤ L.interiorCapacity)
    (hnew : IndexOk L t.view new) (hne : new ≠ []) (hhead : ∀ c ∈ new.head?, c.1 = key)
    (hfull : ∀ c ∈ new, t.view.leafRecords c.2 ≠ []) (hlow : ∀ c ∈ new, key ≤ c.1)
    (hhigh : ∀ c ∈ new, ∀ d ∈ post, c.1 ≤ d.1 ∧ ∀ e ∈ t.view.leafRecords c.2, e.stop ≤ d.1)
    (ha : Extent.Adds (s.view.leafRecords child) (t.view.indexRuns new) x.logical x.physical)
    (hnodes : (new.map Prod.snd).Perm (child :: spare))
    (hgrow : (t.view.indexRuns new).length = (s.view.leafRecords child).length + grow) :
    TreeAdds L s t tree tree x spare grow := by
  have hV' : ∀ c ∈ pre ++ post, t.view.block c.2 = s.view.block c.2 := fun c hc =>
    hp.block c.2 (hout c hc)
  have hok := h.ok.replace hV' hnew hlow hhigh
  have hruns : t.view.treeRuns tree =
      s.view.indexRuns pre ++ (t.view.indexRuns new ++ s.view.indexRuns post) := by
    rw [treeRuns_interior hb', indexRuns_append, indexRuns_append,
      indexRuns_congr fun c hc => hV' c (mem_append_left _ hc),
      indexRuns_congr fun c hc => hV' c (mem_append_right _ hc)]
  constructor
  · rw [treeNodes_interior hb']
    apply hp.mono
    intro b hb
    rcases mem_cons.mp (hbs hb) with rfl | hb
    · exact .head _
    · rw [map_append, map_append]
      exact .tail _ (mem_append_right _ (mem_append_left _ hb))
  · apply TreeOk.interior _ hb' _ hlen _ hok
    · intro c hc
      rcases mem_append.mp hc with hm | hm
      · have hsame : t.view.leafRecords c.2 = s.view.leafRecords c.2 := by
          unfold leafRecords; rw [hV' c (mem_append_left _ hm)]
        rw [hsame]
        exact h.full c (mem_append_left _ hm)
      rcases mem_append.mp hm with hm | hm
      · exact hfull c hm
      have hsame : t.view.leafRecords c.2 = s.view.leafRecords c.2 := by
        unfold leafRecords; rw [hV' c (mem_append_right _ hm)]
      rw [hsame]
      exact h.full c (mem_append_right _ (.tail _ hm))
    · simp [hne]
    · have hfirst := h.first
      cases pre with
      | nil =>
        obtain ⟨c, cs, rfl⟩ := exists_cons_of_ne_nil hne
        intro d hd
        rw [hhead d (by simpa using hd)]
        exact hfirst (key, child) rfl
      | cons c cs =>
        simpa using hfirst
  · rw [hruns, treeRuns_interior h.block, indexRuns_append, indexRuns_cons]
    apply ha.append h.pre_lookup
    rw [← hruns, treeRuns_interior hb']
    exact hok.runs_sorted.map
  · rw [h.nodes, treeNodes_interior hb', map_append, map_append]
    apply perm_iff_count.mpr
    intro b
    have := hnodes.count_eq b
    simp only [count_append, count_cons] at this ⊢
    omega
  · rw [hruns, treeRuns_interior h.block, indexRuns_append, indexRuns_cons]
    simp only [length_append, hgrow]
    omega

lemma splitPoint_bounds (h : 2 ≤ es.length) :
    0 < splitPoint es x ∧ splitPoint es x ≤ es.length ∧
      es.length + 1 - splitPoint es x ≤ es.length ∧
      splitPoint es x < es.length + 1 := by
  unfold splitPoint
  split <;> omega

lemma leafCapacity_ge : 170 ≤ L.leafCapacity := by
  have := L.blockSize_ge
  unfold Dims.leafCapacity
  omega

variable (L) in
structure Splits (es : List Extent) (x : Extent) (lower upper : List Extent) (splitLogical : ℕ) :
    Prop where
  adds : Extent.SortedAdds es (lower ++ upper) x.logical x.physical
  lower_ne : lower ≠ []
  upper_ne : upper ≠ []
  lower_le : lower.length ≤ L.leafCapacity
  upper_le : upper.length ≤ L.leafCapacity
  below : ∀ e ∈ lower, e.stop ≤ splitLogical
  above : ∀ e ∈ upper, splitLogical ≤ e.logical
  length : (lower ++ upper).length = es.length + 1

lemma splits (hs : Extent.Sorted es) (hn : lookup es x.logical = none)
    (hx : x.length = 1) (hl : es.length = L.leafCapacity) :
    Splits L es x ((insertRecord es x).take (splitPoint es x))
      ((insertRecord es x).drop (splitPoint es x))
      ((((insertRecord es x).drop (splitPoint es x)).head?.map logical).getD 0) := by
  have hcap := leafCapacity_ge (L := L)
  have htwo : 2 ≤ es.length := by omega
  have := splitPoint_bounds (x := x) htwo
  have hlen : (insertRecord es x).length = es.length + 1 := insertRecord_length
  have ha := insertRecord_adds hs hn hx
  have hsorted := ha.sorted
  have hupper : (insertRecord es x).drop (splitPoint es x) ≠ [] := by
    rw [ne_eq, drop_eq_nil_iff]; omega
  obtain ⟨u, us, hus⟩ := exists_cons_of_ne_nil hupper
  rw [← take_append_drop (splitPoint es x) (insertRecord es x), sorted_append, hus,
    sorted_cons] at hsorted
  constructor
  · rwa [take_append_drop]
  · rw [ne_eq, take_eq_nil_iff, not_or]
    exact ⟨by omega, ha.toAdds.ne_nil⟩
  · exact hupper
  · rw [length_take]; omega
  · rw [length_drop]; omega
  · intro e he
    rw [hus]
    exact hsorted.2.2 e he u (.head _)
  · intro e he
    rw [hus] at he ⊢
    rcases mem_cons.mp he with rfl | he
    · exact le_rfl
    have := hsorted.2.1.2.2 e he
    unfold stop at this
    simp only [head?_cons, Option.map_some, Option.getD_some]
    omega
  · rw [take_append_drop, hlen]

section Split

variable {lower upper : List Extent} {splitLogical : ℕ}

section

variable (h : Splits L es x lower upper splitLogical)
include h

lemma Splits.index_adds {V' : Volume} {a b : ℕ × ℕ}
    (hlower : V'.leafRecords a.2 = lower) (hupper : V'.leafRecords b.2 = upper) :
    Extent.Adds es (V'.indexRuns [a, b]) x.logical x.physical ∧
      (V'.indexRuns [a, b]).length = es.length + 1 := by
  have : V'.indexRuns [a, b] = lower ++ upper := by simp [indexRuns, hlower, hupper]
  rw [this]
  exact ⟨h.adds.toAdds, h.length⟩

lemma Splits.indexOk {V' : Volume} {key a b : ℕ}
    (hlower : V'.block a = .node (.leaf lower)) (hupper : V'.block b = .node (.leaf upper))
    (hkey : key ≤ splitLogical) (hlow : ∀ e ∈ lower ++ upper, key ≤ e.logical) :
    IndexOk L V' [(key, a), (splitLogical, b)] := by
  obtain ⟨hs₁, hs₂, -⟩ := sorted_append.mp h.adds.sorted
  have h₁ : IndexOk L V' [(key, a)] := .singleton hlower hs₁ h.lower_le
    fun e he => hlow e (mem_append_left _ he)
  have h₂ : IndexOk L V' [(splitLogical, b)] := .singleton hupper hs₂ h.upper_le h.above
  apply h₁.append h₂
  rintro c hc d hd
  rw [mem_singleton.mp hc, mem_singleton.mp hd, leafRecords_eq hlower]
  exact ⟨hkey, h.below⟩

lemma treeAdds_newRoot
    (hb : s.view.block tree = .node (.leaf es)) (hp : Puts s t [tree, leafBlock, rootSpare])
    (hlower : t.view.block tree = .node (.leaf lower))
    (hupper : t.view.block leafBlock = .node (.leaf upper))
    (hroot : t.view.block rootSpare = .node (.interior 1 [(0, tree), (splitLogical, leafBlock)])) :
    TreeAdds L s t tree rootSpare x [leafBlock, rootSpare] 1 := by
  have hindex := h.index_adds (a := (0, tree)) (b := (splitLogical, leafBlock))
    (leafRecords_eq hlower) (leafRecords_eq hupper)
  constructor
  · rw [treeNodes_interior hroot]
    apply hp.mono
    intro b
    simp only [map_cons, map_nil, mem_cons, not_mem_nil]
    tauto
  · apply TreeOk.interior _ hroot
    · simp
    · have := L.blockSize_ge
      simp only [length_cons, length_nil, Dims.interiorCapacity]
      omega
    · simp
    · exact h.indexOk hlower hupper (Nat.zero_le _) fun _ _ => Nat.zero_le _
    rintro c hc
    rcases mem_cons.mp hc with rfl | hc
    · rw [leafRecords_eq hlower]; exact h.lower_ne
    · rw [mem_singleton.mp hc, leafRecords_eq hupper]; exact h.upper_ne
  · rw [treeRuns_leaf hb, treeRuns_interior hroot]
    exact hindex.1
  · rw [treeNodes_leaf hb, treeNodes_interior hroot]
    apply perm_iff_count.mpr
    intro b
    simp only [map_cons, map_nil, count_cons, count_append, count_nil]
    omega
  · rw [treeRuns_leaf hb, treeRuns_interior hroot]
    exact hindex.2

end

lemma treeAdds_splitIndex (h : Located L s.view tree x.logical pre key child post)
    (hsplit : Splits L (s.view.leafRecords child) x lower upper splitLogical)
    (hnd : (s.view.treeNodes tree).Nodup) (hleaf : leafBlock ∉ s.view.treeNodes tree)
    (hp : Puts s t [child, leafBlock, tree])
    (hroom : (pre ++ (key, child) :: post).length < L.interiorCapacity)
    (hlower : t.view.block child = .node (.leaf lower))
    (hupper : t.view.block leafBlock = .node (.leaf upper))
    (hroot : t.view.block tree =
      .node (.interior 1 (pre ++ ([(key, child), (splitLogical, leafBlock)] ++ post)))) :
    TreeAdds L s t tree tree x [leafBlock] 1 := by
  obtain ⟨htc, hother⟩ := h.ne_child hnd
  have hlow := hsplit.adds.low key h.key_le (h.ok.above _ h.mem)
  obtain ⟨u, hu⟩ := exists_mem_of_ne_nil _ hsplit.lower_ne
  have hkey : key ≤ splitLogical := by
    have h₁ := hlow u (mem_append_left _ hu)
    have h₂ := hsplit.below u hu
    unfold stop at h₂
    omega
  have hafter : ∀ d ∈ post, ∀ e ∈ lower ++ upper, e.stop ≤ d.1 := by
    intro d hd
    apply hsplit.adds.high d.1 (h.post_gt d hd)
    have hord := (pairwise_cons.mp (pairwise_append.mp h.ok.ordered).2.1).1 d hd
    exact hord.2
  have hpost : ∀ d ∈ post, splitLogical ≤ d.1 := by
    intro d hd
    obtain ⟨v, hv⟩ := exists_mem_of_ne_nil _ hsplit.upper_ne
    have h₁ := hsplit.above v hv
    have h₂ := hafter d hd v (mem_append_right _ hv)
    unfold stop at h₂
    omega
  apply treeAdds_index [(key, child), (splitLogical, leafBlock)] h hp
  · intro b
    simp only [map_cons, map_nil, mem_cons, not_mem_nil]
    tauto
  · intro c hc hm
    have hmem : c.2 ∈ (pre ++ (key, child) :: post).map Prod.snd := by
      apply mem_map_of_mem
      rcases mem_append.mp hc with hc | hc
      · exact mem_append_left _ hc
      · exact mem_append_right _ (.tail _ hc)
    rw [treeNodes_interior h.block] at hleaf hnd
    simp only [mem_cons, not_mem_nil, or_false] at hm
    rcases hm with hm | hm | hm
    · exact hother c hc hm
    · exact hleaf (.tail _ (hm ▸ hmem))
    · exact (nodup_cons.mp hnd).1 (hm ▸ hmem)
  · exact hroot
  · simp only [length_append, length_cons, length_nil] at hroom ⊢
    omega
  · exact hsplit.indexOk hlower hupper hkey hlow
  · simp
  · simp
  · rintro c hc
    rcases mem_cons.mp hc with rfl | hc
    · rw [leafRecords_eq hlower]; exact hsplit.lower_ne
    · rw [mem_singleton.mp hc, leafRecords_eq hupper]; exact hsplit.upper_ne
  · rintro c hc
    rcases mem_cons.mp hc with rfl | hc
    · exact le_rfl
    · rw [mem_singleton.mp hc]; exact hkey
  · rintro c hc d hd
    have hle : key ≤ d.1 := hkey.trans (hpost d hd)
    rcases mem_cons.mp hc with rfl | hc
    · rw [leafRecords_eq hlower]
      exact ⟨hle, fun e he => hafter d hd e (mem_append_left _ he)⟩
    · rw [mem_singleton.mp hc, leafRecords_eq hupper]
      exact ⟨hpost d hd, fun e he => hafter d hd e (mem_append_right _ he)⟩
  · exact (hsplit.index_adds (leafRecords_eq hlower) (leafRecords_eq hupper)).1
  · exact .refl _
  · exact (hsplit.index_adds (leafRecords_eq hlower) (leafRecords_eq hupper)).2

end Split

lemma treeAdds_child (h : Located L s.view tree x.logical pre key child post)
    (hnd : (s.view.treeNodes tree).Nodup) (hp : Puts s t [child])
    (hb' : t.view.block child = .node (.leaf es'))
    (ha : Extent.SortedAdds (s.view.leafRecords child) es' x.logical x.physical)
    (hl : es'.length ≤ L.leafCapacity)
    (hgrow : es'.length = (s.view.leafRecords child).length + grow) :
    TreeAdds L s t tree tree x [] grow := by
  obtain ⟨htc, hother⟩ := h.ne_child hnd
  have hr := leafRecords_eq hb'
  have hruns : t.view.indexRuns [(key, child)] = es' := by simp [indexRuns, hr]
  apply treeAdds_index [(key, child)] h hp
  · simp
  · intro c hc hm
    exact hother c hc (mem_singleton.mp hm)
  · rw [hp.block tree (by simpa using htc)]
    exact h.block
  · exact h.length_le
  · exact .singleton hb' ha.sorted hl (ha.low key h.key_le (h.ok.above _ h.mem))
  · simp
  · simp
  · intro c hc
    rw [mem_singleton.mp hc, hr]
    exact ha.toAdds.ne_nil
  · intro c hc
    rw [mem_singleton.mp hc]
  · intro c hc d hd
    rw [mem_singleton.mp hc, hr]
    have hord := (pairwise_cons.mp (pairwise_append.mp h.ok.ordered).2.1).1 d hd
    exact ⟨hord.1, ha.high d.1 (h.post_gt d hd) hord.2⟩
  · rw [hruns]
    exact ha.toAdds
  · exact .refl _
  · rw [hruns, hgrow]

variable (L) in
/-- From `s` to `t` the map of `o` became that of `o'` by adding `x`, with new nodes `spare`. -/
structure AddsTo (s t : Session) (o o' : Object) (x : Extent) (spare : List ℕ) : Prop where
  puts : Puts s t (o'.nodes t.view)
  same : o' = { o with
    treeBlock := o'.treeBlock, extents := o'.extents, extentCount := o'.extentCount }
  map : MapOk L t.view o'
  adds : Extent.Adds (o.runs s.view) (o'.runs t.view) x.logical x.physical
  nodes : (o'.nodes t.view).Perm (spare ++ o.nodes s.view)
  count : (o'.runs t.view).length + o.extentCount = (o.runs s.view).length + o'.extentCount

variable {o : Object} {spare : List ℕ} {tree' : ℕ}

lemma TreeAdds.addsTo (h : TreeAdds L s t o.treeBlock tree' x spare grow)
    (ht : o.treeBlock ≠ 0) (ht' : tree' ≠ 0) (he : o.extents = []) :
    AddsTo L s t o { o with treeBlock := tree', extentCount := o.extentCount + grow } x spare := by
  constructor
  · exact (nodes_inTree
      (o := { o with treeBlock := tree', extentCount := o.extentCount + grow }) ht') ▸ h.puts
  · rfl
  · exact .inTree ht' he h.ok
  · rw [runs_inTree ht, runs_inTree ht']
    exact h.adds
  · rw [nodes_inTree ht, nodes_inTree ht']
    exact h.nodes
  rw [runs_inTree ht, runs_inTree ht', h.length]
  dsimp only
  omega

lemma addsTo_promoted (ht : o.treeBlock = 0) (hc : o.extents.length = o.extentCount)
    (hfull : o.extentCount = inlineExtents) (hm : Extent.Map o.extents) (hx : x.length = 1)
    (hn : lookup o.extents x.logical = none) (hleaf : leafBlock ≠ 0)
    (hp : Puts s t [leafBlock])
    (hb : t.view.block leafBlock = .node (.leaf (fillPromotedLeaf o x))) :
    AddsTo L s t o { o with
      treeBlock := leafBlock, extents := [], extentCount := (fillPromotedLeaf o x).length } x
      [leafBlock] := by
  have hone : x = ⟨x.logical, x.physical, 1⟩ := by rw [← hx]
  have hall : (o.extents.take inlineExtents).filter (fun e => decide (e.length ≠ 0)) =
      o.extents := by
    rw [← hfull, ← hc, take_length, filter_eq_self]
    intro e he
    have := hm.length_pos e he
    simp only [decide_eq_true_eq]
    omega
  have hperm : (x :: o.extents).Perm (fillPromotedLeaf o x) := by
    unfold fillPromotedLeaf
    rw [hall]
    exact (perm_append_singleton x o.extents).symm.trans (perm_insertionSort _ _).symm
  have hadds : Extent.Adds o.extents (x :: o.extents) x.logical x.physical := by
    rw [hone]
    exact adds_cons hm hn
  have hadds' := hadds.perm hm (.refl _) hperm
  have hsorted : Extent.Sorted (fillPromotedLeaf o x) := by
    apply hadds'.map.sorted
    exact pairwise_insertionSort _ _
  have hlen : (fillPromotedLeaf o x).length ≤ L.leafCapacity := by
    have h₁ := hperm.length_eq
    have h₂ := leafCapacity_ge (L := L)
    rw [length_cons, hc, hfull] at h₁
    unfold inlineExtents at h₁
    omega
  constructor
  · rwa [nodes_inTree hleaf, treeNodes_leaf hb]
  · rfl
  · exact .inTree hleaf rfl (.leaf _ hb hadds'.ne_nil hsorted hlen)
  · rwa [runs_inRecord ht hc, runs_inTree hleaf, treeRuns_leaf hb]
  · rw [nodes_inTree hleaf, treeNodes_leaf hb, nodes_inRecord ht]
    exact .refl _
  · rw [runs_inTree hleaf, treeRuns_leaf hb, runs_inRecord ht hc, hc, add_comm]

def leafNeed (L : Layout) (records : List Extent) (x : Extent) (rooted : Bool) : ℕ :=
  if (coalesce records x).isSome ∨ records.length ≠ L.leafCapacity then 0
  else if rooted then 1 else 2

def spareNeed (L : Layout) (V : Volume) (o : Object) (x : Extent) : ℕ :=
  if o.treeBlock = 0 then 1
  else
    match locateLeaf L o x.logical V with
    | .ok (root, block) => leafNeed L (V.leafRecords block) x root.isSome
    | .error _ => 0

variable (L) in
def AddPost (s : Session) (o : Object) (x : Extent) (leafBlock rootSpare need : ℕ)
    (r : Option Object) (t : Session) : Prop :=
  match r with
  | none => t = s ∧ 0 < need ∧ (leafBlock ≠ 0 → leafBlock < L.totalBlocks → need = 2 ∧
      (rootSpare ≠ 0 → L.totalBlocks ≤ rootSpare))
  | some o' => AddsTo L s t o o' x ([leafBlock, rootSpare].take need) ∧
      (0 < need → leafBlock ≠ 0) ∧ (need = 2 → rootSpare ≠ 0) ∧ need ≤ 2

variable (L) in
/-- The blocks a caller hands to an addition: data blocks that are not in the tree yet. -/
structure Spares (V : Volume) (o : Object) (leafBlock rootSpare : ℕ) : Prop where
  leaf : leafBlock ≠ 0 → L.IsData leafBlock
  root : rootSpare ≠ 0 → L.IsData rootSpare
  leaf_new : leafBlock ∉ o.nodes V
  root_new : rootSpare ∉ o.nodes V
  apart : leafBlock = 0 ∨ leafBlock ≠ rootSpare

variable (L) in
structure CanAdd (s : Session) (o : Object) (x : Extent) (leafBlock : ℕ) : Prop where
  args : x.length ≠ 0 ∧ x.physical ≠ 0 ∧ x.physical + x.length ≤ L.totalBlocks
  record : o.treeBlock = 0 → o.extentCount = inlineExtents ∧ leafBlock ≠ 0
  room : s.Room [] 3
  index : ∀ depth index, s.view.block o.treeBlock = .node (.interior depth index) →
    index.length < L.interiorCapacity

variable {root : Option (ℕ × ℕ)} {block : ℕ}

lemma addToLeaf_spec (hdata : L.IsData block) (hne : es ≠ [])
    (hb : s.view.block block = .node (.leaf es)) (hs : Extent.Sorted es)
    (hl : es.length ≤ L.leafCapacity) (hn : lookup es x.logical = none)
    (hx : x.length = 1)
    (hset : ∀ t es' grow, Puts s t [block] → t.view.block block = .node (.leaf es') →
      Extent.SortedAdds es es' x.logical x.physical → es'.length ≤ L.leafCapacity →
      es'.length = es.length + grow →
      AddsTo L s t o { o with extentCount := o.extentCount + grow } x [])
    (hsplit : es.length = L.leafCapacity → leafBlock ≠ 0 → (root = none → rootSpare ≠ 0) →
      wp (splitLeaf L o x leafBlock rootSpare root block es) (fun o' t => AddsTo L s t o o' x
          ([leafBlock, rootSpare].take (if root.isSome then 1 else 2)))
        (fun t => t.home = s.home ∧ ¬ CanAdd L s o x leafBlock) s) :
    wp (addToLeaf L o x leafBlock rootSpare root block)
      (AddPost L s o x leafBlock rootSpare (leafNeed L es x root.isSome))
      (fun t => t.home = s.home ∧ ¬ CanAdd L s o x leafBlock) s := by
  have hfull : (∀ cs n, block ∈ cs → ¬ s.Room cs n) →
      s.abort.home = s.home ∧ ¬ CanAdd L s o x leafBlock := fun h =>
    ⟨rfl, fun hc => Session.Room.not_of_refused h hc.room⟩
  have hread : readLeaf L block s.view = .ok es := by
    rw [readLeaf, hb]
    exact if_neg (not_lt.mpr hl)
  rw [addToLeaf, wp_bind, wp_reading, hread]
  dsimp only
  rw [wp_bind, wp_require, if_pos hne]
  split
  · next es' hco =>
    obtain ⟨ha, hlen⟩ := coalesce_adds hs hx hco
    rw [wp_bind]
    apply wp_put hdata
    · intro t hp hb' _
      have hneed : leafNeed L es x root.isSome = 0 := by simp [leafNeed, hco]
      rw [wp_pure, hneed]
      refine ⟨hset t es' 0 hp hb' ha (by omega) hlen, ?_, ?_, ?_⟩ <;> simp
    · exact hfull
  · next hco =>
    split
    · next hcap =>
      have hneed : leafNeed L es x root.isSome = if root.isSome then 1 else 2 := by
        simp [leafNeed, hco, hcap]
      rw [hneed]
      split
      · next hcond =>
        refine ⟨rfl, by split <;> simp, fun h₁ h₂ => ?_⟩
        obtain ⟨rfl, h₃⟩ := (hcond.resolve_left h₁).resolve_left (not_le.mpr h₂)
        exact ⟨rfl, fun h => h₃.resolve_left h⟩
      next hcond =>
      rw [not_or, not_or, not_and_or, not_or] at hcond
      obtain ⟨h₁, -, h₂⟩ := hcond
      rw [wp_bind]
      apply wp_mono (hsplit hcap h₁ fun hr => (h₂.resolve_left (not_not.mpr hr)).1) _ fun _ h => h
      intro o' t hadd
      refine ⟨hadd, fun _ => h₁, ?_, by split <;> simp⟩
      cases root with
      | none => exact fun _ => (h₂.resolve_left (by simp)).1
      | some r => simp
    · next hcap =>
      have ha := insertRecord_adds hs hn hx
      have hlen : (insertRecord es x).length = es.length + 1 := insertRecord_length
      rw [wp_bind]
      apply wp_put hdata
      · intro t hp hb' _
        have hneed : leafNeed L es x root.isSome = 0 := by simp [leafNeed, hcap]
        rw [wp_pure, hneed]
        refine ⟨hset t _ 1 hp hb' ha (by omega) hlen, ?_, ?_, ?_⟩ <;> simp
      · exact hfull

lemma splitLeaf_newRoot_spec (ht : o.treeBlock ≠ 0) (he : o.extents = [])
    (hb : s.view.block o.treeBlock = .node (.leaf es)) (hs : Extent.Sorted es)
    (hn : lookup es x.logical = none) (hx : x.length = 1)
    (hl : es.length = L.leafCapacity) (hdata : L.IsData o.treeBlock)
    (hsp : Spares L s.view o leafBlock rootSpare) (hl0 : leafBlock ≠ 0) (hr0 : rootSpare ≠ 0) :
    wp (splitLeaf L o x leafBlock rootSpare none o.treeBlock es)
      (fun o' t => AddsTo L s t o o' x [leafBlock, rootSpare])
      (fun t => t.home = s.home ∧ ¬ CanAdd L s o x leafBlock) s := by
  have hnodes : o.nodes s.view = [o.treeBlock] := by rw [nodes_inTree ht, treeNodes_leaf hb]
  have hleaf : leafBlock ≠ o.treeBlock := by simpa [hnodes] using hsp.leaf_new
  have hroot : rootSpare ≠ o.treeBlock := by simpa [hnodes] using hsp.root_new
  have hne := hsp.apart.resolve_left hl0
  have hsplit := splits hs hn hx hl
  unfold splitLeaf
  simp only [wp_bind]
  refine wp_put hdata (fun t₁ hp₁ hb₁ _ => ?_) fun h =>
    ⟨rfl, fun hc => Session.Room.not_of_refused h hc.room⟩
  refine wp_put (hsp.leaf hl0) (fun t₂ hp₂ hb₂ _ => ?_) fun h =>
    ⟨hp₁.home, fun hc => Session.Room.not_of_refused h (hp₁.room_one hc.room)⟩
  have hp₂' := hp₁.trans hp₂
  refine wp_put (hsp.root hr0) (fun t₃ hp₃ hb₃ _ => ?_) fun h =>
    ⟨hp₂'.home, fun hc => Session.Room.not_of_refused h (hp₂.room_one (hp₁.room_one hc.room))⟩
  have hp₃' := hp₂'.trans hp₃
  have hkept := hp₃.block o.treeBlock (by simpa using hroot.symm)
  have hlower := (hkept.trans (hp₂.block o.treeBlock (by simpa using hleaf.symm))).trans hb₁
  have hupper := (hp₃.block leafBlock (by simpa using hne)).trans hb₂
  exact (treeAdds_newRoot hsplit hb hp₃' hlower hupper hb₃).addsTo ht hr0 he

lemma insertIdx_after {α : Type*} (pre post : List α) (c d : α) :
    (pre ++ c :: post).insertIdx (pre.length + 1) d = pre ++ ([c, d] ++ post) := by
  induction pre with
  | nil => rfl
  | cons a as ih => simpa using ih

lemma splitLeaf_index_spec (ht : o.treeBlock ≠ 0) (he : o.extents = [])
    (h : Located L s.view o.treeBlock x.logical pre key child post)
    (hnd : (s.view.treeNodes o.treeBlock).Nodup)
    (hn : lookup (s.view.leafRecords child) x.logical = none) (hx : x.length = 1)
    (hl : (s.view.leafRecords child).length = L.leafCapacity)
    (hdata : ∀ b ∈ s.view.treeNodes o.treeBlock, L.IsData b)
    (hsp : Spares L s.view o leafBlock rootSpare) (hl0 : leafBlock ≠ 0) :
    wp (splitLeaf L o x leafBlock rootSpare (some (o.treeBlock, pre.length)) child
        (s.view.leafRecords child))
      (fun o' t => AddsTo L s t o o' x [leafBlock])
      (fun t => t.home = s.home ∧ ¬ CanAdd L s o x leafBlock) s := by
  have hleaf : leafBlock ∉ s.view.treeNodes o.treeBlock := nodes_inTree ht ▸ hsp.leaf_new
  have hchild : child ∈ s.view.treeNodes o.treeBlock := by rw [h.nodes]; simp
  have hsplit := splits h.sorted hn hx hl
  obtain ⟨htc, hother⟩ := h.ne_child hnd
  have hlt : leafBlock ≠ o.treeBlock := by
    rintro rfl
    exact hleaf (tree_mem_nodes _ _)
  have hlc : leafBlock ≠ child := by
    rintro rfl
    rw [h.nodes] at hleaf
    exact hleaf (by simp)
  unfold splitLeaf
  simp only [wp_bind]
  refine wp_put (hdata child hchild) (fun t₁ hp₁ hb₁ _ => ?_) fun h =>
    ⟨rfl, fun hc => Session.Room.not_of_refused h hc.room⟩
  refine wp_put (hsp.leaf hl0) (fun t₂ hp₂ hb₂ _ => ?_) fun h =>
    ⟨hp₁.home, fun hc => Session.Room.not_of_refused h (hp₁.room_one hc.room)⟩
  have hp₂' := hp₁.trans hp₂
  have hroot : readInterior o.treeBlock t₂.view = .ok (1, pre ++ (key, child) :: post) := by
    rw [readInterior, hp₂'.block _ (by simp [htc, hlt.symm]), h.block]
  rw [wp_reading, hroot]
  dsimp only
  rw [wp_require]
  split
  · next hroom =>
    refine wp_put (hdata _ (tree_mem_nodes _ _)) (fun t₃ hp₃ hb₃ _ => ?_) fun h =>
      ⟨hp₂'.home, fun hc => Session.Room.not_of_refused h (hp₂.room_one (hp₁.room_one hc.room))⟩
    have hp₃' := hp₂'.trans hp₃
    rw [insertIdx_after] at hb₃
    have hkept := hp₃.block child (by simpa using htc.symm)
    have hlower := (hkept.trans (hp₂.block child (by simpa using hlc.symm))).trans hb₁
    have hupper := (hp₃.block leafBlock (by simpa using hlt)).trans hb₂
    exact (treeAdds_splitIndex h hsplit hnd hleaf hp₃' hroom hlower hupper hb₃).addsTo ht ht he
  · next hroom => exact ⟨hp₂'.home, fun hc => hroom (hc.index _ _ h.block)⟩

lemma locateLeaf_index {index : List (ℕ × ℕ)}
    (hb : V.block o.treeBlock = .node (.interior 1 index)) (hne : index ≠ [])
    (hl : index.length ≤ L.interiorCapacity) (hfirst : ∀ c ∈ index.head?, c.1 = 0)
    (hok : IndexOk L V index) (hfull : ∀ c ∈ index, V.leafRecords c.2 ≠ [])
    (hd : ∀ b ∈ V.treeNodes o.treeBlock, b ≠ 0 ∧ b < L.totalBlocks) (k : ℕ) :
    ∃ pre key child post, Located L V o.treeBlock k pre key child post ∧
      locateLeaf L o k V = .ok (some (o.treeBlock, pre.length), child) := by
  obtain ⟨pre, key, child, post, rfl, htake, hkey, hpost⟩ :=
    index_split hne hfirst (hok.ordered.imp fun h => h.1) k
  have hloc : Located L V o.treeBlock k pre key child post :=
    ⟨hb, hl, hfirst, hok, hfull, hkey, hpost⟩
  refine ⟨pre, key, child, post, hloc, ?_⟩
  have hchild := hd child (by rw [hloc.nodes]; simp)
  rw [locateLeaf, hb]
  simp only [htake, length_append, length_singleton, Nat.add_sub_cancel]
  rw [if_neg (by decide), if_neg (by simpa using hl)]
  simp only [getElem?_append_right le_rfl, Nat.sub_self, getElem?_cons_zero]
  rw [if_neg (by omega)]

/-- What `wfs_extent_add_task` does to a map that does not have the block yet. -/
lemma extentAdd_spec (hmap : MapOk L s.view o) (hdata : ∀ b ∈ o.nodes s.view, L.IsData b)
    (hnd : (o.nodes s.view).Nodup) (hn : lookup (o.runs s.view) x.logical = none)
    (hx : x.length = 1) (hsp : Spares L s.view o leafBlock rootSpare) :
    wp (extentAdd L o x leafBlock rootSpare)
      (AddPost L s o x leafBlock rootSpare (spareNeed L s.view o x))
      (fun t => t.home = s.home ∧ ¬ CanAdd L s o x leafBlock) s := by
  rw [extentAdd, wp_bind, wp_require]
  split
  · split
    · next ht =>
      rw [wp_bind, wp_require]
      split
      · next hreq =>
        have hneed : spareNeed L s.view o x = 1 := if_pos ht
        rw [wp_bind, hneed]
        refine wp_put (hsp.leaf hreq.2.1) (fun t hp hb _ => ?_) fun h =>
          ⟨rfl, fun hc => Session.Room.not_of_refused h hc.room⟩
        cases hmap with
        | inTree ht' _ _ => exact absurd ht ht'
        | inRecord _ hc _ hm =>
          rw [runs_inRecord ht hc] at hn
          refine ⟨addsTo_promoted ht hc hreq.1 hm hx hn hreq.2.1 hp hb, fun _ => hreq.2.1, ?_, ?_⟩
            <;> simp
      · next hreq =>
        refine ⟨rfl, fun hc => hreq ?_⟩
        obtain ⟨h₁, h₂⟩ := hc.record ht
        exact ⟨h₁, h₂, (hsp.leaf h₂).1⟩
    · next ht =>
      rw [nodes_inTree ht] at hdata hnd
      have htree := hdata o.treeBlock (tree_mem_nodes _ _)
      rw [wp_bind, wp_require, if_pos htree.1, wp_bind, wp_reading]
      cases hmap with
      | inRecord ht' _ _ _ => exact absurd ht' ht
      | inTree _ he hok =>
        rw [runs_inTree ht] at hn
        cases hok with
        | leaf es hb hes hs hl =>
          rw [treeRuns_leaf hb] at hn
          have hloc : locateLeaf L o x.logical s.view = .ok (none, o.treeBlock) := by
            rw [locateLeaf, hb]
          have hneed : spareNeed L s.view o x = leafNeed L es x false := by
            rw [spareNeed, if_neg ht, hloc]
            simp [leafRecords_eq hb]
          rw [hloc, hneed]
          apply addToLeaf_spec htree hes hb hs hl hn hx
          · intro t es' grow hp hb' ha hl' hgrow
            exact (treeAdds_leaf hb hp hb' ha hl' hgrow).addsTo ht ht he
          · intro hcap h0 hr0
            exact splitLeaf_newRoot_spec ht he hb hs hn hx hcap htree hsp h0 (hr0 rfl)
        | interior index hb hie hl hfirst hok hfull =>
          obtain ⟨pre, key, child, post, h, hloc⟩ := locateLeaf_index hb hie hl hfirst hok hfull
            (fun b hb => ⟨(hdata b hb).ne_zero, (hdata b hb).1⟩) x.logical
          rw [h.lookup] at hn
          have hneed : spareNeed L s.view o x = leafNeed L (s.view.leafRecords child) x true := by
            rw [spareNeed, if_neg ht, hloc]
            simp
          rw [hloc, hneed]
          have hchild := hdata child (by rw [h.nodes]; simp)
          have hfits := h.ok.length_le _ h.mem
          apply addToLeaf_spec hchild (h.full _ h.mem) h.leaf h.sorted hfits hn hx
          · intro t es' grow hp hb' ha hl' hgrow
            exact (treeAdds_child h hnd hp hb' ha hl' hgrow).addsTo ht ht he
          · intro hcap h0 _
            exact splitLeaf_index_spec ht he h hnd hn hx hcap hdata hsp h0
  · next hargs => exact ⟨rfl, fun hc => hargs hc.args⟩

end Wfs
