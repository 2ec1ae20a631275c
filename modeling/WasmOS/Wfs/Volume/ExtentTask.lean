import WasmOS.Wfs.Volume.ExtentTrim
import WasmOS.Wfs.Volume.Write

/-! # Whole additions and whole trims

The writer adds a block by trying again with the blocks a split asks for; the truncation trims one
run or one emptied leaf at a time. An addition changes the lookup at the added block only, a trim
removes what is at or past its bound and reports for release what the map gave up.
-/

namespace Wfs

open Procedure List Extent

variable {L : Layout} {V : Volume} {o o' : Object} {s t : Session} {x : Extent}

variable (L V) in
/-- The map of `o` is well formed, its extent count is right, and it names data blocks only. -/
structure Mapped (o : Object) : Prop where
  map : MapOk L V o
  count : o.extentCount = (o.runs V).length
  data : ∀ b ∈ o.blocks V, L.IsData b

lemma IndexOk.nodup {index : List (ℕ × ℕ)} (h : IndexOk L V index)
    (hfull : ∀ c ∈ index, V.leafRecords c.2 ≠ []) : (index.map Prod.snd).Nodup := by
  rw [List.Nodup, pairwise_map]
  refine h.ordered.imp_of_mem fun {a b} ha hb hab heq => ?_
  -- a leaf named twice would have its records before themselves
  obtain ⟨e, he⟩ := exists_mem_of_ne_nil _ (hfull a ha)
  have hstop := hab.2 e he
  have hpos := (h.sorted a ha).length_pos e he
  rw [heq] at he
  have habove := h.above b hb e he
  unfold stop at hstop
  omega

namespace Mapped

variable (h : Mapped L V o)
include h

lemma lookup (k : ℕ) : extentLookup L V o k = .ok (lookup (o.runs V) k) :=
  extentLookup_eq h.map h.data k

lemma node_data {b : ℕ} (hb : b ∈ o.nodes V) : L.IsData b := h.data b (mem_append_right _ hb)

lemma nodes_nodup : (o.nodes V).Nodup := by
  rcases h.map with ⟨ht, -⟩ | ⟨ht, -, hok⟩
  · rw [nodes_inRecord ht]
    exact nodup_nil
  rw [nodes_inTree ht]
  cases hok with
  | leaf records hb => rw [treeNodes_leaf hb]; exact nodup_singleton _
  | interior index hb _ _ _ hok hfull =>
    rw [treeNodes_interior hb, nodup_cons]
    refine ⟨fun hm => ?_, hok.nodup hfull⟩
    obtain ⟨c, hc, heq⟩ := mem_map.mp hm
    have hleaf := hok.leaf c hc
    rw [heq, hb] at hleaf
    cases hleaf

lemma congr {V' : Volume} (hb : V'.block = V.block) : Mapped L V' o := by
  have hblock : ∀ c ∈ o.nodes V, V'.block c = V.block c := fun c _ => by rw [hb]
  constructor
  · exact h.map.frame hblock
  · rw [runs_congr hblock]; exact h.count
  · rw [blocks_congr hblock]; exact h.data

end Mapped

variable (L) in
def HasFree (V : Volume) (n : ℕ) : Prop := ∃ free : List ℕ, free.Nodup ∧ n ≤ free.length ∧
    ∀ b ∈ free, b < L.totalBlocks ∧ V.blockUsed b = false

lemma HasFree.alloc {n b : ℕ} (h : HasFree L s.view (n + 1)) (ha : Allocates L s t 1 b 1) :
    HasFree L t.view n := by
  obtain ⟨free, hnd, hlen, hfree⟩ := h
  refine ⟨free.erase b, hnd.erase b, ?_, fun c hc => ?_⟩
  · rw [length_erase]
    split <;> omega
  rw [hnd.mem_erase_iff] at hc
  obtain ⟨hlt, hu⟩ := hfree c hc.2
  refine ⟨hlt, ?_⟩
  rw [ha.marked.blockUsed]
  unfold Volume.markBlocks
  dsimp only
  rwa [if_neg (by omega)]

variable (L) in
/-- What the writer needs to add a block to the map of `o`: a full record or room in the root, two
free blocks, and room in the transaction. -/
structure CanPublish (s : Session) (o : Object) : Prop where
  record : o.treeBlock = 0 → o.extentCount = inlineExtents
  index : ∀ depth index, s.view.block o.treeBlock = .node (.interior depth index) →
    index.length < L.interiorCapacity
  free : HasFree L s.view 2
  room : s.Room [] 7

variable (L) in
def NodesUsed (V : Volume) (o : Object) : Prop :=
  ∀ b < L.totalBlocks, L.isFixed b = true ∨ b ∈ o.nodes V → V.blockUsed b = true

variable (L) in
/-- In between: the addition of `x` to the map `o` had on `s₀` has the blocks `loose` at hand. -/
structure Publishing (s₀ : Session) (o : Object) (s : Session) (loose : List ℕ) : Prop where
  home : s.home = s₀.home
  block : s.view.block = s₀.view.block
  mapped : Mapped L s.view o
  used : NodesUsed L s.view o
  data : ∀ b ∈ loose, L.IsData b
  nodup : loose.Nodup
  loose_used : ∀ b ∈ loose, s.view.blockUsed b = true
  apart : ∀ b ∈ loose, b ∉ o.nodes s.view
  supply : CanPublish L s₀ o → HasFree L s.view (2 - loose.length) ∧
    s.Room [] (3 + 2 * (2 - loose.length))

namespace Publishing

variable {s₀ : Session} {loose : List ℕ}

lemma alloc {b : ℕ} (h : Publishing L s₀ o s loose) (ha : Allocates L s t 1 b 1)
    (hsupply : CanPublish L s₀ o → HasFree L t.view (2 - (b :: loose).length) ∧
      t.Room [] (3 + 2 * (2 - (b :: loose).length))) : Publishing L s₀ o t (b :: loose) := by
  have hblock := ha.marked.block
  have hnodes : o.nodes t.view = o.nodes s.view := nodes_congr fun c _ => by rw [hblock]
  have hlt : b < L.totalBlocks := by have := ha.fits; omega
  have hfree := ha.free b le_rfl (by omega)
  have hset : ∀ c, t.view.blockUsed c = true ↔ c = b ∨ s.view.blockUsed c = true := by
    intro c
    rw [ha.marked.blockUsed]
    unfold Volume.markBlocks
    dsimp only
    split_ifs with hc
    · exact iff_of_true rfl (.inl (by omega))
    · exact ⟨.inr, fun h => h.resolve_left (by omega)⟩
  have hnew : ∀ c, s.view.blockUsed c = true → c ≠ b := by
    rintro c hc rfl
    cases hfree.symm.trans hc
  have hfixed : L.isFixed b = false := by
    rw [← Bool.not_eq_true]
    exact fun hf => hnew b (h.used b hlt (.inl hf)) rfl
  constructor
  · exact ha.marked.home.trans h.home
  · exact hblock.trans h.block
  · exact h.mapped.congr hblock
  · intro c hc hor
    rw [hnodes] at hor
    exact (hset c).mpr (.inr (h.used c hc hor))
  · rintro c hc
    rcases mem_cons.mp hc with rfl | hc
    · exact ⟨hlt, hfixed⟩
    · exact h.data c hc
  · rw [nodup_cons]
    exact ⟨fun hm => hnew b (h.loose_used b hm) rfl, h.nodup⟩
  · rintro c hc
    rcases mem_cons.mp hc with rfl | hc
    · exact (hset c).mpr (.inl rfl)
    · exact (hset c).mpr (.inr (h.loose_used c hc))
  · rintro c hc
    rw [hnodes]
    rcases mem_cons.mp hc with rfl | hc
    · exact fun hm => hnew c (h.used c hlt (.inr hm)) rfl
    · exact h.apart c hc
  · exact hsupply

lemma spares {leafBlock rootSpare : ℕ}
    (h : Publishing L s₀ o s ([leafBlock, rootSpare].filter (· ≠ 0))) :
    Spares L s.view o leafBlock rootSpare := by
  have hmem : ∀ b, b = leafBlock ∨ b = rootSpare → b ≠ 0 →
      b ∈ [leafBlock, rootSpare].filter (· ≠ 0) := by
    intro b hb h0
    rw [mem_filter]
    exact ⟨by simpa using hb, by simpa using h0⟩
  have hnew : ∀ b, b = leafBlock ∨ b = rootSpare → b ∉ o.nodes s.view := by
    intro b hb hm
    by_cases h0 : b = 0
    · exact (h.mapped.node_data hm).ne_zero h0
    · exact h.apart b (hmem b hb h0) hm
  constructor
  · exact fun h0 => h.data _ (hmem _ (.inl rfl) h0)
  · exact fun h0 => h.data _ (hmem _ (.inr rfl) h0)
  · exact hnew _ (.inl rfl)
  · exact hnew _ (.inr rfl)
  by_cases hl : leafBlock = 0
  · exact .inl hl
  right
  rintro rfl
  have := h.nodup
  simp [hl] at this

lemma retries (hx : x.length = 1) (hp : L.IsData x.physical)
    (hn : lookup (o.runs s₀.view) x.logical = none) :
    Retries L o x (Publishing L s₀ o) (fun t => t.home = s₀.home ∧ ¬ CanPublish L s₀ o) where
  reorder s loose loose' h hperm := { h with
      data := fun b hb => h.data b (hperm.mem_iff.mpr hb)
      nodup := hperm.nodup_iff.mp h.nodup
      loose_used := fun b hb => h.loose_used b (hperm.mem_iff.mpr hb)
      apart := fun b hb => h.apart b (hperm.mem_iff.mpr hb)
      supply := fun hc => hperm.length_eq ▸ h.supply hc }
  data s loose h b hb := h.data b hb
  alloc s loose prefer h hlen := by
    have hsub : 2 - loose.length = 2 - (loose.length + 1) + 1 := by omega
    by_cases hc : CanPublish L s₀ o
    · obtain ⟨hfree, hroom⟩ := h.supply hc
      rw [hsub] at hfree hroom
      obtain ⟨free, -, hone, hall⟩ := id hfree
      obtain ⟨f, hf⟩ := exists_mem_of_length_pos (l := free) (by omega)
      have hret : wp (allocOne L prefer)
          (fun _ t => t.Room [] (3 + 2 * (2 - (loose.length + 1)))) (fun _ => False) s := by
        refine wp_seq (wp_and (allocBlocks_spec s 1 prefer) (allocBlocks_returns (by decide)
          (hall f hf).1 (hall f hf).2 hroom)) (fun r u hr => ?_) fun _ h => h.2
        have := hr.1.length_pos
        rw [wp_bind, wp_require, if_pos (by omega), wp_pure]
        exact hr.2
      refine wp_mono (wp_and (allocOne_spec s prefer) hret) (fun b t hb => ?_) fun _ h => h.2.elim
      exact ⟨h.alloc hb.1 fun _ => ⟨hfree.alloc hb.1, hb.2⟩, hb.1.marked.block⟩
    · refine wp_mono (allocOne_spec s prefer) (fun b t hb => ?_) fun t ht => ?_
      · exact ⟨h.alloc hb fun hc' => absurd hc' hc, hb.marked.block⟩
      · exact ⟨ht.trans h.home, hc⟩
  add s leafBlock rootSpare h ht := by
    have hruns : o.runs s.view = o.runs s₀.view := runs_congr fun c _ => by rw [h.block]
    refine wp_mono (extentAdd_spec h.mapped.map (fun b hb => h.mapped.node_data hb)
      h.mapped.nodes_nodup (by rw [hruns]; exact hn) hx h.spares) (fun _ _ h => h) ?_
    rintro t ⟨hhome, hcan⟩
    refine ⟨hhome.trans h.home, fun hc => hcan ⟨?_, ?_, ?_, ?_⟩⟩
    · exact ⟨by omega, hp.ne_zero, by rw [hx]; exact hp.1⟩
    · exact fun h0 => ⟨hc.record h0, ht h0⟩
    · have hroom := (h.supply hc).2
      refine ⟨hroom.isOpen, hroom.nodup, ?_⟩
      have := hroom.card_le
      omega
    · rw [h.block]; exact hc.index

end Publishing

lemma AddsTo.mapped {spare : List ℕ} (h : AddsTo L s t o o' x spare) (hm : Mapped L s.view o)
    (hp : L.IsData x.physical) (hs : ∀ b ∈ spare, L.IsData b) : Mapped L t.view o' := by
  constructor
  · exact h.map
  · have h₁ := h.count
    have h₂ := hm.count
    omega
  intro b hb
  rcases mem_append.mp hb with hb | hb
  · rcases mem_cons.mp (h.adds.blocks.mem_iff.mp hb) with rfl | hb
    · exact hp
    · exact hm.data b (mem_append_left _ hb)
  rcases mem_append.mp (h.nodes.mem_iff.mp hb) with hb | hb
  · exact hs b hb
  · exact hm.node_data hb

lemma publishPending_mapped {k p : ℕ} (h : Mapped L s.view o) (hu : NodesUsed L s.view o)
    (hp : L.IsData p) (hn : lookup (o.runs s.view) k = none) :
    wp (publishPending L o ⟨k, p, 1⟩)
      (fun o' t => Mapped L t.view o' ∧ ∀ j, extentLookup L t.view o' j =
        if j = k then .ok (some p) else extentLookup L s.view o j)
      (fun t => t.home = s.home ∧ ¬ CanPublish L s o) s := by
  have hstart : Publishing L s o s [] :=
    ⟨rfl, rfl, h, hu, by simp, nodup_nil, by simp, by simp, fun hc => ⟨hc.free, hc.room⟩⟩
  have hr : Retries L o ⟨k, p, 1⟩ (Publishing L s o)
      (fun t => t.home = s.home ∧ ¬ CanPublish L s o) := Publishing.retries rfl hp hn
  refine wp_mono (hr.publishPending hstart) ?_ fun _ h => h
  rintro o' t ⟨u, spare, hpub, hblock, ha⟩
  have hm := ha.mapped hpub.mapped hp hpub.data
  have hruns : o.runs u.view = o.runs s.view := runs_congr fun c _ => by rw [hblock]
  refine ⟨hm, fun j => ?_⟩
  rw [hm.lookup, h.lookup, ha.adds.lookup, hruns]
  split <;> rfl

/-- What a whole trim leaves its caller with. -/
structure Trimmed where
  object : Object
  runs : List (ℕ × ℕ)
  nodes : List ℕ
  remaining : ℕ

def releasedBlocks (runs : List (ℕ × ℕ)) : List ℕ := runs.flatMap fun r => List.range' r.1 r.2

variable (L) in
/-- `wfs_extent_trim_task` until it has nothing to report, with the count its caller keeps. -/
def trimAll (keep : ℕ) : (fuel : ℕ) → Object → Task Trimmed
  | 0, _ => fail .corrupt
  | fuel + 1, o => do
    let r ← extentTrim L o.treeBlock keep
    let o :=
  if r.removed ≠ 0 ∧ r.removed ≤ o.extentCount then
      { o with extentCount := o.extentCount - r.removed } else o
    if r.freedNode ≠ 0 then do
      let rest ← trimAll keep fuel o
      pure { rest with nodes := r.freedNode :: rest.nodes }
    else if r.freedLength ≠ 0 then do
      let rest ← trimAll keep fuel o
      pure { rest with runs := (r.freedFirst, r.freedLength) :: rest.runs }
    else pure ⟨o, [], [], r.remaining⟩

variable (L) in
/-- From `s` to `t` the tree of `o` was trimmed to `keep`, with `r` for its caller. -/
structure TrimsTo (s t : Session) (o : Object) (keep : ℕ) (r : Trimmed) : Prop where
  same : r.object = { o with extentCount := r.object.extentCount }
  count : r.object.extentCount = (t.view.treeRuns o.treeBlock).length
  stop : ∀ e ∈ t.view.treeRuns o.treeBlock, e.stop ≤ keep
  cuts : Extent.Cuts (s.view.treeRuns o.treeBlock) (t.view.treeRuns o.treeBlock) keep
    (releasedBlocks r.runs)
  nodes : (s.view.treeNodes o.treeBlock).Perm (r.nodes ++ t.view.treeNodes o.treeBlock)
  gone : r.remaining = 0 → t.view.treeRuns o.treeBlock = [] ∧
    t.view.treeNodes o.treeBlock = [o.treeBlock]
  left : r.remaining ≠ 0 → TreeOk L t.view o.treeBlock

lemma TrimOk.runs_sorted {tree : ℕ} (h : TrimOk L V tree) : Extent.Sorted (V.treeRuns tree) := by
  cases h with
  | leaf records hb hs _ => rwa [treeRuns_leaf hb]
  | interior index hb _ _ hok _ => rw [treeRuns_interior hb]; exact hok.runs_sorted

lemma count_removed {n before after removed : ℕ} (hn : n = before) (hr : after + removed = before) :
    (if removed ≠ 0 ∧ removed ≤ n then n - removed else n) = after := by
  split_ifs with h <;> omega

lemma trimAll_spec {keep fuel : ℕ} (h : TrimOk L s.view o.treeBlock)
    (hd : ∀ b ∈ s.view.treeNodes o.treeBlock, L.IsData b)
    (hnd : (s.view.treeNodes o.treeBlock).Nodup)
    (hcount : o.extentCount = (s.view.treeRuns o.treeBlock).length)
    (hfuel : (blocks (s.view.treeRuns o.treeBlock)).length +
      (s.view.treeNodes o.treeBlock).length < fuel) :
    wp (trimAll L keep fuel o) (fun r t => TrimsTo L s t o keep r)
      (fun t => t.home = s.home ∧ ∀ cs n, s.view.treeNodes o.treeBlock ⊆ cs → ¬ s.Room cs n) s := by
  induction fuel generalizing s o with
  | zero => omega
  | succ fuel ih =>
    refine wp_seq (extentTrim_spec h hd hnd) (fun r t hr => ?_) fun t ht => ⟨ht.home, ht.room⟩
    set o₁ : Object := if r.removed ≠ 0 ∧ r.removed ≤ o.extentCount then
      { o with extentCount := o.extentCount - r.removed } else o with ho₁
    have hsame : o₁ = { o with extentCount := o₁.extentCount } := by
      rw [ho₁]
      split <;> rfl
    have htree : o₁.treeBlock = o.treeBlock := by rw [hsame]
    have hcount₁ : o₁.extentCount =
        if r.removed ≠ 0 ∧ r.removed ≤ o.extentCount then o.extentCount - r.removed
        else o.extentCount := by
      rw [ho₁]
      split <;> rfl
    cases hr with
    | cut leaf hmem hp hst hok hnodes hcuts hn0 hlen hrem hvic =>
      have hrest : o₁.extentCount = (t.view.treeRuns o₁.treeBlock).length := by
        rw [hcount₁, htree]
        exact count_removed hcount hrem
      have hless := hcuts.blocks.length_eq
      rw [length_append, length_range'] at hless
      rw [if_neg (not_not.mpr hn0), if_pos (by omega)]
      refine wp_seq (ih (by rwa [htree]) (by rwa [htree, hnodes]) (by rwa [htree, hnodes])
        hrest (by rw [htree, hnodes]; omega)) (fun q u hq => ?_) fun u hu => ?_
      · have hq' := hq
        obtain ⟨hqs, hqc, hqstop, hqcuts, hqnodes, hqgone, hqleft⟩ := hq'
        rw [htree] at hqc hqstop hqcuts hqnodes hqgone hqleft
        rw [hnodes] at hqnodes
        refine ⟨?_, hqc, hqstop, hcuts.trans hqcuts, hqnodes, hqgone, hqleft⟩
        rw [hqs, hsame]
      · rw [htree, hnodes] at hu
        refine ⟨hu.1.trans hp.home, fun cs n hs hroom => hu.2 cs n hs (hp.room ?_ hroom)⟩
        simpa using hs hmem
    | drop hp hst hok hruns hnodes hempty hn0 hlen hrem =>
      have hrest : o₁.extentCount = (t.view.treeRuns o₁.treeBlock).length := by
        rw [hcount₁, htree, hrem, hruns]
        simpa using hcount
      have hless := hnodes.length_eq
      rw [length_cons] at hless
      have hsub : t.view.treeNodes o.treeBlock ⊆ s.view.treeNodes o.treeBlock := fun b hb =>
        hnodes.mem_iff.mpr (.tail _ hb)
      rw [if_pos hn0]
      refine wp_seq (ih (by rwa [htree]) ?_ ?_ hrest ?_) (fun q u hq => ?_) fun u hu => ?_
      · rw [htree]
        exact fun b hb => hd b (hsub hb)
      · rw [htree]
        exact (nodup_cons.mp (hnodes.nodup_iff.mp hnd)).2
      · rw [htree, hruns]
        omega
      · obtain ⟨hqs, hqc, hqstop, hqcuts, hqnodes, hqgone, hqleft⟩ := hq
        rw [htree] at hqc hqstop hqcuts hqnodes hqgone hqleft
        rw [hruns] at hqcuts
        refine ⟨?_, hqc, hqstop, hqcuts, hnodes.trans (hqnodes.cons _), hqgone, hqleft⟩
        rw [hqs, hsame]
      · rw [htree] at hu
        refine ⟨hu.1.trans hp.home, fun cs n hs hroom => hu.2 cs n (fun b hb => hs (hsub hb))
          (hp.room ?_ hroom)⟩
        simpa using hs (tree_mem_nodes _ _)
    | done hts hstop hn0 hlen hrem hgone hleft =>
      subst hts
      rw [if_neg (not_not.mpr hn0), if_neg (not_not.mpr hlen), wp_pure]
      refine ⟨hsame, ?_, hstop, Extent.Cuts.refl h.runs_sorted.map, .refl _, hgone, hleft⟩
      rw [hcount₁, hrem]
      simpa using hcount

namespace TrimsTo

variable {keep : ℕ} {r : Trimmed}

variable (h : TrimsTo L s t o keep r)
include h

lemma tree : r.object.treeBlock = o.treeBlock := by
  rw [h.same]

lemma runs (ht : o.treeBlock ≠ 0) : r.object.runs t.view = t.view.treeRuns o.treeBlock := by
  rw [runs_inTree (by rwa [h.tree]), h.tree]

lemma lookup_eq (k : ℕ) : lookup (t.view.treeRuns o.treeBlock) k =
      if k < keep then lookup (s.view.treeRuns o.treeBlock) k else none := by
  split_ifs with hk
  · exact h.cuts.below k hk
  · exact lookup_eq_none_of_stop_le h.stop (not_lt.mp hk)

lemma remaining_ne_zero :
    r.remaining ≠ 0 ↔ ∃ k < keep, lookup (s.view.treeRuns o.treeBlock) k ≠ none := by
  constructor
  · intro hr
    have hok := h.left hr
    have hne : t.view.treeRuns o.treeBlock ≠ [] := by
      cases hok with
      | leaf records hb hes => rwa [treeRuns_leaf hb]
      | interior index hb hie _ _ _ hfull =>
        obtain ⟨c, cs, rfl⟩ := exists_cons_of_ne_nil hie
        rw [treeRuns_interior hb, indexRuns_cons]
        have := hfull c (.head _)
        simp [this]
    obtain ⟨e, he⟩ := exists_mem_of_ne_nil _ hne
    have hpos := hok.runs_sorted.length_pos e he
    have hstop := h.stop e he
    have hk : e.logical < keep := by
      unfold Extent.stop at hstop
      omega
    refine ⟨e.logical, hk, ?_⟩
    rw [← h.cuts.below _ hk]
    intro hnone
    refine Extent.lookup_eq_none.mp hnone e he ?_
    rw [Extent.covers_iff, Extent.stop]
    omega
  · rintro ⟨k, hk, hne⟩ h0
    apply hne
    rw [← h.cuts.below k hk, (h.gone h0).1]
    rfl

lemma mapped (hm : Mapped L s.view o) (ht : o.treeBlock ≠ 0)
    (hr : r.remaining ≠ 0) : Mapped L t.view r.object := by
  have ht' : r.object.treeBlock ≠ 0 := by rwa [h.tree]
  have hext : r.object.extents = o.extents := by rw [h.same]
  constructor
  · rcases hm.map with ⟨ht0, -⟩ | ⟨-, he, -⟩
    · exact absurd ht0 ht
    · exact .inTree ht' (hext.trans he) (h.tree ▸ h.left hr)
  · rw [h.runs ht]
    exact h.count
  intro b hb
  apply hm.data b
  unfold Object.blocks at hb ⊢
  rw [h.runs ht, nodes_inTree ht', h.tree] at hb
  rw [runs_inTree ht, nodes_inTree ht]
  rcases mem_append.mp hb with hb | hb
  · exact mem_append_left _ (h.cuts.blocks.mem_iff.mpr (mem_append_right _ hb))
  · exact mem_append_right _ (h.nodes.mem_iff.mpr (mem_append_right _ hb))

end TrimsTo

variable (L) in
/-- The map stays well formed and the lookup changes at `k` only. -/
def AddsBlock (V : Volume) (o : Object) (k p : ℕ) (V' : Volume) (o' : Object) : Prop :=
  Mapped L V' o' ∧ ∀ j, extentLookup L V' o' j =
    if j = k then .ok (some p) else extentLookup L V o j

variable (L) in
/-- Data blocks and nodes of the old map are, each as often as it was there, either reported or
still in the map. -/
def Reports (V : Volume) (o : Object) (V' : Volume) (r : Trimmed) : Prop :=
  (blocks (o.runs V)).Perm (releasedBlocks r.runs ++ blocks (r.object.runs V')) ∧
    (o.nodes V).Perm (r.nodes ++ r.object.nodes V')

variable (L) in
/-- What a trim to `keep` is to leave: a well-formed map with nothing at or past `keep`. -/
def CutsAt (V : Volume) (o : Object) (keep : ℕ) (V' : Volume) (o' : Object) : Prop :=
  Mapped L V' o' ∧ ∀ j, extentLookup L V' o' j = if j < keep then extentLookup L V o j else .ok none

/-- No extent reaches the end of the 64 bits of a block number, so no sum over the map wraps. -/
def Worded (V : Volume) (o : Object) : Prop := ∀ e ∈ o.runs V, e.stop < 2 ^ 64

lemma MapOk.runs_map {V : Volume} (h : MapOk L V o) : Extent.Map (o.runs V) := by
  rcases h with ⟨ht, hc, -, hm⟩ | ⟨ht, -, hok⟩
  · rw [runs_inRecord ht hc]
    exact hm
  · rw [runs_inTree ht]
    exact hok.runs_sorted.map

/-- What is mapped where the old map did, or at a block that has a successor, keeps to 64 bits. -/
lemma Worded.of_lookup {V V' : Volume} {o' : Object} (hw : Worded V o) (h : Mapped L V o)
    (h' : Mapped L V' o') (hl : ∀ j, extentLookup L V' o' j = .ok none ∨
      extentLookup L V' o' j = extentLookup L V o j ∨ j + 1 < 2 ^ 64) : Worded V' o' := by
  intro e he
  have hpos := h'.map.runs_map.length_pos e he
  have hsome : Extent.lookup (o'.runs V') (e.stop - 1) = some (e.image (e.stop - 1)) := by
    refine h'.map.runs_map.lookup_eq_some.mpr ⟨e, he, ?_, rfl⟩
    rw [covers_iff, stop]
    omega
  rcases hl (e.stop - 1) with hj | hj | hj
  · rw [h'.lookup, hsome] at hj
    cases hj
  · rw [h'.lookup, h.lookup, hsome, Except.ok.injEq, eq_comm, h.map.runs_map.lookup_eq_some] at hj
    obtain ⟨a, ha, hcov, -⟩ := hj
    have := hw a ha
    rw [covers_iff] at hcov
    omega
  · omega

/-- An addition, with its retries, changes the lookup at the added block only. A trim run to its end
cuts the map at its bound, or leaves a root without records, which it reports by `remaining`. The
addition is given up only for want of free blocks, of room in the root or in the transaction, the
trim only for want of room to stage; the volume at home is then as it was. -/
theorem extent_add_and_trim (s : Session) (o : Object) (h : Mapped L s.view o)
    (hw : Worded s.view o) :
    (∀ k p, k + 1 < 2 ^ 64 → extentLookup L s.view o k = .ok none → L.IsData p →
      NodesUsed L s.view o → wp (publishPending L o ⟨k, p, 1⟩)
        (fun o' t => AddsBlock L s.view o k p t.view o' ∧ Worded t.view o')
        (fun t => t.home = s.home ∧ ¬ CanPublish L s o) s) ∧
    (o.treeBlock ≠ 0 → ∀ keep fuel, (o.blocks s.view).length < fuel → wp (trimAll L keep fuel o)
        (fun r t => Reports s.view o t.view r ∧
          ((∃ j < keep, extentLookup L s.view o j ≠ .ok none) →
            r.remaining ≠ 0 ∧ CutsAt L s.view o keep t.view r.object ∧ Worded t.view r.object) ∧
          ((∀ j < keep, extentLookup L s.view o j = .ok none) →
            r.remaining = 0 ∧ r.object.extentCount = 0 ∧ r.object.runs t.view = [] ∧
              r.object.nodes t.view = [o.treeBlock]))
        (fun t => t.home = s.home ∧ ¬ s.Room (o.nodes s.view) 0) s) := by
  constructor
  · intro k p hkw hk hp hu
    rw [h.lookup] at hk
    refine wp_mono (publishPending_mapped h hu hp (Except.ok.inj hk)) (fun o' t ha => ?_)
      fun _ h => h
    refine ⟨ha, hw.of_lookup h ha.1 fun j => ?_⟩
    rcases eq_or_ne j k with rfl | hj
    · exact .inr (.inr hkw)
    · exact .inr (.inl ((ha.2 j).trans (if_neg hj)))
  intro ht keep fuel hfuel
  have hruns : o.runs s.view = s.view.treeRuns o.treeBlock := runs_inTree ht
  have hnodes : o.nodes s.view = s.view.treeNodes o.treeBlock := nodes_inTree ht
  have hok : TrimOk L s.view o.treeBlock := by
    rcases h.map with ⟨ht0, -⟩ | ⟨-, -, hok⟩
    · exact absurd ht0 ht
    · exact hok.trimOk
  rw [Object.blocks, length_append, hruns, hnodes] at hfuel
  refine wp_mono (trimAll_spec hok (fun b hb => h.node_data (hnodes ▸ hb))
    (hnodes ▸ h.nodes_nodup) (hruns ▸ h.count) hfuel) (fun r t hr => ?_) fun t ht' => ?_
  · have ht' : r.object.treeBlock ≠ 0 := by rwa [hr.tree]
    have hmaps : ∀ j, extentLookup L s.view o j ≠ .ok none ↔
        lookup (s.view.treeRuns o.treeBlock) j ≠ none := by
      intro j
      rw [h.lookup, hruns, ne_eq, Except.ok.injEq]
    refine ⟨⟨?_, ?_⟩, fun hsome => ?_, fun hnone => ?_⟩
    · rw [hruns, hr.runs ht]
      exact hr.cuts.blocks
    · rw [hnodes, nodes_inTree ht', hr.tree]
      exact hr.nodes
    · obtain ⟨j, hj, hne⟩ := hsome
      have hleft := hr.remaining_ne_zero.mpr ⟨j, hj, (hmaps j).mp hne⟩
      have hm := hr.mapped h ht hleft
      have hcut : ∀ i, extentLookup L t.view r.object i =
          if i < keep then extentLookup L s.view o i else .ok none := by
        intro i
        rw [hm.lookup, h.lookup, hr.runs ht, hr.lookup_eq, hruns]
        split <;> rfl
      refine ⟨hleft, ⟨hm, hcut⟩, hw.of_lookup h hm fun i => ?_⟩
      rw [hcut]
      split
      · exact .inr (.inl rfl)
      · exact .inl rfl
    have h0 : r.remaining = 0 := by
      by_contra hne
      obtain ⟨j, hj, hsome⟩ := hr.remaining_ne_zero.mp hne
      exact (hmaps j).mpr hsome (hnone j hj)
    obtain ⟨hr0, hn0⟩ := hr.gone h0
    refine ⟨h0, ?_, ?_, ?_⟩
    · rw [hr.count, hr0]; rfl
    · rw [hr.runs ht, hr0]
    · rw [nodes_inTree ht', hr.tree, hn0]
  · exact ⟨ht'.1, hnodes ▸ ht'.2 _ 0 (List.Subset.refl _)⟩

def rootedFile (count : ℕ) : Object :=
  { type := .file, inlineFlag := false, size := 40960, linkCount := 1, extentCount := count,
    treeBlock := 40, extents := [], inlineData := fun _ => 0 }

def rootedVolume (records : List Extent) : Volume := { oneGroupVolume with
    blockUsed := fun b => decide (b < 50) || decide (64 ≤ b)
    block := fun b =>
      if b = 40 then .node (.interior 1 [(0, 41)])
      else if b = 41 then .node (.leaf records)
      else .bytes fun i => UInt8.ofNat i }

lemma rootedFile_mapped {records : List Extent} (hs : Extent.Sorted records)
    (hne : records ≠ []) (hl : records.length ≤ oneGroup.leafCapacity)
    (hd : ∀ b ∈ blocks records, oneGroup.IsData b) :
    Mapped oneGroup (rootedVolume records) (rootedFile records.length) := by
  have ht := Nat.succ_ne_zero 39
  have hroot : (rootedVolume records).block 40 = .node (.interior 1 [(0, 41)]) := rfl
  have hleaf : (rootedVolume records).block 41 = .node (.leaf records) := rfl
  have hrec := leafRecords_eq hleaf
  have hruns : (rootedFile records.length).runs (rootedVolume records) = records := by
    rw [runs_inTree ht, rootedFile, treeRuns_interior hroot]
    simp [Volume.indexRuns, hrec]
  constructor
  · refine .inTree ht rfl (.interior [(0, 41)] hroot (by simp) (by decide) (by simp) ?_ ?_)
    · exact IndexOk.singleton (c := (0, 41)) hleaf hs hl fun _ _ => Nat.zero_le _
    · simpa [hrec] using hne
  · rw [hruns]
    rfl
  intro b hb
  rw [Object.blocks, hruns] at hb
  rcases mem_append.mp hb with hb | hb
  · exact hd b hb
  rw [nodes_inTree ht, rootedFile, treeNodes_interior hroot] at hb
  simp only [map_cons, map_nil, mem_cons, not_mem_nil, or_false] at hb
  rcases hb with rfl | rfl <;> decide

theorem extent_add_and_trim_rooted :
    Mapped oneGroup (rootedVolume [⟨0, 42, 1⟩, ⟨5, 43, 2⟩]) (rootedFile 2) ∧
    wp (publishPending oneGroup (rootedFile 2) ⟨2, 45, 1⟩)
      (fun o' t => AddsBlock oneGroup (rootedVolume [⟨0, 42, 1⟩, ⟨5, 43, 2⟩]) (rootedFile 2) 2 45
        t.view o') (fun _ => False) (rootedVolume [⟨0, 42, 1⟩, ⟨5, 43, 2⟩]).session ∧
    wp (trimAll oneGroup 3 10 (rootedFile 2))
      (fun r t => CutsAt oneGroup (rootedVolume [⟨0, 42, 1⟩, ⟨5, 43, 2⟩]) (rootedFile 2) 3 t.view
        r.object) (fun _ => False) (rootedVolume [⟨0, 42, 1⟩, ⟨5, 43, 2⟩]).session := by
  have hs : Extent.Sorted [⟨0, 42, 1⟩, ⟨5, 43, 2⟩] := by
    constructor
    · simp [stop]
    · simp
  have hm := rootedFile_mapped hs (by simp) (by decide) (by decide)
  have hw : Worded (rootedVolume [⟨0, 42, 1⟩, ⟨5, 43, 2⟩]) (rootedFile 2) := by
    unfold Worded
    decide
  have hboth := extent_add_and_trim (rootedVolume [⟨0, 42, 1⟩, ⟨5, 43, 2⟩]).session
    (rootedFile 2) hm hw
  have hused : NodesUsed oneGroup (rootedVolume [⟨0, 42, 1⟩, ⟨5, 43, 2⟩]) (rootedFile 2) := by
    unfold NodesUsed
    decide +kernel
  have hcan : CanPublish oneGroup (rootedVolume [⟨0, 42, 1⟩, ⟨5, 43, 2⟩]).session
      (rootedFile 2) := by
    refine ⟨fun h => absurd h (by decide), ?_, ⟨[60, 61], by decide, by decide, ?_⟩,
      ⟨rfl, nodup_nil, by decide⟩⟩
    · intro depth index hb
      cases hb
      decide
    · decide
  have hroom : (rootedVolume [⟨0, 42, 1⟩, ⟨5, 43, 2⟩]).session.Room
      ((rootedFile 2).nodes (rootedVolume [⟨0, 42, 1⟩, ⟨5, 43, 2⟩])) 0 :=
    ⟨rfl, nodup_nil, by decide⟩
  refine ⟨hm, ?_, ?_⟩
  · exact wp_mono (hboth.1 2 45 (by decide) rfl (by decide) hused) (fun _ _ h => h.1)
      fun _ h => h.2 hcan
  · refine wp_mono (hboth.2 (by decide) 3 10 (by decide)) (fun r t h => ?_) fun _ h => h.2 hroom
    exact (h.2.1 ⟨0, by decide, by decide⟩).2.1

/-- A read returns the bytes of the file in the range, cut off at its end. -/
theorem readTask_eq {offset len : ℕ} (h : Mapped L V o) (ht : o.type ≠ .dir)
    (hi : o.inlineFlag = true → o.size ≤ inlineDataMax) :
    readTask L V o offset len =
      .ok ((List.range' offset (min len (o.size - offset))).map (o.byte L V)) :=
  readTask_of_lookup L.blockSize_pos ht hi fun _ => h.lookup

theorem readTask_eq_rooted :
    readTask oneGroup (rootedVolume [⟨5, 42, 1⟩]) (rootedFile 1) 20477 6 =
      .ok [0, 0, 0, 0, 1, 2] := by
  have hs : Extent.Sorted [⟨5, 42, 1⟩] := ⟨by simp, by simp⟩
  have hm := rootedFile_mapped hs (by simp) (by decide) (by decide)
  exact (readTask_eq hm (by decide) (by simp [rootedFile])).trans (by decide)

/-- A trim of everything under an interior root leaves a root that no lookup can read. -/
theorem trim_of_everything_leaves_no_map :
    Mapped oneGroup (rootedVolume [⟨5, 42, 1⟩]) (rootedFile 1) ∧
    extentLookup oneGroup (rootedVolume [⟨5, 42, 1⟩]) (rootedFile 1) 0 = .ok none ∧
    ∃ r t, trimAll oneGroup 3 10 (rootedFile 1) (rootedVolume [⟨5, 42, 1⟩]).session = (.ok r, t) ∧
      r.remaining = 0 ∧ extentLookup oneGroup t.view r.object 0 = .error .corrupt ∧
      ¬ Mapped oneGroup t.view r.object := by
  have hs : Extent.Sorted [⟨5, 42, 1⟩] := by
    constructor
    · simp
    · simp
  refine ⟨rootedFile_mapped hs (by simp) (by decide) (by decide), rfl, _, _, rfl, rfl, rfl, ?_⟩
  intro hm
  have hbad := hm.lookup 0
  cases hbad

end Wfs
