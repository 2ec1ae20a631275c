import Mathlib.Data.Nat.ModEq
import WasmOS.Wfs.Volume.ExtentAdd

/-! # The content of a file and the blocks a write asks for

A file is its size and its bytes; a block nothing maps is zeroes. An unmapped block is allocated
before the map names it, and an addition to the map that lacks a spare block is given one.
-/

namespace Wfs

open Procedure List

variable (L : Layout) (V : Volume) (o : Object)

def Object.byte (i : ℕ) : UInt8 :=
  if o.inlineFlag then o.inlineData i
  else
    match Extent.lookup (o.runs V) (i / L.blockSize) with
    | none => 0
    | some p => (V.block p).data (i % L.blockSize)

variable {L V o} {i k start n offset done len : ℕ}

lemma div_mod_of_block {bs : ℕ} (hs : start < bs) (hi : k * bs + start = i) :
    i / bs = k ∧ i % bs = start := by
  subst hi
  rw [add_comm, Nat.add_mul_div_right _ _ (by omega), Nat.add_mul_mod_self_right,
    Nat.div_eq_of_lt hs, Nat.mod_eq_of_lt hs]
  exact ⟨zero_add _, rfl⟩

section Chunks

variable {d : Dims}

lemma chunk_pos (hbs : 0 < d.blockSize) (h : done < len) : 0 < chunkLength d offset done len := by
  have := Nat.mod_lt (offset + done) hbs
  unfold chunkLength
  omega

lemma chunk_le_block (hbs : 0 < d.blockSize) :
    (offset + done) % d.blockSize + chunkLength d offset done len ≤ d.blockSize := by
  have := Nat.mod_lt (offset + done) hbs
  unfold chunkLength
  omega

end Chunks

lemma chunkLength_le {d : Dims} : chunkLength d offset done len ≤ len - done := min_le_right _ _

def mappedByte (d : Dims) (V : Volume) (f : ℕ → Option ℕ) (i : ℕ) : UInt8 :=
  match f (i / d.blockSize) with
  | none => 0
  | some p => (V.block p).data (i % d.blockSize)

section Lookup

variable {d : Dims} {f : ℕ → Option ℕ}

lemma mappedByte_of_some {V : Volume} {i p : ℕ} (h : f (i / d.blockSize) = some p) :
    mappedByte d V f i = (V.block p).data (i % d.blockSize) := by
  rw [mappedByte, h]

lemma chunkBytes_eq (hbs : 0 < d.blockSize) :
    chunkBytes V ((offset + done) % d.blockSize) (chunkLength d offset done len)
        (f ((offset + done) / d.blockSize)) =
      (List.range' (offset + done) (chunkLength d offset done len)).map (mappedByte d V f) := by
  have hpos : ∀ j, j < chunkLength d offset done len →
      (offset + done + j) / d.blockSize = (offset + done) / d.blockSize ∧
      (offset + done + j) % d.blockSize = (offset + done) % d.blockSize + j := by
    intro j hj
    have : (offset + done) % d.blockSize + chunkLength d offset done len ≤ d.blockSize :=
      chunk_le_block hbs
    refine div_mod_of_block (by omega) ?_
    have := Nat.div_add_mod' (offset + done) d.blockSize
    omega
  unfold chunkBytes
  split
  · next hl =>
    refine ext_getElem (by simp) fun j hj _ => ?_
    have hj' : j < chunkLength d offset done len := by simpa using hj
    simp only [getElem_map, getElem_range', one_mul, getElem_replicate]
    rw [mappedByte, (hpos j hj').1, hl]
  next p hl =>
  refine ext_getElem (by simp) fun j hj _ => ?_
  have hj' : j < chunkLength d offset done len := by simpa using hj
  simp only [getElem_map, getElem_range', one_mul]
  rw [mappedByte_of_some ((congrArg f (hpos j hj').1).trans hl), (hpos j hj').2]

lemma readLoop_of_lookup (hbs : 0 < d.blockSize)
    (hf : ∀ k, extentLookup d V o k = .ok (f k)) {fuel : ℕ} (hfuel : len ≤ done + fuel) :
    readLoop d V o offset len fuel done =
      .ok ((List.range' (offset + done) (len - done)).map (mappedByte d V f)) := by
  -- every round moves the cursor by at least one byte
  induction fuel generalizing done with
  | zero => simp [readLoop, show len - done = 0 by omega]
  | succ fuel ih =>
    rw [readLoop]
    split
    · next h => simp [show len - done = 0 by omega]
    next h =>
    have hpos : 0 < chunkLength d offset done len := chunk_pos hbs (not_le.mp h)
    have hle : chunkLength d offset done len ≤ len - done := chunkLength_le
    rw [hf]
    dsimp only [bind, Except.bind]
    rw [ih (by omega), chunkBytes_eq hbs]
    dsimp only
    rw [← map_append, ← add_assoc, range'_append_1]
    congr 3
    omega

lemma readTask_of_lookup (hbs : 0 < d.blockSize) (ht : o.type ≠ .dir)
    (hi : o.inlineFlag = true → o.size ≤ inlineDataMax)
    (hf : o.inlineFlag = false → ∀ k, extentLookup d V o k = .ok (f k)) :
    readTask d V o offset len = .ok ((List.range' offset (min len (o.size - offset))).map fun i =>
        if o.inlineFlag then o.inlineData i else mappedByte d V f i) := by
  unfold readTask
  rw [if_neg ht]
  split
  · next h => simp [show o.size - offset = 0 by omega]
  dsimp only
  split
  · next h => simp [h]
  split
  · next hin =>
    have := hi hin
    rw [if_neg (by omega)]
  next hin =>
  have hin : o.inlineFlag = false := by simpa using hin
  rw [readLoop_of_lookup hbs (hf hin) (by omega)]
  simp

end Lookup

variable {V' : Volume}

lemma treeNodes_congr {tree : ℕ} (h : V'.block tree = V.block tree) :
    V'.treeNodes tree = V.treeNodes tree := by
  unfold Volume.treeNodes; rw [h]

lemma treeRuns_congr {tree : ℕ} (h : ∀ b ∈ V.treeNodes tree, V'.block b = V.block b) :
    V'.treeRuns tree = V.treeRuns tree := by
  have ht := h tree (tree_mem_nodes V tree)
  unfold Volume.treeRuns
  rw [ht]
  split
  · rfl
  · next d index hb =>
    rw [treeNodes_interior hb] at h
    unfold Volume.indexRuns
    refine flatMap_congr fun c hc => ?_
    unfold Volume.leafRecords
    rw [h c.2 (.tail _ (mem_map_of_mem hc))]
  · rfl

section

variable (h : ∀ b ∈ o.nodes V, V'.block b = V.block b)
include h

lemma nodes_congr : o.nodes V' = o.nodes V := by
  unfold Object.nodes at *
  split
  · rfl
  next ht =>
  rw [if_neg ht] at h
  exact treeNodes_congr (h _ (tree_mem_nodes V _))

lemma runs_congr : o.runs V' = o.runs V := by
  unfold Object.nodes at h
  unfold Object.runs
  split
  · rfl
  next ht =>
  rw [if_neg ht] at h
  exact treeRuns_congr h

lemma blocks_congr : o.blocks V' = o.blocks V := by
  rw [Object.blocks, Object.blocks, runs_congr h, nodes_congr h]

end

lemma TreeOk.frame {tree : ℕ} (hm : TreeOk L V tree)
    (h : ∀ b ∈ V.treeNodes tree, V'.block b = V.block b) : TreeOk L V' tree := by
  have ht := h tree (tree_mem_nodes V tree)
  cases hm with
  | leaf records hb hne hs hl => exact .leaf records (ht.trans hb) hne hs hl
  | interior index hb hne hl hf hok hfull =>
    rw [treeNodes_interior hb] at h
    have hi : ∀ c ∈ index, V'.block c.2 = V.block c.2 := fun c hc =>
      h c.2 (.tail _ (mem_map_of_mem hc))
    refine .interior index (ht.trans hb) hne hl hf (hok.congr hi) fun c hc => ?_
    rw [Volume.leafRecords, hi c hc]
    exact hfull c hc

lemma MapOk.frame (hm : MapOk L V o) (h : ∀ b ∈ o.nodes V, V'.block b = V.block b) :
    MapOk L V' o := by
  cases hm with
  | inRecord ht hc hl hmap => exact .inRecord ht hc hl hmap
  | inTree ht he hok =>
    rw [nodes_inTree ht] at h
    exact .inTree ht he (hok.frame h)

variable {V₀ : Volume} {o' o₀ : Object} {id b : ℕ} {s t : Session} {x : Extent} {loose : List ℕ}

lemma allocOne_spec (s : Session) (prefer : ℕ) :
    wp (allocOne L prefer) (fun b t => Allocates L s t 1 b 1) (fun t => t.home = s.home) s := by
  unfold allocOne
  refine wp_seq (allocBlocks_spec s 1 prefer) (fun r t ha => ?_) fun _ h => h
  have hpos := ha.length_pos
  have hle := ha.length_le
  have hone : r.2 = 1 := by omega
  rw [wp_bind, wp_require, if_pos (by omega), wp_pure, ← hone]
  rw [hone] at ha ⊢
  exact ha

lemma spareNeed_congr (h : V'.block = V.block) : spareNeed L V' o x = spareNeed L V o x := by
  unfold spareNeed locateLeaf Volume.leafRecords
  rw [h]

variable {tries splitLeaf splitRoot leafBlock rootSpare : ℕ}

/-- The blocks an addition has been given so far are the ones it needs. -/
structure Supplied (L : Layout) (V : Volume) (o : Object) (x : Extent)
    (splitLeaf splitRoot leafBlock rootSpare : ℕ) : Prop where
  leaf : leafBlock ≠ 0 → 0 < spareNeed L V o x
  root : rootSpare ≠ 0 → leafBlock ≠ 0 ∧ spareNeed L V o x = 2
  splitRoot : splitRoot = rootSpare
  splitLeaf : splitLeaf = leafBlock ∨ o.treeBlock = 0 ∧ leafBlock ≠ 0

lemma Supplied.take_eq (h : Supplied L V o x splitLeaf splitRoot leafBlock rootSpare)
    (h₁ : 0 < spareNeed L V o x → leafBlock ≠ 0) (h₂ : spareNeed L V o x = 2 → rootSpare ≠ 0)
    (hle : spareNeed L V o x ≤ 2) :
    [leafBlock, rootSpare].filter (· ≠ 0) = [leafBlock, rootSpare].take (spareNeed L V o x) := by
  have hleaf := h.leaf
  have hroot := h.root
  generalize spareNeed L V o x = need at *
  by_cases hl : leafBlock = 0
  · have hr : rootSpare = 0 := by
      by_contra hr
      exact (hroot hr).1 hl
    have : need = 0 := by
      by_contra hne
      exact h₁ (by omega) hl
    simp [hl, hr, this]
  have hpos := hleaf hl
  by_cases hr : rootSpare = 0
  · have : need = 1 := by
      have : need ≠ 2 := fun h => h₂ h hr
      omega
    simp [hl, hr, this]
  · have := (hroot hr).2
    simp [hl, hr, this]

variable (L) in
/-- What the retries keep: `I s loose` with the blocks `loose` allocated and not in the tree yet,
`E` where the writer gives up. -/
structure Retries (o : Object) (x : Extent) (I : Session → List ℕ → Prop) (E : Session → Prop) :
    Prop where
  reorder : ∀ s loose loose', I s loose → loose.Perm loose' → I s loose'
  data : ∀ s loose, I s loose → ∀ b ∈ loose, L.IsData b
  alloc : ∀ s loose prefer, I s loose → loose.length < 2 → wp (allocOne L prefer)
    (fun b t => I t (b :: loose) ∧ t.view.block = s.view.block) E s
  add : ∀ s leafBlock rootSpare, I s ([leafBlock, rootSpare].filter (· ≠ 0)) →
    (o.treeBlock = 0 → leafBlock ≠ 0) → wp (extentAdd L o x leafBlock rootSpare)
      (AddPost L s o x leafBlock rootSpare (spareNeed L s.view o x)) E s

variable (L) in
def Published (o : Object) (x : Extent) (I : Session → List ℕ → Prop) (s : Session) (o' : Object)
    (t : Session) : Prop :=
  ∃ u spare, I u spare ∧ u.view.block = s.view.block ∧ AddsTo L u t o o' x spare

namespace Retries

variable {I : Session → List ℕ → Prop} {E : Session → Prop}

lemma published (hs : Supplied L s.view o x splitLeaf splitRoot leafBlock rootSpare)
    (h : I s ([leafBlock, rootSpare].filter (· ≠ 0)))
    (ha : AddPost L s o x leafBlock rootSpare (spareNeed L s.view o x) (some o') t) :
    Published L o x I s o' t := by
  obtain ⟨ha, h₁, h₂, hle⟩ := ha
  rw [← hs.take_eq h₁ h₂ hle] at ha
  exact ⟨s, _, h, rfl, ha⟩

lemma asked (hI : Retries L o x I E) (h : I s ([leafBlock, rootSpare].filter (· ≠ 0)))
    (ha : AddPost L s o x leafBlock rootSpare (spareNeed L s.view o x) none t) :
    t = s ∧ 0 < spareNeed L s.view o x ∧
      (leafBlock ≠ 0 → spareNeed L s.view o x = 2 ∧ rootSpare = 0) := by
  obtain ⟨rfl, hneed, hask⟩ := ha
  refine ⟨rfl, hneed, fun hl => ?_⟩
  obtain ⟨htwo, hroot⟩ := hask hl (hI.data _ _ h leafBlock (by simp [hl])).1
  refine ⟨htwo, ?_⟩
  by_contra hr
  have hd := hI.data _ _ h rootSpare (by simp [hr])
  exact (not_lt.mpr (hroot hr)) hd.1

lemma publishExtent (hI : Retries L o x I E)
    (hs : Supplied L s.view o x splitLeaf splitRoot leafBlock rootSpare)
    (h : I s ([leafBlock, rootSpare].filter (· ≠ 0))) (ht : o.treeBlock = 0 → leafBlock ≠ 0)
    (htries : 2 ≤ tries + ([leafBlock, rootSpare].filter (· ≠ 0)).length) :
    wp (publishExtent L o x tries splitLeaf splitRoot leafBlock rootSpare)
      (Published L o x I s) E s := by
  induction tries generalizing s splitLeaf splitRoot leafBlock rootSpare with
  | zero =>
    rw [Wfs.publishExtent]
    refine wp_seq (hI.add s leafBlock rootSpare h ht) (fun r t hr => ?_) fun _ h => h
    cases r with
    | some o' => exact published hs h hr
    | none =>
      have hask := (hI.asked h hr).2.2
      by_cases hl : leafBlock = 0
      · by_cases hr0 : rootSpare = 0 <;> simp [hl, hr0] at htries
      · simp [hl, (hask hl).2] at htries
  | succ tries ih =>
    rw [Wfs.publishExtent]
    refine wp_seq (hI.add s leafBlock rootSpare h ht) (fun r t hr => ?_) fun _ h => h
    cases r with
    | some o' => exact published hs h hr
    | none =>
      obtain ⟨rfl, hneed, hask⟩ := hI.asked h hr
      -- the blocks are as they were, so one retry less has to succeed from there
      have hnext : ∀ b u sl sr lb rs, I u (b :: [leafBlock, rootSpare].filter (· ≠ 0)) →
          u.view.block = t.view.block → Supplied L t.view o x sl sr lb rs →
          (b :: [leafBlock, rootSpare].filter (· ≠ 0)).Perm ([lb, rs].filter (· ≠ 0)) →
          (o.treeBlock = 0 → lb ≠ 0) →
          wp (Wfs.publishExtent L o x tries sl sr lb rs) (Published L o x I t) E u := by
        intro b u sl sr lb rs hu hub hsup hperm ht'
        have hneed' : spareNeed L u.view o x = spareNeed L t.view o x := spareNeed_congr hub
        have hlen := hperm.length_eq
        rw [length_cons] at hlen
        refine wp_mono (ih ⟨?_, ?_, hsup.splitRoot, hsup.splitLeaf⟩ (hI.reorder _ _ _ hu hperm)
          ht' (by omega)) ?_ fun _ h => h
        · rw [hneed']; exact hsup.leaf
        · rw [hneed']; exact hsup.root
        · rintro o' w ⟨v, spare, hv, hvb, ha⟩
          exact ⟨v, spare, hv, hvb.trans hub, ha⟩
      dsimp only
      split
      · next hsl =>
        have hl : leafBlock = 0 := by
          rcases hs.splitLeaf with h' | ⟨ht', hl⟩
          · exact h'.symm.trans hsl
          have hone : spareNeed L t.view o x = 1 := if_pos ht'
          have := (hask hl).1
          omega
        have hr0 : rootSpare = 0 := by
          by_contra hr0
          exact (hs.root hr0).1 hl
        subst hl hr0
        obtain rfl : splitRoot = 0 := hs.splitRoot
        refine wp_seq (hI.alloc t _ _ h (by simp)) (fun b u hu => ?_) fun _ h => h
        have hb0 := (hI.data _ _ hu.1 b (.head _)).ne_zero
        apply hnext b u b 0 b 0 hu.1 hu.2 ⟨fun _ => hneed, by simp, rfl, .inl rfl⟩
        · simp [hb0]
        · exact fun _ => hb0
      · next hsl =>
        have hl : leafBlock ≠ 0 := by
          rcases hs.splitLeaf with h' | ⟨-, hl⟩
          · exact h' ▸ hsl
          · exact hl
        obtain ⟨htwo, hr0⟩ := hask hl
        have hsr : splitRoot = 0 := hs.splitRoot.trans hr0
        have ht0 : o.treeBlock ≠ 0 := by
          intro ht0
          have hone : spareNeed L t.view o x = 1 := if_pos ht0
          omega
        rw [if_pos ⟨hsr, ht0⟩]
        obtain rfl : splitLeaf = leafBlock := hs.splitLeaf.resolve_right fun h' => ht0 h'.1
        subst hr0
        refine wp_seq (hI.alloc t _ _ h (by simp [hl])) (fun b u hu => ?_) fun _ h => h
        have hb0 := (hI.data _ _ hu.1 b (.head _)).ne_zero
        apply hnext b u splitLeaf b splitLeaf b hu.1 hu.2
          ⟨fun _ => hneed, fun _ => ⟨hl, htwo⟩, rfl, .inl rfl⟩
        · simpa [hb0, hl] using List.Perm.swap _ _ _
        · exact fun _ => hl

lemma publishPending (hI : Retries L o x I E) (h : I s []) :
    wp (publishPending L o x) (Published L o x I s) E s := by
  unfold Wfs.publishPending
  split
  · next ht =>
    refine wp_seq (hI.alloc s [] _ h (by simp)) (fun b t hb => ?_) fun _ h => h
    have hneed : spareNeed L t.view o x = 1 := if_pos ht
    have hb0 := (hI.data _ _ hb.1 b (.head _)).ne_zero
    refine wp_mono (hI.publishExtent ⟨fun _ => by omega, by simp, rfl, .inr ⟨ht, hb0⟩⟩
      (by simpa [hb0] using hb.1) (fun _ => hb0) (by omega)) ?_ fun _ h => h
    rintro o' w ⟨v, spare, hv, hvb, ha⟩
    exact ⟨v, spare, hv, hvb.trans hb.2, ha⟩
  · next ht =>
    exact hI.publishExtent ⟨by simp, by simp, rfl, .inl rfl⟩ (by simpa using h)
      (fun h => absurd h ht) (by omega)

end Retries

end Wfs
