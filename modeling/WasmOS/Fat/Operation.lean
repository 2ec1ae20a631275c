import WasmOS.Fat.Entry

/-! # The operations on a directory

What creating and removing a name does to the entries of the directory it is in.
-/

namespace Fat

open Procedure List Function Live Mount Dir

variable {m : Mount} {V V' : Volume} {d : Dir} {cs cs' : List ℕ} {es es₁ es₂ : List (ℕ × Live)}
  {c i j : ℕ} {name : Text} {attr : UInt8} {cluster size : ℕ}

variable {x : Live}

lemma entries_split {segs : List Segment} (h : entries i segs = es₁ ++ (j, x) :: es₂) :
    ∃ pre post, segs = pre ++ .live x :: post ∧ entries i pre = es₁ ∧
      j = i + (render pre).length + x.long.length ∧
      entries (i + (render pre).length + x.slots.length) post = es₂ := by
  induction segs generalizing i es₁ with
  | nil =>
    have := congrArg List.length h
    simp [entries] at this
  | cons seg segs ih =>
    -- a segment before the entry moves what follows by its length
    have hskip (ds : List (ℕ × Live)) (hds : ∀ segs', entries i (seg :: segs') =
        ds ++ entries (i + seg.slots.length) segs') {es : List (ℕ × Live)}
        (hes : entries (i + seg.slots.length) segs = es ++ (j, x) :: es₂) :
        ∃ pre post, seg :: segs = pre ++ .live x :: post ∧ entries i pre = ds ++ es ∧
          j = i + (render pre).length + x.long.length ∧
          entries (i + (render pre).length + x.slots.length) post = es₂ := by
      obtain ⟨pre, post, rfl, hpre, hj, hpost⟩ := ih hes
      have hlen : i + (render (seg :: pre)).length =
          i + seg.slots.length + (render pre).length := by
        rw [render_cons, length_append, add_assoc]
      refine ⟨seg :: pre, post, rfl, ?_, ?_, ?_⟩
      · rw [hds, hpre]
      · rw [hlen, hj]
      · rw [hlen, hpost]
    cases seg with
    | gap | label => exact hskip [] (fun _ => rfl) h
    | live e =>
      cases es₁ with
      | nil =>
        rw [entries, nil_append, List.cons.injEq, Prod.mk.injEq] at h
        obtain ⟨⟨rfl, rfl⟩, rfl⟩ := h
        exact ⟨[], segs, rfl, rfl, rfl, rfl⟩
      | cons p es₁ =>
        rw [entries, cons_append, List.cons.injEq] at h
        obtain ⟨rfl, h⟩ := h
        exact hskip [(i + e.long.length, e)] (fun _ => rfl) h

lemma Segment.last_slot (seg : Segment) :
    ∃ xs x, seg.slots = xs ++ [x] ∧ ∀ ordinal last units, x ≠ .lfn ordinal last units := by
  cases seg with
  | gap | label => exact ⟨[], _, rfl, fun _ _ _ h => by cases h⟩
  | live e => exact ⟨e.long, _, rfl, fun _ _ _ h => by cases h⟩

lemma render_last (segs : List Segment) : ∀ x, (render segs).getLast? = some x →
    ∀ ordinal last units, x ≠ .lfn ordinal last units := by
  intro x hx
  rcases eq_nil_or_concat segs with rfl | ⟨segs, seg, rfl⟩
  · cases hx
  obtain ⟨xs, y, hseg, hy⟩ := seg.last_slot
  rw [concat_eq_append, render_append, render_cons, render_nil, append_nil, hseg,
    ← append_assoc, getLast?_concat] at hx
  cases hx
  exact hy

lemma Dir.Holds.delete (h : d.Holds m V cs (es₁ ++ (i, x) :: es₂)) :
    ∃ V', deleteDirEntryChain m d i V = (.ok (), V') ∧ d.Edited m cs V V' ∧
      d.Holds m V' cs (es₁ ++ es₂) := by
  obtain ⟨segs, k, hlay, hes⟩ := h
  obtain ⟨pre, post, rfl, rfl, hi, rfl⟩ := entries_split hes
  rw [zero_add] at hi
  have hs : d.slots m V cs = render pre ++ (x.long ++ [.short x.short x.attr x.cluster x.size]) ++
        (render post ++ List.replicate k .free) := by
    rw [hlay.slots]
    simp [Segment.slots, Live.slots]
  obtain ⟨V', hrun, hedit, hs'⟩ :=
    deleteDirEntryChain_spec x.long_lfn (render_last pre) hlay.clusters hs
  refine ⟨V', hi ▸ hrun, hedit, pre ++ List.replicate x.slots.length .gap ++ post, k, ?_, ?_⟩
  · constructor
    · exact hlay.clusters.congr fun c _ => congrFun hedit.fat c
    · intro c hc
      rw [hedit.fat]
      exact hlay.allocated c hc
    · rw [hs']
      simp
  · rw [append_assoc, entries_append, entries_append, entries_gaps, render_gaps,
      length_replicate, nil_append]

def Volume.freed (V : Volume) (ks : List ℕ) : Volume :=
  { V with fat := fun c => if c ∈ ks then 0 else V.fat c }

variable {ks : List ℕ}

lemma freeLoop_eq {fuel : ℕ} (h : IsChain m V c ks) (hks : ∀ k ∈ ks, 2 ≤ k)
    (hfuel : ks.length ≤ fuel) : m.freeLoop fuel c V = (.ok (), V.freed ks) := by
  induction ks generalizing c V fuel with
  | nil => cases h
  | cons x ks ih =>
    obtain rfl : c = x := Option.some.inj h.1
    obtain ⟨fuel, rfl⟩ : ∃ k, fuel = k + 1 := ⟨fuel - 1, by rw [length_cons] at hfuel; omega⟩
    have hc : ¬ c < 2 := not_lt.mpr (hks c (.head _))
    have hn : c ∉ ks := (nodup_cons.mp (Chain.Path.nodup h)).1
    rw [freeLoop, if_neg hc, bind_of_ok (m := Procedure.get) (t := V) (a := V) rfl]
    have hset : setFat c 0 V = (.ok (), { V with fat := update V.fat c 0 }) := rfl
    rw [bind_of_ok hset]
    have hfreed : ({ V with fat := update V.fat c 0 } : Volume).freed ks = V.freed (c :: ks) := by
      unfold Volume.freed
      congr 1
      funext y
      by_cases hy : y = c
      · simp [hy, hn]
      · simp [hy]
    cases ks with
    | nil =>
      have hend : m.next V c = none := h.2
      rw [hend, ← hfreed]
      simp [Volume.freed]
      rfl
    | cons y ks =>
      have hnext : m.next V c = some y := h.2.1
      rw [hnext, ← hfreed]
      have htail : IsChain m { V with fat := update V.fat c 0 } y (y :: ks) := by
        refine Chain.Path.congr (hnext ▸ h.2) fun z hz => ?_
        apply next_update_of_ne
        rintro rfl
        exact hn hz
      exact ih htail (fun k hk => hks k (.tail _ hk)) (Nat.le_of_succ_le_succ hfuel)

lemma freeClusterChain_eq (h : IsChain m V c ks) (hks : ∀ k ∈ ks, m.IsCluster k) :
    m.freeClusterChain c V = (.ok (), V.freed ks) := by
  apply freeLoop_eq h fun k hk => (hks k hk).1
  have := h.length_le hks
  have := m.numbers
  have := badMark_lt m.fatType
  omega

lemma freeClusterChain_none (hc : c < 2) : m.freeClusterChain c V = (.ok (), V) := by
  have hpos : 0 < m.fatType.endMin := by cases m.fatType <;> decide
  obtain ⟨n, hn⟩ := Nat.exists_eq_succ_of_ne_zero (pos_iff_ne_zero.mp hpos)
  rw [freeClusterChain, hn, freeLoop, if_pos hc]
  rfl

section

variable (h : d.Holds m V cs es)
include h

lemma Dir.Holds.congr (hfat : ∀ c ∈ cs, V'.fat c = V.fat c)
    (hslot : ∀ lba, d.Owns m cs lba → V'.slot lba = V.slot lba) : d.Holds m V' cs es := by
  obtain ⟨segs, k, hlay, hes⟩ := h
  refine ⟨segs, k, ⟨hlay.clusters.congr hfat, fun c hc => ?_, ?_⟩, hes⟩
  · rw [hfat c hc]
    exact hlay.allocated c hc
  · rw [slots_congr hslot, hlay.slots]

lemma Dir.Holds.clusters : d.Clusters m V cs := by
  obtain ⟨segs, k, hlay, -⟩ := h
  exact hlay.clusters

lemma Dir.Holds.allocated : ∀ c ∈ cs, V.fat c ≠ 0 := by
  obtain ⟨segs, k, hlay, -⟩ := h
  exact hlay.allocated

lemma Dir.Holds.index_lt {p : ℕ × Live} (hp : p ∈ es) : p.1 < d.size m cs := by
  obtain ⟨segs, k, hlay, rfl⟩ := h
  obtain ⟨pre, post, rfl, hi⟩ := mem_entries hp
  have hlen := congrArg List.length hlay.slots
  rw [length_slots] at hlen
  simp only [render_append, render_cons, Segment.slots, length_append, Live.length_slots] at hlen
  omega

lemma Dir.Holds.at_entry {p : ℕ × Live} (hp : p ∈ es) :
    V.at (d.place m cs p.1) = .short p.2.short p.2.attr p.2.cluster p.2.size := by
  obtain ⟨segs, k, hlay, rfl⟩ := h
  obtain ⟨pre, post, rfl, hi⟩ := mem_entries hp
  have hs : d.slots m V cs = (render pre ++ p.2.long) ++
      .short p.2.short p.2.attr p.2.cluster p.2.size ::
        (render post ++ List.replicate k .free) := by
    rw [hlay.slots]
    simp [Segment.slots, Live.slots]
  have hat := (at_place hs).2
  rwa [length_append, ← zero_add (render pre).length, ← hi] at hat

end

lemma Dir.place_of_prefix (h : cs <+: cs') (hi : i < d.size m cs) :
    d.place m cs' i = d.place m cs i := by
  unfold place
  cases hroot : d.root with
  | true => rfl
  | false =>
    have hlt := div_lt_length hroot hi
    have hlt' := lt_of_lt_of_le hlt h.length_le
    rw [getD_eq_getElem _ _ hlt, getD_eq_getElem _ _ hlt', ← h.getElem hlt]

lemma Dir.Holds.kept (h : d.Holds m V cs es) : d.Kept m cs V es V := ⟨cs, h, .refl⟩

lemma createEntry_spec {failIfExists : Bool} (h : d.Holds m V cs es)
    (hfit : (name.map Char.utf8Size).sum ≤ lfnMax) (hattr : attr &&& 0x08 = 0)
    (hacc : lookup name es = none → Storable name ∧ d.Takes m V cs (slotCount name)) :
    wp (createEntry m d name attr cluster size failIfExists)
      (fun e V' => failIfExists = false ∧ V' = V ∧
            (∃ p, lookup name es = some p ∧ e = found m d cs p) ∨
          lookup name es = none ∧ d.Added m cs V es name attr cluster size e V')
      (d.Kept m cs V es) V := by
  unfold createEntry
  cases hus : utf8ToUtf16 name with
  | none => exact h.kept
  | some us =>
    simp only [wp_bind, wp_get, wp_ofExcept, findInDir_eq h]
    cases hlook : lookup name es with
    | some p =>
      simp only [Option.map_some, wp_bind, wp_require, wp_pure]
      split
      · next hf => exact .inl ⟨hf, trivial, p, rfl, rfl⟩
      · exact h.kept
    | none =>
      obtain ⟨hs, htakes⟩ := hacc hlook
      refine wp_mono (addEntry_spec h ⟨hus, hs, hfit⟩ hattr htakes) ?_ fun _ hk => hk
      intro e V' hadd
      exact .inr ⟨rfl, hadd⟩

/-- The volume with a new directory in the cluster `c`, before anything leads to it. -/
def Mount.withDir (m : Mount) (V : Volume) (c parent : ℕ) : Volume :=
  ({ fat := update V.fat c m.fatType.endMarker
     slot := fun lba => if m.InCluster c lba then fun _ => .free else V.slot lba
     byte := fun lba => if m.InCluster c lba then fun _ => 0 else V.byte lba : Volume}.put
    (m.lbaForCluster c) 0 (dotSlot c)).put (m.lbaForCluster c) 1 (dotDotSlot parent)

lemma Mount.inCluster_self (m : Mount) (c : ℕ) : m.InCluster c (m.lbaForCluster c) :=
  ⟨le_rfl, Nat.lt_add_of_pos_right m.cluster_pos⟩

lemma withDir_slot {lba parent : ℕ} (h : ¬ m.InCluster c lba) :
    (m.withDir V c parent).slot lba = V.slot lba := by
  have hne : lba ≠ m.lbaForCluster c := by
    rintro rfl
    exact h (m.inCluster_self c)
  unfold withDir Volume.put
  dsimp only
  rw [update_of_ne hne, update_of_ne hne, if_neg h]

lemma withDir_fat (parent : ℕ) :
    (m.withDir V c parent).fat = update V.fat c m.fatType.endMarker := rfl

lemma Dir.Holds.withDir {parent : ℕ} (h : d.Holds m V cs es) (hc : m.IsCluster c)
    (hfree : V.fat c = 0) : d.Holds m (m.withDir V c parent) cs es := by
  have hn : c ∉ cs := fun hmem => h.allocated c hmem hfree
  apply h.congr
  · intro x hx
    rw [withDir_fat, update_of_ne]
    rintro rfl
    exact hn hx
  · intro lba howns
    exact withDir_slot fun hin => h.clusters.not_owns hc hn hin howns

lemma Dir.Takes.congr {n : ℕ} (h : d.Takes m V cs n)
    (hslot : ∀ lba, d.Owns m cs lba → V'.slot lba = V.slot lba) : d.Takes m V' cs n := by
  unfold Dir.Takes at h ⊢
  rwa [slots_congr hslot]

lemma createDirectory_spec (h : d.Holds m V cs es) (hfit : (name.map Char.utf8Size).sum ≤ lfnMax)
    (hacc : lookup name es = none → Storable name ∧ d.Takes m V cs (slotCount name)) :
    wp (createDirectory m d name)
      (fun e V' => ∃ c, m.IsCluster c ∧ V.fat c = 0 ∧ lookup name es = none ∧
        d.Added m cs (m.withDir V c (dotDotCluster m d)) es name 0x10 c 0 e V')
      (fun V' => V' = V ∨ ∃ c, m.IsCluster c ∧ V.fat c = 0 ∧
        d.Kept m cs (m.withDir V c (dotDotCluster m d)) es V') V := by
  unfold createDirectory
  simp only [wp_bind, wp_require, wp_get, wp_ofExcept]
  split
  swap
  · exact .inl trivial
  cases hfree : m.findFreeCluster V with
  | error e => exact .inl trivial
  | ok c =>
    obtain ⟨hc, hzero⟩ := findFreeCluster_ok hfree
    have hn : c ∉ cs := fun hmem => h.allocated c hmem hzero
    have hslot : ∀ lba, d.Owns m cs lba →
        (m.withDir V c (dotDotCluster m d)).slot lba = V.slot lba := fun lba howns =>
      withDir_slot fun hin => h.clusters.not_owns hc hn hin howns
    have hdir : d.Holds m (m.withDir V c (dotDotCluster m d)) cs es := h.withDir hc hzero
    have hspec : wp (createEntry m d name 0x10 c 0 true) _ _ _ :=
      createEntry_spec hdir hfit rfl fun hnone => ⟨(hacc hnone).1, (hacc hnone).2.congr hslot⟩
    dsimp only [setFat, zeroCluster]
    simp only [wp_modify]
    refine wp_mono hspec ?_ ?_
    · rintro e V' (⟨hf, -⟩ | ⟨hlook, hadd⟩)
      · cases hf
      · exact ⟨c, hc, hzero, hlook, hadd⟩
    · intro V' hkept
      exact .inr ⟨c, hc, hzero, hkept⟩

def Owned (m : Mount) (V : Volume) (c : ℕ) (ks : List ℕ) : Prop :=
  if c < 2 then ks = [] else IsChain m V c ks ∧ ∀ k ∈ ks, m.IsCluster k

lemma Owned.congr (h : Owned m V c ks) (hfat : ∀ k ∈ ks, V'.fat k = V.fat k) : Owned m V' c ks := by
  unfold Owned at h ⊢
  split at h
  · next hc => rwa [if_pos hc]
  next hc =>
  rw [if_neg hc]
  exact ⟨Chain.Path.congr h.1 fun k hk => next_congr (hfat k hk), h.2⟩

lemma Owned.free (h : Owned m V c ks) : m.freeClusterChain c V = (.ok (), V.freed ks) := by
  unfold Owned at h
  split at h
  · next hc =>
    subst h
    rw [freeClusterChain_none hc]
    simp [Volume.freed]
  · exact freeClusterChain_eq h.1 h.2

structure Dir.Dropped (m : Mount) (d : Dir) (cs ks : List ℕ) (V V' : Volume) : Prop where
  fat : V'.fat = (V.freed ks).fat
  byte : V'.byte = V.byte
  slot : ∀ lba, ¬ d.Owns m cs lba → V'.slot lba = V.slot lba

lemma Dir.Holds.freed (h : d.Holds m V cs es) (hks : ∀ k ∈ ks, k ∉ cs) :
    d.Holds m (V.freed ks) cs es := by
  apply h.congr
  · intro c hc
    exact if_neg fun hmem => hks c hmem hc
  · intro lba _
    rfl

lemma Dir.holds_recorded : d.recorded.Holds m V cs es ↔ d.Holds m V cs es := by
  obtain ⟨root, cluster⟩ := d
  cases root with
  | false => rfl
  | true =>
    constructor <;>
      exact fun ⟨segs, k, hlay, hes⟩ =>
        ⟨segs, k, ⟨hlay.clusters, hlay.allocated, hlay.slots⟩, hes⟩

lemma Dir.owns_recorded {lba : ℕ} : d.recorded.Owns m cs lba ↔ d.Owns m cs lba := by
  obtain ⟨root, cluster⟩ := d
  cases root <;> rfl

lemma Dir.Holds.delete_recorded (h : d.Holds m V cs (es₁ ++ (i, x) :: es₂)) :
    ∃ V', deleteDirEntryChain m d.recorded i V = (.ok (), V') ∧ d.Edited m cs V V' ∧
      d.Holds m V' cs (es₁ ++ es₂) := by
  obtain ⟨V', hrun, hedit, hholds⟩ := (holds_recorded.mpr h).delete
  refine ⟨V', hrun, ⟨hedit.fat, hedit.byte, fun lba hn => ?_⟩, holds_recorded.mp hholds⟩
  exact hedit.slot lba fun howns => hn (owns_recorded.mp howns)

lemma removeEntry_spec {isRmdir : Bool} {open? : Found → Bool}
    (h : d.Holds m V cs (es₁ ++ (i, x) :: es₂)) (hks : Owned m V x.cluster ks)
    (hcs : ∀ k ∈ ks, k ∉ cs) :
    wp (removeEntry m isRmdir open? (found m d cs (i, x)))
      (fun _ V' => d.Holds m V' cs (es₁ ++ es₂) ∧ d.Dropped m cs ks V V') (fun V' => V' = V) V := by
  have hentry : (found m d cs (i, x)).place.entry = i := place_entry m d cs i
  unfold removeEntry
  rw [hentry]
  cases isRmdir with
  | true =>
    simp only [if_true, wp_bind, wp_require, wp_get, wp_ofExcept]
    split
    swap
    · trivial
    cases dirIsEmpty m V ⟨false, (found m d cs (i, x)).cluster⟩ with
    | error e => trivial
    | ok empty =>
      dsimp only
      split
      swap
      · trivial
      obtain ⟨V₁, hdel, hedit, hholds⟩ := h.delete_recorded
      have hfree : m.freeClusterChain x.cluster V₁ = (.ok (), V₁.freed ks) :=
        (hks.congr fun k _ => congrFun hedit.fat k).free
      have hd : (found m d cs (i, x)).dir = d.recorded := rfl
      have hc : (found m d cs (i, x)).cluster = x.cluster := rfl
      rw [hd, hc]
      simp only [wp, hdel, hfree]
      refine ⟨hholds.freed hcs, ?_, hedit.byte, hedit.slot⟩
      unfold Volume.freed
      rw [hedit.fat]
  | false =>
    simp only [Bool.false_eq_true, if_false, wp_bind, wp_require]
    split
    swap
    · trivial
    split
    swap
    · trivial
    obtain ⟨V₁, hdel, hedit, hholds⟩ := (h.freed hcs).delete_recorded
    have hd : (found m d cs (i, x)).dir = d.recorded := rfl
    have hc : (found m d cs (i, x)).cluster = x.cluster := rfl
    rw [hd, hc]
    simp only [wp, hks.free, hdel]
    exact ⟨hholds, hedit.fat, hedit.byte, hedit.slot⟩

end Fat
