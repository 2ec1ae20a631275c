import WasmOS.Fat.Layout

/-! # Changing a directory

What the driver's writes do to the slots of one directory, and that they leave everything
else on the volume alone.
-/

namespace Fat

open Procedure List Function Dir Mount

variable {m : Mount} {V V' V'' : Volume} {d : Dir} {cs cs' cs'' : List ℕ} {i j c : ℕ}

structure Dir.Extends (m : Mount) (d : Dir) (cs cs' : List ℕ) (V V' : Volume) : Prop where
  chain : cs <+: cs'
  fresh : ∀ c ∈ cs', c ∉ cs → m.IsCluster c ∧ V.fat c = 0
  fat : ∀ c, c ∉ cs' → V'.fat c = V.fat c
  slot : ∀ lba, ¬ d.Owns m cs' lba → V'.slot lba = V.slot lba
  byte : ∀ lba, ¬ d.Owns m cs' lba → V'.byte lba = V.byte lba

lemma Dir.Owns.mono {lba : ℕ} (h : d.Owns m cs lba) (hcs : cs ⊆ cs') : d.Owns m cs' lba := by
  unfold Dir.Owns at h ⊢
  split at h
  · next hroot => rwa [if_pos hroot]
  next hroot =>
  rw [if_neg hroot]
  obtain ⟨c, hc, hlba⟩ := h
  exact ⟨c, hcs hc, hlba⟩

lemma Dir.Extends.refl : d.Extends m cs cs V V where
  chain := prefix_rfl
  fresh _ hc hn := absurd hc hn
  fat _ _ := rfl
  slot _ _ := rfl
  byte _ _ := rfl

lemma Dir.Extends.trans (h : d.Extends m cs cs' V V') (h' : d.Extends m cs' cs'' V' V'') :
    d.Extends m cs cs'' V V'' where
  chain := h.chain.trans h'.chain
  fresh c hc hn := by
    by_cases hc' : c ∈ cs'
    · exact h.fresh c hc' hn
    · have := h'.fresh c hc hc'
      exact ⟨this.1, (h.fat c hc').symm.trans this.2⟩
  fat c hc := (h'.fat c hc).trans (h.fat c fun hn => hc (h'.chain.subset hn))
  slot lba hn := (h'.slot lba hn).trans (h.slot lba fun ho => hn (ho.mono h'.chain.subset))
  byte lba hn := (h'.byte lba hn).trans (h.byte lba fun ho => hn (ho.mono h'.chain.subset))

structure Dir.Edited (m : Mount) (d : Dir) (cs : List ℕ) (V V' : Volume) : Prop where
  fat : V'.fat = V.fat
  byte : V'.byte = V.byte
  slot : ∀ lba, ¬ d.Owns m cs lba → V'.slot lba = V.slot lba

lemma Dir.Edited.refl : d.Edited m cs V V := ⟨rfl, rfl, fun _ _ => rfl⟩

lemma Dir.Edited.trans (h : d.Edited m cs V V') (h' : d.Edited m cs V' V'') :
    d.Edited m cs V V'' where
  fat := h'.fat.trans h.fat
  byte := h'.byte.trans h.byte
  slot lba hn := (h'.slot lba hn).trans (h.slot lba hn)

lemma Dir.Edited.extends (h : d.Edited m cs V V') : d.Extends m cs cs V V' where
  chain := prefix_rfl
  fresh _ hc hn := absurd hc hn
  fat c _ := congrFun h.fat c
  slot := h.slot
  byte lba _ := congrFun h.byte lba

lemma Dir.Clusters.congr (h : d.Clusters m V cs) (hfat : ∀ c ∈ cs, V'.fat c = V.fat c) :
    d.Clusters m V' cs := by
  unfold Dir.Clusters at h ⊢
  split at h
  · next hroot => rwa [if_pos hroot]
  next hroot =>
  rw [if_neg hroot]
  refine ⟨Chain.Path.congr h.1 fun c hc => ?_, h.2⟩
  exact next_congr (hfat c hc)

lemma Dir.slots_congr (h : ∀ lba, d.Owns m cs lba → V'.slot lba = V.slot lba) :
    d.slots m V' cs = d.slots m V cs := by
  apply ext_getElem
  · rw [length_slots, length_slots]
  intro i hi hi'
  rw [getElem_slots, getElem_slots]
  rw [length_slots] at hi
  unfold Volume.at
  rw [h _ (owns_place hi)]

lemma hop_eq {cs : List ℕ} (h : IsChain m V c cs) (hj : j < cs.length) :
    hop m V j c = .ok cs[j] := by
  induction j generalizing c cs with
  | zero =>
    cases cs with
    | nil => cases hj
    | cons x xs =>
      obtain rfl : c = x := Option.some.inj h.1
      rfl
  | succ j ih =>
    cases cs with
    | nil => cases hj
    | cons x xs =>
      obtain rfl : c = x := Option.some.inj h.1
      cases xs with
      | nil => simp at hj
      | cons y ys =>
        have hnext : m.next V c = some y := h.2.1
        have htail : IsChain m V y (y :: ys) := ⟨rfl, h.2.2⟩
        rw [hop, hnext]
        exact ih htail (Nat.lt_of_succ_lt_succ hj)

lemma dirEntryLocate_eq (h : d.Clusters m V cs) (hi : i < d.size m cs) : dirEntryLocate m V d i =
      .ok ((d.place m cs i).lba + (d.place m cs i).sector, (d.place m cs i).index) := by
  unfold dirEntryLocate place
  cases hroot : d.root with
  | true =>
    unfold size at hi
    rw [hroot, if_pos rfl] at hi
    rw [if_pos rfl, if_neg (not_le.mpr hi), if_pos rfl]
  | false =>
    have hlt := div_lt_length hroot hi
    unfold Dir.Clusters at h
    rw [hroot, if_neg Bool.false_ne_true] at h
    have hhead : d.cluster ∈ cs := by
      cases cs with
      | nil => cases h.1
      | cons x xs =>
        rw [Option.some.inj h.1.1]
        exact .head _
    have hge : ¬ d.cluster < 2 := not_lt.mpr (h.2 _ hhead).1
    rw [if_neg Bool.false_ne_true, if_neg hge, hop_eq h.1 hlt, if_neg Bool.false_ne_true,
      getD_eq_getElem _ _ hlt]

def Volume.putAt (V : Volume) (p : Place) (x : Slot) : Volume := V.put (p.lba + p.sector) p.index x

lemma writeDirEntry_eq (h : d.Clusters m V cs) (hi : i < d.size m cs) (x : Slot) :
    writeDirEntry m d i x V =
      (.ok ((d.place m cs i).lba + (d.place m cs i).sector, (d.place m cs i).index),
        V.putAt (d.place m cs i) x) := by
  have hloc : Procedure.ofExcept (dirEntryLocate m V d i) V = _ :=
    congrArg (·, V) (dirEntryLocate_eq h hi)
  exact bind_of_ok hloc

lemma edited_putAt (hi : i < d.size m cs) (x : Slot) :
    d.Edited m cs V (V.putAt (d.place m cs i) x) where
  fat := rfl
  byte := rfl
  slot lba hn := by
    apply update_of_ne
    rintro rfl
    exact hn (owns_place hi)

lemma slots_putAt (h : d.Clusters m V cs) (hi : i < d.size m cs) (x : Slot) :
    d.slots m (V.putAt (d.place m cs i) x) cs = (d.slots m V cs).set i x := by
  apply ext_getElem
  · rw [length_set, length_slots, length_slots]
  intro j hj hj'
  rw [getElem_slots, getElem_set]
  rw [length_slots] at hj
  unfold Volume.at Volume.putAt Volume.put
  dsimp only
  split
  · next heq => rw [heq, update_self, update_self]
  next hne =>
  rw [getElem_slots]
  unfold Volume.at
  by_cases hlba : (d.place m cs j).lba + (d.place m cs j).sector =
      (d.place m cs i).lba + (d.place m cs i).sector
  · rw [hlba, update_self]
    apply update_of_ne
    intro hindex
    exact hne (place_inj h hi hj hlba.symm hindex.symm)
  · rw [update_of_ne hlba]

lemma size_eq_of_slots {A B C : List Slot} (hs : d.slots m V cs = A ++ B ++ C) :
    d.size m cs = A.length + B.length + C.length := by
  rw [← length_slots m V, hs, length_append, length_append]

lemma writeDirEntries_spec {A B C xs : List Slot} (h : d.Clusters m V cs)
    (hs : d.slots m V cs = A ++ B ++ C) (hB : B.length = xs.length) :
    ∃ V', writeDirEntries m d A.length xs V = (.ok (), V') ∧ d.Edited m cs V V' ∧
      d.slots m V' cs = A ++ xs ++ C := by
  induction xs generalizing A B V with
  | nil =>
    rw [length_nil, length_eq_zero_iff] at hB
    subst hB
    exact ⟨V, rfl, .refl, hs⟩
  | cons x xs ih =>
    cases B with
    | nil => cases hB
    | cons b B =>
      have hsize := size_eq_of_slots hs
      rw [length_cons] at hsize
      have hi : A.length < d.size m cs := by omega
      have hs' : d.slots m (V.putAt (d.place m cs A.length) x) cs = (A ++ [x]) ++ B ++ C := by
        rw [slots_putAt h hi, hs]
        simp
      have h' : d.Clusters m (V.putAt (d.place m cs A.length) x) cs := h.congr fun _ _ => rfl
      obtain ⟨V', hrun, hedit, hslots⟩ := ih h' hs' (Nat.succ.inj hB)
      refine ⟨V', ?_, (edited_putAt hi x).trans hedit, by rw [hslots]; simp⟩
      refine (bind_of_ok (writeDirEntry_eq h hi x)).trans ?_
      rwa [length_append] at hrun

lemma at_place {A D : List Slot} {x : Slot} (hs : d.slots m V cs = A ++ x :: D) :
    A.length < d.size m cs ∧ V.at (d.place m cs A.length) = x := by
  have hlen : A.length < (d.slots m V cs).length := by rw [hs]; simp
  refine ⟨by rwa [length_slots] at hlen, ?_⟩
  rw [← getElem_slots hlen]
  simp [hs]

lemma deleteBack_succ (h : d.Clusters m V cs) (hi : i < d.size m cs) :
    deleteBack m d (i + 1) V = match V.at (d.place m cs i) with
      | .lfn _ _ _ => deleteBack m d i (V.putAt (d.place m cs i) .deleted)
      | _ => (.ok (), V) := by
  have hloc : Procedure.ofExcept (dirEntryLocate m V d i) V = _ :=
    congrArg (·, V) (dirEntryLocate_eq h hi)
  rw [deleteBack, bind_of_ok (m := Procedure.get) (t := V) (a := V) rfl, bind_of_ok hloc]
  dsimp only
  rw [← Volume.at]
  cases V.at (d.place m cs i) with
  | lfn => exact bind_of_ok (writeDirEntry_eq h hi .deleted)
  | free => rfl
  | deleted => rfl
  | short => rfl

section

variable {A long : List Slot}
  (hlong : ∀ x ∈ long, ∃ ordinal last units, x = .lfn ordinal last units)
  (hA : ∀ x, A.getLast? = some x → ∀ ordinal last units, x ≠ .lfn ordinal last units)
include hlong hA

lemma deleteBack_spec {D : List Slot} (h : d.Clusters m V cs)
    (hs : d.slots m V cs = A ++ long ++ D) :
    ∃ V', deleteBack m d (A.length + long.length) V = (.ok (), V') ∧ d.Edited m cs V V' ∧
      d.slots m V' cs = A ++ List.replicate long.length .deleted ++ D := by
  -- from the last slot of the name to its first
  induction long using List.reverseRecOn generalizing V D with
  | nil =>
    refine ⟨V, ?_, .refl, hs⟩
    rcases eq_nil_or_concat A with rfl | ⟨B, x, rfl⟩
    · rfl
    rw [concat_eq_append] at hs hA ⊢
    have hs' : d.slots m V cs = B ++ x :: D := by rw [hs]; simp
    obtain ⟨hi, hx⟩ := at_place hs'
    have hne := hA x (by simp)
    rw [length_append, length_singleton, length_nil, add_zero, deleteBack_succ h hi, hx]
    cases x with
    | lfn ordinal last units => exact absurd rfl (hne ordinal last units)
    | free => rfl
    | deleted => rfl
    | short => rfl
  | append_singleton long x ih =>
    obtain ⟨ordinal, last, units, rfl⟩ := hlong x (by simp)
    have hs' : d.slots m V cs = (A ++ long) ++ Slot.lfn ordinal last units :: D := by rw [hs]; simp
    obtain ⟨hi, hx⟩ := at_place hs'
    have hput : d.slots m (V.putAt (d.place m cs (A ++ long).length) .deleted) cs =
        A ++ long ++ .deleted :: D := by
      rw [slots_putAt h hi, hs']
      simp
    have h' : d.Clusters m (V.putAt (d.place m cs (A ++ long).length) .deleted) cs :=
      h.congr fun _ _ => rfl
    obtain ⟨V', hrun, hedit, hslots⟩ := ih (fun y hy => hlong y (by simp [hy])) h' hput
    refine ⟨V', ?_, (edited_putAt hi _).trans hedit, ?_⟩
    · rw [length_append, ← add_assoc, ← length_append, length_singleton, deleteBack_succ h hi, hx]
      rwa [← length_append] at hrun
    · rw [hslots, length_append, length_singleton, replicate_succ']
      simp

lemma deleteDirEntryChain_spec {C : List Slot} {x : Slot} (h : d.Clusters m V cs)
    (hs : d.slots m V cs = A ++ (long ++ [x]) ++ C) :
    ∃ V', deleteDirEntryChain m d (A.length + long.length) V = (.ok (), V') ∧ d.Edited m cs V V' ∧
      d.slots m V' cs = A ++ List.replicate (long.length + 1) .deleted ++ C := by
  have hs' : d.slots m V cs = (A ++ long) ++ x :: C := by rw [hs]; simp
  obtain ⟨hi, -⟩ := at_place hs'
  have hput : d.slots m (V.putAt (d.place m cs (A ++ long).length) .deleted) cs =
      A ++ long ++ .deleted :: C := by
    rw [slots_putAt h hi, hs']
    simp
  have h' : d.Clusters m (V.putAt (d.place m cs (A ++ long).length) .deleted) cs :=
    h.congr fun _ _ => rfl
  obtain ⟨V', hrun, hedit, hslots⟩ := deleteBack_spec hlong hA h' hput
  refine ⟨V', ?_, (edited_putAt hi _).trans hedit, ?_⟩
  · rw [← length_append] at hrun ⊢
    exact (bind_of_ok (writeDirEntry_eq h hi .deleted)).trans hrun
  · rw [hslots, replicate_succ']
    simp

end

section Grow

variable {last : ℕ}

def Mount.grown (m : Mount) (V : Volume) (last c : ℕ) : Volume where
  fat := update (update V.fat c m.fatType.endMarker) last c
  slot lba := if m.InCluster c lba then fun _ => .free else V.slot lba
  byte lba := if m.InCluster c lba then fun _ => 0 else V.byte lba

lemma endMin_le_endMarker (t : FatType) : t.endMin ≤ t.endMarker := by cases t <;> decide

lemma badMark_lt (t : FatType) : t.badMark < t.endMin := by cases t <;> decide

lemma next_endMarker (h : V.fat c = m.fatType.endMarker) : m.next V c = none := by
  unfold Mount.next
  split
  · rfl
  · rw [if_pos (.inl (by rw [h]; exact endMin_le_endMarker _))]

lemma next_of_cluster {v : ℕ} (hc : 2 ≤ c) (hv : m.IsCluster v) (h : V.fat c = v) :
    m.next V c = some v := by
  have hnum := m.numbers
  have hbad := badMark_lt m.fatType
  have := hv.1
  have := hv.2
  unfold Mount.next
  rw [h, if_neg (by omega), if_neg (by omega)]

lemma isChain_grown {c₀ : ℕ} {xs : List ℕ} (h : IsChain m V c₀ (xs ++ [last]))
    (hcs : ∀ x ∈ xs ++ [last], m.IsCluster x) (hc : m.IsCluster c) (hn : c ∉ xs ++ [last]) :
    IsChain m (m.grown V last c) c₀ (xs ++ [last] ++ [c]) := by
  refine Chain.Path.congr (Chain.Path.snoc h hn) fun x hx => ?_
  by_cases hlast : x = last
  · subst hlast
    rw [update_self]
    exact next_of_cluster (hcs x (by simp)).1 hc (update_self _ _ _)
  rw [update_of_ne hlast]
  by_cases hxc : x = c
  · subst hxc
    rw [update_self]
    apply next_endMarker
    exact (update_of_ne hlast _ _).trans (update_self _ _ _)
  · rw [update_of_ne hxc]
    apply next_congr
    exact (update_of_ne hlast _ _).trans (update_of_ne hxc _ _)

section

variable (h : d.Clusters m V cs)
include h

lemma Dir.Clusters.eq_snoc (hroot : d.root = false) : ∃ xs, cs = xs ++ [cs.getLastD d.cluster] := by
  unfold Dir.Clusters at h
  rw [hroot, if_neg Bool.false_ne_true] at h
  cases cs with
  | nil => cases h.1
  | cons c cs =>
    refine ⟨(c :: cs).dropLast, ?_⟩
    exact (dropLast_append_getLast _).symm

lemma Dir.Clusters.grown (hroot : d.root = false) (hc : m.IsCluster c)
    (hn : c ∉ cs) : d.Clusters m (m.grown V (cs.getLastD d.cluster) c) (cs ++ [c]) := by
  obtain ⟨xs, hxs⟩ := h.eq_snoc hroot
  unfold Dir.Clusters at h ⊢
  rw [hroot, if_neg Bool.false_ne_true] at h ⊢
  generalize cs.getLastD d.cluster = last at *
  subst hxs
  exact ⟨isChain_grown h.1 h.2 hc hn, forall_mem_append.mpr ⟨h.2, forall_mem_singleton.mpr hc⟩⟩

lemma Dir.Clusters.two_le : ∀ c ∈ cs, 2 ≤ c := by
  unfold Dir.Clusters at h
  split at h
  · subst h
    intro c hc
    cases hc
  · exact fun c hc => (h.2 c hc).1

lemma Dir.Clusters.not_owns {lba : ℕ} (hc : m.IsCluster c) (hn : c ∉ cs)
    (hlba : m.InCluster c lba) : ¬ d.Owns m cs lba := by
  intro howns
  have hown : (⟨false, c⟩ : Dir).Owns m [c] lba := ⟨c, mem_singleton_self c, hlba⟩
  have htwo : ∀ x ∈ [c], 2 ≤ x := by
    intro x hx
    rw [mem_singleton.mp hx]
    exact hc.1
  rcases howns.apart hown h.two_le htwo with ⟨-, hf⟩ | ⟨-, -, x, hx, hx'⟩
  · cases hf
  · rw [mem_singleton.mp hx'] at hx
    exact hn hx

end

lemma chainPlaces_append (m : Mount) (cs cs' : List ℕ) (base : ℕ) : chainPlaces m (cs ++ cs') base =
      chainPlaces m cs base ++ chainPlaces m cs' (base + cs.length * m.entriesPerCluster) := by
  induction cs generalizing base with
  | nil => simp [chainPlaces]
  | cons c cs ih =>
    rw [cons_append, chainPlaces, chainPlaces, ih, append_assoc, length_cons, Nat.succ_mul]
    congr 3
    omega

lemma slots_grown (h : d.Clusters m V cs) (hroot : d.root = false) (hc : m.IsCluster c)
    (hn : c ∉ cs) : d.slots m (m.grown V last c) (cs ++ [c]) =
      d.slots m V cs ++ List.replicate m.entriesPerCluster .free := by
  have hold : d.slots m (m.grown V last c) cs = d.slots m V cs := by
    apply slots_congr
    intro lba howns
    exact if_neg fun hin => h.not_owns hc hn hin howns
  have hplaces : d.places m (cs ++ [c]) =
      d.places m cs ++ m.runPlaces false c (cs.length * m.entriesPerCluster) := by
    unfold places
    rw [hroot, if_neg Bool.false_ne_true, if_neg Bool.false_ne_true, chainPlaces_append]
    simp [chainPlaces]
  unfold slots
  rw [hplaces, map_append]
  congr 1
  rw [m.runPlaces_false, map_map, eq_replicate_iff]
  refine ⟨by simp, ?_⟩
  intro x hx
  obtain ⟨i, hi, rfl⟩ := mem_map.mp hx
  rw [mem_range] at hi
  have hin : m.InCluster c (m.lbaForCluster c + i / m.entriesPerSector) := by
    refine ⟨Nat.le_add_right _ _, Nat.add_lt_add_left ?_ _⟩
    exact Nat.div_lt_of_lt_mul (by rwa [mul_comm])
  unfold Volume.at grown
  simp only [comp_apply]
  rw [if_pos hin]

end Grow

section FindRoom

variable {segs : List Segment} {k n : ℕ}

lemma Dir.place_entry (m : Mount) (d : Dir) (cs : List ℕ) (i : ℕ) : (d.place m cs i).entry = i := by
  unfold place
  split <;> rfl

lemma slotStep_place (m : Mount) (d : Dir) (cs : List ℕ) (n : ℕ) :
    (fun s i => slotStep n s (d.place m cs i)) = roomStep n := by
  funext s i x
  unfold roomStep slotStep
  rw [place_entry]

lemma Dir.LaidOut.grown (h : d.LaidOut m V cs segs k) (hroot : d.root = false)
    (hc : m.IsCluster c) (hfree : V.fat c = 0) :
    d.LaidOut m (m.grown V (cs.getLastD d.cluster) c) (cs ++ [c]) segs (k + m.entriesPerCluster) ∧
      d.Extends m cs (cs ++ [c]) V (m.grown V (cs.getLastD d.cluster) c) := by
  have hn : c ∉ cs := fun hmem => h.allocated c hmem hfree
  have hlast : cs.getLastD d.cluster ∈ cs := by
    obtain ⟨xs, hxs⟩ := h.clusters.eq_snoc hroot
    generalize cs.getLastD d.cluster = last at *
    rw [hxs]
    simp
  have howns : ∀ lba, ¬ d.Owns m (cs ++ [c]) lba → ¬ m.InCluster c lba := by
    intro lba hno hin
    apply hno
    unfold Dir.Owns
    rw [hroot]
    exact ⟨c, by simp, hin⟩
  constructor
  · constructor
    · exact h.clusters.grown hroot hc hn
    · intro x hx
      unfold Mount.grown
      dsimp only
      by_cases hxl : x = cs.getLastD d.cluster
      · rw [hxl, update_self]
        have := hc.1
        omega
      rw [update_of_ne hxl]
      by_cases hxc : x = c
      · rw [hxc, update_self]
        cases m.fatType <;> decide
      · rw [update_of_ne hxc]
        exact h.allocated x ((mem_append.mp hx).resolve_right (by simpa using hxc))
    · rw [slots_grown h.clusters hroot hc hn, h.slots, append_assoc, replicate_add]
  · constructor
    · exact prefix_append cs [c]
    · intro x hx hnx
      have hxc : x = c := by simpa using (mem_append.mp hx).resolve_left hnx
      exact hxc ▸ ⟨hc, hfree⟩
    · intro x hx
      simp only [mem_append, mem_singleton, not_or] at hx
      have hxl : x ≠ cs.getLastD d.cluster := fun heq => hx.1 (heq ▸ hlast)
      exact (update_of_ne hxl _ _).trans (update_of_ne hx.2 _ _)
    iterate 2 exact fun lba hno => if_neg (howns lba hno)

def Dir.Takes (m : Mount) (V : Volume) (d : Dir) (cs : List ℕ) (n : ℕ) : Prop :=
  d.root = true ∨ HasGap n (d.slots m V cs) ∨ (d.slots m V cs).getLast? ≠ some .free

lemma Dir.Takes.unused (h : d.Takes m V cs n) (hlay : d.LaidOut m V cs segs k)
    (hroot : d.root = false) (hgap : ¬ HasGap n (d.slots m V cs)) : k = 0 := by
  rcases h with h | h | h
  · cases hroot.symm.trans h
  · exact absurd h hgap
  by_contra hk
  obtain ⟨j, rfl⟩ := Nat.exists_eq_succ_of_ne_zero hk
  apply h
  rw [hlay.slots, replicate_succ', ← append_assoc, getLast?_concat]

lemma findFreeDirSlots_spec (hlay : d.LaidOut m V cs segs k) (htakes : d.Takes m V cs n) :
    wp (findFreeDirSlots m d n)
      (fun p V' => ∃ cs' k' pre post g t, d.LaidOut m V' cs' segs k' ∧ d.Extends m cs cs' V V' ∧
        Room segs k' n pre post g t ∧ p = (render pre).length)
      (fun V' => ∃ cs' k', d.LaidOut m V' cs' segs k' ∧ d.Extends m cs cs' V V') V := by
  have hsame : ∃ cs' k', d.LaidOut m V cs' segs k' ∧ d.Extends m cs cs' V V := ⟨cs, k, hlay, .refl⟩
  unfold findFreeDirSlots
  simp only [wp_bind, wp_require, wp_get]
  split
  swap
  · exact hsame
  next hn =>
  have hpos : 0 < n := pos_of_ne_zero hn.1
  rw [scanDir_eq hlay.clusters, scanRun_places, slotStep_place]
  cases hscan : scanSlots (roomStep n) 0 (d.slots m V cs) (0, 0) with
  | error p =>
    rw [hlay.slots] at hscan
    obtain ⟨pre, post, g, t, hroom, hp⟩ :=
      scan_room [] hpos (fun h0 => absurd rfl h0) hscan
    exact ⟨cs, k, pre, post, g, t, hlay, .refl, hroom, hp⟩
  | ok s =>
    have hgap : ¬ HasGap n (d.slots m V cs) := by
      intro hgap
      obtain ⟨p, hp⟩ := scan_gap hpos hgap
      cases hscan.symm.trans hp
    simp only [Scanned.ofExcept, wp_bind, wp_require]
    split
    swap
    · exact hsame
    next hroot =>
    obtain rfl : k = 0 := htakes.unused hlay hroot hgap
    cases hfree : m.findFreeCluster V with
    | error e => exact hsame
    | ok c =>
      obtain ⟨hc, hzero⟩ := findFreeCluster_ok hfree
      obtain ⟨hlay', hext⟩ := hlay.grown hroot hc hzero
      have hlen : (cs.length - 1) * m.entriesPerCluster + m.entriesPerCluster =
          (render segs).length := by
        obtain ⟨xs, hxs⟩ := hlay.clusters.eq_snoc hroot
        have hsize := length_slots m V d cs
        rw [hlay.slots] at hsize
        unfold size at hsize
        rw [hroot, if_neg Bool.false_ne_true, replicate_zero, append_nil] at hsize
        generalize cs.getLastD d.cluster = last at hxs
        rw [hsize, hxs, length_append, length_singleton, Nat.add_sub_cancel, Nat.succ_mul]
      rw [zero_add] at hlay'
      rw [hroot, m.dirEntryLimit_false, hlen]
      split
      · next hfits =>
        refine ⟨cs ++ [c], m.entriesPerCluster, segs, [], 0, n, hlay', hext, ?_, rfl⟩
        exact ⟨by simp, zero_add n, hfits, .inr rfl⟩
      · exact ⟨cs ++ [c], m.entriesPerCluster, hlay', hext⟩

end FindRoom

section Add

variable {segs pre post : List Segment} {es : List (ℕ × Live)} {k n g t cluster size : ℕ}
  {name short : Text} {us : List ℕ} {long : List Slot} {attr : UInt8}

lemma dropWhile_replicate_append {x : Char} {n : ℕ} {xs : List Char}
    (h : ∀ y ∈ xs, y ≠ x) : (List.replicate n x ++ xs).dropWhile (· == x) = xs := by
  induction n with
  | zero =>
    cases xs with
    | nil => rfl
    | cons y ys =>
      have := h y (.head _)
      simp [this]
  | succ n ih => simpa [replicate_succ] using ih

lemma trimSpaces_padTo {t : Text} (h : ∀ c ∈ t, c ≠ ' ') : trimSpaces (padTo n t) = t := by
  unfold trimSpaces padTo
  rw [reverse_append, reverse_replicate,
    dropWhile_replicate_append (fun y hy => h y (mem_reverse.mp hy)), reverse_reverse]

lemma listText_encode (h : encodeShortName name = some short) :
    listText short = shortText short := by
  obtain ⟨base, ext, -, hbase, hext, hbc, hec, -, rfl⟩ := encodeShortName_eq_some h
  have hb : (padTo 8 (base.map Char.toUpper)).length = 8 := length_padTo (by simpa using hbase)
  unfold listText shortText
  dsimp only
  rw [take_left' hb, drop_left' hb, filter_padTo (mem_upper hbc),
    filter_padTo (mem_upper hec), trimSpaces_padTo (mem_upper hbc),
      trimSpaces_padTo (mem_upper hec)]
  cases ext with
  | nil => simp [padTo]
  | cons c ext =>
    have hc : c.toUpper ≠ ' ' := mem_upper hec _ (by simp)
    rw [if_neg (by simp), if_neg (by simpa [padTo] using hc)]

def slotCount (name : Text) : ℕ :=
  match encodeShortName name with
  | some _ => 1
  | none => lfnCount (name.flatMap utf16) + 1

lemma length_lfnSlots (us : List ℕ) (total n : ℕ) : (lfnSlots us total n).length = n := by
  induction n with
  | zero => rfl
  | succ n ih => rw [lfnSlots, length_cons, ih]

lemma lfnSlots_lfn (us : List ℕ) (total n : ℕ) :
    ∀ x ∈ lfnSlots us total n, ∃ ordinal last units, x = .lfn ordinal last units := by
  induction n with
  | zero =>
    intro x hx
    cases hx
  | succ n ih => exact forall_mem_cons.mpr ⟨⟨_, _, _, rfl⟩, ih⟩

structure Writable (name : Text) (us : List ℕ) : Prop where
  units : utf8ToUtf16 name = some us
  storable : Storable name
  fits : (name.map Char.utf8Size).sum ≤ lfnMax

lemma entryNames_live (cluster size : ℕ) (hw : Writable name us) (hattr : attr &&& 0x08 = 0)
    (h : entryNames m V d name us = .ok (short, long)) :
    long.length + 1 = slotCount name ∧
      ∃ x : Live, x.long = long ∧ x.short = short ∧ x.attr = attr ∧ x.cluster = cluster ∧
        x.size = size ∧ nameEq x.name name = true := by
  unfold entryNames at h
  split at h
  · next henc =>
    cases h
    have hslots : slotCount name = 1 := by rw [slotCount, henc]
    rw [hslots]
    refine ⟨rfl, ⟨[], short, attr, cluster, size, shortText short, ?_, hattr, ?_, ?_⟩, rfl, rfl,
      rfl, rfl, rfl, shortText_encode henc⟩
    · intro x hx
      cases hx
    · intro l
      exact entryName_reset l short
    · intro l
      simp [listText_encode henc]
  · next henc =>
    split at h
    · cases h
    cases h
    have hus := (utf8ToUtf16_eq_some hw.units).1
    have hread := name?_lfnSlots hw.units hw.storable hw.fits
    have hslots : slotCount name = lfnCount us + 1 := by rw [slotCount, henc, ← hus]
    rw [hslots, length_lfnSlots]
    refine ⟨rfl, ⟨_, short, attr, cluster, size, name, lfnSlots_lfn us _ _, hattr, ?_, ?_⟩, rfl,
      rfl, rfl, rfl, rfl, nameEq_iff.mpr rfl⟩
    · intro l
      rw [entryName, hread l.reset]
      rfl
    intro l
    rw [hread l.reset]
    rfl

structure Found.Same (e f : Found) : Prop where
  attr : e.attr = f.attr
  cluster : e.cluster = f.cluster
  size : e.size = f.size
  dir : e.dir = f.dir
  sector : e.place.lba + e.place.sector = f.place.lba + f.place.sector
  index : e.place.index = f.place.index
  entry : e.place.entry = f.place.entry

lemma Room.entries_eq {x : Live} (w : Room segs k x.slots.length pre post g t) :
    ∃ es₁ es₂, entries 0 segs = es₁ ++ es₂ ∧ entries 0 (pre ++ .live x :: post) =
        es₁ ++ ((render pre).length + x.long.length, x) :: es₂ := by
  refine ⟨entries 0 pre, entries ((render pre).length + g) post, ?_, ?_⟩
  · rw [w.segs_eq, append_assoc, entries_append, entries_append, entries_gaps, render_gaps,
      length_replicate, zero_add, nil_append]
  rw [entries_append, zero_add, entries]
  rcases w.last with rfl | rfl
  · rw [← w.needed, add_zero]
  · rfl

lemma Dir.LaidOut.insert {x : Live} (hlay : d.LaidOut m V cs segs k)
    (w : Room segs k x.slots.length pre post g t) :
    ∃ V' V'', writeDirEntries m d (render pre).length x.long V = (.ok (), V') ∧
      writeDirEntry m d ((render pre).length + x.long.length)
          (.short x.short x.attr x.cluster x.size) V' =
        (.ok ((d.place m cs ((render pre).length + x.long.length)).lba +
            (d.place m cs ((render pre).length + x.long.length)).sector,
          (d.place m cs ((render pre).length + x.long.length)).index), V'') ∧
      d.Edited m cs V V'' ∧ d.LaidOut m V'' cs (pre ++ .live x :: post) (k - t) := by
  have hslots := w.slots_eq
  have hB : (List.replicate g Slot.deleted ++ List.replicate t Slot.free).length =
      x.long.length + 1 := by
    rw [length_append, length_replicate, length_replicate, w.needed, Live.length_slots]
  generalize List.replicate g Slot.deleted ++ List.replicate t Slot.free = B at hslots hB
  rcases eq_nil_or_concat B with rfl | ⟨B, b, rfl⟩
  · cases hB
  rw [concat_eq_append, length_append, length_singleton] at hB
  have hs : d.slots m V cs = render pre ++ B ++
      (b :: (render post ++ List.replicate (k - t) Slot.free)) := by
    rw [hlay.slots, hslots]
    simp
  obtain ⟨V', hrun, hedit, hs'⟩ := writeDirEntries_spec hlay.clusters hs (Nat.succ.inj hB)
  have hclusters : d.Clusters m V' cs := hlay.clusters.congr fun c _ => congrFun hedit.fat c
  obtain ⟨hi, -⟩ := at_place hs'
  rw [length_append] at hi
  have hedit' := hedit.trans (edited_putAt hi (.short x.short x.attr x.cluster x.size))
  refine ⟨V', _, hrun, writeDirEntry_eq hclusters hi _, hedit', ?_⟩
  constructor
  · exact hlay.clusters.congr fun c _ => congrFun hedit'.fat c
  · intro c hc
    rw [hedit'.fat]
    exact hlay.allocated c hc
  · rw [slots_putAt hclusters hi, hs', ← length_append]
    simp [Segment.slots, Live.slots]

def Dir.Kept (m : Mount) (d : Dir) (cs : List ℕ) (V : Volume) (es : List (ℕ × Live))
    (V' : Volume) : Prop := ∃ cs', d.Holds m V' cs' es ∧ d.Extends m cs cs' V V'

def Dir.Added (m : Mount) (d : Dir) (cs : List ℕ) (V : Volume) (es : List (ℕ × Live))
    (name : Text) (attr : UInt8) (cluster size : ℕ) (e : Found) (V' : Volume) : Prop :=
  ∃ cs' es₁ es₂ i x, es = es₁ ++ es₂ ∧ d.Holds m V' cs' (es₁ ++ (i, x) :: es₂) ∧
    d.Extends m cs cs' V V' ∧ x.attr = attr ∧ x.cluster = cluster ∧ x.size = size ∧
    nameEq x.name name = true ∧ e.Same (Live.found m d cs' (i, x))

lemma Dir.Added.cluster_eq {e : Found} (h : d.Added m cs V es name attr cluster size e V') :
    e.cluster = cluster := by
  obtain ⟨cs', es₁, es₂, i, x, -, -, -, -, hx, -, -, hsame⟩ := h
  exact hsame.cluster.trans hx

lemma addEntry_spec (h : d.Holds m V cs es) (hw : Writable name us) (hattr : attr &&& 0x08 = 0)
    (htakes : d.Takes m V cs (slotCount name)) :
    wp (addEntry m d name us attr cluster size) (d.Added m cs V es name attr cluster size)
      (d.Kept m cs V es) V := by
  obtain ⟨segs, k, hlay, rfl⟩ := h
  unfold addEntry
  simp only [wp_bind, wp_get, wp_ofExcept]
  cases hnames : entryNames m V d name us with
  | error e => exact ⟨cs, ⟨segs, k, hlay, rfl⟩, .refl⟩
  | ok names =>
    obtain ⟨short, long⟩ := names
    obtain ⟨hlen, x, rfl, rfl, rfl, rfl, rfl, hname⟩ := entryNames_live cluster size hw hattr hnames
    rw [← hlen] at htakes
    refine wp_mono (findFreeDirSlots_spec hlay htakes) ?_ ?_
    · rintro p V₁ ⟨cs', k', pre, post, g, t, hlay', hext, hroom, rfl⟩
      rw [← Live.length_slots] at hroom
      obtain ⟨V₂, V₃, hlong, hshort, hedit, hlay''⟩ := hlay'.insert hroom
      obtain ⟨es₁, es₂, hes, hes'⟩ := hroom.entries_eq
      simp only [wp, hlong, hshort]
      refine ⟨cs', es₁, es₂, _, x, hes, ⟨_, _, hlay'', hes'⟩, hext.trans hedit.extends,
        rfl, rfl, rfl,
        hname, ?_⟩
      exact ⟨rfl, rfl, rfl, rfl, rfl, rfl, (place_entry m d cs' _).symm⟩
    · rintro V₁ ⟨cs', k', hlay', hext⟩
      exact ⟨cs', ⟨segs, k', hlay', rfl⟩, hext⟩

end Add

end Fat
