import WasmOS.Fat.Scan

/-! # The layout of a directory

The slots of a directory before the unused ones are a row of segments: a deleted slot, a volume
label, or a live entry behind the slots of its long name. On such a row every scan can be read off
the live entries.
-/

open List

namespace Fat

open Lfn

/-- A live entry. Its slots read as `name` whatever stood before them. -/
structure Live where
  long : List Slot
  short : Text
  attr : UInt8
  cluster : ℕ
  size : ℕ
  name : Text
  long_lfn : ∀ x ∈ long, ∃ ordinal last units, x = .lfn ordinal last units
  visible : attr &&& 0x08 = 0
  reads : ∀ l : Lfn, entryName (long.foldl take l.reset) short = name
  lists : ∀ l : Lfn, (long.foldl take l.reset).name?.getD (listText short) = name

inductive Segment
  | gap
  | label (short : Text) (attr : UInt8) (cluster size : ℕ) (h : attr &&& 0x08 ≠ 0)
  | live (e : Live)

def Live.slots (e : Live) : List Slot := e.long ++ [.short e.short e.attr e.cluster e.size]

def Segment.slots : Segment → List Slot
  | .gap => [.deleted]
  | .label short attr cluster size _ => [.short short attr cluster size]
  | .live e => e.slots

def render (segs : List Segment) : List Slot := segs.flatMap Segment.slots

def entries : ℕ → List Segment → List (ℕ × Live)
  | _, [] => []
  | i, .live e :: segs => (i + e.long.length, e) :: entries (i + e.slots.length) segs
  | i, .gap :: segs => entries (i + 1) segs
  | i, .label _ _ _ _ _ :: segs => entries (i + 1) segs

section Render

variable {segs segs' : List Segment} {seg : Segment} {e : Live} {i n : ℕ}

@[simp] lemma render_nil : render [] = [] := rfl

@[simp] lemma render_cons : render (seg :: segs) = seg.slots ++ render segs := flatMap_cons

@[simp] lemma render_append : render (segs ++ segs') = render segs ++ render segs' := flatMap_append

@[simp] lemma render_gaps (n : ℕ) : render (List.replicate n .gap) = List.replicate n .deleted := by
  induction n with
  | zero => rfl
  | succ n ih => rw [replicate_succ, render_cons, ih]; rfl

@[simp] lemma Live.length_slots : e.slots.length = e.long.length + 1 := by simp [Live.slots]

lemma entries_append :
    entries i (segs ++ segs') = entries i segs ++ entries (i + (render segs).length) segs' := by
  induction segs generalizing i with
  | nil => rfl
  | cons seg segs ih =>
    have hlen : i + (render (seg :: segs)).length = i + seg.slots.length +
        (render segs).length := by
      rw [render_cons, length_append, add_assoc]
    rw [hlen, cons_append]
    cases seg with
    | gap | label => exact ih
    | live e => exact congrArg _ ih

@[simp] lemma entries_gaps : entries i (List.replicate n .gap) = [] := by
  induction n generalizing i with
  | zero => rfl
  | succ n ih => exact ih

lemma mem_entries {p : ℕ × Live} (h : p ∈ entries i segs) :
    ∃ pre post, segs = pre ++ .live p.2 :: post ∧
      p.1 = i + (render pre).length + p.2.long.length := by
  induction segs generalizing i with
  | nil => cases h
  | cons seg segs ih =>
    have hcons (h : p ∈ entries (i + seg.slots.length) segs) :
        ∃ pre post, seg :: segs = pre ++ .live p.2 :: post ∧
          p.1 = i + (render pre).length + p.2.long.length := by
      obtain ⟨pre, post, rfl, hp⟩ := ih h
      refine ⟨seg :: pre, post, rfl, ?_⟩
      rw [hp, render_cons, length_append]
      omega
    cases seg with
    | gap | label => exact hcons h
    | live e =>
      rcases mem_cons.mp h with rfl | h
      · exact ⟨[], segs, rfl, rfl⟩
      · exact hcons h

end Render

section Scan

variable {ρ σ τ : Type}

def scanSlots (f : σ → ℕ → Slot → Except ρ σ) : ℕ → List Slot → σ → Except ρ σ
  | _, [], s => .ok s
  | i, x :: xs, s =>
    match f s i x with
    | .error r => .error r
    | .ok s => scanSlots f (i + 1) xs s

lemma scanSlots_append {f : σ → ℕ → Slot → Except ρ σ} {i : ℕ} {xs ys : List Slot} {s : σ} :
    scanSlots f i (xs ++ ys) s = match scanSlots f i xs s with
      | .error r => .error r
      | .ok s => scanSlots f (i + xs.length) ys s := by
  induction xs generalizing i s with
  | nil => rfl
  | cons x xs ih =>
    rw [cons_append, scanSlots, scanSlots]
    cases f s i x with
    | error r => rfl
    | ok s' =>
      dsimp only
      rw [ih, length_cons, add_right_comm, add_assoc]

lemma scanRun_places {m : Mount} {V : Volume} {d : Dir} {cs : List ℕ}
    {f : σ → Place → Slot → Except ρ σ} {s : σ} :
    scanRun V f (d.places m cs) s =
      scanSlots (fun s i => f s (d.place m cs i)) 0 (d.slots m V cs) s := by
  unfold Dir.slots
  rw [Dir.places_eq]
  unfold scanRun
  rw [range_eq_range']
  generalize d.size m cs = n
  generalize 0 = a
  induction n generalizing a s with
  | zero => rfl
  | succ n ih =>
    rw [range'_succ, map_cons, foldlM_cons, map_cons, scanSlots]
    cases hf : f s (d.place m cs a) (V.at (d.place m cs a)) with
    | error r => rfl
    | ok s' => exact ih (a + 1)

/-- A scan that keeps a long name besides a state of its own and looks at live entries only. -/
structure Visits (f : τ → ℕ → Slot → Except ρ τ) (st : Lfn → σ → τ)
    (visit : σ → ℕ × Live → Except ρ σ) : Prop where
  deleted : ∀ (l : Lfn) s i, f (st l s) i .deleted = .ok (st l.reset s)
  lfn : ∀ (l : Lfn) s i ordinal last units,
    f (st l s) i (.lfn ordinal last units) = .ok (st (l.collect ordinal last units) s)
  label : ∀ (l : Lfn) s i name attr cluster size, attr &&& 0x08 ≠ 0 →
    f (st l s) i (.short name attr cluster size) = .ok (st l.reset s)
  live : ∀ (l : Lfn) s i (e : Live), f (st (e.long.foldl take l.reset) s) i
      (.short e.short e.attr e.cluster e.size) =
    (visit s (i, e)).map (st (e.long.foldl take l.reset).reset)

variable {f : τ → ℕ → Slot → Except ρ τ} {st : Lfn → σ → τ} {visit : σ → ℕ × Live → Except ρ σ}

lemma Visits.long (h : Visits f st visit) {xs : List Slot} {i : ℕ} {l : Lfn} {s : σ}
    (hxs : ∀ x ∈ xs, ∃ ordinal last units, x = .lfn ordinal last units) :
    scanSlots f i xs (st l s) = .ok (st (xs.foldl take l) s) := by
  induction xs generalizing i l with
  | nil => rfl
  | cons x xs ih =>
    obtain ⟨ordinal, last, units, rfl⟩ := hxs x (.head _)
    rw [scanSlots, h.lfn]
    exact ih fun y hy => hxs y (.tail _ hy)

lemma Visits.render (h : Visits f st visit) (segs : List Segment) (i : ℕ) (l : Lfn) (s : σ) :
    ∃ l' : Lfn, scanSlots f i (Fat.render segs) (st l.reset s) =
      ((entries i segs).foldlM visit s).map (st l'.reset) := by
  induction segs generalizing i l s with
  | nil => exact ⟨l, rfl⟩
  | cons seg segs ih =>
    rw [render_cons, scanSlots_append]
    cases seg with
    | gap =>
      obtain ⟨l', hl'⟩ := ih (i + 1) l.reset s
      refine ⟨l', ?_⟩
      rwa [Segment.slots, scanSlots, h.deleted]
    | label name attr cluster size hattr =>
      obtain ⟨l', hl'⟩ := ih (i + 1) l.reset s
      refine ⟨l', ?_⟩
      rwa [Segment.slots, scanSlots, h.label _ _ _ _ _ _ _ hattr]
    | live e =>
      rw [Segment.slots, Live.slots, scanSlots_append, h.long e.long_lfn]
      dsimp only
      rw [scanSlots, h.live, entries, foldlM_cons]
      cases hv : visit s (i + e.long.length, e) with
      | error r => exact ⟨l, rfl⟩
      | ok s' =>
        obtain ⟨l', hl'⟩ := ih (i + e.slots.length) (e.long.foldl take l.reset) s'
        refine ⟨l', ?_⟩
        exact hl'

end Scan

section Read

variable {m : Mount} {V : Volume} {d : Dir} {cs : List ℕ} {segs : List Segment} {k : ℕ}
  {es : List (ℕ × Live)} {target : Text}

structure Dir.LaidOut (m : Mount) (V : Volume) (d : Dir) (cs : List ℕ) (segs : List Segment)
    (k : ℕ) : Prop where
  clusters : d.Clusters m V cs
  allocated : ∀ c ∈ cs, V.fat c ≠ 0
  slots : d.slots m V cs = render segs ++ List.replicate k .free

def Dir.Holds (m : Mount) (V : Volume) (d : Dir) (cs : List ℕ) (es : List (ℕ × Live)) : Prop :=
  ∃ segs k, d.LaidOut m V cs segs k ∧ entries 0 segs = es

lemma Visits.result {ρ σ τ : Type} {f : τ → Place → Slot → Except ρ τ} {st : Lfn → σ → τ}
    {visit : σ → ℕ × Live → Except ρ σ} {stop : σ → ρ} {fin : τ → ρ} {l : Lfn} {s : σ}
    (h : Visits (fun s i => f s (d.place m cs i)) st visit) (hlay : d.LaidOut m V cs segs k)
    (hfree : ∀ l s p, f (st l s) p .free = .error (stop s)) (hfin : ∀ l s, fin (st l s) = stop s) :
    (scanDir m V d f (st l.reset s)).result fin = match (entries 0 segs).foldlM visit s with
      | .error r => .ok r
      | .ok s => .ok (stop s) := by
  rw [scanDir_eq hlay.clusters, scanRun_places, hlay.slots, scanSlots_append]
  obtain ⟨l', hl'⟩ := h.render segs 0 l s
  rw [hl']
  cases (entries 0 segs).foldlM visit s with
  | error r => rfl
  | ok s' =>
    cases k with
    | zero => exact congrArg Except.ok (hfin l'.reset s')
    | succ k =>
      rw [replicate_succ]
      dsimp only [Except.map]
      rw [scanSlots, hfree]
      rfl

def Live.found (m : Mount) (d : Dir) (cs : List ℕ) (p : ℕ × Live) : Found :=
  ⟨p.2.attr, p.2.cluster, p.2.size, d.place m cs p.1, d.recorded⟩

def lookup (target : Text) (es : List (ℕ × Live)) : Option (ℕ × Live) :=
  es.find? fun p => nameEq p.2.name target

def findVisit (m : Mount) (d : Dir) (cs : List ℕ) (target : Text) (_ : Unit) (p : ℕ × Live) :
    Except (Option Found) Unit :=
  if nameEq p.2.name target then .error (some (Live.found m d cs p)) else .ok ()

lemma visits_find : Visits (fun s i => findStep target d s (d.place m cs i)) (fun l _ => l)
    (findVisit m d cs target) where
  deleted _ _ _ := rfl
  lfn _ _ _ _ _ _ := rfl
  label _ _ _ _ _ _ _ h := if_pos h
  live l _ i e := by
    dsimp only [findStep, findVisit]
    rw [if_neg (not_not_intro e.visible), e.reads]
    split <;> rfl

lemma foldlM_findVisit (es : List (ℕ × Live)) : es.foldlM (findVisit m d cs target) () =
    match lookup target es with
    | some p => .error (some (Live.found m d cs p))
    | none => .ok () := by
  induction es with
  | nil => rfl
  | cons p es ih =>
    rw [foldlM_cons, lookup, find?_cons, findVisit]
    cases nameEq p.2.name target with
    | true => rfl
    | false => exact ih

lemma findInDir_eq (h : d.Holds m V cs es) :
    findInDir m V d target = .ok ((lookup target es).map (Live.found m d cs)) := by
  obtain ⟨segs, k, hlay, rfl⟩ := h
  have hvisits : Visits (fun s i => findStep target d s (d.place m cs i)) (fun l _ => l)
      (findVisit m d cs target) := visits_find
  refine (hvisits.result (l := empty) (s := ()) hlay (fun _ _ _ => rfl) fun _ _ => rfl).trans ?_
  rw [foldlM_findVisit]
  cases lookup target (entries 0 segs) <;> rfl

def isDots (name : Text) : Bool := nameEq name dotName || nameEq name dotDotName

def emptyVisit (_ : Unit) (p : ℕ × Live) : Except Bool Unit :=
  if isDots p.2.name then .ok () else .error false

lemma visits_empty : Visits (fun s i => emptyStep s (d.place m cs i)) (fun l _ => l)
    emptyVisit where
  deleted _ _ _ := rfl
  lfn _ _ _ _ _ _ := rfl
  label _ _ _ _ _ _ _ h := if_pos h
  live l _ i e := by
    dsimp only [emptyStep, emptyVisit, isDots]
    rw [if_neg (not_not_intro e.visible), e.reads]
    simp only [Bool.or_eq_true]
    split <;> rfl

lemma foldlM_emptyVisit (es : List (ℕ × Live)) : es.foldlM emptyVisit () =
    if es.all (fun p => isDots p.2.name) then .ok () else .error false := by
  induction es with
  | nil => rfl
  | cons p es ih =>
    rw [foldlM_cons, all_cons, emptyVisit]
    cases isDots p.2.name with
    | true => exact ih
    | false => rfl

lemma dirIsEmpty_eq (h : d.Holds m V cs es) :
    dirIsEmpty m V d = .ok (es.all fun p => isDots p.2.name) := by
  obtain ⟨segs, k, hlay, rfl⟩ := h
  refine (visits_empty.result (l := empty) (s := ()) hlay (fun _ _ _ => rfl)
    fun _ _ => rfl).trans ?_
  rw [foldlM_emptyVisit]
  cases (entries 0 segs).all fun p => isDots p.2.name <;> rfl

def Live.line (e : Live) : Text := e.name ++ if e.attr &&& 0x10 ≠ 0 then ['/'] else []

lemma visits_readdir : Visits (fun s i => readdirStep s (d.place m cs i)) Prod.mk
    (fun lines p => .ok (lines ++ [p.2.line])) where
  deleted _ _ _ := rfl
  lfn _ _ _ _ _ _ := rfl
  label _ _ _ _ _ _ _ h := if_pos h
  live l _ i e := by
    dsimp only [readdirStep, Live.line]
    rw [if_neg (not_not_intro e.visible), e.lists]
    rfl

lemma readdir_eq (h : d.Holds m V cs es) : readdir m V d = .ok (es.map fun p => p.2.line) := by
  obtain ⟨segs, k, hlay, rfl⟩ := h
  have hfold (es : List (ℕ × Live)) (lines : List Text) :
      es.foldlM (fun lines p => (.ok (lines ++ [p.2.line]) : Except (List Text) _)) lines =
        .ok (lines ++ es.map fun p => p.2.line) := by
    induction es generalizing lines with
    | nil => rw [map_nil, append_nil]; rfl
    | cons p es ih =>
      rw [map_cons, append_cons]
      exact ih _
  refine (visits_readdir.result (l := empty) (s := []) hlay (fun _ _ _ => rfl)
    fun _ _ => rfl).trans ?_
  rw [hfold]
  rfl

end Read

section Room

/-- A place for `n` slots between `pre` and `post`: `deleted` ones, and `unused` ones for the rest.
-/
structure Room (segs : List Segment) (k n : ℕ) (pre post : List Segment) (deleted unused : ℕ) :
    Prop where
  segs_eq : segs = pre ++ List.replicate deleted .gap ++ post
  needed : deleted + unused = n
  unused_le : unused ≤ k
  last : unused = 0 ∨ post = []

variable {segs pre post : List Segment} {k n p i r g t start : ℕ} {x : Slot} {xs : List Slot}

lemma Room.slots_eq (w : Room segs k n pre post g t) : render segs ++ List.replicate k Slot.free =
      render pre ++ (List.replicate g .deleted ++ List.replicate t .free) ++
        (render post ++ List.replicate (k - t) .free) := by
  have hk : List.replicate k Slot.free =
      List.replicate t .free ++ List.replicate (k - t) .free := by
    rw [← replicate_add, Nat.add_sub_of_le w.unused_le]
  rw [hk, w.segs_eq]
  rcases w.last with rfl | rfl
  · simp
  · simp

def roomStep (n : ℕ) (s : ℕ × ℕ) (i : ℕ) (x : Slot) : Except ℕ (ℕ × ℕ) :=
  slotStep n s ⟨0, 0, 0, i⟩ x

lemma roomStep_vacant (hx : x.vacant = true) (hstart : r ≠ 0 → start = i) :
    roomStep n (r, start) (i + r) x = if n ≤ r + 1 then .error i else .ok (r + 1, i) := by
  unfold roomStep slotStep
  rw [if_pos hx]
  by_cases h : r = 0
  · simp [h]
  · simp [h, hstart h]

lemma scan_vacant (hr : r < n) (hxs : ∀ x ∈ xs, x.vacant = true) (hstart : r ≠ 0 → start = i) :
    scanSlots (roomStep n) (i + r) xs (r, start) = if n ≤ r + xs.length then .error i
      else .ok (r + xs.length, if xs = [] then start else i) := by
  induction xs generalizing r start with
  | nil => rw [if_neg (by simpa using hr)]; rfl
  | cons x xs ih =>
    have hlen : r + (x :: xs).length = r + 1 + xs.length := by rw [length_cons]; omega
    rw [scanSlots, roomStep_vacant (hxs x (.head _)) hstart, hlen]
    by_cases hn : n ≤ r + 1
    · rw [if_pos hn, if_pos (by omega)]
    rw [if_neg hn]
    dsimp only
    rw [add_assoc, ih (by omega) (fun y hy => hxs y (.tail _ hy)) fun _ => rfl,
      if_neg (cons_ne_nil x xs)]
    split <;> simp

lemma scan_occupied (hxs : ∀ x ∈ xs, x.vacant = false) (hne : xs ≠ []) :
    scanSlots (roomStep n) i xs (r, start) = .ok (0, start) := by
  induction xs generalizing i r with
  | nil => exact absurd rfl hne
  | cons x xs ih =>
    have hstep : roomStep n (r, start) i x = .ok (0, start) := by
      unfold roomStep slotStep
      rw [hxs x (.head _), if_neg Bool.false_ne_true]
    rw [scanSlots, hstep]
    cases xs with
    | nil => rfl
    | cons y ys => exact ih (fun z hz => hxs z (.tail _ hz)) (cons_ne_nil y ys)

lemma Live.occupied (e : Live) : ∀ x ∈ e.slots, x.vacant = false := by
  intro x hx
  rcases mem_append.mp hx with hx | hx
  · obtain ⟨ordinal, last, units, rfl⟩ := e.long_lfn x hx
    rfl
  · rw [mem_singleton.mp hx]
    rfl

lemma scan_room (pre : List Segment) (hr : r < n) (hstart : r ≠ 0 → start = (render pre).length)
    (h : scanSlots (roomStep n) ((render pre).length + r)
      (render segs ++ List.replicate k .free) (r, start) = .error p) :
    ∃ pre' post g t, Room (pre ++ List.replicate r .gap ++ segs) k n pre' post g t ∧
      p = (render pre').length := by
  -- the induction is on the segments to come; `r` deleted slots were passed since the last entry
  induction segs generalizing pre r start with
  | nil =>
    rw [render_nil, nil_append,
      scan_vacant hr (fun x hx => by rw [eq_of_mem_replicate hx]; rfl) hstart] at h
    rw [length_replicate] at h
    split at h
    · next hk =>
      cases h
      exact ⟨pre, [], r, n - r, ⟨rfl, by omega, by omega, .inr rfl⟩, rfl⟩
    · cases h
  | cons seg segs ih =>
    -- an occupied segment starts the count anew behind it
    have hocc (hseg : ∀ x ∈ seg.slots, x.vacant = false) (hne : seg.slots ≠ []) :
        ∃ pre' post g t, Room (pre ++ List.replicate r .gap ++ seg :: segs) k n pre' post g t ∧
          p = (render pre').length := by
      rw [render_cons, append_assoc, scanSlots_append, scan_occupied hseg hne] at h
      obtain ⟨pre', post, g, t, w, hp⟩ :=
        ih (pre ++ List.replicate r .gap ++ [seg]) (by omega) (fun h0 => absurd rfl h0) (by
            simp only [render_append, render_gaps, render_cons, render_nil, append_nil,
              length_append, length_replicate, add_zero]
            exact h)
      refine ⟨pre', post, g, t, ?_, hp⟩
      simpa using w
    cases seg with
    | gap =>
      rw [render_cons, Segment.slots, singleton_append, cons_append, scanSlots,
        roomStep_vacant rfl hstart] at h
      by_cases hn : n ≤ r + 1
      · rw [if_pos hn] at h
        cases h
        obtain rfl : n = r + 1 := by omega
        refine ⟨pre, segs, r + 1, 0, ⟨?_, rfl, Nat.zero_le k, .inl rfl⟩, rfl⟩
        simp [replicate_succ']
      · rw [if_neg hn] at h
        obtain ⟨pre', post, g, t, w, hp⟩ := ih pre (r := r + 1) (by omega) (fun _ => rfl) h
        refine ⟨pre', post, g, t, ?_, hp⟩
        simpa [replicate_succ'] using w
    | label => exact hocc (fun x hx => by rw [mem_singleton.mp hx]; rfl) (cons_ne_nil _ _)
    | live e => exact hocc e.occupied (by simp [Segment.slots, Live.slots])

def HasGap (n : ℕ) (xs : List Slot) : Prop :=
  ∃ i, i + n ≤ xs.length ∧ ∀ x ∈ (xs.drop i).take n, x.vacant = true

instance (n : ℕ) (xs : List Slot) : Decidable (HasGap n xs) :=
  decidable_of_iff (∃ i < xs.length + 1, i + n ≤ xs.length ∧
      ∀ x ∈ (xs.drop i).take n, x.vacant = true)
    ⟨fun ⟨i, _, h⟩ => ⟨i, h⟩, fun ⟨i, h⟩ => ⟨i, by omega, h⟩⟩

lemma scan_ok {r' start' : ℕ} (hr : r < n) (hstart : r ≠ 0 → start = i)
    (h : scanSlots (roomStep n) (i + r) xs (r, start) = .ok (r', start')) :
    r' < n ∧ ∃ i', i' + r' = i + r + xs.length ∧ (r' ≠ 0 → start' = i') := by
  induction xs generalizing i r start with
  | nil =>
    cases h
    exact ⟨hr, i, rfl, hstart⟩
  | cons x xs ih =>
    rw [scanSlots] at h
    cases hx : x.vacant with
    | true =>
      rw [roomStep_vacant hx hstart] at h
      split at h
      · next heq => split at heq <;> cases heq; cases h
      next heq =>
      split at heq
      · cases heq
      next hn =>
      cases heq
      obtain ⟨hr', i', hi', hs'⟩ := ih (r := r + 1) (by omega) (fun _ => rfl) h
      exact ⟨hr', i', by rw [hi', length_cons]; omega, hs'⟩
    | false =>
      have hstep : roomStep n (r, start) (i + r) x = .ok (0, start) := by
        unfold roomStep slotStep
        rw [hx, if_neg Bool.false_ne_true]
      rw [hstep] at h
      obtain ⟨hr', i', hi', hs'⟩ :=
        ih (by omega) (fun h0 => absurd rfl h0) h
      exact ⟨hr', i', by rw [hi', length_cons]; omega, hs'⟩

lemma scan_gap (hn : 0 < n) (hgap : HasGap n xs) :
    ∃ p, scanSlots (roomStep n) 0 xs (0, 0) = .error p := by
  obtain ⟨i, hi, hvacant⟩ := hgap
  have hsplit : xs = xs.take i ++ ((xs.drop i).take n ++ (xs.drop i).drop n) := by
    rw [take_append_drop, take_append_drop]
  rw [hsplit, scanSlots_append]
  cases hA : scanSlots (roomStep n) 0 (xs.take i) (0, 0) with
  | error p => exact ⟨p, rfl⟩
  | ok s =>
    obtain ⟨hr, i', hi', hs⟩ := scan_ok hn (fun h0 => absurd rfl h0) hA
    have hlen : ((xs.drop i).take n).length = n := by simp; omega
    dsimp only
    rw [scanSlots_append, zero_add]
    rw [show (xs.take i).length = i' + s.1 by omega, scan_vacant hr hvacant hs, hlen,
      if_pos (Nat.le_add_left n _)]
    exact ⟨i', rfl⟩

end Room

end Fat
