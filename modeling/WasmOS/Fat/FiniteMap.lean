import WasmOS.Fat.Operation

/-! # A directory is a finite map

After any run of creations and removals in one directory a lookup, a listing and the emptiness check
agree on the names created and not removed since, up to ASCII case. A name that holds U+FFFF is cut
there when it is read, and a directory that grows although its last cluster has unused slots hides
what lies beyond them.
-/

namespace Fat

open Procedure List Function Live

/-- The last part of a path, which is never a dot name. -/
structure Leaf extends Component where
  not_dots : isDots text = false

inductive DirEvent
  | create (name : Leaf)
  | mkdir (name : Leaf)
  | unlink (name : Leaf) (open? : Found → Bool)
  | rmdir (name : Leaf)

/-- `fat_remove_path` for a name in a directory. -/
def removeNamed (m : Mount) (d : Dir) (isRmdir : Bool) (open? : Found → Bool) (name : Text) :
    Task Unit := do
  let V ← get
  let found ← ofExcept (findInDir m V d name)
  match found with
  | none => fail .notFound
  | some e => removeEntry m isRmdir open? e

def foldCase (t : Text) : Text := t.map Char.toLower

/-- The names of a directory, each with what was written for it. Names are folded. -/
abbrev Names := Text → Option Found

structure Traced where
  volume : Volume
  names : Names

def Names.insert (S : Names) (name : Text) (e : Found) : Names := update S (foldCase name) (some e)

def Names.erase (S : Names) (name : Text) : Names := update S (foldCase name) none

namespace DirEvent

/-- What an event does to the volume, and to the names if it is granted. -/
def step (m : Mount) (d : Dir) (t : Traced) : DirEvent → Traced
  | .create name =>
    match createEntry m d name.text 0 0 0 false t.volume with
    | (.ok e, V) => ⟨V, if t.names (foldCase name.text) = none then
        t.names.insert name.text { e with attr := 0, cluster := 0, size := 0 } else t.names⟩
    | (.error _, V) => ⟨V, t.names⟩
  | .mkdir name =>
    match createDirectory m d name.text t.volume with
    | (.ok e, V) => ⟨V, t.names.insert name.text { e with attr := 0x10, size := 0 }⟩
    | (.error _, V) => ⟨V, t.names⟩
  | .unlink name open? =>
    match removeNamed m d false open? name.text t.volume with
    | (.ok _, V) => ⟨V, t.names.erase name.text⟩
    | (.error _, V) => ⟨V, t.names⟩
  | .rmdir name =>
    match removeNamed m d true (fun _ => false) name.text t.volume with
    | (.ok _, V) => ⟨V, t.names.erase name.text⟩
    | (.error _, V) => ⟨V, t.names⟩

def run (m : Mount) (d : Dir) (t : Traced) (evs : List DirEvent) : Traced := evs.foldl (step m d) t

end DirEvent

def chainFrom (m : Mount) (V : Volume) : (fuel c : ℕ) → List ℕ
  | 0, _ => []
  | fuel + 1, c =>
    c :: match m.next V c with
      | none => []
      | some c => chainFrom m V fuel c

def Dir.chain (m : Mount) (V : Volume) (d : Dir) : List ℕ :=
  if d.root then [] else chainFrom m V m.totalClusters d.cluster

lemma chainFrom_eq {m : Mount} {V : Volume} {fuel c : ℕ} {cs : List ℕ} (h : IsChain m V c cs)
    (hfuel : cs.length ≤ fuel) : chainFrom m V fuel c = cs := by
  induction cs generalizing c fuel with
  | nil => cases h
  | cons x cs ih =>
    obtain rfl : c = x := Option.some.inj h.1
    obtain ⟨fuel, rfl⟩ : ∃ k, fuel = k + 1 := ⟨fuel - 1, by rw [length_cons] at hfuel; omega⟩
    rw [chainFrom]
    congr 1
    cases cs with
    | nil =>
      have hnext : m.next V c = none := h.2
      rw [hnext]
    | cons y cs =>
      have hnext : m.next V c = some y := h.2.1
      have htail : IsChain m V y (y :: cs) := ⟨rfl, h.2.2⟩
      rw [hnext]
      exact ih htail (Nat.le_of_succ_le_succ hfuel)

lemma Dir.Clusters.chain_eq {m : Mount} {V : Volume} {d : Dir} {cs : List ℕ}
    (h : d.Clusters m V cs) : d.chain m V = cs := by
  unfold Dir.Clusters at h
  unfold Dir.chain
  split at h
  · next hroot => rw [if_pos hroot, h]
  next hroot =>
  rw [if_neg hroot]
  exact chainFrom_eq h.1 (h.1.length_le h.2)

instance (m : Mount) (V : Volume) (d : Dir) (cs : List ℕ) (n : ℕ) :
    Decidable (d.Takes m V cs n) := inferInstanceAs (Decidable (_ ∨ _ ∨ _))

/-- A new name can be read back, and does not make the directory grow past unused slots. -/
def Accepts (m : Mount) (V : Volume) (d : Dir) (name : Text) : Prop :=
  findInDir m V d name = .ok none → Storable name ∧ d.Takes m V (d.chain m V) (slotCount name)

instance (m : Mount) (V : Volume) (d : Dir) (name : Text) : Decidable (Accepts m V d name) :=
  inferInstanceAs (Decidable (_ → _))

namespace DirEvent

def careful (m : Mount) (d : Dir) (V : Volume) : DirEvent → Prop
  | .create name => Accepts m V d name.text
  | .mkdir name => Accepts m V d name.text
  | .unlink _ _ => True
  | .rmdir _ => True

instance decidableCareful (m : Mount) (d : Dir) (V : Volume) (ev : DirEvent) :
    Decidable (ev.careful m d V) := by
  cases ev <;> unfold DirEvent.careful <;> infer_instance

def runCareful (m : Mount) (d : Dir) : Traced → List DirEvent → Prop
  | _, [] => True
  | t, ev :: evs => ev.careful m d t.volume ∧ runCareful m d (step m d t ev) evs

instance decidableRunCareful (m : Mount) (d : Dir) :
    (t : Traced) → (evs : List DirEvent) → Decidable (runCareful m d t evs)
  | _, [] => .isTrue trivial
  | t, ev :: evs =>
    have := decidableRunCareful m d (step m d t ev) evs
    inferInstanceAs (Decidable (_ ∧ _))

end DirEvent

def dotSlots : Option (ℕ × ℕ) → List Slot
  | none => []
  | some (self, parent) => [dotSlot self, dotDotSlot parent]

def Dir.Zeroed (m : Mount) (V : Volume) (d : Dir) (dots : Option (ℕ × ℕ)) : Prop :=
  ∃ cs k, d.Clusters m V cs ∧ (∀ c ∈ cs, V.fat c ≠ 0) ∧
    d.slots m V cs = dotSlots dots ++ List.replicate k .free

def Live.dot (c : ℕ) : Live where
  long := []
  short := padTo 11 dotName
  attr := 0x10
  cluster := c
  size := 0
  name := dotName
  long_lfn _ h := by cases h
  visible := rfl
  reads l := entryName_reset l _
  lists l := by simp; decide

def Live.dotDot (c : ℕ) : Live where
  long := []
  short := padTo 11 dotDotName
  attr := 0x10
  cluster := c
  size := 0
  name := dotDotName
  long_lfn _ h := by cases h
  visible := rfl
  reads l := entryName_reset l _
  lists l := by simp; decide

def dotEntries : Option (ℕ × ℕ) → List (ℕ × Live)
  | none => []
  | some (self, parent) => [(0, .dot self), (1, .dotDot parent)]

def dotSegments : Option (ℕ × ℕ) → List Segment
  | none => []
  | some (self, parent) => [.live (.dot self), .live (.dotDot parent)]

variable {m : Mount} {V V' : Volume} {d : Dir} {dots : Option (ℕ × ℕ)} {cs cs' : List ℕ}
  {es zs : List (ℕ × Live)} {S : Names}

lemma Dir.Zeroed.holds (h : d.Zeroed m V dots) : ∃ cs, d.Holds m V cs (dotEntries dots) := by
  obtain ⟨cs, k, hclusters, halloc, hslots⟩ := h
  refine ⟨cs, dotSegments dots, k, ⟨hclusters, halloc, ?_⟩, ?_⟩
  · rw [hslots]
    cases dots <;> rfl
  · cases dots <;> rfl

/-- The entries `zs`, besides the dot entries, are the names in `S`. A directory has one cluster
that belongs to nothing else. -/
structure Tracks (m : Mount) (d : Dir) (dots : Option (ℕ × ℕ)) (V : Volume) (S : Names)
    (cs : List ℕ) (es zs : List (ℕ × Live)) : Prop where
  holds : d.Holds m V cs es
  perm : es.Perm (dotEntries dots ++ zs)
  named : ∀ p ∈ zs, isDots p.2.name = false ∧ '/' ∉ foldCase p.2.name
  nodup : (zs.map fun p => foldCase p.2.name).Nodup
  recorded : ∀ p ∈ zs, ∃ f, S (foldCase p.2.name) = some f ∧ f.Same (found m d cs p)
  present : ∀ n f, S n = some f → ∃ p ∈ zs, foldCase p.2.name = n
  heads : ∀ p ∈ zs, p.2.cluster = 0 ∨
    m.IsCluster p.2.cluster ∧ V.fat p.2.cluster = m.fatType.endMarker ∧ p.2.cluster ∉ cs
  apart : zs.Pairwise fun p q => p.2.cluster = q.2.cluster → p.2.cluster = 0

lemma nameEq_foldCase {a b : Text} : nameEq a b = true ↔ foldCase a = foldCase b := nameEq_iff

lemma isDots_congr {a b : Text} (h : foldCase a = foldCase b) : isDots a = isDots b := by
  have heq : nameEq a b = true := nameEq_foldCase.mpr h
  unfold isDots
  rw [nameEq_trans heq, nameEq_trans heq]

lemma dotEntries_dots {p : ℕ × Live} (hp : p ∈ dotEntries dots) : isDots p.2.name = true := by
  cases dots with
  | none => cases hp
  | some ab =>
    simp only [dotEntries, mem_cons, not_mem_nil, or_false] at hp
    rcases hp with rfl | rfl <;> rfl

namespace Tracks

variable {target : Text} {p : ℕ × Live} {c : ℕ}

section

variable (h : Tracks m d dots V S cs es zs)
include h

lemma mem_iff (hp : isDots p.2.name = false) : p ∈ es ↔ p ∈ zs := by
  rw [h.perm.mem_iff, mem_append]
  constructor
  · rintro (hdot | hz)
    · rw [dotEntries_dots hdot] at hp
      cases hp
    · exact hz
  · exact .inr

lemma of_name {n : Text} {f : Found} (hf : S n = some f) :
    ∃ p ∈ zs, foldCase p.2.name = n ∧ f.Same (found m d cs p) := by
  obtain ⟨p, hp, rfl⟩ := h.present n f hf
  obtain ⟨f', hf', hsame⟩ := h.recorded p hp
  exact ⟨p, hp, rfl, Option.some.inj (hf'.symm.trans hf) ▸ hsame⟩

lemma lookup_cases (ht : isDots target = false) :
    (∃ p ∈ zs, ∃ f, foldCase p.2.name = foldCase target ∧ lookup target es = some p ∧
      S (foldCase target) = some f ∧ f.Same (found m d cs p)) ∨
    lookup target es = none ∧ S (foldCase target) = none ∧
      ∀ p ∈ zs, foldCase p.2.name ≠ foldCase target := by
  unfold lookup
  cases hfind : es.find? fun p => nameEq p.2.name target with
  | some p =>
    have heq := find?_some hfind
    have hname := nameEq_foldCase.mp heq
    have hp := (isDots_congr hname).trans ht
    have hz := (h.mem_iff hp).mp (mem_of_find?_eq_some hfind)
    obtain ⟨f, hf, hsame⟩ := h.recorded p hz
    exact .inl ⟨p, hz, f, hname, rfl, hname ▸ hf, hsame⟩
  | none =>
    have hnew : ∀ p ∈ zs, foldCase p.2.name ≠ foldCase target := fun p hp hname =>
      find?_eq_none.mp hfind p ((h.mem_iff (h.named p hp).1).mpr hp) (nameEq_foldCase.mpr hname)
    refine .inr ⟨rfl, Option.eq_none_iff_forall_ne_some.mpr fun f hf => ?_, hnew⟩
    obtain ⟨p, hp, hpn⟩ := h.present _ f hf
    exact hnew p hp hpn

lemma found_eq (hext : d.Extends m cs cs' V V')
    (hp : p ∈ zs) : found m d cs' p = found m d cs p := by
  have hlt := h.holds.index_lt ((h.mem_iff (h.named p hp).1).mpr hp)
  unfold found
  rw [Dir.place_of_prefix hext.chain hlt]

end

lemma endMarker_ne_zero (t : FatType) : t.endMarker ≠ 0 := by cases t <;> decide

lemma head_extends (hext : d.Extends m cs cs' V V')
    (hc : c = 0 ∨ m.IsCluster c ∧ V.fat c = m.fatType.endMarker ∧ c ∉ cs) :
    c = 0 ∨ m.IsCluster c ∧ V'.fat c = m.fatType.endMarker ∧ c ∉ cs' := by
  refine hc.imp_right fun ⟨hc, hfat, hn⟩ => ?_
  have hn' : c ∉ cs' := fun hmem => endMarker_ne_zero _ (hfat ▸ (hext.fresh c hmem hn).2)
  exact ⟨hc, by rw [hext.fat c hn', hfat], hn'⟩

lemma extend (h : Tracks m d dots V S cs es zs) (hkept : d.Kept m cs V es V') :
    ∃ cs', Tracks m d dots V' S cs' es zs := by
  obtain ⟨cs', hholds, hext⟩ := hkept
  refine ⟨cs', hholds, h.perm, h.named, h.nodup, ?_, h.present, ?_, h.apart⟩
  · intro p hp
    rw [h.found_eq hext hp]
    exact h.recorded p hp
  · exact fun p hp => head_extends hext (h.heads p hp)

lemma insert {name : Text} {attr : UInt8} {cluster size : ℕ} {e : Found}
    (h : Tracks m d dots V S cs es zs) (hadd : d.Added m cs V es name attr cluster size e V')
    (hname : isDots name = false) (hslash : '/' ∉ foldCase name)
    (hnew : ∀ p ∈ zs, foldCase p.2.name ≠ foldCase name)
    (hhead : cluster = 0 ∨ m.IsCluster cluster ∧ V.fat cluster = m.fatType.endMarker ∧
      cluster ∉ cs) (hapart : ∀ p ∈ zs, cluster = p.2.cluster → cluster = 0) :
    ∃ cs' es' zs', Tracks m d dots V'
      (S.insert name { e with attr := attr, cluster := cluster, size := size }) cs' es' zs' := by
  obtain ⟨cs', es₁, es₂, i, x, rfl, hholds, hext, rfl, rfl, rfl, hx, hsame⟩ := hadd
  have hfold := nameEq_foldCase.mp hx
  refine ⟨cs', es₁ ++ (i, x) :: es₂, (i, x) :: zs, hholds, ?_, forall_mem_cons.mpr ⟨?_, h.named⟩,
    ?_, forall_mem_cons.mpr ⟨?_, fun p hp => ?_⟩, ?_, forall_mem_cons.mpr
      ⟨head_extends hext hhead, fun p hp => head_extends hext (h.heads p hp)⟩,
    pairwise_cons.mpr ⟨hapart, h.apart⟩⟩
  · calc (es₁ ++ (i, x) :: es₂).Perm ((i, x) :: (es₁ ++ es₂)) := perm_middle
      _ |>.Perm ((i, x) :: (dotEntries dots ++ zs)) := h.perm.cons _
      _ |>.Perm (dotEntries dots ++ (i, x) :: zs) := perm_middle.symm
  · exact ⟨(isDots_congr hfold).trans hname, by rwa [hfold]⟩
  · rw [map_cons, nodup_cons]
    refine ⟨fun hmem => ?_, h.nodup⟩
    obtain ⟨p, hp, hpn⟩ := mem_map.mp hmem
    exact hnew p hp (hpn.trans hfold)
  · rw [hfold]
    exact ⟨_, update_self _ _ _, rfl, rfl, rfl, hsame.dir, hsame.sector, hsame.index, hsame.entry⟩
  · rw [h.found_eq hext hp]
    obtain ⟨f, hf, hfs⟩ := h.recorded p hp
    exact ⟨f, (update_of_ne (hnew p hp) _ _).trans hf, hfs⟩
  intro n f hf
  by_cases hn : n = foldCase name
  · exact ⟨(i, x), .head _, hfold.trans hn.symm⟩
  rw [Names.insert, update_of_ne hn] at hf
  obtain ⟨p, hp, hpn⟩ := h.present n f hf
  exact ⟨p, .tail _ hp, hpn⟩

lemma erase {zs₁ zs₂ es₁ es₂ : List (ℕ × Live)} {i : ℕ} {x : Live} {name : Text} {ks : List ℕ}
    (h : Tracks m d dots V S cs (es₁ ++ (i, x) :: es₂) (zs₁ ++ (i, x) :: zs₂))
    (hholds : d.Holds m V' cs (es₁ ++ es₂)) (hname : foldCase x.name = foldCase name)
    (hdrop : d.Dropped m cs ks V V') (hks : ∀ k ∈ ks, k = x.cluster ∧ k ≠ 0) :
    Tracks m d dots V' (S.erase name) cs (es₁ ++ es₂) (zs₁ ++ zs₂) := by
  have hmem : ∀ p ∈ zs₁ ++ zs₂, p ∈ zs₁ ++ (i, x) :: zs₂ := fun p hp =>
    perm_middle.mem_iff.mpr (.tail _ hp)
  have hnodup := (perm_middle.map fun p : ℕ × Live => foldCase p.2.name).nodup_iff.mp h.nodup
  have hsymm : ∀ {p q : ℕ × Live}, (p.2.cluster = q.2.cluster → p.2.cluster = 0) →
      q.2.cluster = p.2.cluster → q.2.cluster = 0 := fun hpq heq => heq.trans (hpq heq.symm)
  have hapart := (pairwise_middle hsymm).mp h.apart
  rw [map_cons, nodup_cons] at hnodup
  rw [pairwise_cons] at hapart
  have hne : ∀ p ∈ zs₁ ++ zs₂, foldCase p.2.name ≠ foldCase name := by
    intro p hp heq
    exact hnodup.1 (mem_map.mpr ⟨p, hp, heq.trans hname.symm⟩)
  constructor
  · exact hholds
  · have hperm := h.perm.trans (perm_middle.append_left (dotEntries dots))
    exact (perm_middle.symm.trans (hperm.trans perm_middle)).cons_inv
  · exact fun p hp => h.named p (hmem p hp)
  · exact hnodup.2
  · intro p hp
    obtain ⟨f, hf, hsame⟩ := h.recorded p (hmem p hp)
    exact ⟨f, (update_of_ne (hne p hp) _ _).trans hf, hsame⟩
  · intro n f hf
    by_cases hn : n = foldCase name
    · rw [hn, Names.erase, update_self] at hf
      cases hf
    rw [Names.erase, update_of_ne hn] at hf
    obtain ⟨p, hp, hpn⟩ := h.present n f hf
    rcases mem_cons.mp (perm_middle.mem_iff.mp hp) with rfl | hp
    · exact absurd (hpn.symm.trans hname) hn
    · exact ⟨p, hp, hpn⟩
  · intro p hp
    rcases h.heads p (hmem p hp) with h0 | ⟨hc, hfat, hn⟩
    · exact .inl h0
    refine .inr ⟨hc, ?_, hn⟩
    have hno : p.2.cluster ∉ ks := by
      intro hk
      obtain ⟨heq, hnz⟩ := hks _ hk
      exact hnz (heq.trans (hapart.1 p hp heq.symm))
    rw [hdrop.fat, ← hfat]
    exact if_neg hno
  · exact hapart.2

lemma withDir {parent : ℕ} (h : Tracks m d dots V S cs es zs) (hc : m.IsCluster c)
    (hfree : V.fat c = 0) : Tracks m d dots (m.withDir V c parent) S cs es zs :=
  { h with
    holds := h.holds.withDir hc hfree
    heads p hp := by
      rcases h.heads p hp with h0 | ⟨hp, hfat, hn⟩
      · exact .inl h0
      refine .inr ⟨hp, ?_, hn⟩
      have hne : p.2.cluster ≠ c := fun heq => endMarker_ne_zero _ (hfat ▸ heq ▸ hfree)
      rw [withDir_fat, update_of_ne hne, hfat] }

lemma owned (h : Tracks m d dots V S cs es zs) (hp : p ∈ zs) :
    ∃ ks, Owned m V p.2.cluster ks ∧ (∀ k ∈ ks, k ∉ cs) ∧ ∀ k ∈ ks, k = p.2.cluster ∧ k ≠ 0 := by
  unfold Owned
  rcases h.heads p hp with h0 | ⟨hc, hfat, hn⟩
  · refine ⟨[], ?_, forall_mem_nil _, forall_mem_nil _⟩
    rw [h0]
    rfl
  have hsingle : ∀ k ∈ [p.2.cluster], k = p.2.cluster := fun k hk => mem_singleton.mp hk
  have htwo := hc.1
  refine ⟨[p.2.cluster], ?_, ?_, ?_⟩
  · rw [if_neg (not_lt.mpr htwo)]
    exact ⟨⟨rfl, next_endMarker hfat⟩, fun k hk => hsingle k hk ▸ hc⟩
  · exact fun k hk => hsingle k hk ▸ hn
  · exact fun k hk => ⟨hsingle k hk, by rw [hsingle k hk]; omega⟩

end Tracks

def Consistent (m : Mount) (d : Dir) (dots : Option (ℕ × ℕ)) (t : Traced) : Prop :=
  ∃ cs es zs, Tracks m d dots t.volume t.names cs es zs

lemma toLower_slash {c : Char} (h : c.toLower = '/') : c = '/' := by
  unfold Char.toLower at h
  split at h
  · next hup =>
    have hlo : 65 ≤ c.val.toNat := hup.1
    have hhi : c.val.toNat ≤ 90 := hup.2
    have hsum : (c.val.toNat + 32) % 2 ^ 32 = 47 := congrArg Char.toNat h
    omega
  · exact h

lemma Leaf.no_slash_fold (name : Leaf) : '/' ∉ foldCase name.text := by
  intro h
  obtain ⟨c, hc, hlow⟩ := mem_map.mp h
  exact name.no_slash (toLower_slash hlow ▸ hc)

lemma Component.fits_lfn (name : Component) : (name.text.map Char.utf8Size).sum ≤ lfnMax :=
  le_trans name.fits (by decide)

section Steps

variable {t : Traced} {name : Leaf}

lemma Accepts.takes {name : Text} (hacc : Accepts m V d name) (h : d.Holds m V cs es)
    (hnone : lookup name es = none) : Storable name ∧ d.Takes m V cs (slotCount name) := by
  have := hacc (by rw [findInDir_eq h, hnone]; rfl)
  rwa [h.clusters.chain_eq] at this

lemma Consistent.create (h : Consistent m d dots t) (hacc : Accepts m t.volume d name.text) :
    Consistent m d dots (DirEvent.step m d t (.create name)) := by
  obtain ⟨cs, es, zs, h⟩ := h
  have hspec : wp (createEntry m d name.text 0 0 0 false) _ _ t.volume :=
    createEntry_spec h.holds name.fits_lfn rfl (hacc.takes h.holds)
  rw [DirEvent.step]
  cases hrun : createEntry m d name.text 0 0 0 false t.volume with
  | mk r V' =>
    rw [wp, hrun] at hspec
    cases r with
    | error e =>
      obtain ⟨cs', h'⟩ := h.extend hspec
      exact ⟨cs', es, zs, h'⟩
    | ok e =>
      rcases hspec with ⟨-, rfl, q, hq, -⟩ | ⟨hnone, hadd⟩
      · -- the name is there already
        rcases h.lookup_cases name.not_dots with ⟨p, -, f, -, -, hf, -⟩ | ⟨hnone, -⟩
        · dsimp only
          rw [if_neg (hf ▸ Option.some_ne_none f)]
          exact ⟨cs, es, zs, h⟩
        · cases hnone.symm.trans hq
      rcases h.lookup_cases name.not_dots with ⟨p, -, f, -, hp, -⟩ | ⟨-, hfresh, hnew⟩
      · cases hnone.symm.trans hp
      dsimp only
      rw [if_pos hfresh]
      exact h.insert hadd name.not_dots name.no_slash_fold hnew (.inl rfl) fun _ _ _ => rfl

lemma Consistent.mkdir (h : Consistent m d dots t) (hacc : Accepts m t.volume d name.text) :
    Consistent m d dots (DirEvent.step m d t (.mkdir name)) := by
  obtain ⟨cs, es, zs, h⟩ := h
  have hspec := createDirectory_spec h.holds name.fits_lfn (hacc.takes h.holds)
  rw [DirEvent.step]
  cases hrun : createDirectory m d name.text t.volume with
  | mk r V' =>
    rw [wp, hrun] at hspec
    cases r with
    | error e =>
      rcases hspec with rfl | ⟨c, hc, hfree, hkept⟩
      · exact ⟨cs, es, zs, h⟩
      · obtain ⟨cs', h'⟩ := (h.withDir hc hfree).extend hkept
        exact ⟨cs', es, zs, h'⟩
    | ok e =>
      obtain ⟨c, hc, hfree, hnone, hadd⟩ := hspec
      rcases h.lookup_cases name.not_dots with ⟨p, -, f, -, hp, -⟩ | ⟨-, -, hnew⟩
      · cases hnone.symm.trans hp
      obtain rfl : e.cluster = c := hadd.cluster_eq
      refine (h.withDir hc hfree).insert hadd name.not_dots name.no_slash_fold hnew (.inr
        ⟨hc, update_self _ _ _, fun hmem => h.holds.allocated _ hmem hfree⟩) ?_
      intro p hp heq
      rcases h.heads p hp with h0 | ⟨-, hfat, -⟩
      · exact heq.trans h0
      · exact absurd (hfat ▸ heq ▸ hfree) (Tracks.endMarker_ne_zero _)

lemma Tracks.remove (h : Tracks m d dots V S cs es zs) (isRmdir : Bool) (open? : Found → Bool) :
    wp (removeNamed m d isRmdir open? name.text)
      (fun _ V' => ∃ es' zs', Tracks m d dots V' (S.erase name.text) cs es' zs')
      (fun V' => V' = V) V := by
  unfold removeNamed
  simp only [wp_bind, wp_get, wp_ofExcept, findInDir_eq h.holds]
  rcases h.lookup_cases name.not_dots with ⟨p, hp, -, hpn, hlook, -⟩ | ⟨hnone, -⟩
  · rw [hlook]
    obtain ⟨zs₁, zs₂, rfl⟩ := append_of_mem hp
    obtain ⟨es₁, es₂, rfl⟩ := append_of_mem ((h.mem_iff (h.named p hp).1).mpr hp)
    obtain ⟨ks, hks, hcs, hone⟩ := h.owned hp
    refine wp_mono (removeEntry_spec h.holds hks hcs) ?_ fun _ hV => hV
    rintro - V' ⟨hholds, hdrop⟩
    exact ⟨_, _, h.erase hholds hpn hdrop hone⟩
  · rw [hnone]
    trivial

lemma Consistent.remove (h : Consistent m d dots t) (isRmdir : Bool) (open? : Found → Bool) :
    Consistent m d dots (match removeNamed m d isRmdir open? name.text t.volume with
      | (.ok _, V) => ⟨V, t.names.erase name.text⟩
      | (.error _, V) => ⟨V, t.names⟩) := by
  obtain ⟨cs, es, zs, h⟩ := h
  have hspec : wp (removeNamed m d isRmdir open? name.text) _ _ t.volume := h.remove isRmdir open?
  cases hrun : removeNamed m d isRmdir open? name.text t.volume with
  | mk r V' =>
    rw [wp, hrun] at hspec
    cases r with
    | error e =>
      subst hspec
      exact ⟨cs, es, zs, h⟩
    | ok u => exact ⟨cs, hspec⟩

lemma Consistent.step {ev : DirEvent} (h : Consistent m d dots t)
    (hev : ev.careful m d t.volume) : Consistent m d dots (DirEvent.step m d t ev) := by
  cases ev with
  | create name => exact h.create hev
  | mkdir name => exact h.mkdir hev
  | unlink name open? => exact h.remove false open?
  | rmdir name => exact h.remove true _

lemma Consistent.run {evs : List DirEvent} (h : Consistent m d dots t)
    (hevs : DirEvent.runCareful m d t evs) : Consistent m d dots (DirEvent.run m d t evs) := by
  induction evs generalizing t with
  | nil => exact h
  | cons ev evs ih => exact ih (h.step hevs.1) hevs.2

end Steps

def Reports : Option Found → Option Found → Prop
  | some e, some f => f.Same e
  | none, none => True
  | _, _ => False

def lineOf (name : Text) (isDir : Bool) : Text := name ++ if isDir then ['/'] else []

def dotLines : Option (ℕ × ℕ) → List Text
  | none => []
  | some _ => [lineOf dotName true, lineOf dotDotName true]

/-- The directory is the map `S` for lookups, listings and the test of emptiness. -/
structure Dir.IsMap (m : Mount) (V : Volume) (d : Dir) (dots : Option (ℕ × ℕ)) (S : Names) :
    Prop where
  find : ∀ target, isDots target = false →
    ∃ o, findInDir m V d target = .ok o ∧ Reports o (S (foldCase target))
  written : ∀ name f, S name = some f → ∃ short,
    V.slot (f.place.lba + f.place.sector) f.place.index = .short short f.attr f.cluster f.size
  lists : ∃ lines, readdir m V d = .ok lines ∧ (lines.map foldCase).Nodup ∧
    ∀ line, line ∈ lines.map foldCase ↔
      line ∈ dotLines dots ∨ ∃ name f, S name = some f ∧ line = lineOf name f.isDir
  empty : ∃ b, dirIsEmpty m V d = .ok b ∧ (b = true ↔ ∀ name, S name = none)
  /-- No rmdir takes the directory away while it holds a name. -/
  stays : ∀ e open?, d.root = false → e.cluster = d.cluster → (∃ name, S name ≠ none) →
    ∃ err, removeEntry m true open? e V = (.error err, V)

lemma takeWhile_lineOf {name : Text} {isDir : Bool} (h : '/' ∉ name) :
    (lineOf name isDir).takeWhile (· ≠ '/') = name := by
  have hall : ∀ c ∈ name, (decide (c ≠ '/')) = true := by
    intro c hc
    rw [decide_eq_true_eq]
    rintro rfl
    exact h hc
  unfold lineOf
  rw [takeWhile_append_of_pos hall]
  cases isDir <;> simp

lemma foldCase_line (e : Live) :
    foldCase e.line = lineOf (foldCase e.name) (decide (e.attr &&& 0x10 ≠ 0)) := by
  unfold line lineOf foldCase
  rw [map_append]
  by_cases h : e.attr &&& 0x10 ≠ 0
  · rw [if_pos h, if_pos (decide_eq_true h)]
    rfl
  · rw [if_neg h, if_neg (by simpa using h)]
    rfl

lemma dot_line (c : ℕ) : foldCase (dot c).line = lineOf dotName true :=
  (by decide : foldCase (dotName ++ if (0x10 : UInt8) &&& 0x10 ≠ 0 then ['/'] else []) =
    lineOf dotName true)

lemma dotDot_line (c : ℕ) : foldCase (dotDot c).line = lineOf dotDotName true :=
  (by decide : foldCase (dotDotName ++ if (0x10 : UInt8) &&& 0x10 ≠ 0 then ['/'] else []) =
    lineOf dotDotName true)

namespace Tracks

variable (h : Tracks m d dots V S cs es zs)
include h

lemma names_nodup : (es.map fun p => foldCase p.2.name).Nodup := by
  rw [(h.perm.map _).nodup_iff, map_append, nodup_append]
  refine ⟨?_, h.nodup, ?_⟩
  · cases dots with
    | none => exact nodup_nil
    | some ab => exact (by decide : [foldCase dotName, foldCase dotDotName].Nodup)
  rintro n hn k hk rfl
  obtain ⟨p, hp, rfl⟩ := mem_map.mp hn
  obtain ⟨q, hq, hpq⟩ := mem_map.mp hk
  have hdots := dotEntries_dots hp
  rw [← isDots_congr hpq, (h.named q hq).1] at hdots
  cases hdots

lemma no_slash {p : ℕ × Live} (hp : p ∈ es) : '/' ∉ foldCase p.2.name := by
  rcases mem_append.mp (h.perm.mem_iff.mp hp) with hp | hp
  · cases dots with
    | none => cases hp
    | some ab =>
      simp only [dotEntries, mem_cons, not_mem_nil, or_false] at hp
      rcases hp with rfl | rfl
      · exact (by decide : '/' ∉ foldCase dotName)
      · exact (by decide : '/' ∉ foldCase dotDotName)
  · exact (h.named p hp).2

lemma lines_nodup : ((es.map fun p => p.2.line).map foldCase).Nodup := by
  apply List.Nodup.of_map (List.takeWhile (· ≠ '/'))
  have hmap : ((es.map fun p => p.2.line).map foldCase).map (List.takeWhile (· ≠ '/')) =
      es.map fun p => foldCase p.2.name := by
    rw [map_map, map_map]
    apply map_congr_left
    intro p hp
    simp only [comp_apply]
    rw [foldCase_line, takeWhile_lineOf (h.no_slash hp)]
  rw [hmap]
  exact h.names_nodup

lemma mem_lines (line : Text) : line ∈ (es.map fun p => p.2.line).map foldCase ↔
      line ∈ dotLines dots ∨ ∃ name f, S name = some f ∧ line = lineOf name f.isDir := by
  have hdots : (dotEntries dots).map (fun p => foldCase p.2.line) = dotLines dots := by
    cases dots with
    | none => rfl
    | some ab => exact congrArg₂ (fun a b => [a, b]) (dot_line ab.1) (dotDot_line ab.2)
  have hzs : line ∈ zs.map (fun p => foldCase p.2.line) ↔
      ∃ name f, S name = some f ∧ line = lineOf name f.isDir := by
    constructor
    · rintro hline
      obtain ⟨p, hp, rfl⟩ := mem_map.mp hline
      obtain ⟨f, hf, hsame⟩ := h.recorded p hp
      refine ⟨_, f, hf, ?_⟩
      rw [foldCase_line, Found.isDir, hsame.attr]
      rfl
    rintro ⟨name, f, hf, rfl⟩
    obtain ⟨p, hp, rfl, hsame⟩ := h.of_name hf
    refine mem_map.mpr ⟨p, hp, ?_⟩
    rw [foldCase_line, Found.isDir, hsame.attr]
    rfl
  rw [map_map, ((h.perm.map _).mem_iff), map_append, mem_append, ← hzs, ← hdots]
  rfl

lemma isMap : d.IsMap m V dots S := by
  have hempty : (es.all fun p => isDots p.2.name) = true ↔ ∀ name, S name = none := by
    rw [all_eq_true]
    constructor
    · intro hall name
      cases hf : S name with
      | none => rfl
      | some f =>
        obtain ⟨p, hp, -⟩ := h.present name f hf
        have := hall p ((h.mem_iff (h.named p hp).1).mpr hp)
        cases (h.named p hp).1.symm.trans this
    intro hnone p hp
    rcases mem_append.mp (h.perm.mem_iff.mp hp) with hp | hp
    · exact dotEntries_dots hp
    obtain ⟨f, hf, -⟩ := h.recorded p hp
    rw [hnone] at hf
    cases hf
  constructor
  · intro target ht
    refine ⟨_, findInDir_eq h.holds, ?_⟩
    rcases h.lookup_cases ht with ⟨p, -, f, -, hlook, hf, hsame⟩ | ⟨hnone, hfresh, -⟩
    · rwa [hlook, hf]
    · rw [hnone, hfresh]
      trivial
  · intro name f hf
    obtain ⟨p, hp, rfl, hsame⟩ := h.of_name hf
    refine ⟨p.2.short, ?_⟩
    rw [hsame.sector, hsame.index, hsame.attr, hsame.cluster, hsame.size]
    exact h.holds.at_entry ((h.mem_iff (h.named p hp).1).mpr hp)
  · exact ⟨_, readdir_eq h.holds, h.lines_nodup, h.mem_lines⟩
  · exact ⟨_, dirIsEmpty_eq h.holds, hempty⟩
  rintro e open? hroot hcluster ⟨name, hname⟩
  have hfalse : (es.all fun p => isDots p.2.name) = false := by
    rw [← Bool.not_eq_true, hempty]
    exact fun hall => hname (hall name)
  have hd : (⟨false, e.cluster⟩ : Dir) = d := by
    rw [hcluster, ← hroot]
  have hwp : wp (removeEntry m true open? e) (fun _ _ => False) (fun V' => V' = V) V := by
    unfold removeEntry
    rw [if_pos rfl, hd]
    simp only [wp_bind, wp_require, wp_get, wp_ofExcept, dirIsEmpty_eq h.holds, hfalse]
    split
    · trivial
    · trivial
  obtain ⟨err, V', hrun, rfl⟩ := exists_error hwp
  exact ⟨err, hrun⟩

end Tracks

/-- Every run of creations and removals in a directory whose slots were zeroed keeps it a finite
map, as long as created names can be read back and the directory does not grow while its last slot
is unused. -/
theorem directory_is_finite_map (m : Mount) (d : Dir) (dots : Option (ℕ × ℕ)) (V : Volume)
    (evs : List DirEvent) (hstart : d.Zeroed m V dots)
    (hevs : DirEvent.runCareful m d ⟨V, fun _ => none⟩ evs) :
    d.IsMap m (DirEvent.run m d ⟨V, fun _ => none⟩ evs).volume dots
      (DirEvent.run m d ⟨V, fun _ => none⟩ evs).names := by
  obtain ⟨cs, hholds⟩ := hstart.holds
  have h0 : Consistent m d dots ⟨V, fun _ => none⟩ := by
    refine ⟨cs, dotEntries dots, [], hholds, by simp, ?_, nodup_nil, ?_, nofun, ?_, .nil⟩
    all_goals exact forall_mem_nil _
  obtain ⟨cs', es, zs, h⟩ := h0.run hevs
  exact h.isMap

def smallMount : Mount where
  fatType := .fat16
  bytesPerSector := 512
  sectorsPerCluster := 1
  rootEntryCount := 16
  rootDirLba := 1
  rootDirSectors := 1
  rootCluster := 0
  totalClusters := 6
  sector_pos := by decide
  sector_dvd := by decide
  cluster_pos := by decide
  rootDirLba_pos := by decide
  root_fits := by decide
  numbers := by decide

def smallVolume : Volume where
  fat c :=
  if c = 2 then 0xFFFF else 0
  slot lba index := if lba = 2 then [dotSlot 2, dotDotSlot 0].getD index .free else .free
  byte _ _ := 0

def smallDir : Dir := ⟨false, 2⟩

lemma smallDir_zeroed : smallDir.Zeroed smallMount smallVolume (some (2, 0)) := by
  refine ⟨[2], 14, ?_, by decide, by decide⟩
  exact ⟨⟨rfl, (by decide : smallMount.next smallVolume 2 = none)⟩, by decide⟩

lemma no_nul_of_all {text : Text} (h : text.all (fun c => c.toNat != 0) = true) :
    ∀ c ∈ text, c.toNat ≠ 0 := by
  intro c hc
  exact bne_iff_ne.mp (all_eq_true.mp h c hc)

def longLeaf : Leaf where
  text := List.replicate 127 'a'
  ne_nil := by decide
  no_slash := by decide +kernel
  no_nul := no_nul_of_all (by decide +kernel)
  fits := by decide +kernel
  not_dots := by decide +kernel

def fourLeaf : Leaf where
  text := List.replicate 27 'b'
  ne_nil := by decide
  no_slash := by decide +kernel
  no_nul := no_nul_of_all (by decide +kernel)
  fits := by decide +kernel
  not_dots := by decide +kernel

def paddedLeaf : Leaf where
  text := ['a', Char.ofNat 0xFFFF, 'b']
  ne_nil := by decide
  no_slash := by decide +kernel
  no_nul := no_nul_of_all (by decide +kernel)
  fits := by decide +kernel
  not_dots := by decide +kernel

def smallRun : List DirEvent :=
  [.create longLeaf, .mkdir
      ⟨⟨['S', 'u', 'b'], by decide, by decide, no_nul_of_all rfl, by decide⟩, by decide⟩,
    .create longLeaf, .unlink longLeaf fun _ => false, .create fourLeaf]

theorem directory_is_finite_map_small :
    DirEvent.runCareful smallMount smallDir ⟨smallVolume, fun _ => none⟩ smallRun ∧
      smallDir.IsMap smallMount
        (DirEvent.run smallMount smallDir ⟨smallVolume, fun _ => none⟩ smallRun).volume
          (some (2, 0))
        (DirEvent.run smallMount smallDir ⟨smallVolume, fun _ => none⟩ smallRun).names := by
  have hevs : DirEvent.runCareful smallMount smallDir ⟨smallVolume, fun _ => none⟩ smallRun := by
    decide +kernel
  exact ⟨hevs, directory_is_finite_map _ _ _ _ _ smallDir_zeroed hevs⟩

/-- Three slots are left; a name of four goes into a new cluster behind them, where no scan comes.
-/
def hiddenRun : Traced := DirEvent.run smallMount smallDir ⟨smallVolume, fun _ => none⟩
  [.create longLeaf, .create fourLeaf, .unlink longLeaf fun _ => false]

def cutRun : Traced := DirEvent.run smallMount smallDir ⟨smallVolume, fun _ => none⟩
  [.create paddedLeaf]

/-- The directory is removed as empty although it has a child, and a name with the padding character
is not found. -/
theorem grown_name_is_hidden : smallDir.Zeroed smallMount smallVolume (some (2, 0)) ∧
      (hiddenRun.names (foldCase fourLeaf.text)).isSome = true ∧
      findInDir smallMount hiddenRun.volume smallDir fourLeaf.text = .ok none ∧
      dirIsEmpty smallMount hiddenRun.volume smallDir = .ok true ∧
      (removeEntry smallMount true (fun _ => false) ⟨0x10, 2, 0, ⟨1, 0, 0, 0⟩, ⟨true, 0⟩⟩
        hiddenRun.volume).1 = .ok () ∧ (cutRun.names (foldCase paddedLeaf.text)).isSome = true ∧
      findInDir smallMount cutRun.volume smallDir paddedLeaf.text = .ok none := by
  refine ⟨smallDir_zeroed, ?_, ?_, ?_, ?_, ?_, ?_⟩
  all_goals decide +kernel

end Fat
