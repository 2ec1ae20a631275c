import Mathlib.Data.List.GetD
import Mathlib.Data.List.Perm.Subperm
import Mathlib.Data.List.Range
import WasmOS.Chain.Basic
import WasmOS.Fat.Name
import WasmOS.Procedure.Basic

/-! # FAT volumes and their directories

The table links clusters into chains. A directory is the fixed root region or a chain, and a scan
goes over its slots run by run; on an intact chain that is one pass over all slots in order.
-/

open List Nat

namespace Fat

open Procedure Function

inductive FatType
  | fat12
  | fat16
  | fat32
  deriving DecidableEq

namespace FatType

/-- `fat_end_of_chain_marker`. -/
def endMarker : FatType → ℕ
  | fat12 => 0xFFF
  | fat16 => 0xFFFF
  | fat32 => 0x0FFFFFFF

def endMin : FatType → ℕ
  | fat12 => 0xFF8
  | fat16 => 0xFFF8
  | fat32 => 0x0FFFFFF8

def badMark (t : FatType) : ℕ := t.endMin - 1

end FatType

/-- `fat_mount_t` as a successful mount leaves it. -/
structure Mount where
  fatType : FatType
  bytesPerSector : ℕ
  sectorsPerCluster : ℕ
  rootEntryCount : ℕ
  rootDirLba : ℕ
  rootDirSectors : ℕ
  rootCluster : ℕ
  totalClusters : ℕ
  sector_pos : 512 ≤ bytesPerSector
  sector_dvd : bytesPerSector % 32 = 0
  cluster_pos : 0 < sectorsPerCluster
  /-- The boot sector and the table stand before the root directory. -/
  rootDirLba_pos : 0 < rootDirLba
  root_fits : rootEntryCount ≤ rootDirSectors * (bytesPerSector / 32)
  /-- Every cluster number is below the marks of the table. -/
  numbers : totalClusters + 1 < fatType.badMark

structure Volume where
  fat : ℕ → ℕ
  slot : ℕ → ℕ → Slot
  byte : ℕ → ℕ → UInt8

inductive Err
  | badArgs
  | notFound
  | alreadyExists
  | notDir
  | isDir
  | notEmpty
  | noSpace
  | badName
  | corrupt
  | busy
  | isOpen
  | noFd
  | access
  | range
  deriving DecidableEq

/-- An operation of the driver. The sectors that were written stay written when it fails. -/
abbrev Task := Procedure Volume Err

/-- `fat_fatent_write`, for the numbers of clusters. -/
def setFat (c v : ℕ) : Task Unit := modify fun V => { V with fat := update V.fat c v }

namespace Mount

variable (m : Mount)

def entriesPerSector : ℕ := m.bytesPerSector / 32

def entriesPerCluster : ℕ := m.sectorsPerCluster * m.entriesPerSector

def firstDataLba : ℕ := m.rootDirLba + m.rootDirSectors

variable (c : ℕ)

/-- `fat_lba_for_cluster`, for the numbers of data clusters. -/
def lbaForCluster : ℕ := m.firstDataLba + (c - 2) * m.sectorsPerCluster

def IsCluster : Prop := 2 ≤ c ∧ c < m.totalClusters + 2

instance (c : ℕ) : Decidable (m.IsCluster c) := inferInstanceAs (Decidable (_ ∧ _))

def next (V : Volume) (c : ℕ) : Option ℕ :=
  if c < 2 then none
  else if m.fatType.endMin ≤ V.fat c ∨ V.fat c < 2 then none
  else some (V.fat c)

/-- The loop of `fat_find_free_cluster`. The cursor is cut to sixteen bits. -/
def findFreeFrom (V : Volume) : List ℕ → Except Err ℕ
  | [] => .error .noSpace
  | cursor :: cursors =>
    let c := cursor % 2 ^ 16
    if c < 2 then .error .corrupt
    else if V.fat c = 0 then .ok c
    else findFreeFrom V cursors

def findFreeCluster (V : Volume) : Except Err ℕ := findFreeFrom V (List.range' 2 m.totalClusters)

/-- The loop of `fat_free_cluster_chain`. -/
def freeLoop : (fuel c : ℕ) → Task Unit
  | 0, _ => pure ()
  | fuel + 1, c =>
    if c < 2 then pure ()
    else do
      let V ← get
      setFat c 0
      match m.next V c with
      | none => pure ()
      | some c => freeLoop fuel c

/-- `fat_free_cluster_chain`. No chain is longer than there are numbers below its end marks. -/
def freeClusterChain : Task Unit := m.freeLoop m.fatType.endMin c

def InCluster (c lba : ℕ) : Prop :=
  m.lbaForCluster c ≤ lba ∧ lba < m.lbaForCluster c + m.sectorsPerCluster

instance (c lba : ℕ) : Decidable (m.InCluster c lba) := inferInstanceAs (Decidable (_ ∧ _))

def zeroCluster : Task Unit := modify fun V =>
  { V with
    slot := fun lba => if m.InCluster c lba then fun _ => .free else V.slot lba
    byte := fun lba => if m.InCluster c lba then fun _ => 0 else V.byte lba }

end Mount

section Chains

variable {m : Mount} {V V' : Volume} {c v : ℕ} {cs : List ℕ}

lemma Mount.entriesPerSector_pos (m : Mount) : 0 < m.entriesPerSector := by
  have := m.sector_pos
  unfold Mount.entriesPerSector
  omega

lemma Mount.entriesPerCluster_pos (m : Mount) : 0 < m.entriesPerCluster :=
  mul_pos m.cluster_pos m.entriesPerSector_pos

lemma Mount.next_congr (h : V'.fat c = V.fat c) : m.next V' c = m.next V c := by
  unfold Mount.next
  rw [h]

lemma Mount.next_update_of_ne {d : ℕ} (h : d ≠ c) :
    m.next { V with fat := update V.fat c v } d = m.next V d :=
  Mount.next_congr (update_of_ne h _ _)

def IsChain (m : Mount) (V : Volume) (c : ℕ) (cs : List ℕ) : Prop :=
  Chain.Path (m.next V) (some c) cs

lemma findFreeFrom_ok {cursors : List ℕ} (h : Mount.findFreeFrom V cursors = .ok c)
    (hlt : ∀ k ∈ cursors, k < m.totalClusters + 2) :
    m.IsCluster c ∧ V.fat c = 0 := by
  induction cursors with
  | nil => cases h
  | cons k cursors ih =>
    unfold Mount.findFreeFrom at h
    dsimp only at h
    split at h
    · cases h
    next hlo =>
    split at h
    · next hz =>
      cases h
      have := hlt k List.mem_cons_self
      have := Nat.mod_le k (2 ^ 16)
      exact ⟨⟨by omega, by omega⟩, hz⟩
    · exact ih h fun j hj => hlt j (.tail _ hj)

lemma findFreeCluster_ok (h : m.findFreeCluster V = .ok c) : m.IsCluster c ∧ V.fat c = 0 := by
  apply findFreeFrom_ok h
  intro k hk
  rw [List.mem_range'_1] at hk
  omega

end Chains

open Mount Procedure

/-- Where a directory starts: the fixed root region, or the first cluster of its chain. -/
structure Dir where
  root : Bool
  cluster : ℕ
  deriving DecidableEq

/-- A slot of a directory: the first sector of its run, the sector and the index within it, and the
index in the directory. -/
structure Place where
  lba : ℕ
  sector : ℕ
  index : ℕ
  entry : ℕ
  deriving DecidableEq

def Volume.at (V : Volume) (p : Place) : Slot := V.slot (p.lba + p.sector) p.index

namespace Mount

variable (m : Mount)

def dirEntryLimit (root : Bool) : ℕ :=
  if root then m.rootEntryCount else m.sectorsPerCluster * m.bytesPerSector / 32

/-- The slots of a run in the order they are scanned; `base` of them stand in earlier runs. -/
def runPlaces (root : Bool) (c base : ℕ) : List Place :=
  let lba := if root then m.rootDirLba else m.lbaForCluster c
  let sectors := if root then m.rootDirSectors else m.sectorsPerCluster
  (List.range (min (m.dirEntryLimit root) (sectors * m.entriesPerSector))).map fun i =>
    ⟨lba, i / m.entriesPerSector, i % m.entriesPerSector, base + i⟩

end Mount

/-- The scan stopped, came to the end in the state `s` after the cluster `last`, or the chain was
longer than the volume. -/
inductive Scanned (ρ σ : Type)
  | stopped (r : ρ)
  | exhausted (s : σ) (last base : ℕ)
  | corrupt

def Scanned.result {ρ σ : Type} (fin : σ → ρ) : Scanned ρ σ → Except Err ρ
  | .stopped r => .ok r
  | .exhausted s _ _ => .ok (fin s)
  | .corrupt => .error .corrupt

section Scan

variable {ρ σ : Type}

def scanRun (V : Volume) (f : σ → Place → Slot → Except ρ σ) (ps : List Place) (s : σ) :
    Except ρ σ := ps.foldlM (fun s p => f s p (V.at p)) s

/-- The scan that all directory walks share. At most `hops` clusters are followed. -/
def scanFrom (m : Mount) (V : Volume) (root : Bool) (f : σ → Place → Slot → Except ρ σ) :
    (hops c base : ℕ) → σ → Scanned ρ σ
  | hops, c, base, s =>
    match scanRun V f (m.runPlaces root c base) s with
    | .error r => .stopped r
    | .ok s =>
      if root then .exhausted s c base
      else
        match hops with
        | 0 => .corrupt
        | hops + 1 =>
          match m.next V c with
          | none => .exhausted s c base
          | some c' => scanFrom m V root f hops c' (base + m.dirEntryLimit root) s

def scanDir (m : Mount) (V : Volume) (d : Dir) (f : σ → Place → Slot → Except ρ σ) (s : σ) :
    Scanned ρ σ := scanFrom m V d.root f m.totalClusters d.cluster 0 s

def chainPlaces (m : Mount) : List ℕ → ℕ → List Place
  | [], _ => []
  | c :: cs, base => m.runPlaces false c base ++ chainPlaces m cs (base + m.entriesPerCluster)

def Dir.Clusters (m : Mount) (V : Volume) (d : Dir) (cs : List ℕ) : Prop :=
  if d.root then cs = [] else IsChain m V d.cluster cs ∧ ∀ c ∈ cs, m.IsCluster c

def Dir.places (m : Mount) (d : Dir) (cs : List ℕ) : List Place :=
  if d.root then m.runPlaces true d.cluster 0 else chainPlaces m cs 0

variable {m : Mount} {V : Volume} {d : Dir} {cs : List ℕ} {f : σ → Place → Slot → Except ρ σ}
  {s : σ}

lemma Mount.dirEntryLimit_false (m : Mount) : m.dirEntryLimit false = m.entriesPerCluster := by
  have hdvd := dvd_of_mod_eq_zero m.sector_dvd
  unfold dirEntryLimit entriesPerCluster entriesPerSector
  rw [if_neg Bool.false_ne_true, Nat.mul_div_assoc _ hdvd]

lemma Mount.runPlaces_false (m : Mount) (c base : ℕ) : m.runPlaces false c base =
    (List.range m.entriesPerCluster).map fun i =>
      ⟨m.lbaForCluster c, i / m.entriesPerSector, i % m.entriesPerSector, base + i⟩ := by
  unfold runPlaces
  rw [m.dirEntryLimit_false]
  simp [entriesPerCluster]

lemma Mount.runPlaces_true (m : Mount) (c base : ℕ) : m.runPlaces true c base =
    (List.range m.rootEntryCount).map fun i =>
      ⟨m.rootDirLba, i / m.entriesPerSector, i % m.entriesPerSector, base + i⟩ := by
  unfold runPlaces dirEntryLimit
  simp only [if_true]
  have hfits : m.rootEntryCount ≤ m.rootDirSectors * m.entriesPerSector := m.root_fits
  rw [min_eq_left hfits]

lemma scanRun_append {ps qs : List Place} : scanRun V f (ps ++ qs) s = match scanRun V f ps s with
    | .error r => .error r
    | .ok s => scanRun V f qs s := by
  unfold scanRun
  rw [foldlM_append]
  rfl

def Scanned.ofExcept (last base : ℕ) : Except ρ σ → Scanned ρ σ
  | .error r => .stopped r
  | .ok s => .exhausted s last base

lemma scanFrom_chain {c base hops : ℕ} (h : IsChain m V c (c :: cs)) (hlen : cs.length < hops) :
    scanFrom m V false f hops c base s = Scanned.ofExcept ((c :: cs).getLast (cons_ne_nil c cs))
        (base + cs.length * m.entriesPerCluster)
        (scanRun V f (chainPlaces m (c :: cs) base) s) := by
  -- the induction is on the clusters that are still to come
  induction cs generalizing c base hops s with
  | nil =>
    have hlast : m.next V c = none := h.2
    unfold scanFrom chainPlaces chainPlaces
    rw [append_nil]
    split
    · next hrun => rw [hrun]; rfl
    next hrun =>
    rw [hrun, if_neg Bool.false_ne_true]
    obtain ⟨k, rfl⟩ : ∃ k, hops = k + 1 := ⟨hops - 1, by omega⟩
    simp [hlast, Scanned.ofExcept]
  | cons c' cs ih =>
    have hnext : m.next V c = some c' := h.2.1
    obtain ⟨k, rfl⟩ : ∃ k, hops = k + 1 := ⟨hops - 1, by simp at hlen; omega⟩
    rw [chainPlaces, scanRun_append]
    unfold scanFrom
    cases hrun : scanRun V f (m.runPlaces false c base) s with
    | error r => rfl
    | ok s' =>
      dsimp only
      rw [if_neg Bool.false_ne_true, hnext]
      dsimp only
      rw [m.dirEntryLimit_false, ih ⟨rfl, h.2.2⟩ (by simpa using hlen), getLast_cons_cons,
        length_cons, succ_mul]
      congr 1
      omega

lemma IsChain.length_le {c : ℕ} (h : IsChain m V c cs) (hcs : ∀ c ∈ cs, m.IsCluster c) :
    cs.length ≤ m.totalClusters := by
  have hsub : cs ⊆ List.range' 2 m.totalClusters := by
    intro c hc
    have := hcs c hc
    rw [mem_range'_1]
    exact ⟨this.1, by have := this.2; omega⟩
  have hlen := (subperm_of_subset (Chain.Path.nodup h) hsub).length_le
  rwa [length_range'] at hlen

lemma scanDir_eq (h : d.Clusters m V cs) :
    scanDir m V d f s = Scanned.ofExcept (cs.getLastD d.cluster)
      ((cs.length - 1) * m.entriesPerCluster) (scanRun V f (d.places m cs) s) := by
  unfold scanDir Dir.places
  unfold Dir.Clusters at h
  split at h
  · next hroot =>
    subst h
    rw [hroot]
    unfold scanFrom
    rw [if_pos rfl]
    split
    · next hrun => rw [hrun]; rfl
    · next hrun => rw [hrun, if_pos rfl]; simp [Scanned.ofExcept]
  next hroot =>
  obtain ⟨hchain, hcs⟩ := h
  have hlen := hchain.length_le hcs
  cases cs with
  | nil => cases hchain
  | cons c cs =>
    obtain rfl : d.cluster = c := Option.some.inj hchain.1
    rw [Bool.not_eq_true] at hroot
    rw [hroot, if_neg Bool.false_ne_true,
      scanFrom_chain hchain (by rw [length_cons] at hlen; omega), getLastD_eq_getLast?,
      getLast?_eq_some_getLast (cons_ne_nil _ _)]
    simp

end Scan

section Places

variable {m : Mount} {V V' : Volume} {d d' : Dir} {cs cs' : List ℕ} {i j lba : ℕ}

lemma chainPlaces_eq (m : Mount) (cs : List ℕ) (base : ℕ) : chainPlaces m cs base =
    (List.range (cs.length * m.entriesPerCluster)).map fun i =>
      ⟨m.lbaForCluster (cs.getD (i / m.entriesPerCluster) 0),
        i % m.entriesPerCluster / m.entriesPerSector,
        i % m.entriesPerCluster % m.entriesPerSector, base + i⟩ := by
  have hpos := m.entriesPerCluster_pos
  induction cs generalizing base with
  | nil => simp [chainPlaces]
  | cons c cs ih =>
    rw [chainPlaces, ih, m.runPlaces_false, length_cons, succ_mul,
      add_comm (cs.length * m.entriesPerCluster), range_add, map_append, map_map]
    congr 1
    · apply map_congr_left
      intro i hi
      rw [mem_range] at hi
      rw [div_eq_of_lt hi, mod_eq_of_lt hi]
      rfl
    · apply map_congr_left
      intro i _
      simp only [Function.comp_apply]
      rw [add_div_left _ hpos, add_mod_left, getD_cons_succ, add_assoc]

def Dir.size (m : Mount) (d : Dir) (cs : List ℕ) : ℕ :=
  if d.root then m.rootEntryCount else cs.length * m.entriesPerCluster

def Dir.place (m : Mount) (d : Dir) (cs : List ℕ) (i : ℕ) : Place :=
  if d.root then ⟨m.rootDirLba, i / m.entriesPerSector, i % m.entriesPerSector, i⟩
  else ⟨m.lbaForCluster (cs.getD (i / m.entriesPerCluster) 0),
    i % m.entriesPerCluster / m.entriesPerSector, i % m.entriesPerCluster % m.entriesPerSector, i⟩

lemma Dir.places_eq (m : Mount) (d : Dir) (cs : List ℕ) :
    d.places m cs = (List.range (d.size m cs)).map (d.place m cs) := by
  unfold Dir.places Dir.size Dir.place
  split
  · simp [m.runPlaces_true]
  · simp [chainPlaces_eq]

def Dir.Owns (m : Mount) (d : Dir) (cs : List ℕ) (lba : ℕ) : Prop :=
  if d.root then m.rootDirLba ≤ lba ∧ lba < m.firstDataLba
  else ∃ c ∈ cs, m.InCluster c lba

def Dir.slots (m : Mount) (V : Volume) (d : Dir) (cs : List ℕ) : List Slot :=
  (d.places m cs).map V.at

lemma Dir.length_slots (m : Mount) (V : Volume) (d : Dir) (cs : List ℕ) :
    (d.slots m V cs).length = d.size m cs := by
  simp [Dir.slots, Dir.places_eq]

lemma Dir.getElem_slots (h : i < (d.slots m V cs).length) :
    (d.slots m V cs)[i] = V.at (d.place m cs i) := by
  simp [Dir.slots, Dir.places_eq]

lemma Dir.div_lt_length (hroot : d.root = false) (hi : i < d.size m cs) :
    i / m.entriesPerCluster < cs.length := by
  unfold Dir.size at hi
  rw [hroot, if_neg Bool.false_ne_true] at hi
  exact Nat.div_lt_of_lt_mul (by rwa [mul_comm] at hi)

lemma Dir.owns_place (hi : i < d.size m cs) :
    d.Owns m cs ((d.place m cs i).lba + (d.place m cs i).sector) := by
  have hpos := m.entriesPerSector_pos
  cases hroot : d.root with
  | true =>
    unfold Dir.size at hi
    rw [hroot, if_pos rfl] at hi
    have hlt : i / m.entriesPerSector < m.rootDirSectors :=
      Nat.div_lt_of_lt_mul (by
        have : m.rootEntryCount ≤ m.rootDirSectors * m.entriesPerSector := m.root_fits
        rw [mul_comm]
        omega)
    unfold Dir.Owns Dir.place firstDataLba
    rw [hroot]
    exact ⟨Nat.le_add_right _ _, Nat.add_lt_add_left hlt _⟩
  | false =>
    have hlt := Dir.div_lt_length hroot hi
    have hmod := Nat.mod_lt i m.entriesPerCluster_pos
    have hsec : i % m.entriesPerCluster / m.entriesPerSector < m.sectorsPerCluster :=
      Nat.div_lt_of_lt_mul (by rwa [mul_comm])
    unfold Dir.Owns Dir.place
    rw [hroot]
    simp only [Bool.false_eq_true, if_false]
    refine ⟨cs.getD (i / m.entriesPerCluster) 0, ?_, Nat.le_add_right _ _,
      Nat.add_lt_add_left hsec _⟩
    rw [getD_eq_getElem _ _ hlt]
    exact getElem_mem hlt

lemma Mount.lba_inj {a b s t : ℕ} (ha : 2 ≤ a) (hb : 2 ≤ b) (hs : s < m.sectorsPerCluster)
    (ht : t < m.sectorsPerCluster) (h : m.lbaForCluster a + s = m.lbaForCluster b + t) :
    a = b ∧ s = t := by
  unfold lbaForCluster at h
  have hsum : s + (a - 2) * m.sectorsPerCluster = t + (b - 2) * m.sectorsPerCluster := by omega
  have hdiv := congrArg (· / m.sectorsPerCluster) hsum
  simp only [add_mul_div_right _ _ m.cluster_pos, div_eq_of_lt hs, div_eq_of_lt ht,
    zero_add] at hdiv
  rw [hdiv] at hsum
  omega

lemma Mount.firstDataLba_le (m : Mount) (c : ℕ) : m.firstDataLba ≤ m.lbaForCluster c :=
  le_add_right _ _

lemma Dir.Owns.apart (h : d.Owns m cs lba) (h' : d'.Owns m cs' lba) (hcs : ∀ c ∈ cs, 2 ≤ c)
    (hcs' : ∀ c ∈ cs', 2 ≤ c) :
    d.root = true ∧ d'.root = true ∨ d.root = false ∧ d'.root = false ∧ ∃ c ∈ cs, c ∈ cs' := by
  unfold Dir.Owns at h h'
  cases hr : d.root <;> cases hr' : d'.root <;> rw [hr] at h <;> rw [hr'] at h' <;>
    simp at h h'
  · obtain ⟨a, ha, hlo, hhi⟩ := h
    obtain ⟨b, hb, hlo', hhi'⟩ := h'
    have hab := lba_inj (m := m) (s := lba - m.lbaForCluster a) (t := lba - m.lbaForCluster b)
      (hcs a ha) (hcs' b hb) (by omega) (by omega) (by omega)
    exact .inr ⟨rfl, rfl, a, ha, hab.1 ▸ hb⟩
  · obtain ⟨a, -, hlo, -⟩ := h
    have := m.firstDataLba_le a
    omega
  · obtain ⟨a, -, hlo, -⟩ := h'
    have := m.firstDataLba_le a
    omega
  · exact .inl ⟨rfl, rfl⟩

lemma Dir.place_inj (h : d.Clusters m V cs) (hi : i < d.size m cs) (hj : j < d.size m cs)
    (hlba : (d.place m cs i).lba + (d.place m cs i).sector =
      (d.place m cs j).lba + (d.place m cs j).sector)
    (hindex : (d.place m cs i).index = (d.place m cs j).index) : i = j := by
  have hpos := m.entriesPerSector_pos
  cases hroot : d.root with
  | true =>
    unfold Dir.place at hlba hindex
    rw [hroot] at hlba hindex
    simp only [if_true] at hlba hindex
    have hi' := div_add_mod i m.entriesPerSector
    have hj' := div_add_mod j m.entriesPerSector
    rw [show i / m.entriesPerSector = j / m.entriesPerSector by omega, hindex] at hi'
    omega
  | false =>
    have hlt := Dir.div_lt_length hroot hi
    have hlt' := Dir.div_lt_length hroot hj
    unfold Dir.Clusters at h
    rw [hroot, if_neg Bool.false_ne_true] at h
    unfold Dir.place at hlba hindex
    rw [hroot] at hlba hindex
    simp only [Bool.false_eq_true, if_false] at hlba hindex
    rw [getD_eq_getElem _ _ hlt, getD_eq_getElem _ _ hlt'] at hlba
    have hsec : ∀ k, k % m.entriesPerCluster / m.entriesPerSector < m.sectorsPerCluster := by
      intro k
      have hmod := Nat.mod_lt k m.entriesPerCluster_pos
      exact Nat.div_lt_of_lt_mul (by rwa [mul_comm])
    obtain ⟨hc, hs⟩ := lba_inj (h.2 _ (getElem_mem hlt)).1
      (h.2 _ (getElem_mem hlt')).1 (hsec i) (hsec j) hlba
    have hdiv := (Chain.Path.nodup h.1).getElem_inj_iff.mp hc
    have hmod : i % m.entriesPerCluster = j % m.entriesPerCluster := by
      have hi' := div_add_mod (i % m.entriesPerCluster) m.entriesPerSector
      have hj' := div_add_mod (j % m.entriesPerCluster) m.entriesPerSector
      rw [hs, hindex] at hi'
      omega
    have hi' := div_add_mod i m.entriesPerCluster
    have hj' := div_add_mod j m.entriesPerCluster
    rw [hdiv, hmod] at hi'
    omega

end Places

/-- `fat_dir_entry_info_t` of a hit. -/
structure Found where
  attr : UInt8
  cluster : ℕ
  size : ℕ
  place : Place
  dir : Dir
  deriving DecidableEq

def Found.isDir (e : Found) : Bool := e.attr &&& 0x10 ≠ 0

def Dir.recorded (d : Dir) : Dir := if d.root then ⟨true, 0⟩ else d

/-- One slot of `fat_find_in_dir`. -/
def findStep (target : Text) (d : Dir) (l : Lfn) (p : Place) : Slot → Except (Option Found) Lfn
  | .free => .error none
  | .deleted => .ok l.reset
  | .lfn ordinal last units => .ok (l.collect ordinal last units)
  | .short name attr cluster size =>
    if attr &&& 0x08 ≠ 0 then .ok l.reset
    else if nameEq (entryName l name) target then
      .error (some ⟨attr, cluster, size, p, d.recorded⟩)
    else .ok l.reset

variable (m : Mount) (V : Volume)

def findInDir (d : Dir) (target : Text) : Except Err (Option Found) :=
  (scanDir m V d (findStep target d) Lfn.empty).result fun _ => none

def dotName : Text := ['.']
def dotDotName : Text := ['.', '.']

/-- One slot of `fat_dir_is_empty_step`. -/
def emptyStep (l : Lfn) (_ : Place) : Slot → Except Bool Lfn
  | .free => .error true
  | .deleted => .ok l.reset
  | .lfn ordinal last units => .ok (l.collect ordinal last units)
  | .short name attr _ _ =>
    if attr &&& 0x08 ≠ 0 then .ok l.reset
    else if nameEq (entryName l name) dotName ∨ nameEq (entryName l name) dotDotName then
      .ok l.reset
    else .error false

def dirIsEmpty (d : Dir) : Except Err Bool :=
  (scanDir m V d emptyStep Lfn.empty).result fun _ => true

/-- One slot of `fat_short_name_exists_in_dir`. -/
def shortStep (target : Text) (_ : Unit) (_ : Place) : Slot → Except Bool Unit
  | .free => .error false
  | .short name _ _ _ => if name = target then .error true else .ok ()
  | _ => .ok ()

def shortNameExistsInDir (d : Dir) (target : Text) : Except Err Bool :=
  (scanDir m V d (shortStep target) ()).result fun _ => false

def trimSpaces (t : Text) : Text := (t.reverse.dropWhile (· == ' ')).reverse

def listText (short : Text) : Text :=
  let ext := trimSpaces (short.drop 8)
  trimSpaces (short.take 8) ++ if ext = [] then [] else '.' :: ext

/-- One slot of `fat_op_readdir`; the lines so far are part of the state. -/
def readdirStep (s : Lfn × List Text) (_ : Place) : Slot → Except (List Text) (Lfn × List Text)
  | .free => .error s.2
  | .deleted => .ok (s.1.reset, s.2)
  | .lfn ordinal last units => .ok (s.1.collect ordinal last units, s.2)
  | .short name attr _ _ =>
    if attr &&& 0x08 ≠ 0 then .ok (s.1.reset, s.2)
    else
      let line := s.1.name?.getD (listText name) ++ if attr &&& 0x10 ≠ 0 then ['/'] else []
      .ok (s.1.reset, s.2 ++ [line])

/-- The lines that `fat_op_readdir` streams for a directory. -/
def readdir (d : Dir) : Except Err (List Text) :=
  (scanDir m V d readdirStep (Lfn.empty, [])).result fun s => s.2

def Slot.vacant : Slot → Bool
  | .free => true
  | .deleted => true
  | _ => false

/-- One slot of `fat_find_free_dir_slots`: the length of the run so far and where it starts. -/
def slotStep (needed : ℕ) (s : ℕ × ℕ) (p : Place) (x : Slot) : Except ℕ (ℕ × ℕ) :=
  if x.vacant then
    let start := if s.1 = 0 then p.entry else s.2
    if needed ≤ s.1 + 1 then .error start else .ok (s.1 + 1, start)
  else .ok (0, s.2)

def findFreeDirSlots (d : Dir) (needed : ℕ) : Task ℕ := do
  require (needed ≠ 0 ∧ m.dirEntryLimit d.root ≠ 0) .noSpace
  let V ← get
  match scanDir m V d (slotStep needed) (0, 0) with
  | .stopped start => pure start
  | .corrupt => fail .corrupt
  | .exhausted _ last base => do
    require (d.root = false) .noSpace
    let c ← ofExcept (m.findFreeCluster V)
    setFat c m.fatType.endMarker
    m.zeroCluster c
    setFat last c
    require (needed ≤ m.dirEntryLimit d.root) .noSpace
    pure (base + m.dirEntryLimit d.root)

/-- The walk of `fat_dir_entry_locate`. -/
def hop (m : Mount) (V : Volume) : (skip c : ℕ) → Except Err ℕ
  | 0, c => .ok c
  | skip + 1, c =>
    match m.next V c with
    | none => .error .noSpace
    | some c => hop m V skip c

def dirEntryLocate (d : Dir) (entry : ℕ) : Except Err (ℕ × ℕ) :=
  if d.root then
    if m.rootEntryCount ≤ entry then .error .noSpace
    else .ok (m.rootDirLba + entry / m.entriesPerSector, entry % m.entriesPerSector)
  else if d.cluster < 2 then .error .corrupt
  else
    match hop m V (entry / m.entriesPerCluster) d.cluster with
    | .error e => .error e
    | .ok c =>
      let within := entry % m.entriesPerCluster
      .ok (m.lbaForCluster c + within / m.entriesPerSector, within % m.entriesPerSector)

def Volume.put (lba index : ℕ) (x : Slot) : Volume :=
  { V with slot := Function.update V.slot lba (Function.update (V.slot lba) index x) }

/-- `fat_write_dir_entry`, which also leaves behind where the entry is. -/
def writeDirEntry (d : Dir) (entry : ℕ) (x : Slot) : Task (ℕ × ℕ) := do
  let V ← get
  let (lba, index) ← ofExcept (dirEntryLocate m V d entry)
  modify fun V => V.put lba index x
  pure (lba, index)

def writeDirEntries (m : Mount) (d : Dir) : (entry : ℕ) → List Slot → Task Unit
  | _, [] => pure ()
  | entry, x :: xs => do
    let _ ← writeDirEntry m d entry x
    writeDirEntries m d (entry + 1) xs

/-- The loop of `fat_delete_dir_entry_chain` over the long-name slots before an entry. -/
def deleteBack (m : Mount) (d : Dir) : (entry : ℕ) → Task Unit
  | 0 => pure ()
  | prev + 1 => do
    let V ← get
    let (lba, index) ← ofExcept (dirEntryLocate m V d prev)
    match V.slot lba index with
    | .lfn _ _ _ => do
      let _ ← writeDirEntry m d prev .deleted
      deleteBack m d prev
    | _ => pure ()

def deleteDirEntryChain (d : Dir) (entry : ℕ) : Task Unit := do
  let _ ← writeDirEntry m d entry .deleted
  deleteBack m d entry

def aliasSearch (m : Mount) (V : Volume) (d : Dir) (name : Text) : List ℕ → Except Err Text
  | [] => .error .badName
  | ordinal :: ordinals =>
    let short := buildShortAlias name ordinal
    match shortNameExistsInDir m V d short with
    | .error e => .error e
    | .ok false => .ok short
    | .ok true => aliasSearch m V d name ordinals

def entryNames (d : Dir) (name : Text) (units : List ℕ) : Except Err (Text × List Slot) :=
  match encodeShortName name with
  | some short => .ok (short, [])
  | none =>
    match aliasSearch m V d name (List.range' 1 9) with
    | .error e => .error e
    | .ok short => .ok (short, lfnSlots units (lfnCount units) (lfnCount units))

def addEntry (d : Dir) (name : Text) (units : List ℕ) (attr : UInt8)
    (cluster size : ℕ) : Task Found := do
  let V ← get
  let (short, long) ← ofExcept (entryNames m V d name units)
  let start ← findFreeDirSlots m d (long.length + 1)
  writeDirEntries m d start long
  let (lba, index) ← writeDirEntry m d (start + long.length) (.short short attr cluster size)
  pure ⟨attr, cluster, size, ⟨lba, 0, index, start + long.length⟩, d.recorded⟩

/-- `fat_create_path_entry`, for a resolved directory and the last part of the path. -/
def createEntry (d : Dir) (name : Text) (attr : UInt8) (cluster size : ℕ)
    (failIfExists : Bool) : Task Found := do
  match utf8ToUtf16 name with
  | none => fail .badName
  | some units => do
    let V ← get
    let found ← ofExcept (findInDir m V d name)
    match found with
    | some e => do
      require (failIfExists = false) .alreadyExists
      pure e
    | none => addEntry m d name units attr cluster size

def dotSlot (c : ℕ) : Slot := .short (padTo 11 dotName) 0x10 c 0
def dotDotSlot (parent : ℕ) : Slot := .short (padTo 11 dotDotName) 0x10 parent 0

/-- What `..` of a directory in `d` names: 0 when `d` is the root, on every width of table. -/
def dotDotCluster (d : Dir) : ℕ :=
  if d.root then 0
  else if m.fatType = .fat32 ∧ d.cluster = m.rootCluster then 0
  else d.cluster

def createDirectory (d : Dir) (name : Text) : Task Found := do
  require (d.root = true ∨ d.cluster - 2 ≤ 0xFFFD) .corrupt
  let V ← get
  let c ← ofExcept (m.findFreeCluster V)
  setFat c m.fatType.endMarker
  m.zeroCluster c
  modify fun V => (V.put (m.lbaForCluster c) 0 (dotSlot c)).put (m.lbaForCluster c) 1
    (dotDotSlot (dotDotCluster m d))
  createEntry m d name 0x10 c 0 true

/-- `fat_remove_path` once the entry is resolved. -/
def removeEntry (isRmdir : Bool) (open? : Found → Bool) (e : Found) : Task Unit :=
  if isRmdir then do
    require (e.isDir = true ∧ 2 ≤ e.cluster) .notDir
    let V ← get
    let empty ← ofExcept (dirIsEmpty m V ⟨false, e.cluster⟩)
    require (empty = true) .notEmpty
    deleteDirEntryChain m e.dir e.place.entry
    m.freeClusterChain e.cluster
  else do
    require (e.isDir = false) .isDir
    require (open? e = false) .isOpen
    m.freeClusterChain e.cluster
    deleteDirEntryChain m e.dir e.place.entry

end Fat
