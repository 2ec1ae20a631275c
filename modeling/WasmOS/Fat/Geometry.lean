import Mathlib.Order.Bounds.Basic
import WasmOS.ByteImage.Fields
import WasmOS.Fat.Scan

/-! # The geometry of a FAT volume

A mount computes the geometry from the boot sector in words of 32 bits and checks little of it.
Allocation counts the clusters again, from what the mount has kept.
-/

open ByteImage Nat

namespace Fat

/-- `fat_mount_t`; the boot sector is the first of the device. -/
structure Geometry where
  bytesPerSector : ℕ
  sectorsPerCluster : ℕ
  reservedSectors : ℕ
  fatCount : ℕ
  rootEntryCount : ℕ
  fatSize : ℕ
  totalSectors : ℕ
  fatType : FatType
  rootDirLba : ℕ
  rootDirSectors : ℕ
  rootCluster : ℕ
  fsinfoLba : ℕ

def FatType.entryBits : FatType → ℕ
  | fat12 => 12
  | fat16 => 16
  | fat32 => 32

inductive Verdict
  /-- `sectors_per_cluster` is zero and divided by. -/
  | trapped
  | notReady
  | corrupt
  | io
  | mounted (g : Geometry) (freeCount : Option ℕ)

section Boot

variable (sector : ℕ → UInt8)

def sectorsPerCluster : ℕ := field sector 13 1

def totalSectors : ℕ := if field sector 19 2 ≠ 0 then field sector 19 2 else field sector 32 4

def fatSize : ℕ := if field sector 22 2 = 0 then field sector 36 4 else field sector 22 2

def rootDirSectors : ℕ :=
  (field sector 17 2 * 32 + (field sector 11 2 - 1)) / field sector 11 2

/-- The sectors before the data, over the integers. -/
def metaSectors : ℕ :=
  field sector 14 2 + field sector 16 1 * fatSize sector + rootDirSectors sector

def clusterCount : ℕ :=
  (totalSectors sector + 2 ^ 32 - metaSectors sector % 2 ^ 32) % 2 ^ 32 / sectorsPerCluster sector

def fatTypeOf : FatType :=
  if field sector 17 2 = 0 then .fat32
  else if clusterCount sector < 4085 then .fat12
  else if clusterCount sector < 65525 then .fat16
  else .fat32

def bootGeometry : Geometry where
  bytesPerSector := field sector 11 2
  sectorsPerCluster := sectorsPerCluster sector
  reservedSectors := field sector 14 2
  fatCount := field sector 16 1
  rootEntryCount := field sector 17 2
  fatSize := fatSize sector
  totalSectors := totalSectors sector
  fatType := fatTypeOf sector
  rootDirLba := (field sector 14 2 + field sector 16 1 * fatSize sector) % 2 ^ 32
  rootDirSectors := rootDirSectors sector
  rootCluster := field sector 44 4
  fsinfoLba := if field sector 48 2 = 0xFFFF then 0 else field sector 48 2

def parseBoot : Except Verdict Geometry :=
  if field sector 510 2 ≠ 0xAA55 ∨ field sector 11 2 ∉ [512, 1024, 2048, 4096] then .error .corrupt
  else if sectorsPerCluster sector = 0 then .error .trapped
  else if fatTypeOf sector = .fat32 ∧ field sector 44 4 < 2 then .error .corrupt
  else .ok (bootGeometry sector)

def seededCount (info : ℕ → UInt8) : Option ℕ :=
  if field info 0 4 = 0x41615252 ∧ field info 484 4 = 0x61417272 ∧
    field info 488 4 ≠ 0xFFFFFFFF then
    some (field info 488 4)
  else none

/-- `fat_geom_mount_step`; `info` is what a read of the FSInfo sector gives. -/
def mountStep (info : Option (ℕ → UInt8)) : Verdict :=
  if field sector 510 2 ≠ 0xAA55 ∨ field sector 11 2 = 0 then .notReady
  else
    match parseBoot sector with
    | .error v => v
    | .ok g =>
      if g.bytesPerSector < 512 ∨ 4096 < g.bytesPerSector ∨ g.bytesPerSector % 512 ≠ 0 then .corrupt
      else if g.fatType = .fat32 ∧ g.fsinfoLba ≠ 0 then
        match info with
        | none => .io
        | some info => .mounted g (seededCount info)
      else .mounted g none

end Boot

namespace Geometry

variable (g : Geometry)

def firstDataLba : ℕ := (g.rootDirLba + g.rootDirSectors) % 2 ^ 32

def lbaForCluster (c : ℕ) : ℕ :=
  if c < 2 then 0 else (g.firstDataLba + (c - 2) * g.sectorsPerCluster) % 2 ^ 32

def totalClusters : ℕ :=
  if g.totalSectors ≤ g.firstDataLba ∨ g.sectorsPerCluster = 0 then 0
  else (g.totalSectors - g.firstDataLba) / g.sectorsPerCluster

def dirClusterFromLba (lba : ℕ) : Option ℕ :=
  let rel := (lba - g.firstDataLba) / g.sectorsPerCluster
  if lba < g.firstDataLba ∨ g.sectorsPerCluster = 0 then none
  else if (lba - g.firstDataLba) % g.sectorsPerCluster ≠ 0 ∨ 0xFFFD < rel then none
  else some ((rel + 2) % 2 ^ 16)

def findFreeCluster (V : Volume) : Except Err ℕ :=
  if g.totalClusters = 0 then .error .noSpace
  else Mount.findFreeFrom V (List.range' 2 ((g.totalClusters + 2) % 2 ^ 32 - 2))

def IsCluster (c : ℕ) : Prop := 2 ≤ c ∧ c < 2 + g.totalClusters

/-- The areas follow one another inside the volume, the clusters are those the width of the table
was chosen for, and a copy of the table has an entry for each. -/
structure Sound (clusters : ℕ) : Prop where
  tables : g.rootDirLba = g.reservedSectors + g.fatCount * g.fatSize
  data : g.rootDirLba + g.rootDirSectors + g.sectorsPerCluster ≤ g.totalSectors
  clusters_eq : g.totalClusters = clusters
  entries : (g.totalClusters + 2) * g.fatType.entryBits ≤ g.fatSize * g.bytesPerSector * 8

end Geometry

section Accepted

variable {sector : ℕ → UInt8} {info : Option (ℕ → UInt8)} {g : Geometry} {n : Option ℕ}

lemma totalSectors_lt (sector : ℕ → UInt8) : totalSectors sector < 2 ^ 32 := by
  have := field_lt sector 19 2
  have := field_lt sector 32 4
  unfold totalSectors
  split <;> omega

lemma mountStep_inv (sector : ℕ → UInt8) (info : Option (ℕ → UInt8)) :
    match mountStep sector info with
    | .mounted g _ => sectorsPerCluster sector ≠ 0 ∧ g = bootGeometry sector
    | _ => True := by
  unfold mountStep parseBoot
  split_ifs with _ _ hspc
  · trivial
  · trivial
  · trivial
  · trivial
  dsimp only
  split_ifs
  · trivial
  · cases info
    · trivial
    · exact ⟨hspc, rfl⟩
  · exact ⟨hspc, rfl⟩

lemma mountStep_trapped_iff (sector : ℕ → UInt8) (info : Option (ℕ → UInt8)) :
    mountStep sector info = .trapped ↔ field sector 510 2 = 0xAA55 ∧
      field sector 11 2 ∈ [512, 1024, 2048, 4096] ∧ sectorsPerCluster sector = 0 := by
  constructor
  · intro h
    unfold mountStep parseBoot at h
    split_ifs at h with hsig hsize hspc
    · simp only [not_or, not_not] at hsize
      exact ⟨hsize.1, hsize.2, hspc⟩
    · dsimp only at h
      split_ifs at h
      cases info <;> cases h
  · rintro ⟨hsig, hsize, hspc⟩
    have hpos : field sector 11 2 ≠ 0 := by
      rintro hz
      rw [hz] at hsize
      revert hsize
      decide
    rw [mountStep, if_neg (by simp [hsig, hpos]), parseBoot, if_neg (by simp only [hsig, hsize,
      ne_eq, not_true, or_self, not_false_eq_true]), if_pos hspc]

/-- A mount divides by zero exactly where a boot sector it goes on with has clusters of no sectors,
and what it accepts is sound exactly if the boot sector is, over the integers. -/
theorem mountStep_sound_iff (sector : ℕ → UInt8) (info : Option (ℕ → UInt8)) :
    (mountStep sector info = .trapped ↔ field sector 510 2 = 0xAA55 ∧
        field sector 11 2 ∈ [512, 1024, 2048, 4096] ∧ sectorsPerCluster sector = 0) ∧
      ∀ g n, mountStep sector info = .mounted g n → (g.Sound (clusterCount sector) ↔
        metaSectors sector + sectorsPerCluster sector ≤ totalSectors sector ∧
        ((totalSectors sector - metaSectors sector) / sectorsPerCluster sector + 2) *
          (fatTypeOf sector).entryBits ≤ fatSize sector * field sector 11 2 * 8) := by
  have hinv := mountStep_inv sector info
  refine ⟨mountStep_trapped_iff sector info, fun g n h => ?_⟩
  rw [h] at hinv
  obtain ⟨hspc, rfl⟩ := hinv
  have hlt := totalSectors_lt sector
  have hmeta : metaSectors sector = field sector 14 2 + field sector 16 1 * fatSize sector +
    rootDirSectors sector := rfl
  -- where there is room for a cluster of data, nothing wraps
  have hcount (hroom : metaSectors sector + sectorsPerCluster sector ≤ totalSectors sector) :
      (bootGeometry sector).totalClusters = clusterCount sector ∧ clusterCount sector =
        (totalSectors sector - metaSectors sector) / sectorsPerCluster sector := by
    have hfirst : (bootGeometry sector).firstDataLba = metaSectors sector := by
      simp only [Geometry.firstDataLba, bootGeometry]
      omega
    have hdata : clusterCount sector =
        (totalSectors sector - metaSectors sector) / sectorsPerCluster sector := by
      rw [clusterCount]
      congr 1
      omega
    refine ⟨?_, hdata⟩
    rw [Geometry.totalClusters, hfirst, hdata]
    exact if_neg (by simp only [bootGeometry]; omega)
  constructor
  · intro hs
    have hroom : metaSectors sector + sectorsPerCluster sector ≤ totalSectors sector := by
      have := hs.tables
      have := hs.data
      simp only [bootGeometry] at *
      omega
    have := hs.entries
    rw [(hcount hroom).1, (hcount hroom).2] at this
    exact ⟨hroom, this⟩
  · rintro ⟨hroom, hentries⟩
    obtain ⟨hagain, hclusters⟩ := hcount hroom
    refine ⟨?_, ?_, hagain, ?_⟩
    · simp only [bootGeometry]
      omega
    · simp only [bootGeometry]
      omega
    · rw [hagain, hclusters]
      exact hentries

/-- One table of 700 sectors, with a root at cluster 2 where it is not a fixed area. -/
def bootSector (perCluster reserved roots total : ℕ) : ℕ → UInt8 :=
  put (put (put (put (put (put (put (put (put (fun _ => 0) 11 2 512) 13 1 perCluster) 14 2 reserved)
    16 1 1) 17 2 roots) 32 4 total) 36 4 700) 44 4 2) 510 2 0xAA55

theorem mountStep_sound_iff_small : ∃ g n, mountStep (bootSector 1 1 16 2000) none = .mounted g n ∧
    g.Sound (clusterCount (bootSector 1 1 16 2000)) := by
  refine ⟨_, none, rfl, ?_⟩
  exact ((mountStep_sound_iff (bootSector 1 1 16 2000) none).2 _ none rfl).mpr (by decide +kernel)

/-- Clusters of no sectors are divided by, and a volume of fewer sectors than are reserved is taken
for a large one. -/
theorem mountStep_unchecked : mountStep (bootSector 0 1 16 2000) none = .trapped ∧
    ∃ g n, mountStep (bootSector 1 100 16 5) none = .mounted g n ∧
      g.totalSectors < g.reservedSectors ∧ g.totalClusters ≠ clusterCount (bootSector 1 100 16 5) :=
  ⟨rfl, _, none, rfl, by decide +kernel, by decide +kernel⟩

end Accepted

lemma findFreeFrom_range' {V : Volume} {a n : ℕ} (ha : 2 ≤ a) (hn : a + n ≤ 2 ^ 16) :
    match Mount.findFreeFrom V (List.range' a n) with
    | .ok c => IsLeast {c | (a ≤ c ∧ c < a + n) ∧ V.fat c = 0} c
    | .error _ => ∀ c, a ≤ c ∧ c < a + n → V.fat c ≠ 0 := by
  induction n generalizing a with
  | zero => exact fun c hc => by omega
  | succ n ih =>
    have ih := ih (a := a + 1) (by omega) (by omega)
    rw [List.range'_succ, Mount.findFreeFrom, mod_eq_of_lt (by omega), if_neg (by omega)]
    by_cases hz : V.fat a = 0
    · rw [if_pos hz]
      exact ⟨⟨⟨le_rfl, by omega⟩, hz⟩, fun k hk => hk.1.1⟩
    rw [if_neg hz]
    have hnext : ∀ k, V.fat k = 0 → a ≤ k → a + 1 ≤ k := fun k hk hak =>
      lt_of_le_of_ne hak fun he => hz (he ▸ hk)
    split at ih
    · obtain ⟨⟨hc, hfree⟩, hleast⟩ := ih
      refine ⟨⟨by omega, hfree⟩, fun k hk => hleast ⟨⟨hnext k hk.2 hk.1.1, ?_⟩, hk.2⟩⟩
      have := hk.1.2
      omega
    · exact fun k hk hfree => ih k ⟨hnext k hfree hk.1, by omega⟩ hfree

namespace Geometry

variable {g : Geometry} {c d : ℕ}

/-- The sectors of the clusters do not wrap, whatever the boot sector says. -/
lemma lbaForCluster_eq (ht : g.totalSectors < 2 ^ 32) (hc : g.IsCluster c) :
    g.lbaForCluster c = g.firstDataLba + (c - 2) * g.sectorsPerCluster ∧
      g.firstDataLba + (c - 2) * g.sectorsPerCluster + g.sectorsPerCluster ≤ g.totalSectors ∧
      0 < g.sectorsPerCluster := by
  obtain ⟨hlo, hhi⟩ := hc
  unfold totalClusters at hhi
  split at hhi
  · omega
  next hpos =>
  have hspc : 0 < g.sectorsPerCluster := by omega
  have hend : (c - 2 + 1) * g.sectorsPerCluster ≤ g.totalSectors - g.firstDataLba :=
    (le_div_iff_mul_le hspc).mp (by omega)
  rw [add_mul, one_mul] at hend
  have hroom : g.firstDataLba + (c - 2) * g.sectorsPerCluster + g.sectorsPerCluster ≤
      g.totalSectors := by omega
  refine ⟨?_, hroom, hspc⟩
  rw [lbaForCluster, if_neg (by omega), mod_eq_of_lt (by omega)]

lemma lba_before (ht : g.totalSectors < 2 ^ 32) (hc : g.IsCluster c) (hd : g.IsCluster d)
    (hlt : c < d) : g.lbaForCluster c + g.sectorsPerCluster ≤ g.lbaForCluster d := by
  have := hc.1
  have hmul := mul_le_mul_right g.sectorsPerCluster (show c - 2 + 1 ≤ d - 2 by omega)
  rw [add_mul, one_mul] at hmul
  rw [(lbaForCluster_eq ht hc).1, (lbaForCluster_eq ht hd).1]
  omega

end Geometry

/-- Allocation finds the first free cluster of the table, and clusters and their sectors correspond,
both ways. -/
structure Geometry.SearchesAll (g : Geometry) (V : Volume) : Prop where
  found : match g.findFreeCluster V with
    | .ok c => IsLeast {c | g.IsCluster c ∧ V.fat c = 0} c
    | .error _ => ∀ c, g.IsCluster c → V.fat c ≠ 0
  sectors : ∀ c, g.IsCluster c → g.firstDataLba ≤ g.lbaForCluster c ∧
    g.lbaForCluster c + g.sectorsPerCluster ≤ g.totalSectors ∧
    g.dirClusterFromLba (g.lbaForCluster c) = some c ∧
    ∀ d, g.IsCluster d → d ≠ c → g.lbaForCluster c + g.sectorsPerCluster ≤ g.lbaForCluster d ∨
      g.lbaForCluster d + g.sectorsPerCluster ≤ g.lbaForCluster c

/-- It does exactly on volumes whose cluster numbers fit sixteen bits. -/
theorem findFreeCluster_searches_all {sector : ℕ → UInt8} {info : Option (ℕ → UInt8)}
    {g : Geometry} {n : Option ℕ} (hm : mountStep sector info = .mounted g n) (V : Volume) :
    g.SearchesAll V ↔ g.totalClusters + 2 ≤ 2 ^ 16 := by
  have ht : g.totalSectors < 2 ^ 32 := by
    have hinv := mountStep_inv sector info
    rw [hm] at hinv
    rw [hinv.2]
    exact totalSectors_lt sector
  constructor
  · intro h
    by_contra hmany
    -- the sector of cluster 65536 is refused
    have hc : g.IsCluster (2 ^ 16) := ⟨by decide, by omega⟩
    obtain ⟨hlba, -, hspc⟩ := Geometry.lbaForCluster_eq ht hc
    have hback := (h.sectors _ hc).2.2.1
    rw [Geometry.dirClusterFromLba, hlba, Nat.add_sub_cancel_left, Nat.mul_div_cancel _ hspc,
      if_neg (by omega), if_pos (by omega)] at hback
    cases hback
  intro hfew
  refine ⟨?_, fun c hc => ?_⟩
  · by_cases hz : g.totalClusters = 0
    · rw [Geometry.findFreeCluster, if_pos hz]
      intro c hc
      have := hc.1
      have := hc.2
      omega
    · rw [Geometry.findFreeCluster, if_neg hz, Nat.mod_eq_of_lt (by omega), Nat.add_sub_cancel]
      exact findFreeFrom_range' le_rfl (by omega)
  obtain ⟨hlba, hroom, hspc⟩ := Geometry.lbaForCluster_eq ht hc
  refine ⟨by omega, by omega, ?_, fun d hd hne => ?_⟩
  · have := hc.1
    have := hc.2
    rw [Geometry.dirClusterFromLba, hlba, Nat.add_sub_cancel_left, Nat.mul_div_cancel _ hspc,
      Nat.mul_mod_left, if_neg (by omega), if_neg (by omega), Nat.mod_eq_of_lt (by omega)]
    congr 1
    omega
  · rcases lt_or_gt_of_ne hne with hlt | hlt
    · exact .inr (Geometry.lba_before ht hd hc hlt)
    · exact .inl (Geometry.lba_before ht hc hd hlt)

def freeOnly (c : ℕ) : Volume := ⟨fun k => if k = c then 0 else 1, fun _ _ => .free, fun _ _ => 0⟩

theorem findFreeCluster_searches_all_small :
    ∃ c, (bootGeometry (bootSector 1 1 16 2000)).findFreeCluster (freeOnly 5) = .ok c := by
  have hm : mountStep (bootSector 1 1 16 2000) none = .mounted (bootGeometry _) none := rfl
  have h := ((findFreeCluster_searches_all hm (freeOnly 5)).mpr (by decide +kernel)).found
  split at h
  next c hc => exact ⟨c, hc⟩
  · exact absurd rfl (h 5 ⟨by decide, by decide +kernel⟩)

lemma findFreeFrom_lt {V : Volume} {c : ℕ} {cursors : List ℕ}
    (h : Mount.findFreeFrom V cursors = .ok c) : c < 2 ^ 16 ∧ V.fat c = 0 := by
  induction cursors with
  | nil => cases h
  | cons k cursors ih =>
    unfold Mount.findFreeFrom at h
    dsimp only at h
    split_ifs at h with _ hz
    · cases h
      exact ⟨mod_lt _ (by decide), hz⟩
    · exact ih h

/-- On a larger volume a free cluster behind the first 65536 numbers is not found, and its sector is
not that of a directory. -/
theorem findFreeCluster_cut_cursor : ∃ g,
    mountStep (bootSector 1 1 0 80000) none = .mounted g none ∧
    g.IsCluster 70000 ∧ (freeOnly 70000).fat 70000 = 0 ∧
    (∀ c, g.findFreeCluster (freeOnly 70000) ≠ .ok c) ∧
    g.dirClusterFromLba (g.lbaForCluster 70000) = none := by
  refine ⟨_, rfl, ⟨by decide, by decide +kernel⟩, rfl, fun c h => ?_, by decide +kernel⟩
  unfold Geometry.findFreeCluster at h
  split at h
  · cases h
  obtain ⟨hlt, hz⟩ := findFreeFrom_lt h
  simp [freeOnly, show c ≠ 70000 by omega] at hz

end Fat
