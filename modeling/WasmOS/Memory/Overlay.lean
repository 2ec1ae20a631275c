import WasmOS.Memory.Ranges

/-! # Physical overlays

`mm_context_map_physical` replaces the mappings of its pages one by one, and stops at the first one
that is refused with that page unmapped and the pages before it replaced.
-/

open Function

namespace Memory

variable {root root' : Root} {virt phys size count p q : ℕ} {flags : Flags} {room : ℕ → Bool}
  {f : ℕ → ℕ} {c : Context}

namespace Root

/-- Page `i` of a run is not refused: its slot is that of the flags, and its table is there, can be
made, or was made for a page before it. -/
def Takes (root : Root) (virt : ℕ) (flags : Flags) (room : ℕ → Bool) (i : ℕ) : Prop :=
  isUserSlot (virt + i * 4096) = flags.user ∧
    (root.table (pageIndex (virt + i * 4096) / 512) = true ∨ room i = true ∨
      ∃ j < i, pageIndex (virt + j * 4096) / 512 = pageIndex (virt + i * 4096) / 512)

/-- The first `p` pages of a run are replaced. -/
structure Replaced (root root' : Root) (virt : ℕ) (f : ℕ → ℕ) (p : ℕ) : Prop where
  mapped : ∀ i < p, root'.leaf (pageIndex (virt + i * 4096)) = some (pageBase (f i))
  others : ∀ k, (∀ i < p, k ≠ pageIndex (virt + i * 4096)) → root'.leaf k = root.leaf k
  table : ∀ t, root'.table t = true ↔
    root.table t = true ∨ ∃ i < p, pageIndex (virt + i * 4096) / 512 = t

lemma Replaced.refl (root : Root) (virt : ℕ) (f : ℕ → ℕ) : root.Replaced root virt f 0 :=
  ⟨fun i hi => absurd hi (Nat.not_lt_zero i), fun _ _ => rfl, fun t => by simp⟩

end Root

namespace Context

/-- Whether `mm_context_map_physical` returns 0. -/
def mapsPhysical (c : Context) (virt phys size : ℕ) (flags : Flags) (room : ℕ → Bool) : Bool :=
  if virt = 0 ∨ phys = 0 ∨ size = 0 then false
  else if virt % 4096 ≠ 0 ∨ phys % 4096 ≠ 0 ∨ size % 4096 ≠ 0 then false
  else if !flags.valid then false
  else
    match c.regions.find? Region.isLinear with
    | none => false
    | some r =>
      if virt < r.base ∨ wrap (r.base + r.size) < wrap (virt + size) then false
      else
        (Root.overlay virt (fun i => some (wrap (phys + i * 4096))) flags room (size / 4096) 0
          c.root).1

structure Overlaid (c c' : Context) (virt phys size : ℕ) : Prop where
  regions : c'.regions = c.regions
  mapped : ∀ i < size / 4096,
    c'.root.leaf (pageIndex (virt + i * 4096)) = some (pageBase (wrap (phys + i * 4096)))
  others : ∀ k, (∀ i < size / 4096, k ≠ pageIndex (virt + i * 4096)) →
    c'.root.leaf k = c.root.leaf k

/-- What `mm_context_map_physical` owes: it fails and every mapping stays, or it maps the range, in
the linear memory. -/
def Exact (c : Context) (virt phys size : ℕ) (flags : Flags) (room : ℕ → Bool) : Prop :=
  let c' := c.mapPhysical virt phys size flags room
  c.mapsPhysical virt phys size flags room = false ∧ c'.regions = c.regions ∧
      c'.root.leaf = c.root.leaf ∨
    c.mapsPhysical virt phys size flags room = true ∧ Overlaid c c' virt phys size ∧
      ∃ r, c.regions.find? Region.isLinear = some r ∧ r.base ≤ virt ∧ virt + size ≤ r.base + r.size

end Context

end Memory
