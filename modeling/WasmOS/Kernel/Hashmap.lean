import Mathlib.Algebra.Order.Ring.Nat
import Mathlib.Data.UInt

/-! # The kernel hash map

`hashmap.c`: chains of nodes in buckets whose number doubles as the map fills. Whatever is
allocated or not on the way, the map is the finite map of the puts and removals that succeeded,
once its first bucket count has been rounded up.
-/

open List Function

namespace Hashmap

variable {ν : Type*}

/-- `HASHMAP_MIN_BUCKETS`. -/
def minBuckets : ℕ := 8

structure Table (ν : Type*) where
  buckets : ℕ → List (UInt32 × ν)
  bucketCount : ℕ
  count : ℕ

def hashIndex (key : UInt32) (bucketCount : ℕ) : ℕ := (key * 2654435761).toNat &&& (bucketCount - 1)

/-- `round_up_pow2` from `p` on; none if `fuel` rounds of its loop do not end it. -/
def roundUpPow2 : (fuel p v : ℕ) → Option ℕ
  | 0, _, _ => none
  | fuel + 1, p, v => if p < v then roundUpPow2 fuel (p * 2 % 2 ^ 32) v else some p

/-- `hashmap_init`, when the buckets can be allocated. -/
def init (fuel initialBuckets : ℕ) : Option (Table ν) :=
  (roundUpPow2 fuel minBuckets (if initialBuckets = 0 then minBuckets else initialBuckets)).map
    fun count => ⟨fun _ => [], count, 0⟩

def push (n : ℕ) (buckets : ℕ → List (UInt32 × ν)) (e : UInt32 × ν) : ℕ → List (UInt32 × ν) :=
  update buckets (hashIndex e.1 n) (e :: buckets (hashIndex e.1 n))

/-- All nodes, bucket by bucket. -/
def nodesOf (n : ℕ) (buckets : ℕ → List (UInt32 × ν)) : List (UInt32 × ν) :=
  (List.range n).flatMap buckets

namespace Table

variable (s : Table ν) (key : UInt32)

def chain : List (UInt32 × ν) := s.buckets (hashIndex key s.bucketCount)

/-- `hashmap_get`: the value of the first node with the key. -/
def get : Option ν := ((s.chain key).find? (·.1 == key)).map Prod.snd

def nodes : List (UInt32 × ν) := nodesOf s.bucketCount s.buckets

/-- `room` says whether the new buckets can be allocated. -/
def rehash (room : Bool) : Table ν :=
  let n := s.bucketCount * 2 % 2 ^ 32
  if n < s.bucketCount ∨ room = false then s
  else { s with buckets := s.nodes.foldl (push n) fun _ => [], bucketCount := n }

/-- `hashmap_put`; `v` is what the caller leaves in a new node, and none is a failed
allocation. -/
def put (v : ν) (roomBuckets roomNode : Bool) : Table ν × Option ν :=
  match s.get key with
  | some old => (s, some old)
  | none =>
    let s := if s.bucketCount * 3 < (s.count + 1) % 2 ^ 32 * 4 then s.rehash roomBuckets else s
    if roomNode then
      ({ s with
          buckets := push s.bucketCount s.buckets (key, v)
          count := (s.count + 1) % 2 ^ 32 }, some v)
    else (s, none)

def remove : Table ν × Bool :=
  if (s.get key).isSome then
    ({ s with
        buckets := update s.buckets (hashIndex key s.bucketCount)
          ((s.chain key).eraseP (·.1 == key))
        count := s.count - 1 }, true)
  else (s, false)

end Table

/-- The bucket to go on with, and the nodes left in the chain of the last one. -/
structure Iter (ν : Type*) where
  bucket : ℕ
  rest : List (UInt32 × ν)

/-- `hashmap_next`, with the number of buckets it has not been in. -/
def Table.next (s : Table ν) : (left : ℕ) → Iter ν → Option ((UInt32 × ν) × Iter ν)
  | _, ⟨b, e :: es⟩ => some (e, ⟨b, es⟩)
  | 0, ⟨_, []⟩ => none
  | left + 1, ⟨b, []⟩ => s.next left ⟨b + 1, s.buckets b⟩

/-- The nodes of at most `fuel` steps. -/
def Table.visit (s : Table ν) : (fuel : ℕ) → Iter ν → List (UInt32 × ν)
  | 0, _ => []
  | fuel + 1, it =>
    match s.next (s.bucketCount - it.bucket) it with
    | none => []
    | some (e, it') => e :: s.visit fuel it'

def Table.pending (s : Table ν) (it : Iter ν) : List (UInt32 × ν) :=
  it.rest ++ (List.range' it.bucket (s.bucketCount - it.bucket)).flatMap s.buckets

lemma next_spec (s : Table ν) (it : Iter ν) {left : ℕ} (h : left = s.bucketCount - it.bucket) :
    match s.next left it with
    | none => s.pending it = []
    | some (e, it') => s.pending it = e :: s.pending it' := by
  induction left generalizing it with
  | zero =>
    obtain ⟨b, _ | ⟨e, es⟩⟩ := it
    · simp [Table.next, Table.pending, ← h]
    · simp [Table.next, Table.pending]
  | succ left ih =>
    obtain ⟨b, _ | ⟨e, es⟩⟩ := it
    · have hstep : s.pending ⟨b, []⟩ = s.pending ⟨b + 1, s.buckets b⟩ := by
        simp only [Table.pending, ← h]
        rw [range'_succ, show s.bucketCount - (b + 1) = left by dsimp only at h; omega]
        simp
      rw [hstep]
      exact ih _ (by dsimp only at h ⊢; omega)
    · simp [Table.next, Table.pending]

lemma visit_eq (s : Table ν) (fuel : ℕ) (it : Iter ν) :
    s.visit fuel it = (s.pending it).take fuel := by
  induction fuel generalizing it with
  | zero => simp [Table.visit]
  | succ fuel ih =>
    have h := next_spec s it rfl
    rw [Table.visit]
    split at h <;> simp_all

/-- The buckets hold the entries that satisfy `P`, each key in its bucket and once. -/
structure Placed (n : ℕ) (buckets : ℕ → List (UInt32 × ν)) (P : UInt32 × ν → Prop) : Prop where
  mem : ∀ i e, e ∈ buckets i ↔ hashIndex e.1 n = i ∧ P e
  nodup : ∀ i, ((buckets i).map Prod.fst).Nodup

structure Holds (s : Table ν) (m : UInt32 → Option ν) : Prop where
  placed : Placed s.bucketCount s.buckets fun e => m e.1 = some e.2
  pos : 0 < s.bucketCount
  count : s.count = s.nodes.length

lemma hashIndex_lt {n : ℕ} (hn : 0 < n) (key : UInt32) : hashIndex key n < n :=
  lt_of_le_of_lt Nat.and_le_right (by omega)

section Placed

variable {n : ℕ} {buckets : ℕ → List (UInt32 × ν)} {P : UInt32 × ν → Prop}

lemma Placed.push (h : Placed n buckets P) {e : UInt32 × ν} (hnew : ∀ v, ¬ P (e.1, v)) :
    Placed n (push n buckets e) fun x => P x ∨ x = e where
  mem i x := by
    by_cases hi : i = hashIndex e.1 n
    · subst hi
      rw [Hashmap.push, update_self, mem_cons, h.mem]
      grind
    · rw [Hashmap.push, update_of_ne hi, h.mem]
      grind
  nodup i := by
    by_cases hi : i = hashIndex e.1 n
    · subst hi
      rw [Hashmap.push, update_self, map_cons, nodup_cons]
      refine ⟨fun hmem => ?_, h.nodup _⟩
      obtain ⟨⟨k, v⟩, hx, rfl⟩ := mem_map.1 hmem
      exact hnew v ((h.mem _ _).1 hx).2
    · rw [Hashmap.push, update_of_ne hi]
      exact h.nodup i

lemma Placed.foldl (h : Placed n buckets P) {es : List (UInt32 × ν)}
    (hes : (es.map Prod.fst).Nodup) (hnew : ∀ e ∈ es, ∀ v, ¬ P (e.1, v)) :
    Placed n (es.foldl (Hashmap.push n) buckets) fun x => P x ∨ x ∈ es := by
  induction es generalizing buckets P with
  | nil => simpa using h
  | cons e es ih =>
    rw [map_cons, nodup_cons] at hes
    have hpush := h.push (hnew e (.head _))
    refine Eq.mp ?_ (ih hpush hes.2 ?_)
    · simp only [mem_cons, or_assoc, foldl_cons]
    rintro x hx v (hP | hxe)
    · exact hnew x (mem_cons_of_mem e hx) v hP
    · exact hes.1 (mem_map.2 ⟨x, hx, by rw [← hxe]⟩)

lemma Placed.get {s : Table ν} {m : UInt32 → Option ν}
    (h : Placed s.bucketCount s.buckets fun e => m e.1 = some e.2) (key : UInt32) :
    s.get key = m key := by
  cases hfind : (s.chain key).find? (·.1 == key) with
  | some e =>
    have hkey : e.1 = key := by simpa using find?_some hfind
    have hm := ((h.mem _ e).1 (mem_of_find?_eq_some hfind)).2
    rw [Table.get, hfind, ← hkey, hm]
    rfl
  | none =>
    rw [find?_eq_none] at hfind
    rw [Table.get, find?_eq_none.2 hfind]
    cases hm : m key with
    | none => rfl
    | some v => exact (hfind (key, v) ((h.mem _ _).2 ⟨rfl, hm⟩) (beq_self_eq_true key)).elim

lemma Placed.nodes_nodup (h : Placed n buckets P) : ((nodesOf n buckets).map Prod.fst).Nodup := by
  rw [nodesOf, map_flatMap, nodup_flatMap]
  refine ⟨fun i _ => h.nodup i, nodup_range.imp fun {i j} hij => ?_⟩
  intro k hk hk'
  obtain ⟨x, hx, rfl⟩ := mem_map.1 hk
  obtain ⟨y, hy, hxy⟩ := mem_map.1 hk'
  exact hij (((h.mem i x).1 hx).1.symm.trans (hxy ▸ ((h.mem j y).1 hy).1))

lemma Placed.mem_nodes (h : Placed n buckets P) (hpos : 0 < n) (e : UInt32 × ν) :
    e ∈ nodesOf n buckets ↔ P e := by
  simp only [nodesOf, mem_flatMap, mem_range, h.mem]
  exact ⟨fun ⟨i, _, _, he⟩ => he, fun he => ⟨_, hashIndex_lt hpos e.1, rfl, he⟩⟩

lemma Placed.length_nodes (h : Placed n buckets P) (hpos : 0 < n) (es : List (UInt32 × ν))
    (hes : es.Nodup) (hmem : ∀ e, e ∈ es ↔ P e) : (nodesOf n buckets).length = es.length :=
  ((perm_ext_iff_of_nodup h.nodes_nodup.of_map hes).2 fun e =>
    (h.mem_nodes hpos e).trans (hmem e).symm).length_eq

end Placed

inductive Op (ν : Type*)
  | put (key : UInt32) (v : ν) (roomBuckets roomNode : Bool)
  | remove (key : UInt32)

/-- The map after a call, and the finite map that its success leaves. -/
def Op.exec (s : Table ν) (m : UInt32 → Option ν) : Op ν → Table ν × (UInt32 → Option ν)
  | .put key v roomBuckets roomNode =>
    let r := s.put key v roomBuckets roomNode
    (r.1, if r.2.isSome && (m key).isNone then update m key (some v) else m)
  | .remove key =>
    let r := s.remove key
    (r.1, if r.2 then update m key none else m)

def run (s : Table ν) (m : UInt32 → Option ν) (ops : List (Op ν)) :
    Table ν × (UInt32 → Option ν) := ops.foldl (fun x op => op.exec x.1 x.2) (s, m)

def Op.isPut : Op ν → Bool
  | .put .. => true
  | .remove _ => false

/-- No put finds the count at its greatest value. -/
def fits (s : Table ν) (m : UInt32 → Option ν) : List (Op ν) → Prop
  | [] => True
  | op :: ops => (op.isPut → s.count + 1 < 2 ^ 32) ∧ fits (op.exec s m).1 (op.exec s m).2 ops

instance decidableFits : ∀ (ops : List (Op ν)) (s : Table ν) (m : UInt32 → Option ν),
    Decidable (fits s m ops)
  | [], _, _ => isTrue trivial
  | op :: ops, s, m =>
    have := decidableFits ops (op.exec s m).1 (op.exec s m).2
    inferInstanceAs (Decidable (_ ∧ _))

lemma mem_eraseP_key {es : List (UInt32 × ν)} (h : (es.map Prod.fst).Nodup) {key : UInt32}
    {e : UInt32 × ν} : e ∈ es.eraseP (·.1 == key) ↔ e ∈ es ∧ e.1 ≠ key := by
  induction es with
  | nil => simp
  | cons x es ih =>
    rw [map_cons, nodup_cons] at h
    have hx : ∀ y ∈ es, y.1 ≠ x.1 := fun y hy heq => h.1 (mem_map.2 ⟨y, hy, heq⟩)
    by_cases hkey : x.1 = key <;> grind

section Step

variable {s : Table ν} {m : UInt32 → Option ν} (h : Holds s m)
include h

lemma Holds.rehash (room : Bool) : Holds (s.rehash room) m := by
  rw [Table.rehash]
  split_ifs with hkeep
  · exact h
  have hpos : 0 < s.bucketCount * 2 % 2 ^ 32 := by
    have := h.pos
    omega
  have hempty : Placed (s.bucketCount * 2 % 2 ^ 32) (fun _ => ([] : List (UInt32 × ν)))
      fun _ => False := ⟨by simp, by simp⟩
  have hplaced := hempty.foldl h.placed.nodes_nodup fun _ _ _ => id
  simp only [false_or, h.placed.mem_nodes h.pos] at hplaced
  exact ⟨hplaced, hpos, h.count.trans (hplaced.length_nodes hpos _ h.placed.nodes_nodup.of_map
    (h.placed.mem_nodes h.pos)).symm⟩

lemma Holds.insert {key : UInt32} (hnew : m key = none) (v : ν) (hfits : s.count + 1 < 2 ^ 32) :
    Holds { s with
      buckets := push s.bucketCount s.buckets (key, v)
      count := (s.count + 1) % 2 ^ 32 } (update m key (some v)) := by
  have hplaced := h.placed.push (e := (key, v)) (by simp [hnew])
  have hiff : ∀ x : UInt32 × ν, (m x.1 = some x.2 ∨ x = (key, v)) ↔
      update m key (some v) x.1 = some x.2 := by
    rintro ⟨k, w⟩
    by_cases hk : k = key <;> grind
  simp only [hiff] at hplaced
  have hlen := hplaced.length_nodes h.pos ((key, v) :: s.nodes) ?_ ?_
  · refine ⟨hplaced, h.pos, ?_⟩
    rw [Table.nodes, hlen, length_cons, ← h.count]
    exact Nat.mod_eq_of_lt hfits
  · refine nodup_cons.2 ⟨fun hmem => ?_, h.placed.nodes_nodup.of_map⟩
    simp [Table.nodes, h.placed.mem_nodes h.pos, hnew] at hmem
  · intro x
    rw [mem_cons, Table.nodes, h.placed.mem_nodes h.pos, ← hiff, or_comm]

lemma Holds.put (key : UInt32) (v : ν) (roomBuckets roomNode : Bool)
    (hfits : s.count + 1 < 2 ^ 32) :
    Holds (s.put key v roomBuckets roomNode).1
      (if (s.put key v roomBuckets roomNode).2.isSome && (m key).isNone then
        update m key (some v) else m) := by
  have hget := h.placed.get key
  rw [Table.put, hget]
  cases hm : m key with
  | some old => simpa using h
  | none =>
    dsimp only
    generalize hs : (if s.bucketCount * 3 < (s.count + 1) % 2 ^ 32 * 4 then s.rehash roomBuckets
      else s) = s'
    have h' : Holds s' m := by
      rw [← hs]
      split_ifs
      · exact h.rehash roomBuckets
      · exact h
    have hcount : s'.count = s.count := by
      rw [← hs, Table.rehash]
      split_ifs <;> rfl
    cases roomNode with
    | false => simpa using h'
    | true => simpa using h'.insert hm v (hcount ▸ hfits)

lemma Holds.remove (key : UInt32) :
    Holds (s.remove key).1 (if (s.remove key).2 then update m key none else m) := by
  have hget := h.placed.get key
  rw [Table.remove, hget]
  cases hm : m key with
  | none => simpa using h
  | some v =>
    have hplaced : Placed s.bucketCount (update s.buckets (hashIndex key s.bucketCount)
        ((s.chain key).eraseP (·.1 == key)))
        fun e => update m key none e.1 = some e.2 := by
      constructor <;> intro i <;> by_cases hi : i = hashIndex key s.bucketCount
      · subst hi
        intro e
        rw [update_self, Table.chain, mem_eraseP_key (h.placed.nodup _), h.placed.mem]
        by_cases he : e.1 = key <;> simp [he]
      · intro e
        rw [update_of_ne hi, h.placed.mem]
        by_cases he : e.1 = key <;> simp [he, Ne.symm hi]
      · subst hi
        rw [update_self]
        exact (eraseP_sublist.map _).nodup (h.placed.nodup _)
      · rw [update_of_ne hi]
        exact h.placed.nodup i
    have hlen := h.placed.length_nodes h.pos ((key, v) :: _)
      (nodup_cons.2 ⟨by simp [hplaced.mem_nodes h.pos], hplaced.nodes_nodup.of_map⟩) ?_
    · refine ⟨hplaced, h.pos, ?_⟩
      rw [h.count, Table.nodes, hlen]
      rfl
    rintro ⟨k, w⟩
    rw [mem_cons, hplaced.mem_nodes h.pos]
    by_cases hk : k = key
    · simp [hk, hm, eq_comm]
    · simp [hk]

end Step

variable {m : UInt32 → Option ν} {s : Table ν}

lemma Holds.run (h : Holds s m) {ops : List (Op ν)}
    (hfits : fits s m ops) : Holds (run s m ops).1 (run s m ops).2 := by
  induction ops generalizing s m with
  | nil => exact h
  | cons op ops ih =>
    refine ih ?_ hfits.2
    cases op with
    | put key v roomBuckets roomNode => exact h.put key v roomBuckets roomNode (hfits.1 rfl)
    | remove key => exact h.remove key

lemma roundUpPow2_returns {v : ℕ} (hv : v ≤ 2 ^ 31) (d j : ℕ) (hj : j + d = 31) :
    ∃ n, 0 < n ∧ ∀ fuel, d < fuel → roundUpPow2 fuel (2 ^ j) v = some n := by
  induction d generalizing j with
  | zero =>
    obtain rfl : j = 31 := hj
    refine ⟨2 ^ 31, by decide, fun fuel hfuel => ?_⟩
    obtain ⟨fuel, rfl⟩ := Nat.exists_eq_add_one.2 hfuel
    rw [roundUpPow2, if_neg (by omega)]
  | succ d ih =>
    have hnext : 2 ^ j * 2 % 2 ^ 32 = 2 ^ (j + 1) := by
      rw [← pow_succ]
      exact Nat.mod_eq_of_lt (Nat.pow_lt_pow_right (by decide) (by omega))
    obtain ⟨n, hn, hret⟩ := ih (j + 1) (by omega)
    refine ⟨if 2 ^ j < v then n else 2 ^ j, by split_ifs <;> simp [hn], fun fuel hfuel => ?_⟩
    obtain ⟨fuel, rfl⟩ := Nat.exists_eq_add_one.2 (Nat.zero_lt_of_lt hfuel)
    rw [roundUpPow2, hnext, hret fuel (by omega)]
    split_ifs <;> rfl

/-- The map agrees with the finite map `m`, counts its keys, and visits each of them once. -/
structure IsMap (s : Table ν) (m : UInt32 → Option ν) : Prop where
  get : ∀ key, s.get key = m key
  visits : ∃ es : List (UInt32 × ν), (es.map Prod.fst).Nodup ∧ s.count = es.length ∧
    (∀ key v, (key, v) ∈ es ↔ m key = some v) ∧ ∀ fuel ≥ es.length, s.visit fuel ⟨0, []⟩ = es

lemma Holds.isMap (h : Holds s m) : IsMap s m where
  get := h.placed.get
  visits := by
    refine ⟨s.nodes, h.placed.nodes_nodup, h.count, fun key v => h.placed.mem_nodes h.pos _,
      fun fuel hfuel => ?_⟩
    have hpending : s.pending ⟨0, []⟩ = s.nodes := by
      simp [Table.pending, Table.nodes, nodesOf, range_eq_range']
    rw [visit_eq, hpending, take_of_length_le hfuel]

/-- A map made for at most 2³¹ buckets is the finite map of the calls that succeeded, in every run
in which no put finds the count full. -/
theorem hashmap_is_finite_map (initialBuckets : ℕ) (h : initialBuckets ≤ 2 ^ 31) :
    ∃ s : Table ν, (∀ fuel ≥ 29, init fuel initialBuckets = some s) ∧
      ∀ ops, fits s (fun _ => none) ops →
        IsMap (run s (fun _ => none) ops).1 (run s (fun _ => none) ops).2 := by
  have hv : (if initialBuckets = 0 then minBuckets else initialBuckets) ≤ 2 ^ 31 := by
    split_ifs
    · decide
    · exact h
  obtain ⟨n, hn, hret⟩ := roundUpPow2_returns hv 28 3 rfl
  refine ⟨⟨fun _ => [], n, 0⟩, fun fuel hfuel => ?_, fun ops hfits => (Holds.run ?_ hfits).isMap⟩
  · exact congrArg (Option.map _) (hret fuel hfuel)
  · exact ⟨⟨by simp, by simp⟩, hn, by simp [Table.nodes, nodesOf]⟩

lemma roundUpPow2_stuck {v : ℕ} (hv : 2 ^ 31 < v) (fuel : ℕ) {p : ℕ}
    (hp : p = 0 ∨ ∃ j ≤ 31, p = 2 ^ j) : roundUpPow2 fuel p v = none := by
  induction fuel generalizing p with
  | zero => rfl
  | succ fuel ih =>
    have hle : p ≤ 2 ^ 31 := by
      rcases hp with rfl | ⟨j, hj, rfl⟩
      · exact Nat.zero_le _
      · exact Nat.pow_le_pow_right (by decide) hj
    rw [roundUpPow2, if_pos (by omega)]
    refine ih ?_
    rcases hp with rfl | ⟨j, hj, rfl⟩
    · exact .inl rfl
    rcases eq_or_lt_of_le hj with rfl | hj
    · exact .inl rfl
    refine .inr ⟨j + 1, hj, ?_⟩
    rw [← pow_succ]
    exact Nat.mod_eq_of_lt (Nat.pow_lt_pow_right (by decide) (by omega))

/-- The thirteenth key makes the map grow; a key is put twice and one is removed. -/
def grownRun : List (Op ℕ) :=
  (List.range 13).map (fun i => .put (UInt32.ofNat (16 * i)) i true true) ++
    [.put 32 100 true true, .remove 48]

theorem hashmap_is_finite_map_grown :
    let s := run (⟨fun _ => [], 16, 0⟩ : Table ℕ) (fun _ => none) grownRun
    s.1.bucketCount = 32 ∧ IsMap s.1 s.2 := by
  intro s
  obtain ⟨s₀, hinit, hrun⟩ := hashmap_is_finite_map (ν := ℕ) 16 (by decide)
  obtain rfl : _ = s₀ := Option.some.inj (hinit 29 le_rfl)
  exact ⟨by decide +kernel, hrun _ (by decide +kernel)⟩

/-- For more buckets than the greatest power of two the rounding never ends. -/
theorem init_never_returns : ¬ ∃ fuel s, init fuel (2 ^ 31 + 1) = some (s : Table ℕ) := by
  rintro ⟨fuel, s, h⟩
  have hstuck := roundUpPow2_stuck (v := 2 ^ 31 + 1) (by decide) fuel (.inr ⟨3, by decide, rfl⟩)
  exact nomatch h.symm.trans (congrArg (Option.map _) hstuck)

end Hashmap
