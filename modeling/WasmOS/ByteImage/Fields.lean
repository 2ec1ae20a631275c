import Mathlib.Algebra.Order.Ring.Nat

/-! # Fields of a byte image

An image gives the byte at every offset. Numbers are stored little-endian. What a
write leaves alone is said by agreement of two images on a range of offsets; what is
read there is then the same.
-/

open Function

namespace ByteImage

/-- The `n` bytes from `off` as a little-endian number. -/
def field (b : ℕ → UInt8) (off : ℕ) : ℕ → ℕ
  | 0 => 0
  | n + 1 => (b off).toNat + 256 * field b (off + 1) n

/-- The image with the low `n` bytes of `v` from `off` on. -/
def put (b : ℕ → UInt8) (off : ℕ) : (n v : ℕ) → ℕ → UInt8
  | 0, _ => b
  | n + 1, v => update (put b (off + 1) n (v / 256)) off (UInt8.ofNat v)

def bytes (b : ℕ → UInt8) (off : ℕ) : ℕ → List UInt8
  | 0 => []
  | n + 1 => b off :: bytes b (off + 1) n

def putBytes (b : ℕ → UInt8) (off : ℕ) : List UInt8 → ℕ → UInt8
  | [] => b
  | x :: xs => update (putBytes b (off + 1) xs) off x

def zeroFill (b : ℕ → UInt8) (off stop : ℕ) : ℕ → UInt8 := fun i =>
  if off ≤ i ∧ i < stop then 0 else b i

/-- The two images hold the same bytes from `lo` up to `hi`. -/
def AgreeOn (lo hi : ℕ) (b c : ℕ → UInt8) : Prop := ∀ i, lo ≤ i → i < hi → b i = c i

variable {b c d : ℕ → UInt8} {lo hi off n v : ℕ}

namespace AgreeOn

lemma refl : AgreeOn lo hi b b := fun _ _ _ => rfl

lemma symm (h : AgreeOn lo hi b c) : AgreeOn lo hi c b := fun i h₁ h₂ => (h i h₁ h₂).symm

lemma trans (h : AgreeOn lo hi b c) (h' : AgreeOn lo hi c d) : AgreeOn lo hi b d :=
  fun i h₁ h₂ => (h i h₁ h₂).trans (h' i h₁ h₂)

lemma mono {lo' hi' : ℕ} (h : AgreeOn lo hi b c) (hlo : lo ≤ lo') (hhi : hi' ≤ hi) :
    AgreeOn lo' hi' b c := fun i h₁ h₂ => h i (le_trans hlo h₁) (lt_of_lt_of_le h₂ hhi)

end AgreeOn

lemma field_congr (h : AgreeOn off (off + n) b c) : field b off n = field c off n := by
  induction n generalizing off with
  | zero => rfl
  | succ n ih =>
    have hhead := h off le_rfl (by omega)
    have htail := ih (h.mono (Nat.le_succ off) (by omega))
    rw [field, field, hhead, htail]

lemma field_lt (b : ℕ → UInt8) (off n : ℕ) : field b off n < 256 ^ n := by
  induction n generalizing off with
  | zero => simp [field]
  | succ n ih =>
    have := ih (off + 1)
    have := (b off).toNat_lt
    rw [field, pow_succ]
    omega

lemma field_eq_zero (h : ∀ i, off ≤ i → i < off + n → b i = 0) : field b off n = 0 := by
  induction n generalizing off with
  | zero => rfl
  | succ n ih =>
    have hhead := h off le_rfl (by omega)
    have htail : field b (off + 1) n = 0 := ih fun i h₁ h₂ => h i (by omega) (by omega)
    rw [field, hhead, htail]
    rfl

lemma bytes_congr (h : AgreeOn off (off + n) b c) : bytes b off n = bytes c off n := by
  induction n generalizing off with
  | zero => rfl
  | succ n ih =>
    have hhead := h off le_rfl (by omega)
    have htail := ih (h.mono (Nat.le_succ off) (by omega))
    rw [bytes, bytes, hhead, htail]

@[simp] lemma length_bytes : (bytes b off n).length = n := by
  induction n generalizing off with
  | zero => rfl
  | succ n ih => rw [bytes, List.length_cons, ih]

lemma put_apply {i : ℕ} (h : i < off ∨ off + n ≤ i) : put b off n v i = b i := by
  induction n generalizing off v with
  | zero => rfl
  | succ n ih =>
    have hne : i ≠ off := by omega
    rw [put, update_of_ne hne]
    exact ih (by omega)

lemma field_put : field (put b off n v) off n = v % 256 ^ n := by
  induction n generalizing off v with
  | zero => simp [field, Nat.mod_one]
  | succ n ih =>
    have htail : field (put b off (n + 1) v) (off + 1) n = v / 256 % 256 ^ n := by
      rw [← ih]
      apply field_congr
      intro i h₁ _
      exact update_of_ne (by omega) _ _
    have hhead : (put b off (n + 1) v off).toNat = v % 256 := by
      rw [put, update_self]
      exact UInt8.toNat_ofNat'
    rw [field, hhead, htail, pow_succ', Nat.mod_mul]

variable {bs : List UInt8}

lemma putBytes_apply {i : ℕ} (h : i < off ∨ off + bs.length ≤ i) : putBytes b off bs i = b i := by
  induction bs generalizing off with
  | nil => rfl
  | cons x xs ih =>
    rw [List.length_cons] at h
    have hne : i ≠ off := by omega
    rw [putBytes, update_of_ne hne]
    exact ih (by omega)

lemma bytes_putBytes : bytes (putBytes b off bs) off bs.length = bs := by
  induction bs generalizing off with
  | nil => rfl
  | cons x xs ih =>
    have htail : bytes (putBytes b off (x :: xs)) (off + 1) xs.length = xs := by
      rw [bytes_congr, ih]
      intro i h₁ _
      exact update_of_ne (by omega) _ _
    have hhead : putBytes b off (x :: xs) off = x := update_self _ _ _
    rw [List.length_cons, bytes, hhead, htail]

lemma zeroFill_apply {i stop : ℕ} (h : i < off ∨ stop ≤ i) : zeroFill b off stop i = b i :=
  if_neg (by omega)

lemma agreeOn_put (h : hi ≤ off ∨ off + n ≤ lo) : AgreeOn lo hi (put b off n v) b :=
  fun i h₁ h₂ => put_apply (by omega)

lemma agreeOn_update {x : UInt8} (h : hi ≤ off ∨ off < lo) :
    AgreeOn lo hi (update b off x) b := fun i h₁ h₂ => update_of_ne (by omega) _ _

lemma agreeOn_putBytes (h : hi ≤ off ∨ off + bs.length ≤ lo) :
    AgreeOn lo hi (putBytes b off bs) b := fun i h₁ h₂ => putBytes_apply (by omega)

lemma agreeOn_zeroFill {stop : ℕ} (h : hi ≤ off ∨ stop ≤ lo) :
    AgreeOn lo hi (zeroFill b off stop) b := fun i h₁ h₂ => zeroFill_apply (by omega)

end ByteImage
