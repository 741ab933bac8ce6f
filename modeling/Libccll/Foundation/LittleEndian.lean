import Mathlib.Data.Nat.Notation
import Mathlib.Tactic.Ring

/-! Numbers in byte memory, lowest byte first. -/

namespace Foundation.LittleEndian

/-- Stores the lowest `n` bytes of `v` at `a`. -/
def store (n a v : Nat) (mem : Nat → UInt8) : Nat → UInt8 :=
  fun i => if a ≤ i ∧ i < a + n then UInt8.ofNat (v / 256 ^ (i - a)) else mem i

/-- The number in the `n` bytes at `a`. -/
def load (n a : Nat) (mem : Nat → UInt8) : Nat :=
  match n with
  | 0 => 0
  | n + 1 => (mem a).toNat + 256 * load n (a + 1) mem

/-- A number is read from its own bytes only. -/
theorem load_congr {n a : Nat} {mem mem' : Nat → UInt8}
    (same : ∀ i, a ≤ i → i < a + n → mem i = mem' i)
    : load n a mem = load n a mem' := by
  induction n generalizing a with
  | zero => rfl
  | succ n ih =>
      rw [load, load, same a (Nat.le_refl a) (by omega),
        ih (fun i above below => same i (by omega) (by omega))]

/-- Bytes that are those of `v` make up `v` again, as far as they go. -/
theorem load_bytes {n a v : Nat} {mem : Nat → UInt8}
    (bytes : ∀ k < n, mem (a + k) = UInt8.ofNat (v / 256 ^ k))
    : load n a mem = v % 256 ^ n := by
  induction n generalizing a v with
  | zero => rw [load, Nat.pow_zero, Nat.mod_one]
  | succ n ih =>
      have lowest : (mem a).toNat = v % 256 := by
        have first := bytes 0 (Nat.succ_pos n)
        rw [Nat.add_zero, Nat.pow_zero, Nat.div_one] at first
        rw [first, UInt8.toNat_ofNat']
      have higher : load n (a + 1) mem = v / 256 % 256 ^ n := by
        apply ih
        intro k below
        rw [Nat.div_div_eq_div_mul, ← Nat.pow_succ', ← bytes (k + 1) (Nat.succ_lt_succ below)]
        congr 1
        ring
      rw [load, lowest, higher, Nat.pow_succ', Nat.mod_mul]

theorem store_apart {n a i : Nat} (apart : i < a ∨ a + n ≤ i) (v : Nat) (mem : Nat → UInt8)
    : store n a v mem i = mem i :=
  if_neg (by omega)

/-- What was stored is loaded again. -/
theorem load_store_self {n v : Nat} (small : v < 256 ^ n) (a : Nat) (mem : Nat → UInt8)
    : load n a (store n a v mem) = v := by
  rw [load_bytes (v := v), Nat.mod_eq_of_lt small]
  intro k below
  simp only [store, Nat.le_add_right, Nat.add_lt_add_iff_left, below, and_self, if_true,
    Nat.add_sub_cancel_left]

/-- Stores elsewhere do not matter. -/
theorem load_store_apart {n m a b : Nat} (apart : a + n ≤ b ∨ b + m ≤ a) (v : Nat)
    (mem : Nat → UInt8)
    : load n a (store m b v mem) = load n a mem := by
  apply load_congr
  intro i above below
  rw [store, if_neg (by omega)]

end Foundation.LittleEndian
