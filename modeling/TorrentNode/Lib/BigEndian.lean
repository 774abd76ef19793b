import Mathlib.Tactic.Ring
import Mathlib.Data.List.Lex

/-!
# Big-endian numerals

A number written in a fixed count of bytes, most significant first. Two facts
make such numerals useful as keys: they read back, and comparing them as byte
strings compares the numbers.
-/

instance instLinearOrderUInt8 : LinearOrder UInt8 where
  le_refl := UInt8.le_refl
  le_trans _ _ _ := UInt8.le_trans
  le_antisymm _ _ := UInt8.le_antisymm
  le_total := UInt8.le_total
  lt_iff_le_not_ge a b := by
    rw [UInt8.lt_iff_toNat_lt, UInt8.le_iff_toNat_le, UInt8.le_iff_toNat_le]; omega
  toDecidableLE := inferInstance
  toDecidableEq := inferInstance
  toDecidableLT := inferInstance

namespace BigEndian

/-- The low `w` base-256 digits of `n`, most significant first. -/
def encode : (w : Nat) → Nat → List UInt8
  | 0, _ => []
  | w + 1, n => UInt8.ofNat (n / 256 ^ w % 256) :: encode w n

/-- The number a digit string denotes, on top of the digits read so far. -/
def decodeFrom (acc : Nat) (digits : List UInt8) : Nat :=
  digits.foldl (fun val d => val * 256 + d.toNat) acc

/-- The number a digit string denotes. -/
def decode (digits : List UInt8) : Nat := decodeFrom 0 digits

@[simp] theorem length_encode : ∀ (w n : Nat), (encode w n).length = w
  | 0, _ => rfl
  | w + 1, n => by rw [encode, List.length_cons, length_encode w n]

/-- The last digit is the lowest. -/
theorem encode_succ_last : ∀ (w n : Nat),
    encode (w + 1) n = encode w (n / 256) ++ [UInt8.ofNat (n % 256)]
  | 0, n => by simp [encode]
  | w + 1, n => by
      rw [encode, encode_succ_last w n, encode, Nat.div_div_eq_div_mul, Nat.pow_succ,
        Nat.mul_comm 256 (256 ^ w), List.cons_append]

theorem decodeFrom_encode :
    ∀ (w acc n : Nat), decodeFrom acc (encode w n) = acc * 256 ^ w + n % 256 ^ w
  | 0, acc, n => by simp [decodeFrom, encode, Nat.mod_one]
  | w + 1, acc, n => by
      have hdigit : (UInt8.ofNat (n / 256 ^ w % 256)).toNat = n / 256 ^ w % 256 := by
        rw [UInt8.toNat_ofNat']; omega
      have ih := decodeFrom_encode w (acc * 256 + n / 256 ^ w % 256) n
      have hsplit : n % 256 ^ (w + 1) = n / 256 ^ w % 256 * 256 ^ w + n % 256 ^ w := by
        rw [Nat.pow_succ, Nat.mod_mul, Nat.mul_comm, Nat.add_comm]
      calc decodeFrom acc (encode (w + 1) n)
          = decodeFrom (acc * 256 + n / 256 ^ w % 256) (encode w n) := by
            simp only [decodeFrom, encode, List.foldl_cons, hdigit]
        _ = (acc * 256 + n / 256 ^ w % 256) * 256 ^ w + n % 256 ^ w := ih
        _ = acc * 256 ^ (w + 1) + n % 256 ^ (w + 1) := by
            rw [hsplit, Nat.pow_succ]; ring

/-- **A numeral reads back.** -/
theorem decode_encode {w n : Nat} (h : n < 256 ^ w) : decode (encode w n) = n := by
  rw [decode, decodeFrom_encode, Nat.mod_eq_of_lt h]; omega

theorem decodeFrom_lt : ∀ (digits : List UInt8) (acc : Nat),
    decodeFrom acc digits < (acc + 1) * 256 ^ digits.length
  | [], acc => by simp [decodeFrom]
  | d :: ds, acc => by
      have hd := UInt8.toNat_lt d
      have ih := decodeFrom_lt ds (acc * 256 + d.toNat)
      have hle : (acc * 256 + d.toNat + 1) * 256 ^ ds.length ≤
          (acc + 1) * 256 * 256 ^ ds.length := Nat.mul_le_mul_right _ (by omega)
      calc decodeFrom acc (d :: ds)
          = decodeFrom (acc * 256 + d.toNat) ds := rfl
        _ < (acc * 256 + d.toNat + 1) * 256 ^ ds.length := ih
        _ ≤ (acc + 1) * 256 * 256 ^ ds.length := hle
        _ = (acc + 1) * 256 ^ (d :: ds).length := by rw [List.length_cons, Nat.pow_succ]; ring

/-- A numeral of `w` digits is below `256 ^ w`. -/
theorem decode_lt (digits : List UInt8) : decode digits < 256 ^ digits.length := by
  simpa [decode] using decodeFrom_lt digits 0

theorem encode_mod (w n : Nat) : ∀ k, w ≤ k → encode w (n % 256 ^ k) = encode w n := by
  induction w with
  | zero => intro k _; rfl
  | succ w ih =>
    intro k hk
    have hpow : 256 ^ k = 256 ^ w * 256 * 256 ^ (k - (w + 1)) := by
      rw [← Nat.pow_succ, ← Nat.pow_add]; congr 1; omega
    have hdigit : n % 256 ^ k / 256 ^ w % 256 = n / 256 ^ w % 256 := by
      rw [hpow, Nat.mul_assoc, Nat.mod_mul_right_div_self, Nat.mod_mul_right_mod]
    rw [encode, encode, hdigit, ih k (by omega)]

/-- **Numerals compare as the numbers do.** -/
theorem encode_lt_iff : ∀ (w a b : Nat),
    encode w a < encode w b ↔ a % 256 ^ w < b % 256 ^ w
  | 0, a, b => by simp [encode, Nat.mod_one]
  | w + 1, a, b => by
      have hsplit : ∀ n, n % 256 ^ (w + 1) = n / 256 ^ w % 256 * 256 ^ w + n % 256 ^ w := by
        intro n; rw [Nat.pow_succ, Nat.mod_mul, Nat.mul_comm, Nat.add_comm]
      have hlow : ∀ n, n % 256 ^ w < 256 ^ w := fun n => Nat.mod_lt _ (Nat.pow_pos (by omega))
      have ha : (UInt8.ofNat (a / 256 ^ w % 256)).toNat = a / 256 ^ w % 256 := by
        rw [UInt8.toNat_ofNat']; omega
      have hb : (UInt8.ofNat (b / 256 ^ w % 256)).toNat = b / 256 ^ w % 256 := by
        rw [UInt8.toNat_ofNat']; omega
      rw [encode, encode, List.cons_lt_cons_iff, encode_lt_iff w a b, UInt8.lt_iff_toNat_lt,
        ← UInt8.toNat_inj, ha, hb, hsplit a, hsplit b]
      generalize a / 256 ^ w % 256 = x
      generalize b / 256 ^ w % 256 = y
      have hla := hlow a
      have hlb := hlow b
      rcases Nat.lt_trichotomy x y with h | h | h
      · have := Nat.mul_le_mul_right (256 ^ w) (Nat.succ_le_of_lt h)
        rw [Nat.succ_mul] at this
        constructor
        · intro _; omega
        · intro _; exact Or.inl h
      · subst h; simp
      · have := Nat.mul_le_mul_right (256 ^ w) (Nat.succ_le_of_lt h)
        rw [Nat.succ_mul] at this
        constructor
        · rintro (h' | ⟨h', _⟩) <;> omega
        · intro _; omega

theorem encode_inj {w a b : Nat} (ha : a < 256 ^ w) (hb : b < 256 ^ w)
    (h : encode w a = encode w b) : a = b := by
  rw [← decode_encode ha, h, decode_encode hb]

end BigEndian
