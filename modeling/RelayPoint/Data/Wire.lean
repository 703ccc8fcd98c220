import Mathlib.Data.List.Basic
import Mathlib.Tactic.NormNum

/-!
# Wire — the protobuf wire format of a message with scalar fields

A message is the concatenation of its fields in field-number order; a scalar field that has its
default value is left out.  Every piece is self-delimiting, so two messages of one schema with the
same bytes have the same fields:

Field numbers below 16, the only ones here, have a one-byte tag.
-/

namespace RelayPoint.Wire

abbrev Bytes := List UInt8

/-! ## Varints -/

/-- At most `k` groups of seven bits, least significant first; every byte but the last one has its
high bit set. -/
def groups : Nat → Nat → Bytes
  | 0, _ => []
  | k + 1, n => if n < 128 then [UInt8.ofNat n] else UInt8.ofNat (n % 128 + 128) :: groups k (n / 128)

def varint (n : Nat) : Bytes :=
  groups (n + 1) n

def twosComplement (n : Int) : Nat :=
  (n % 2 ^ 64).toNat

variable {j n k t : Nat} {r s b v : Bytes}

theorem groups_append_inj : ∀ {k m n : Nat} {r s : Bytes}, m < 128 ^ j → n < 128 ^ k →
    0 < j → 0 < k → groups j m ++ r = groups k n ++ s → m = n ∧ r = s := by
  induction j with
  | zero =>
    intro k m n r s _ _ hj
    exact absurd hj (Nat.lt_irrefl 0)
  | succ j ih =>
    intro k m n r s hm hn _ hk h
    obtain ⟨k, rfl⟩ := Nat.exists_eq_succ_of_ne_zero hk.ne'
    have hdiv : ∀ {i x : Nat}, x < 128 ^ (i + 1) → x / 128 < 128 ^ i := by
      intro i x hx
      exact Nat.div_lt_of_lt_mul (by simpa [Nat.pow_succ, Nat.mul_comm] using hx)
    have hpos : ∀ {i x : Nat}, x < 128 ^ (i + 1) → ¬ x < 128 → 0 < i := by
      intro i x hx hge
      cases i with
      | zero => exact absurd (by simpa using hx) hge
      | succ i => exact Nat.succ_pos i
    have hbyte : ∀ {x y : Nat}, x < 256 → y < 256 → UInt8.ofNat x = UInt8.ofNat y → x = y := by
      intro x y hx hy hxy
      have hnat := congrArg UInt8.toNat hxy
      rwa [UInt8.toNat_ofNat_of_lt' hx, UInt8.toNat_ofNat_of_lt' hy] at hnat
    by_cases hm' : m < 128 <;> by_cases hn' : n < 128 <;>
      simp only [groups, hm', hn', if_true, if_false, List.cons_append, List.cons.injEq] at h
    · exact ⟨hbyte (by omega) (by omega) h.1, h.2⟩
    · have := hbyte (by omega) (by omega) h.1
      omega
    · have := hbyte (by omega) (by omega) h.1
      omega
    · have hmod := hbyte (by omega) (by omega) h.1
      rcases ih (hdiv hm) (hdiv hn) (hpos hm hm') (hpos hn hn') h.2 with ⟨hquot, hrest⟩
      exact ⟨by omega, hrest⟩

theorem varint_append_inj {m : Nat} (h : varint m ++ r = varint n ++ s) : m = n ∧ r = s := by
  have hlt : ∀ x : Nat, x < 128 ^ (x + 1) := by
    intro x
    exact (Nat.lt_succ_self x).trans (Nat.lt_pow_self (by omega))
  exact groups_append_inj (hlt m) (hlt n) (Nat.succ_pos m) (Nat.succ_pos n) h

theorem twosComplement_inj {m n : Int} (hm : -2 ^ 63 ≤ m ∧ m < 2 ^ 63) (hn : -2 ^ 63 ≤ n ∧ n < 2 ^ 63)
    (h : twosComplement m = twosComplement n) : m = n := by
  unfold twosComplement at h
  omega

/-! ## Fields -/

def tag (k wireType : Nat) : UInt8 :=
  UInt8.ofNat (8 * k + wireType)

def uintField (k n : Nat) : Bytes :=
  if n = 0 then [] else tag k 0 :: varint n

def messageField (k : Nat) (b : Bytes) : Bytes :=
  tag k 2 :: (varint b.length ++ b)

def bytesField (k : Nat) (b : Bytes) : Bytes :=
  if b = [] then [] else messageField k b

def Begins (k : Nat) (bytes : Bytes) : Prop :=
  ∀ x ∈ bytes.head?, 8 * k + 8 ≤ x.toNat

theorem begins_nil (k : Nat) : Begins k [] := by
  simp [Begins]

theorem tag_toNat (hk : k < 16) (ht : t < 8) : (tag k t).toNat = 8 * k + t := by
  exact UInt8.toNat_ofNat_of_lt' (by change 8 * k + t < 256; omega)

theorem begins_tag (hj : j < 16) (ht : t < 8) (hk : k < j) : Begins k (tag j t :: b) := by
  intro x hx
  have hx : x = tag j t := by simpa using hx.symm
  rw [hx, tag_toNat hj ht]
  omega

theorem Begins.mono (h : Begins j b) (hk : k ≤ j) : Begins k b := by
  intro x hx
  have := h x hx
  omega

theorem begins_uintField (hj : j < 16) (hk : k < j) (hb : Begins j b) :
    Begins k (uintField j n ++ b) := by
  by_cases hn : n = 0
  · simpa [uintField, hn] using hb.mono hk.le
  · simpa [uintField, hn] using begins_tag hj (by omega) hk

theorem begins_messageField (hj : j < 16) (hk : k < j) : Begins k (messageField j v ++ b) :=
  begins_tag hj (by omega) hk

theorem begins_bytesField (hj : j < 16) (hk : k < j) (hb : Begins j b) :
    Begins k (bytesField j v ++ b) := by
  by_cases hv : v = []
  · simpa [bytesField, hv] using hb.mono hk.le
  · simpa [bytesField, hv] using begins_messageField hj hk

theorem Begins.ne_tag {a : Bytes} (hk : k < 16) (ht : t < 8) (hb : Begins k b) :
    b ≠ tag k t :: a := by
  intro h
  have := hb (tag k t) (by simp [h])
  rw [tag_toNat hk ht] at this
  omega

theorem uintField_append_inj {m : Nat} (hk : k < 16) (hr : Begins k r) (hs : Begins k s)
    (h : uintField k m ++ r = uintField k n ++ s) : m = n ∧ r = s := by
  by_cases hm0 : m = 0 <;> by_cases hn0 : n = 0 <;>
    simp only [uintField, hm0, hn0] at h
  · exact ⟨by simp [hm0, hn0], h⟩
  · exact absurd h (hr.ne_tag hk (by omega))
  · exact absurd h.symm (hs.ne_tag hk (by omega))
  · exact varint_append_inj (List.cons.inj h).2

theorem messageField_append_inj {u : Bytes} (h : messageField k u ++ r = messageField k v ++ s) :
    u = v ∧ r = s := by
  have htail : varint u.length ++ (u ++ r) = varint v.length ++ (v ++ s) := by
    simpa [messageField] using h
  rcases varint_append_inj htail with ⟨hlen, hrest⟩
  exact List.append_inj hrest hlen

theorem bytesField_append_inj {u : Bytes} (hk : k < 16) (hr : Begins k r) (hs : Begins k s)
    (h : bytesField k u ++ r = bytesField k v ++ s) : u = v ∧ r = s := by
  by_cases hu0 : u = [] <;> by_cases hv0 : v = [] <;>
    simp only [bytesField, hu0, hv0] at h
  · exact ⟨by simp [hu0, hv0], h⟩
  · exact absurd h (hr.ne_tag hk (by omega))
  · exact absurd h.symm (hs.ne_tag hk (by omega))
  · exact messageField_append_inj h

end RelayPoint.Wire
