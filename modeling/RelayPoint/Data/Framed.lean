import RelayPoint.Data.Sha256
import RelayPoint.Data.Wire

/-!
# Framed — concatenations of parts that carry their length

A part is written as its length, in eight bytes, followed by its bytes.  The length of the first part
says where it ends, whatever its bytes look like, so a concatenation of parts is read back in only one
way:

* `bigEndian_inj` — eight bytes determine a number below `2 ^ 64`;
* `part_append_inj` — the first part and the rest are determined;
* `framed_inj` — so are all parts, also their number.
-/

namespace RelayPoint.Framed

open Sha256 (bigEndian)
open Wire (Bytes)

/-! ## Numbers -/

theorem bigEndian_succ (n x : Nat) :
    bigEndian (n + 1) x = UInt8.ofNat (x / 256 ^ n) :: bigEndian n x := by
  simp [bigEndian, List.range_succ_eq_map, Nat.sub_sub, Nat.add_comm]

theorem mod_eq_of_bigEndian_eq {n x y : Nat} (h : bigEndian n x = bigEndian n y) :
    x % 256 ^ n = y % 256 ^ n := by
  induction n with
  | zero => simp [Nat.mod_one]
  | succ n ih =>
    rw [bigEndian_succ, bigEndian_succ] at h
    have hrest := ih (List.cons.inj h).2
    have hdigit : x / 256 ^ n % 256 = y / 256 ^ n % 256 := by
      have hbyte := congrArg UInt8.toNat (List.cons.inj h).1
      simpa using hbyte
    calc
      x % 256 ^ (n + 1)
          = x % 256 ^ n + 256 ^ n * (x / 256 ^ n % 256) := Nat.mod_pow_succ
      _ = y % 256 ^ n + 256 ^ n * (y / 256 ^ n % 256) := by rw [hrest, hdigit]
      _ = y % 256 ^ (n + 1) := Nat.mod_pow_succ.symm

theorem bigEndian_inj {x y : Nat} (hx : x < 2 ^ 64) (hy : y < 2 ^ 64)
    (h : bigEndian 8 x = bigEndian 8 y) : x = y := by
  have hmod := mod_eq_of_bigEndian_eq h
  rwa [Nat.mod_eq_of_lt (by simpa using hx), Nat.mod_eq_of_lt (by simpa using hy)] at hmod

/-! ## Parts -/

def part (b : Bytes) : Bytes :=
  bigEndian 8 b.length ++ b

def framed (parts : List Bytes) : Bytes :=
  parts.flatMap part

@[simp] theorem framed_nil : framed [] = [] :=
  rfl

@[simp] theorem framed_cons (b : Bytes) (parts : List Bytes) :
    framed (b :: parts) = part b ++ framed parts :=
  rfl

abbrev Fits (b : Bytes) : Prop :=
  b.length < 2 ^ 64

variable {b c r s : Bytes}

theorem part_append_inj (hb : Fits b) (hc : Fits c) (h : part b ++ r = part c ++ s) :
    b = c ∧ r = s := by
  rw [part, part, List.append_assoc, List.append_assoc] at h
  -- the two lengths take the same room, so they are the same bytes
  rcases List.append_inj h (by simp [Sha256.length_bigEndian]) with ⟨hsize, hrest⟩
  exact List.append_inj hrest (bigEndian_inj hb hc hsize)

theorem part_ne_nil (b : Bytes) : part b ≠ [] := by
  intro h
  have hlen := congrArg List.length h
  simp [part, Sha256.length_bigEndian] at hlen

theorem framed_inj {xs ys : List Bytes} (hx : ∀ b ∈ xs, Fits b) (hy : ∀ b ∈ ys, Fits b)
    (h : framed xs = framed ys) : xs = ys := by
  induction xs generalizing ys with
  | nil =>
    cases ys with
    | nil => rfl
    | cons c ys => exact absurd (List.append_eq_nil_iff.1 h.symm).1 (part_ne_nil c)
  | cons b xs ih =>
    cases ys with
    | nil => exact absurd (List.append_eq_nil_iff.1 h).1 (part_ne_nil b)
    | cons c ys =>
      rcases part_append_inj (hx b (by simp)) (hy c (by simp)) h with ⟨rfl, hrest⟩
      have hparts := ih (fun b hb => hx b (by simp [hb])) (fun b hb => hy b (by simp [hb])) hrest
      rw [hparts]

end RelayPoint.Framed
