import Mathlib.Data.List.Basic

/-!
# UuidText — UUIDs as text

A database reads a UUID in several spellings (upper case, braces, hyphens after any even number of
bytes or none at all) and writes it in one.  `uuidIn` is both steps: it gives the canonical text of a
spelling, or nothing if the text is not a UUID.
-/

namespace RelayPoint.UuidText

/-! ## Digits -/

def isLowerHex (c : Char) : Bool :=
  ('0' ≤ c && c ≤ '9') || ('a' ≤ c && c ≤ 'f')

def lowerHex (c : Char) : Option Char :=
  if isLowerHex c then some c
  else if 'A' ≤ c && c ≤ 'F' then some (Char.ofNat (c.toNat + 32))
  else none

def skipHyphen (k : Nat) : List Char → List Char
  | '-' :: cs => if k % 2 = 0 ∧ k ≠ 0 then cs else '-' :: cs
  | cs => cs

def digits : Nat → List Char → Option (List Char × List Char)
  | 0, cs => some ([], cs)
  | k + 1, a :: b :: cs =>
    match lowerHex a, lowerHex b, digits k (skipHyphen k cs) with
    | some x, some y, some (ds, rest) => some (x :: y :: ds, rest)
    | _, _, _ => none
  | _ + 1, _ => none

def render (ds : List Char) : List Char :=
  ds.take 8 ++ '-' :: ((ds.drop 8).take 4 ++ '-' :: ((ds.drop 12).take 4 ++
    '-' :: ((ds.drop 16).take 4 ++ '-' :: ds.drop 20)))

def uuidIn (s : String) : Option String :=
  match s.toList with
  | '{' :: cs =>
    match digits 16 cs with
    | some (ds, ['}']) => some (String.ofList (render ds))
    | _ => none
  | cs =>
    match digits 16 cs with
    | some (ds, []) => some (String.ofList (render ds))
    | _ => none

/-! ## Canonical text -/

theorem lowerHex_of_isLowerHex {c : Char} (h : isLowerHex c = true) : lowerHex c = some c := by
  simp [lowerHex, h]

theorem isLowerHex_of_lowerHex {c d : Char} (h : lowerHex c = some d) : isLowerHex d = true := by
  unfold lowerHex at h
  split at h
  · next hc =>
      cases h
      exact hc
  · split at h
    · next hc =>
        cases h
        have hA : ('A' : Char).toNat = 65 := rfl
        have hF : ('F' : Char).toNat = 70 := rfl
        simp only [Bool.and_eq_true, decide_eq_true_eq, Char.le_def, UInt32.le_iff_toNat_le,
          Char.toNat_val] at hc
        have hcase : c.toNat = 65 ∨ c.toNat = 66 ∨ c.toNat = 67 ∨ c.toNat = 68 ∨ c.toNat = 69 ∨
            c.toNat = 70 := by omega
        rcases hcase with h | h | h | h | h | h <;> rw [h] <;> decide
    · cases h

theorem ne_hyphen {c : Char} (h : isLowerHex c = true) : c ≠ '-' := by
  rintro rfl
  exact absurd h (by decide)

theorem digits_run {n : Nat} : ∀ {k : Nat} {l r : List Char}, l.length = 2 * (n + 1) →
    (∀ c ∈ l, isLowerHex c = true) →
    digits (k + (n + 1)) (l ++ r) =
      (digits k (skipHyphen k r)).map fun p => (l ++ p.1, p.2) := by
  induction n with
  | zero =>
    intro k l r hlen hl
    match l, hlen with
    | [a, b], _ =>
      have ha := lowerHex_of_isLowerHex (hl a (by simp))
      have hb := lowerHex_of_isLowerHex (hl b (by simp))
      cases hd : digits k (skipHyphen k r) <;> simp [digits, ha, hb, hd]
  | succ n ih =>
    intro k l r hlen hl
    match l, hlen with
    | a :: b :: c :: l, hlen =>
      have ha := lowerHex_of_isLowerHex (hl a (by simp))
      have hb := lowerHex_of_isLowerHex (hl b (by simp))
      have hskip : skipHyphen (k + (n + 1)) (c :: l ++ r) = c :: l ++ r := by
        have hc := ne_hyphen (hl c (by simp))
        unfold skipHyphen
        split
        · next heq => exact absurd (List.cons.inj heq).1 hc
        · rfl
      have htail := ih (k := k) (l := c :: l) (r := r) (by simp at hlen ⊢; omega)
        (fun d hd => hl d (by tauto))
      have hk : k + (n + 1 + 1) = (k + (n + 1)) + 1 := by omega
      rw [hk]
      simp only [List.cons_append] at htail hskip ⊢
      simp only [digits, ha, hb, hskip, htail]
      cases digits k (skipHyphen k r) <;> simp

theorem skipHyphen_hyphen {k : Nat} {cs : List Char} (h : k % 2 = 0 ∧ k ≠ 0) :
    skipHyphen k ('-' :: cs) = cs := by
  simp [skipHyphen, h]

theorem digits_groups {a b c d e : List Char} (ha : a.length = 8) (hb : b.length = 4)
    (hc : c.length = 4) (hd : d.length = 4) (he : e.length = 12)
    (hhex : ∀ x ∈ a ++ (b ++ (c ++ (d ++ e))), isLowerHex x = true) :
    digits 16 (a ++ '-' :: (b ++ '-' :: (c ++ '-' :: (d ++ '-' :: e)))) =
      some (a ++ (b ++ (c ++ (d ++ e))), []) := by
  have h1 := digits_run (n := 3) (k := 12) (r := '-' :: (b ++ '-' :: (c ++ '-' ::
    (d ++ '-' :: e)))) ha fun x hx => hhex x (by simp [hx])
  have h2 := digits_run (n := 1) (k := 10) (r := '-' :: (c ++ '-' :: (d ++ '-' :: e)))
    hb fun x hx => hhex x (by simp [hx])
  have h3 := digits_run (n := 1) (k := 8) (r := '-' :: (d ++ '-' :: e)) hc
    fun x hx => hhex x (by simp [hx])
  have h4 := digits_run (n := 1) (k := 6) (r := '-' :: e) hd
    fun x hx => hhex x (by simp [hx])
  have h5 := digits_run (n := 5) (k := 0) (r := []) he fun x hx => hhex x (by simp [hx])
  rw [skipHyphen_hyphen (by omega)] at h1 h2 h3 h4
  rw [List.append_nil] at h5
  have h0 : digits 0 (skipHyphen 0 []) = some ([], []) := rfl
  rw [h0] at h5
  rw [h1, h2, h3, h4, h5]
  simp

theorem digits_ok {k : Nat} : ∀ {cs ds rest : List Char}, digits k cs = some (ds, rest) →
    ds.length = 2 * k ∧ ∀ d ∈ ds, isLowerHex d = true := by
  induction k with
  | zero =>
    intro cs ds rest h
    cases h
    simp
  | succ k ih =>
    intro cs ds rest h
    match cs, h with
    | a :: b :: cs, h =>
      unfold digits at h
      split at h
      · next x y ds' rest' hx hy hrest =>
          cases h
          rcases ih hrest with ⟨hlen, hhex⟩
          refine ⟨by simp [hlen]; omega, ?_⟩
          intro d hd
          rcases List.mem_cons.1 hd with rfl | hd
          · exact isLowerHex_of_lowerHex hx
          · rcases List.mem_cons.1 hd with rfl | hd
            · exact isLowerHex_of_lowerHex hy
            · exact hhex d hd
      · cases h

theorem render_groups {a b c d e : List Char} (ha : a.length = 8) (hb : b.length = 4)
    (hc : c.length = 4) (hd : d.length = 4) :
    render (a ++ (b ++ (c ++ (d ++ e)))) =
      a ++ '-' :: (b ++ '-' :: (c ++ '-' :: (d ++ '-' :: e))) := by
  have h12 : 12 = a.length + b.length := by omega
  have h16 : 16 = a.length + (b.length + c.length) := by omega
  have h20 : 20 = a.length + (b.length + (c.length + d.length)) := by omega
  unfold render
  rw [h12, h16, h20, ← ha, List.take_left]
  simp only [List.drop_length_add_append, List.drop_left]
  rw [List.take_left' hb, List.take_left' hc, List.take_left' hd]

theorem uuidIn_groups {a b c d e : List Char} (ha : a.length = 8) (hb : b.length = 4)
    (hc : c.length = 4) (hd : d.length = 4) (he : e.length = 12)
    (hhex : ∀ x ∈ a ++ (b ++ (c ++ (d ++ e))), isLowerHex x = true) {s : String}
    (hs : s.toList = a ++ '-' :: (b ++ '-' :: (c ++ '-' :: (d ++ '-' :: e)))) :
    uuidIn s = some s := by
  have hfirst : ∀ cs, s.toList ≠ '{' :: cs := by
    intro cs hcs
    match a, ha with
    | x :: a, _ =>
      have hx : x = '{' := (List.cons.inj (hs.symm.trans hcs)).1
      exact absurd (hhex x (by simp)) (by rw [hx]; decide)
  have hout : String.ofList (render (a ++ (b ++ (c ++ (d ++ e))))) = s := by
    rw [render_groups ha hb hc hd, ← hs, String.ofList_toList]
  unfold uuidIn
  split
  · next cs heq => exact absurd heq (hfirst cs)
  · rw [hs, digits_groups ha hb hc hd he hhex]
    simp only [hout]

theorem uuidIn_render {ds : List Char} (hlen : ds.length = 32)
    (hhex : ∀ d ∈ ds, isLowerHex d = true) :
    uuidIn (String.ofList (render ds)) = some (String.ofList (render ds)) := by
  have hsum : ds.take 8 ++ ((ds.drop 8).take 4 ++ ((ds.drop 12).take 4 ++ ((ds.drop 16).take 4 ++
      ds.drop 20))) = ds := by
    have h₁ : (ds.drop 8).take 4 ++ ds.drop 12 = ds.drop 8 := by
      simpa using List.take_append_drop 4 (ds.drop 8)
    have h₂ : (ds.drop 12).take 4 ++ ds.drop 16 = ds.drop 12 := by
      simpa using List.take_append_drop 4 (ds.drop 12)
    have h₃ : (ds.drop 16).take 4 ++ ds.drop 20 = ds.drop 16 := by
      simpa using List.take_append_drop 4 (ds.drop 16)
    rw [h₃, h₂, h₁, List.take_append_drop]
  refine uuidIn_groups ?_ ?_ ?_ ?_ ?_ (by rwa [hsum])
    String.toList_ofList
  all_goals simp [hlen]

theorem uuidIn_idem {s t : String} (h : uuidIn s = some t) : uuidIn t = some t := by
  unfold uuidIn at h
  split at h
  · split at h
    · next ds hds =>
        cases h
        rcases digits_ok hds with ⟨hlen, hhex⟩
        exact uuidIn_render hlen hhex
    · cases h
  · split at h
    · next ds hds =>
        cases h
        rcases digits_ok hds with ⟨hlen, hhex⟩
        exact uuidIn_render hlen hhex
    · cases h

end RelayPoint.UuidText
